import Mathlib.Init

/-! # Timers on a clock that is read at polls

A loop reads a clock at each poll and hands the reading to a set of timers. A
timer is armed at a reading and fires in the first later poll whose reading
reaches its deadline. If the clock loses at most a fixed slack between any two
polls, every timer fires with at most that delay.
-/

namespace Foundation

/-- The time of a poll, and what the clock shows then. -/
structure Reading where
  time : Int
  shown : Int
  deriving DecidableEq, Repr

namespace Reading

/-- Between two polls the clock does not go back, and loses at most the slack. -/
def Tracks (slack : Int) (a b : Reading) : Prop :=
  a.shown ≤ b.shown ∧ ∀ d, a.time + d ≤ b.time → a.shown + d ≤ b.shown + slack

/-- A clock that stands still tracks the time only over short intervals. -/
theorem tracks_stopped_iff {slack : Int} {a b : Reading} (hstopped : a.shown = b.shown) :
    a.Tracks slack b ↔ b.time ≤ a.time + slack := by
  constructor
  · rintro ⟨_, hspaced⟩
    have hd := hspaced (b.time - a.time) (by omega)
    omega
  · intro hnear
    refine ⟨Int.le_of_eq hstopped, ?_⟩
    intro d hd
    omega

/-- A clock that shows the time since its start in whole units loses less than
one unit. -/
theorem tracks_units {unit start : Int} (hunit : 0 < unit) {a b : Reading}
    (hle : a.time ≤ b.time) (ha : a.shown = (a.time - start) / unit * unit)
    (hb : b.shown = (b.time - start) / unit * unit) : a.Tracks unit b := by
  have hadown := Int.ediv_mul_le (a.time - start) (Int.ne_of_gt hunit)
  have hbup := Int.lt_ediv_add_one_mul_self (b.time - start) hunit
  rw [Int.add_mul, Int.one_mul] at hbup
  refine ⟨?_, ?_⟩
  · rw [ha, hb]
    exact Int.mul_le_mul_of_nonneg_right (Int.ediv_le_ediv hunit (by omega)) (Int.le_of_lt hunit)
  · intro d hd
    omega

end Reading

namespace Timers

variable {ι : Type}

/-- One poll of the timers, each with its deadline: those that are due fire, and new
ones are armed with their delays. -/
def poll (queue : List (ι × Int)) (shown : Int) (arms : List (ι × Int)) :
    List ι × List (ι × Int) :=
  ((queue.filter fun t => decide (t.2 ≤ shown)).map Prod.fst,
    queue.filter (fun t => decide (shown < t.2)) ++ arms.map fun a => (a.1, shown + a.2))

/-- What each poll of a run fires. -/
def fired : List (ι × Int) → List (Reading × List (ι × Int)) → List (List ι)
  | _, [] => []
  | queue, (r, arms) :: rest =>
      let (due, queue) := poll queue r.shown arms
      due :: fired queue rest

/-- A timer in the queue fires by the first poll that reaches its deadline. -/
theorem pending_fires {queue : List (ι × Int)} {polls : List (Reading × List (ι × Int))}
    {id : ι} {deadline : Int} (hqueue : (id, deadline) ∈ queue) {k : Nat} {r : Reading}
    {arms : List (ι × Int)} (hk : polls[k]? = some (r, arms)) (hdue : deadline ≤ r.shown) :
    ∃ m ≤ k, ∃ due, (fired queue polls)[m]? = some due ∧ id ∈ due := by
  induction polls generalizing queue k with
  | nil => cases hk
  | cons p rest ih =>
      by_cases hnow : deadline ≤ p.1.shown
      · refine ⟨0, Nat.zero_le k, _, rfl, ?_⟩
        exact List.mem_map_of_mem (List.mem_filter.mpr ⟨hqueue, decide_eq_true hnow⟩)
      · cases k with
        | zero =>
            cases hk
            exact absurd hdue hnow
        | succ k =>
            have hkept : (id, deadline) ∈ (poll queue p.1.shown p.2).2 :=
              List.mem_append_left _
                (List.mem_filter.mpr ⟨hqueue, decide_eq_true (Int.not_le.mp hnow)⟩)
            obtain ⟨m, hm, due, hdue, hid⟩ := ih hkept hk
            exact ⟨m + 1, Nat.succ_le_succ hm, due, hdue, hid⟩

/-- A timer fires after the poll that armed it and by the first one that reaches
its deadline. -/
theorem armed_fires {queue : List (ι × Int)} {polls : List (Reading × List (ι × Int))}
    {j k : Nat} (hjk : j < k) {a b : Reading} {arms later : List (ι × Int)}
    (hj : polls[j]? = some (a, arms)) (hk : polls[k]? = some (b, later)) {id : ι} {delay : Int}
    (harm : (id, delay) ∈ arms) (hdue : a.shown + delay ≤ b.shown) :
    ∃ m, j < m ∧ m ≤ k ∧ ∃ due, (fired queue polls)[m]? = some due ∧ id ∈ due := by
  induction polls generalizing queue j k with
  | nil => cases hj
  | cons p rest ih =>
      obtain ⟨k, rfl⟩ := Nat.exists_eq_succ_of_ne_zero (Nat.ne_zero_of_lt hjk)
      cases j with
      | zero =>
          cases hj
          have hqueue : (id, a.shown + delay) ∈ (poll queue a.shown arms).2 :=
            List.mem_append_right _ (List.mem_map_of_mem (f := fun t => (t.1, a.shown + t.2)) harm)
          have hrest : rest[k]? = some (b, later) := hk
          obtain ⟨m, hm, due, hfired, hid⟩ := pending_fires hqueue hrest hdue
          exact ⟨m + 1, Nat.succ_pos m, Nat.succ_le_succ hm, due, hfired, hid⟩
      | succ j =>
          obtain ⟨m, hjm, hm, due, hfired, hid⟩ := ih (Nat.lt_of_succ_lt_succ hjk) hj hk
          exact ⟨m + 1, Nat.succ_lt_succ hjm, Nat.succ_le_succ hm, due, hfired, hid⟩

/-- Whatever is armed in polls with these readings, a timer has fired by any poll
that is later by its delay and the slack. -/
def Punctual (slack : Int) (readings : List Reading) : Prop :=
  ∀ (ι : Type) (polls : List (Reading × List (ι × Int))), polls.map Prod.fst = readings →
    ∀ (j k : Nat) (a b : Reading) (arms later : List (ι × Int)) (id : ι) (delay : Int), j < k →
      polls[j]? = some (a, arms) → polls[k]? = some (b, later) → (id, delay) ∈ arms → 0 < delay →
      a.time + (delay + slack) ≤ b.time →
      ∃ m, j < m ∧ m ≤ k ∧ ∃ due, (fired [] polls)[m]? = some due ∧ id ∈ due

/-- Timers are punctual on a clock that tracks the time. -/
theorem punctual_of_tracks {slack : Int} {readings : List Reading}
    (htracks : readings.Pairwise (Reading.Tracks slack)) : Punctual slack readings := by
  rintro ι polls rfl j k a b arms later id delay hjk hj hk harm _ hlate
  have hpair : a.Tracks slack b := by
    obtain ⟨hjlen, hja⟩ := List.getElem?_eq_some_iff.mp hj
    obtain ⟨hklen, hkb⟩ := List.getElem?_eq_some_iff.mp hk
    have hjk := List.pairwise_iff_getElem.mp htracks j k (by simpa using hjlen)
      (by simpa using hklen) hjk
    simpa [hja, hkb] using hjk
  refine armed_fires hjk hj hk harm ?_
  have hshown := hpair.2 (delay + slack) hlate
  omega

/-- On a clock that stands still no timer fires. -/
theorem fired_stopped {queue : List (ι × Int)} {polls : List (Reading × List (ι × Int))}
    {now : Int} (hqueue : ∀ t ∈ queue, now < t.2) (hstopped : ∀ p ∈ polls, p.1.shown = now)
    (hpositive : ∀ p ∈ polls, ∀ a ∈ p.2, 0 < a.2) : ∀ due ∈ fired queue polls, due = [] := by
  induction polls generalizing queue with
  | nil =>
      intro due hdue
      cases hdue
  | cons p rest ih =>
      have hp := hstopped p List.mem_cons_self
      have hnone : (poll queue p.1.shown p.2).1 = [] := by
        rw [poll, hp, List.map_eq_nil_iff, List.filter_eq_nil_iff]
        intro t ht
        simpa using hqueue t ht
      have hnext : ∀ t ∈ (poll queue p.1.shown p.2).2, now < t.2 := by
        intro t ht
        rw [poll, hp] at ht
        rcases List.mem_append.mp ht with hold | hnew
        · exact hqueue t (List.mem_filter.mp hold).1
        · obtain ⟨a, ha, rfl⟩ := List.mem_map.mp hnew
          have hpos := hpositive p List.mem_cons_self a ha
          show now < now + a.2
          omega
      intro due hdue
      rcases List.mem_cons.mp hdue with rfl | hlater
      · exact hnone
      · exact ih hnext (fun q hq => hstopped q (List.mem_cons_of_mem p hq))
          (fun q hq => hpositive q (List.mem_cons_of_mem p hq)) due hlater

end Timers

end Foundation
