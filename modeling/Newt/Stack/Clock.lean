import Newt.Foundation.Timers
import Newt.Foundation.Traced
import Newt.Olm.Userspace
import Newt.Site.Session

/-! # The clock of the stack

Both roles poll the same stack, each with a clock of its own. A client shows the
stack the time since the backend was created, in whole milliseconds. A site shows
it the same instant in every poll.
-/

namespace Newt.Stack

open Foundation Proxy

/-- An instant of the stack, in microseconds. -/
structure SmolInstant where
  micros : Int64
  deriving DecidableEq, Repr

namespace SmolInstant

def zero : SmolInstant := ⟨0⟩

def fromMillis (millis : Int64) : SmolInstant := ⟨millis * 1000⟩

def nanos (i : SmolInstant) : Int := i.micros.toInt * 1000

end SmolInstant

/-- A millisecond, in nanoseconds. -/
def millisecond : Int := 1000000

/-- One turn of a loop with its poll at `time`, in nanoseconds. Before it, other
parts of the program work on the same state. -/
structure Turn (ω σ : Type) where
  before : List ω
  time : Nat
  /-- What the stack does to the sockets when it is polled at an instant. -/
  poll : SmolInstant → Handle → σ → σ
  order : Plane.KeyOrder

variable {σ : Type} (alloc : Allocator) (api : TcpApi σ)

/-- A turn of `step_io` with the reading of its poll. -/
def siteTurn (d : Site.DataPlane σ) (turn : Turn (Site.DataPlane.Op σ) σ) :
    Traced Reading Fault (Site.DataPlane σ) := do
  let d ← .lift (d.run alloc api turn.before)
  .tell ⟨turn.time, SmolInstant.zero.nanos⟩
  .lift (Site.Session.stepIo alloc api d (turn.poll .zero) turn.order)

/-- The loop of a site. -/
def siteLoop (d : Site.DataPlane σ) (turns : List (Turn (Site.DataPlane.Op σ) σ)) :
    Traced Reading Fault (Site.DataPlane σ) :=
  turns.foldlM (siteTurn alloc api) d

/-- `UserspaceBackend::now` for a backend that was created at `start`. -/
def backendNow (start time : Nat) : SmolInstant :=
  .fromMillis (Int64.ofNat ((time - start) / 1000000))

/-- A turn of `drive` with the reading of its poll. -/
def clientTurn (start : Nat) (b : Olm.UserspaceBackend σ)
    (turn : Turn (Olm.UserspaceBackend.Op σ) σ × Option (Nat × Olm.Connect σ)) :
    Traced Reading Fault (Olm.UserspaceBackend σ) := do
  let b ← .lift (turn.1.before.foldlM (Olm.UserspaceBackend.apply alloc api) b)
  let now := backendNow start turn.1.time
  .tell ⟨turn.1.time, now.nanos⟩
  .lift (b.drive alloc api turn.2 (turn.1.poll now) turn.1.order)

/-- The loop of a client whose backend was created at `start`. -/
def clientLoop (start : Nat) (b : Olm.UserspaceBackend σ)
    (turns : List (Turn (Olm.UserspaceBackend.Op σ) σ × Option (Nat × Olm.Connect σ))) :
    Traced Reading Fault (Olm.UserspaceBackend σ) :=
  turns.foldlM (clientTurn alloc api start) b

/-- The clock follows the time up to a millisecond, and so do the timers. -/
def FollowsTime (readings : List Reading) : Prop :=
  readings.Pairwise (Reading.Tracks millisecond) ∧ Timers.Punctual millisecond readings

theorem followsTime_iff (readings : List Reading) :
    FollowsTime readings ↔ readings.Pairwise (Reading.Tracks millisecond) :=
  ⟨fun h => h.1, fun h => ⟨h, Timers.punctual_of_tracks h⟩⟩

/-! ## The clock of a site -/

/-- The polls of a site that were made. -/
theorem siteLoop_notes (d : Site.DataPlane σ) (turns : List (Turn (Site.DataPlane.Op σ) σ)) :
    (siteLoop alloc api d turns).notes <+:
      turns.map fun turn => ⟨turn.time, SmolInstant.zero.nanos⟩ := by
  refine (Traced.records_foldlM (fun d turn => ?_) turns d).1
  refine Traced.records_lift_bind fun d _ => ?_
  exact Traced.records_tell_bind Traced.records_lift

theorem siteLoop_stopped {d : Site.DataPlane σ} {turns : List (Turn (Site.DataPlane.Op σ) σ)}
    {r : Reading} (hr : r ∈ (siteLoop alloc api d turns).notes) :
    r.shown = SmolInstant.zero.nanos := by
  obtain ⟨turn, _, rfl⟩ := List.mem_map.mp ((siteLoop_notes alloc api d turns).subset hr)
  rfl

/-- The clock of a site follows the time exactly as long as all its polls are within
one millisecond. -/
theorem site_follows_iff (d : Site.DataPlane σ) (turns : List (Turn (Site.DataPlane.Op σ) σ)) :
    FollowsTime (siteLoop alloc api d turns).notes ↔
      (siteLoop alloc api d turns).notes.Pairwise
        fun a b => b.time ≤ a.time + millisecond := by
  rw [followsTime_iff]
  refine List.Pairwise.iff_of_mem fun ha hb => ?_
  refine Reading.tracks_stopped_iff ?_
  rw [siteLoop_stopped alloc api ha, siteLoop_stopped alloc api hb]

/-- No timer of a site ever fires. -/
theorem site_fires_nothing {ι : Type} (d : Site.DataPlane σ)
    (turns : List (Turn (Site.DataPlane.Op σ) σ)) {polls : List (Reading × List (ι × Int))}
    (hpolls : polls.map Prod.fst = (siteLoop alloc api d turns).notes)
    (hpositive : ∀ p ∈ polls, ∀ a ∈ p.2, 0 < a.2) : ∀ due ∈ Timers.fired [] polls, due = [] := by
  have hstopped : ∀ p ∈ polls, p.1.shown = SmolInstant.zero.nanos := by
    intro p hp
    have hread : p.1 ∈ (siteLoop alloc api d turns).notes := hpolls ▸ List.mem_map_of_mem hp
    exact siteLoop_stopped alloc api hread
  refine Timers.fired_stopped (fun t ht => ?_) hstopped hpositive
  cases ht

/-! ## The clock of a client -/

/-- The instant is exact to the millisecond as long as it fits. -/
theorem backendNow_nanos {start time : Nat} (hstart : start ≤ time)
    (hfits : (time - start) / 1000000 * 1000 < 2 ^ 63) :
    (backendNow start time).nanos = ((time : Int) - start) / millisecond * millisecond := by
  have hmicros : (Int64.ofNat ((time - start) / 1000000) * 1000).toInt =
      ((time - start) / 1000000 : Nat) * 1000 := by
    have hthousand : (1000 : Int64).toInt = 1000 := by decide
    rw [Int64.toInt_mul, Int64.toInt_ofNat_of_lt (by omega), hthousand]
    exact Int.bmod_eq_of_le_mul_two (by omega) (by omega)
  have helapsed : ((time - start : Nat) : Int) = time - start := by omega
  simp only [SmolInstant.nanos, backendNow, SmolInstant.fromMillis, hmicros, millisecond]
  rw [← helapsed]
  omega

theorem clientLoop_notes (start : Nat) (b : Olm.UserspaceBackend σ)
    (turns : List (Turn (Olm.UserspaceBackend.Op σ) σ × Option (Nat × Olm.Connect σ))) :
    (clientLoop alloc api start b turns).notes <+:
      turns.map fun turn => ⟨turn.1.time, (backendNow start turn.1.time).nanos⟩ := by
  refine (Traced.records_foldlM (fun b turn => ?_) turns b).1
  refine Traced.records_lift_bind fun b _ => ?_
  exact Traced.records_tell_bind Traced.records_lift

/-- The clock of a client follows the time until the instants overflow. -/
theorem client_follows {start : Nat} (b : Olm.UserspaceBackend σ)
    {turns : List (Turn (Olm.UserspaceBackend.Op σ) σ × Option (Nat × Olm.Connect σ))}
    (hstart : ∀ turn ∈ turns, start ≤ turn.1.time)
    (hsorted : turns.Pairwise fun s t => s.1.time ≤ t.1.time)
    (hfits : ∀ turn ∈ turns, (turn.1.time - start) / 1000000 * 1000 < 2 ^ 63) :
    FollowsTime (clientLoop alloc api start b turns).notes := by
  rw [followsTime_iff]
  refine List.Pairwise.sublist (clientLoop_notes alloc api start b turns).sublist ?_
  refine List.pairwise_map.mpr (hsorted.imp_of_mem fun ha hb hle => ?_)
  exact Reading.tracks_units (by decide) (Int.ofNat_le.mpr hle)
    (backendNow_nanos (hstart _ ha) (hfits _ ha)) (backendNow_nanos (hstart _ hb) (hfits _ hb))

/-- In every run, the clock of a site follows the time exactly if its polls are within
one millisecond, and that of a client follows it unless the instants overflow. -/
theorem clocks_follow_time :
    (∀ (d : Site.DataPlane σ) (turns : List (Turn (Site.DataPlane.Op σ) σ)),
      FollowsTime (siteLoop alloc api d turns).notes ↔
        (siteLoop alloc api d turns).notes.Pairwise fun a b => b.time ≤ a.time + millisecond) ∧
    ∀ (start : Nat) (b : Olm.UserspaceBackend σ)
      (turns : List (Turn (Olm.UserspaceBackend.Op σ) σ × Option (Nat × Olm.Connect σ))),
      (∀ turn ∈ turns, start ≤ turn.1.time) →
      (turns.Pairwise fun s t => s.1.time ≤ t.1.time) →
      (∀ turn ∈ turns, (turn.1.time - start) / 1000000 * 1000 < 2 ^ 63) →
      FollowsTime (clientLoop alloc api start b turns).notes :=
  ⟨site_follows_iff alloc api, fun _ b _ => client_follows alloc api b⟩

/-- A turn in which only the poll happens. -/
def idleTurn {ω : Type} (time : Nat) : Turn ω BufferedSocket :=
  ⟨[], time, fun _ _ s => s, .inserted⟩

theorem clocks_follow_time_idle :
    FollowsTime (siteLoop .firstFree bufferedApi .webSite [idleTurn 0, idleTurn 1000000]).notes ∧
      FollowsTime (clientLoop .firstFree bufferedApi 0 ⟨⟨.empty, .empty⟩, [], 20000⟩
        [(idleTurn 5000000, none), (idleTurn 2000000000, none)]).notes := by
  refine ⟨((clocks_follow_time _ _).1 _ _).mpr ?_, (clocks_follow_time _ _).2 _ _ _ ?_ ?_ ?_⟩
  · decide
  · decide
  · decide
  · decide

/-- A timer of 300 milliseconds, armed in the first poll, has not fired after two
seconds. -/
theorem site_clock_stands :
    (siteLoop .firstFree bufferedApi .webSite [idleTurn 0, idleTurn 2000000000]).notes =
        [⟨0, 0⟩, ⟨2000000000, 0⟩] ∧
      Timers.fired [] [(⟨0, 0⟩, [("retransmit", 300000000)]), (⟨2000000000, 0⟩, [])] = [[], []] ∧
      ¬ FollowsTime
        (siteLoop .firstFree bufferedApi .webSite [idleTurn 0, idleTurn 2000000000]).notes := by
  refine ⟨rfl, rfl, ?_⟩
  rw [site_follows_iff]
  decide

end Newt.Stack
