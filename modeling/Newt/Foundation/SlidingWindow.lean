import Mathlib.Data.List.Basic

/-! # Numbers that are accepted once

A filter accepts every number at most once, and only while it is less than `size`
behind the largest number accepted. The filter cannot keep all numbers. It keeps one
bit for each of the last `size` numbers below `next`, and forgets the others, which
are too far behind anyway.
-/

namespace Foundation

/-- The number was not seen, and no number seen is `size` or more ahead of it. -/
def Fresh (size : Nat) (seen : List Nat) (c : Nat) : Prop := c ∉ seen ∧ ∀ d ∈ seen, d < c + size

instance (size : Nat) (seen : List Nat) (c : Nat) : Decidable (Fresh size seen c) :=
  inferInstanceAs (Decidable (_ ∧ _))

/-- `next` is the least number above all numbers seen, and the bits of the `size`
numbers below it say which of them were seen. -/
structure Window (size : Nat) (bit : Nat → Bool) (next : Nat) (seen : List Nat) : Prop where
  below : ∀ d ∈ seen, d < next
  least : ∀ m, (∀ d ∈ seen, d < m) → next ≤ m
  bit_iff : ∀ c, c < next → next ≤ c + size → (bit c = true ↔ c ∈ seen)

namespace Window

variable {size next : Nat} {bit bit' : Nat → Bool} {seen : List Nat} {c : Nat}

theorem empty (bit : Nat → Bool) : Window size bit 0 [] where
  below d hd := by cases hd
  least m _ := Nat.zero_le m
  bit_iff c hc := by cases hc

theorem behind_iff (hw : Window size bit next seen) :
    (∀ d ∈ seen, d < c + size) ↔ next ≤ c + size := by
  refine ⟨hw.least _, ?_⟩
  intro hle d hd
  exact Nat.lt_of_lt_of_le (hw.below d hd) hle

theorem fresh_of_le (hw : Window size bit next seen) (hc : next ≤ c) : Fresh size seen c := by
  refine ⟨?_, hw.behind_iff.mpr (Nat.le_add_right_of_le hc)⟩
  intro hmem
  exact absurd (hw.below c hmem) (Nat.not_lt.mpr hc)

/-- Below `next`, the bit of a number that is not too far behind decides. -/
theorem fresh_iff (hw : Window size bit next seen) (hc : c < next) :
    Fresh size seen c ↔ next ≤ c + size ∧ bit c = false := by
  rw [Fresh, hw.behind_iff, and_comm]
  refine and_congr_right fun hle => ?_
  rw [← hw.bit_iff c hc hle, Bool.not_eq_true]

/-- A number in the window is recorded in its bit. -/
theorem insert_old (hw : Window size bit next seen) (hc : c < next)
    (hbit : ∀ d, d < next → next ≤ d + size → (bit' d = true ↔ d = c ∨ bit d = true)) :
    Window size bit' next (c :: seen) where
  below := List.forall_mem_cons.mpr ⟨hc, hw.below⟩
  least m hm := hw.least m (List.forall_mem_cons.mp hm).2
  bit_iff d hd hle := by rw [hbit d hd hle, hw.bit_iff d hd hle, List.mem_cons]

/-- A number at or above `next` moves the window. The numbers that enter it with the
new one were not seen, so their bits have to be false. -/
theorem insert_new (hw : Window size bit next seen) (hc : next ≤ c) (hset : bit' c = true)
    (hkept : ∀ d, d < next → c + 1 ≤ d + size → bit' d = bit d)
    (hskipped : ∀ d, next ≤ d → d < c → c + 1 ≤ d + size → bit' d = false) :
    Window size bit' (c + 1) (c :: seen) where
  below := by
    refine List.forall_mem_cons.mpr ⟨Nat.lt_succ_self c, fun d hd => ?_⟩
    exact Nat.lt_of_lt_of_le (hw.below d hd) (Nat.le_succ_of_le hc)
  least m hm := (List.forall_mem_cons.mp hm).1
  bit_iff d hd hle := by
    rcases Nat.lt_or_eq_of_le (Nat.le_of_lt_succ hd) with hlt | rfl
    · have hne : d ≠ c := Nat.ne_of_lt hlt
      by_cases hold : d < next
      · have hin : next ≤ d + size := Nat.le_trans (Nat.le_succ_of_le hc) hle
        rw [hkept d hold hle, hw.bit_iff d hold hin]
        simp [hne]
      · have hnew : d ∉ seen := fun hmem => hold (hw.below d hmem)
        rw [hskipped d (Nat.not_lt.mp hold) hlt hle]
        simp [hne, hnew]
    · simp [hset]

end Window

/-! ## Sequences of numbers -/

/-- The numbers of a sequence that the filter accepts, in their order. -/
def accepted (size : Nat) : List Nat → List Nat → List Nat
  | _, [] => []
  | seen, c :: rest =>
      if Fresh size seen c then c :: accepted size (c :: seen) rest else accepted size seen rest

/-- While all numbers are near each other, the filter removes the repetitions and nothing
else. -/
theorem accepted_eq_eraseDups {size : Nat} {seen arrivals : List Nat}
    (hseen : ∀ d ∈ seen, ∀ c ∈ arrivals, d < c + size)
    (hnear : ∀ d ∈ arrivals, ∀ c ∈ arrivals, d < c + size) :
    accepted size seen arrivals = (arrivals.filter (· ∉ seen)).eraseDups := by
  induction arrivals generalizing seen with
  | nil => rfl
  | cons c rest ih =>
      have hrest : ∀ d ∈ rest, ∀ c ∈ rest, d < c + size := fun d hd c hc =>
        hnear d (List.mem_cons_of_mem _ hd) c (List.mem_cons_of_mem _ hc)
      by_cases hmem : c ∈ seen
      · have hstale : ¬Fresh size seen c := fun hfresh => hfresh.1 hmem
        rw [accepted, if_neg hstale, List.filter_cons_of_neg (by simpa using hmem)]
        exact ih (fun d hd e he => hseen d hd e (List.mem_cons_of_mem _ he)) hrest
      · have hfresh : Fresh size seen c := ⟨hmem, fun d hd => hseen d hd c List.mem_cons_self⟩
        rw [accepted, if_pos hfresh, List.filter_cons_of_pos (by simpa using hmem),
          List.eraseDups_cons, List.filter_filter, ih ?_ hrest]
        · congr 2
          refine List.filter_congr fun d _ => ?_
          by_cases hd : d = c <;> simp [hd]
        · intro d hd e he
          rcases List.mem_cons.mp hd with rfl | hd
          · exact hnear d List.mem_cons_self e (List.mem_cons_of_mem _ he)
          · exact hseen d hd e (List.mem_cons_of_mem _ he)

theorem eraseDups_map_add (n : Nat) (arrivals : List Nat) :
    (arrivals.map (n + ·)).eraseDups = arrivals.eraseDups.map (n + ·) := by
  -- erasing filters the rest of the list, so the induction is on the length
  induction hlength : arrivals.length using Nat.strongRecOn generalizing arrivals with
  | ind length ih =>
      cases arrivals with
      | nil => rfl
      | cons c rest =>
          have hshorter : (rest.filter fun d => !d == c).length < length := by
            rw [← hlength, List.length_cons, Nat.lt_succ_iff]
            exact List.length_filter_le _ _
          rw [List.map_cons, List.eraseDups_cons, List.eraseDups_cons, List.map_cons,
            List.filter_map, ← ih _ hshorter _ rfl]
          congr 3
          refine List.filter_congr fun d _ => ?_
          by_cases hd : d = c <;> simp [hd]

end Foundation
