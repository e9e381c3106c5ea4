import Mathlib.Algebra.Group.Nat.Defs

/-! # Ones' complement sums

A sum in ones' complement feeds the carry back at the low end. Folding a number
once adds what is above the base to what is below, and folding it until nothing is
left above determines it modulo `b - 1`, with zero kept apart from the other
multiples.
-/

namespace Foundation.OnesComplement

variable {b n : Nat}

/-- Add what is above the base to what is below. -/
def fold (b n : Nat) : Nat := n % b + n / b

/-- What is left of a number that is folded until it is below the base. -/
def residue (b n : Nat) : Nat := if n = 0 then 0 else (n - 1) % (b - 1) + 1

theorem fold_lt (hb : 1 < b) (hn : b ≤ n) : fold b n < n := by
  have hhigh : 0 < n / b := Nat.div_pos hn (Nat.lt_of_succ_lt hb)
  have hdouble : 2 * (n / b) ≤ b * (n / b) := Nat.mul_le_mul_right _ hb
  have hn := Nat.div_add_mod n b
  rw [fold]
  omega

/-- Folding takes away a multiple of `b - 1`. -/
theorem fold_add_mul (hb : 1 < b) : fold b n + (b - 1) * (n / b) = n := by
  have hhigh : n / b + (b - 1) * (n / b) = b * (n / b) := by
    rw [Nat.sub_mul, Nat.one_mul]
    exact Nat.add_sub_cancel' (Nat.le_mul_of_pos_left _ (Nat.lt_of_succ_lt hb))
  have hn := Nat.div_add_mod n b
  rw [fold]
  omega

theorem fold_pos (hn : 0 < n) : 0 < fold b n := by
  apply Nat.pos_of_ne_zero
  intro hzero
  obtain ⟨hlow, hhigh⟩ := Nat.add_eq_zero_iff.mp hzero
  have hn := Nat.div_add_mod n b
  rw [hlow, hhigh] at hn
  omega

theorem residue_fold (hb : 1 < b) : residue b (fold b n) = residue b n := by
  by_cases hn : n = 0
  · simp [hn, fold]
  · have hpos : 0 < fold b n := fold_pos (Nat.pos_of_ne_zero hn)
    have hfold := fold_add_mul hb (n := n)
    have hpred : n - 1 = (b - 1) * (n / b) + (fold b n - 1) := by omega
    rw [residue, residue, if_neg hn, if_neg (Nat.ne_of_gt hpos), hpred, Nat.mul_add_mod]

theorem residue_of_lt (hn : n < b) : residue b n = n := by
  rw [residue]
  split
  · next hzero => exact hzero.symm
  · rw [Nat.mod_eq_of_lt (by omega)]
    omega

theorem residue_lt (hb : 1 < b) : residue b n < b := by
  have hmod := Nat.mod_lt (n - 1) (show 0 < b - 1 by omega)
  rw [residue]
  split <;> omega

/-- A number and the complement of its residue add up to all ones. -/
theorem residue_add_complement (hb : 1 < b) : residue b (n + (b - 1 - residue b n)) = b - 1 := by
  by_cases hn : n = 0
  · simp [hn, residue_of_lt (show 0 < b by omega), residue_of_lt (show b - 1 < b by omega)]
  · have hmod := Nat.mod_lt (n - 1) (show 0 < b - 1 by omega)
    have hdiv := Nat.div_add_mod (n - 1) (b - 1)
    have hsum : n + (b - 1 - residue b n) - 1 = (b - 1) * ((n - 1) / (b - 1)) + (b - 2) := by
      rw [residue, if_neg hn]
      omega
    rw [residue, if_neg (by omega), hsum, Nat.mul_add_mod, Nat.mod_eq_of_lt (by omega)]
    omega

end Foundation.OnesComplement
