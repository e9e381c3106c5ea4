import Mathlib.Data.List.Basic

/-! # The first of the best

A search through a list that keeps the best candidate so far. A candidate replaces
it only if its key is larger, so of equal ones the first is found.
-/

namespace Foundation.Best

variable {α τ κ : Type} [LE κ] [LT κ] [DecidableLT κ] (P : α → Bool) (tag : α → τ) (key : α → κ)

/-- One step of the search: the candidate replaces what was found if it qualifies
and has a larger key. -/
def step (best : Option (τ × κ)) (x : α) : Option (τ × κ) :=
  if P x ∧ ∀ b ∈ best, b.2 < key x then some (tag x, key x) else best

/-- What the search through `l` has found: nothing if nothing qualifies, and
otherwise the first candidate with the largest key. -/
def Found (l : List α) : Option (τ × κ) → Prop
  | none => ∀ x ∈ l, P x = false
  | some (t, k) => ∃ before x after, l = before ++ x :: after ∧ P x = true ∧ tag x = t ∧
      key x = k ∧ (∀ y ∈ before, P y = true → key y < k) ∧ ∀ y ∈ after, P y = true → key y ≤ k

variable {P tag key} [Std.IsLinearOrder κ] [Std.LawfulOrderLT κ]

omit [DecidableLT κ] in
theorem Found.le {l : List α} {t : τ} {k : κ} (hfound : Found P tag key l (some (t, k)))
    {y : α} (hy : y ∈ l) (hqualifies : P y = true) : key y ≤ k := by
  obtain ⟨before, x, after, rfl, -, -, hx, hbefore, hafter⟩ := hfound
  rcases List.mem_append.mp hy with hy | hy
  · exact Std.le_of_lt (hbefore y hy hqualifies)
  · rcases List.mem_cons.mp hy with rfl | hy
    · exact hx ▸ Std.le_refl _
    · exact hafter y hy hqualifies

theorem Found.step {l : List α} {best : Option (τ × κ)} (hfound : Found P tag key l best)
    (x : α) : Found P tag key (l ++ [x]) (step P tag key best x) := by
  unfold Best.step
  split
  · next htaken =>
      refine ⟨l, x, [], rfl, htaken.1, rfl, rfl, ?_, by simp⟩
      intro y hy hqualifies
      cases best with
      | none => exact absurd (hfound y hy) (by simp [hqualifies])
      | some b => exact Std.lt_of_le_of_lt (hfound.le hy hqualifies) (htaken.2 b rfl)
  · next hkept =>
      cases best with
      | none =>
          have hx : P x = false := by simpa using hkept
          exact List.forall_mem_append.mpr ⟨hfound, by simpa using hx⟩
      | some b =>
          obtain ⟨before, z, after, rfl, hz, htag, hkey, hbefore, hafter⟩ := hfound
          refine ⟨before, z, after ++ [x], by simp, hz, htag, hkey, hbefore, ?_⟩
          refine List.forall_mem_append.mpr ⟨hafter, ?_⟩
          intro y hy hqualifies
          obtain rfl := List.mem_singleton.mp hy
          apply Std.not_lt.mp
          intro hlarger
          exact hkept ⟨hqualifies, by simpa using hlarger⟩

/-- The search finds the first of the best. -/
theorem found_foldl (l : List α) : Found P tag key l (l.foldl (Best.step P tag key) none) := by
  have hsearch (rest seen : List α) (best : Option (τ × κ)) (hseen : Found P tag key seen best) :
      Found P tag key (seen ++ rest) (rest.foldl (Best.step P tag key) best) := by
    induction rest generalizing seen best with
    | nil => simpa using hseen
    | cons x rest ih => simpa using ih (seen ++ [x]) _ (hseen.step x)
  exact hsearch l [] none (by simp [Found])

end Foundation.Best
