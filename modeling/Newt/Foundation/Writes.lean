import Mathlib.Init

/-! # Writes to the fields of a record

A record is filled by a sequence of writes, each to one field. When a later write
to a field replaces the earlier ones and writes to different fields do not
interfere, what was written to a field before its last write is forgotten.
-/

namespace Foundation

variable {σ ω κ : Type}

/-- A write replaces an earlier one to its field, and commutes with all others. -/
structure LastWins (put : σ → ω → σ) (field : ω → κ) : Prop where
  replace : ∀ s a b, field a = field b → put (put s a) b = put s b
  comm : ∀ s a b, field a ≠ field b → put (put s a) b = put (put s b) a

/-- The records differ at most in the field `k`: any write to it makes them equal. -/
def SameBut (put : σ → ω → σ) (field : ω → κ) (k : κ) (s t : σ) : Prop :=
  ∀ a, field a = k → put s a = put t a

/-- The record holds what the write writes. -/
def Holds (put : σ → ω → σ) (s : σ) (a : ω) : Prop := put s a = s

variable {put : σ → ω → σ} {field : ω → κ} {k : κ} {s t u : σ} {a b : ω}

namespace SameBut

theorem refl : SameBut put field k s s := fun _ _ => rfl

theorem symm (h : SameBut put field k s t) : SameBut put field k t s := fun a ha => (h a ha).symm

theorem trans (hfirst : SameBut put field k s t) (hsecond : SameBut put field k t u) :
    SameBut put field k s u := fun a ha => (hfirst a ha).trans (hsecond a ha)

end SameBut

namespace LastWins

variable (hwins : LastWins put field)
include hwins

theorem sameBut_put (ha : field a = k) : SameBut put field k (put s a) s := by
  intro b hb
  exact hwins.replace s a b (ha.trans hb.symm)

/-- Writes to other fields keep the difference where it is. -/
theorem sameBut_put_put (h : SameBut put field k s t) (b : ω) :
    SameBut put field k (put s b) (put t b) := by
  by_cases hb : field b = k
  · rw [h b hb]
    exact SameBut.refl
  · intro a ha
    have hne : field b ≠ field a := fun heq => hb (heq.trans ha)
    rw [hwins.comm s b a hne, h a ha, ← hwins.comm t b a hne]

theorem holds_put : Holds put (put s a) a := hwins.replace s a a rfl

theorem holds_put_of_ne (h : Holds put s a) (hne : field b ≠ field a) :
    Holds put (put s b) a := by
  rw [Holds, hwins.comm s b a hne, h]

end LastWins

end Foundation
