import Mathlib.Algebra.Group.Nat.Defs
import Mathlib.Data.List.Basic

/-! # Integers as byte strings

Values of byte strings in the two byte orders, the fixed-width encodings that go
with them, and the leading bits of a byte string.
-/

namespace Foundation

/-- The big-endian value of a byte string. -/
def beNat (bytes : List UInt8) : Nat := bytes.foldl (fun value byte => value * 256 + byte.toNat) 0

/-- The little-endian value of a byte string. -/
def leNat : List UInt8 → Nat
  | [] => 0
  | byte :: rest => byte.toNat + 256 * leNat rest

/-- The `width` low bytes of a number, least significant byte first. -/
def leBytes : Nat → Nat → List UInt8
  | 0, _ => []
  | width + 1, value => UInt8.ofNat value :: leBytes width (value / 256)

/-- The `width` low bytes of a number, most significant byte first. -/
def beBytes (width value : Nat) : List UInt8 := (leBytes width value).reverse

@[simp]
theorem leBytes_length (width value : Nat) : (leBytes width value).length = width := by
  induction width generalizing value with
  | zero => rfl
  | succ width ih => rw [leBytes, List.length_cons, ih]

theorem leNat_leBytes (width value : Nat) : leNat (leBytes width value) = value % 256 ^ width := by
  induction width generalizing value with
  | zero => simp [leBytes, leNat, Nat.mod_one]
  | succ width ih =>
      have hbyte : (UInt8.ofNat value).toNat = value % 256 := UInt8.toNat_ofNat'
      rw [leBytes, leNat, ih, hbyte, Nat.pow_succ, Nat.mul_comm (256 ^ width), Nat.mod_mul]

theorem beNat_reverse (bytes : List UInt8) : beNat bytes.reverse = leNat bytes := by
  unfold beNat
  rw [List.foldl_reverse]
  induction bytes with
  | nil => rfl
  | cons byte rest ih =>
      rw [List.foldr_cons, ih, leNat]
      omega

@[simp]
theorem beBytes_length (width value : Nat) : (beBytes width value).length = width := by
  rw [beBytes, List.length_reverse, leBytes_length]

theorem beNat_beBytes (width value : Nat) : beNat (beBytes width value) = value % 256 ^ width := by
  rw [beBytes, beNat_reverse, leNat_leBytes]

theorem leNat_lt (bytes : List UInt8) : leNat bytes < 256 ^ bytes.length := by
  induction bytes with
  | nil => simp [leNat]
  | cons byte rest ih =>
      have hbyte := byte.toNat_lt
      rw [leNat, List.length_cons, Nat.pow_succ]
      omega

theorem beNat_lt (bytes : List UInt8) : beNat bytes < 256 ^ bytes.length := by
  have hreverse := leNat_lt bytes.reverse
  rwa [← beNat_reverse, List.reverse_reverse, List.length_reverse] at hreverse

theorem beNat_eq_leNat (bytes : List UInt8) : beNat bytes = leNat bytes.reverse := by
  rw [← beNat_reverse, List.reverse_reverse]

theorem leNat_append (low high : List UInt8) :
    leNat (low ++ high) = leNat low + 256 ^ low.length * leNat high := by
  induction low with
  | nil => simp [leNat]
  | cons byte low ih =>
      rw [List.cons_append, leNat, ih, leNat, List.length_cons, Nat.pow_succ, Nat.mul_add,
        Nat.mul_comm (256 ^ low.length) 256, Nat.mul_assoc, Nat.add_assoc]

/-- The value of a byte string without its last bytes. -/
theorem beNat_append_div (front back : List UInt8) :
    beNat (front ++ back) / 256 ^ back.length = beNat front := by
  have hback := beNat_lt back
  rw [beNat_eq_leNat] at hback
  rw [beNat_eq_leNat, List.reverse_append, leNat_append, List.length_reverse, Nat.add_comm,
    Nat.mul_add_div (Nat.pow_pos (by decide)), Nat.div_eq_of_lt hback, Nat.add_zero,
    ← beNat_eq_leNat]

theorem leNat_inj {a b : List UInt8} (hlength : a.length = b.length) :
    leNat a = leNat b ↔ a = b := by
  refine ⟨fun hvalue => ?_, congrArg leNat⟩
  induction a generalizing b with
  | nil => exact (List.length_eq_zero_iff.mp hlength.symm).symm
  | cons x a ih =>
      cases b with
      | nil => cases hlength
      | cons y b =>
          have hx := x.toNat_lt
          have hy := y.toNat_lt
          simp only [leNat] at hvalue
          have hlow : x.toNat = y.toNat := by omega
          have hhigh : a = b := ih (Nat.succ.inj hlength) (by omega)
          rw [hhigh, UInt8.toNat_inj.mp hlow]

theorem beNat_inj {a b : List UInt8} (hlength : a.length = b.length) :
    beNat a = beNat b ↔ a = b := by
  rw [beNat_eq_leNat, beNat_eq_leNat, leNat_inj (by simpa using hlength), List.reverse_inj]

/-! ## Leading bits -/

theorem testBit_mask {rem : UInt8} (hpos : 0 < rem) (hlt : rem < 8) (i : Nat) :
    (0xff <<< (8 - rem) : UInt8).toNat.testBit i = decide (8 - rem.toNat ≤ i ∧ i < 8) := by
  have hshift : (8 - rem).toNat = 8 - rem.toNat := UInt8.toNat_sub_of_le _ _ (Nat.le_of_lt hlt)
  have hpos' : 0 < rem.toNat := hpos
  have hsmall : (8 - rem.toNat) % 8 = 8 - rem.toNat := Nat.mod_eq_of_lt (by omega)
  rw [UInt8.toNat_shiftLeft, hshift, hsmall, Nat.testBit_mod_two_pow, Nat.testBit_shiftLeft,
    show (0xff : UInt8).toNat = 2 ^ 8 - 1 from rfl, Nat.testBit_two_pow_sub_one]
  grind

/-- The high bits of a byte, as a mask selects them. -/
theorem and_mask_eq_iff (x y : UInt8) {rem : UInt8} (hpos : 0 < rem) (hlt : rem < 8) :
    x &&& (0xff <<< (8 - rem)) = y &&& (0xff <<< (8 - rem)) ↔
      x.toNat / 2 ^ (8 - rem.toNat) = y.toNat / 2 ^ (8 - rem.toNat) := by
  have hbyte (z : UInt8) {i : Nat} (hi : ¬i < 8) : z.toNat.testBit i = false :=
    Nat.testBit_lt_two_pow (Nat.lt_of_lt_of_le z.toNat_lt
      (Nat.pow_le_pow_right (by decide) (Nat.le_of_not_lt hi)))
  rw [← UInt8.toNat_inj, UInt8.toNat_and, UInt8.toNat_and]
  constructor
  · intro hmasked
    apply Nat.eq_of_testBit_eq
    intro i
    have hbit := congrArg (Nat.testBit · (i + (8 - rem.toNat))) hmasked
    simp only [Nat.testBit_and, testBit_mask hpos hlt] at hbit
    rw [Nat.testBit_div_two_pow, Nat.testBit_div_two_pow]
    by_cases hi : i + (8 - rem.toNat) < 8
    · simpa [hi] using hbit
    · rw [hbyte x hi, hbyte y hi]
  · intro hhigh
    apply Nat.eq_of_testBit_eq
    intro i
    rw [Nat.testBit_and, Nat.testBit_and, testBit_mask hpos hlt]
    by_cases hi : 8 - rem.toNat ≤ i
    · have hbit := congrArg (Nat.testBit · (i - (8 - rem.toNat))) hhigh
      simp only [Nat.testBit_div_two_pow, Nat.sub_add_cancel hi] at hbit
      rw [hbit]
    · simp [hi]

/-- The first `bits` bits of a byte string, as a number. -/
def leadingBits (bits : Nat) (bytes : List UInt8) : Nat :=
  beNat bytes / 2 ^ (8 * bytes.length - bits)

theorem leadingBits_bytes (full : Nat) (bytes : List UInt8) :
    leadingBits (8 * full) bytes = beNat (bytes.take full) := by
  have hsize : 2 ^ (8 * bytes.length - 8 * full) = 256 ^ (bytes.drop full).length := by
    rw [List.length_drop, ← Nat.mul_sub, Nat.pow_mul]
  rw [leadingBits, hsize]
  nth_rw 1 [← List.take_append_drop full bytes]
  exact beNat_append_div _ _

theorem beNat_concat (front : List UInt8) (byte : UInt8) :
    beNat (front ++ [byte]) = beNat front * 256 + byte.toNat := by
  rw [beNat, List.foldl_append]
  rfl

/-- The bits of the whole bytes, and the first ones of the next byte. -/
theorem leadingBits_concat {full rem : Nat} (hrem : rem ≤ 8) {bytes : List UInt8}
    (hfull : full < bytes.length) :
    leadingBits (8 * full + rem) bytes =
      beNat (bytes.take full) * 2 ^ rem + (bytes.getD full 0).toNat / 2 ^ (8 - rem) := by
  have hsize : 2 ^ (8 * bytes.length - (8 * full + rem)) =
      2 ^ (8 * bytes.length - 8 * (full + 1)) * 2 ^ (8 - rem) := by
    rw [← Nat.pow_add]
    congr 1
    omega
  have hbyte : 256 = 2 ^ rem * 2 ^ (8 - rem) := by
    rw [← Nat.pow_add, Nat.add_sub_cancel' hrem]
  have htake : bytes.take (full + 1) = bytes.take full ++ [bytes.getD full 0] := by
    rw [List.take_add_one, List.getD_eq_getElem?_getD, List.getElem?_eq_getElem hfull]
    rfl
  calc leadingBits (8 * full + rem) bytes
      = leadingBits (8 * (full + 1)) bytes / 2 ^ (8 - rem) := by
        rw [leadingBits, hsize, ← Nat.div_div_eq_div_mul]
        rfl
    _ = (beNat (bytes.take full) * 2 ^ rem * 2 ^ (8 - rem) + (bytes.getD full 0).toNat) /
          2 ^ (8 - rem) := by
        rw [leadingBits_bytes, htake, beNat_concat, Nat.mul_assoc, ← hbyte]
    _ = _ := by
        rw [Nat.add_comm, Nat.add_mul_div_right _ _ (Nat.pow_pos (by decide)), Nat.add_comm]

/-- Two strings agree in their first bits exactly when they agree in the whole bytes
and in the first bits of the next byte. -/
theorem leadingBits_eq_iff {full rem : Nat} (hrem : rem ≤ 8) {a b : List UInt8}
    (hlength : a.length = b.length) (hfull : full < a.length) :
    leadingBits (8 * full + rem) a = leadingBits (8 * full + rem) b ↔
      a.take full = b.take full ∧
        (a.getD full 0).toNat / 2 ^ (8 - rem) = (b.getD full 0).toNat / 2 ^ (8 - rem) := by
  have hsmall (byte : UInt8) : byte.toNat / 2 ^ (8 - rem) < 2 ^ rem := by
    apply Nat.div_lt_of_lt_mul
    rw [← Nat.pow_add, Nat.sub_add_cancel hrem]
    exact byte.toNat_lt
  rw [leadingBits_concat hrem hfull, leadingBits_concat hrem (hlength ▸ hfull),
    ← beNat_inj (by simp [hlength])]
  constructor
  · intro hvalue
    have hhigh := congrArg (· / 2 ^ rem) hvalue
    have hlow := congrArg (· % 2 ^ rem) hvalue
    have hpos : 0 < 2 ^ rem := Nat.pow_pos (by decide)
    simp only [Nat.mul_comm _ (2 ^ rem), Nat.mul_add_div hpos, Nat.mul_add_mod,
      Nat.div_eq_of_lt (hsmall _), Nat.mod_eq_of_lt (hsmall _), Nat.add_zero] at hhigh hlow
    exact ⟨hhigh, hlow⟩
  · rintro ⟨hhigh, hlow⟩
    rw [hhigh, hlow]

end Foundation
