import Mathlib.Data.List.Basic

/-! # String operations of the standard library

The `str` methods that the parsers call, on lists of characters.
-/

namespace Newt

/-- The text of a `std::io::Error`. -/
abbrev IoError := String

namespace Text

/-- The characters with the Unicode property `White_Space`. -/
def isWhitespace (c : Char) : Bool :=
  let n := c.toNat
  (0x09 ≤ n && n ≤ 0x0d) || n == 0x20 || n == 0x85 || n == 0xa0 || n == 0x1680 ||
    (0x2000 ≤ n && n ≤ 0x200a) || n == 0x2028 || n == 0x2029 || n == 0x202f || n == 0x205f ||
    n == 0x3000

def trim (s : List Char) : List Char :=
  ((s.dropWhile isWhitespace).reverse.dropWhile isWhitespace).reverse

/-- The text before and after the first `delimiter`. -/
def splitOnce (delimiter : Char) : List Char → Option (List Char × List Char)
  | [] => none
  | c :: rest =>
      if c = delimiter then some ([], rest)
      else (splitOnce delimiter rest).map fun (before, after) => (c :: before, after)

/-- The text before and after the last `delimiter`. -/
def rsplitOnce (delimiter : Char) (s : List Char) : Option (List Char × List Char) :=
  (splitOnce delimiter s.reverse).map fun (after, before) => (before.reverse, after.reverse)

/-- The rest after a leading `c`. -/
def stripChar (c : Char) : List Char → Option (List Char)
  | [] => none
  | d :: rest => if d = c then some rest else none

/-- The pieces between the delimiters. The empty text is one empty piece. -/
def split (delimiter : Char) : List Char → List (List Char)
  | [] => [[]]
  | c :: rest =>
      if c = delimiter then [] :: split delimiter rest
      else
        match split delimiter rest with
        | [] => [[c]]
        | piece :: more => (c :: piece) :: more

/-- The text without its last characters that are `c`. -/
def trimEndMatches (c : Char) (s : List Char) : List Char := (s.reverse.dropWhile (· = c)).reverse

/-- The text with the letters of ASCII in lower case. -/
def toAsciiLowercase (s : String) : String := String.ofList (s.toList.map Char.toLower)

/-- The text before the first `delimiter`, all of it if there is none. -/
def splitFirst (delimiter : Char) (s : List Char) : List Char :=
  ((splitOnce delimiter s).map Prod.fst).getD s

/-- The value of `c` as a digit of `radix`, at most 16. -/
def toDigit (radix : Nat) (c : Char) : Option Nat :=
  let value :=
    if '0' ≤ c ∧ c ≤ '9' then some (c.toNat - '0'.toNat)
    else if 'a' ≤ c ∧ c ≤ 'f' then some (c.toNat - 'a'.toNat + 10)
    else if 'A' ≤ c ∧ c ≤ 'F' then some (c.toNat - 'A'.toNat + 10)
    else none
  value.filter (· < radix)

/-- The number that a list of decimal digits continues. -/
def digits : Nat → List Char → Option Nat
  | acc, [] => some acc
  | acc, c :: rest =>
      match toDigit 10 c with
      | some d => digits (10 * acc + d) rest
      | none => none

/-- Parse an unsigned integer of at most `max`. A leading plus sign is allowed,
and so are leading zeros. -/
def parseUnsigned (max : Nat) (s : List Char) : Option Nat :=
  let body := (stripChar '+' s).getD s
  if body = [] then none else (digits 0 body).filter (· ≤ max)

def parseU8 (s : List Char) : Option UInt8 := (parseUnsigned 255 s).map UInt8.ofNat

def parseU16 (s : List Char) : Option UInt16 := (parseUnsigned 65535 s).map UInt16.ofNat

/-! ## What the operations accept -/

theorem splitOnce_eq_some_iff {delimiter : Char} {s before after : List Char} :
    splitOnce delimiter s = some (before, after) ↔
      s = before ++ delimiter :: after ∧ delimiter ∉ before := by
  induction s generalizing before with
  | nil => simp [splitOnce]
  | cons c rest ih =>
      by_cases hc : c = delimiter
      · subst hc
        rw [splitOnce, if_pos rfl]
        cases before with
        | nil => simp
        | cons first before =>
            simp only [Option.some.injEq, Prod.mk.injEq, reduceCtorEq, false_and, false_iff,
              List.cons_append, List.cons.injEq, List.mem_cons, not_or]
            rintro ⟨⟨rfl, -⟩, hne, -⟩
            exact hne rfl
      · rw [splitOnce, if_neg hc]
        cases before with
        | nil => simp [hc]
        | cons first before =>
            simp only [Option.map_eq_some_iff, Prod.exists, Prod.mk.injEq, List.cons.injEq,
              List.cons_append, List.mem_cons, not_or]
            constructor
            · rintro ⟨front, back, hsplit, ⟨rfl, rfl⟩, rfl⟩
              obtain ⟨hrest, hnot⟩ := ih.mp hsplit
              exact ⟨⟨rfl, hrest⟩, Ne.symm hc, hnot⟩
            · rintro ⟨⟨rfl, hrest⟩, -, hnot⟩
              exact ⟨before, after, ih.mpr ⟨hrest, hnot⟩, ⟨rfl, rfl⟩, rfl⟩

theorem rsplitOnce_eq_some_iff {delimiter : Char} {s before after : List Char} :
    rsplitOnce delimiter s = some (before, after) ↔
      s = before ++ delimiter :: after ∧ delimiter ∉ after := by
  have hreverse : rsplitOnce delimiter s = some (before, after) ↔
      splitOnce delimiter s.reverse = some (after.reverse, before.reverse) := by
    simp only [rsplitOnce, Option.map_eq_some_iff, Prod.exists, Prod.mk.injEq]
    constructor
    · rintro ⟨back, front, hsplit, rfl, rfl⟩
      rw [List.reverse_reverse, List.reverse_reverse, hsplit]
    · intro hsplit
      exact ⟨_, _, hsplit, List.reverse_reverse _, List.reverse_reverse _⟩
  rw [hreverse, splitOnce_eq_some_iff, List.mem_reverse, List.reverse_eq_iff]
  simp

theorem stripChar_eq_some_iff {c : Char} {s rest : List Char} :
    stripChar c s = some rest ↔ s = c :: rest := by
  cases s with
  | nil => simp [stripChar]
  | cons d s => by_cases hd : d = c <;> simp [stripChar, hd]

theorem split_of_not_mem {delimiter : Char} {piece : List Char} (hnot : delimiter ∉ piece) :
    split delimiter piece = [piece] := by
  induction piece with
  | nil => rfl
  | cons c piece ih =>
      rw [List.mem_cons, not_or] at hnot
      rw [split, if_neg (Ne.symm hnot.1), ih hnot.2]

theorem split_append_cons {delimiter : Char} {piece : List Char} (hnot : delimiter ∉ piece)
    (rest : List Char) :
    split delimiter (piece ++ delimiter :: rest) = piece :: split delimiter rest := by
  induction piece with
  | nil => rw [List.nil_append, split, if_pos rfl]
  | cons c piece ih =>
      rw [List.mem_cons, not_or] at hnot
      rw [List.cons_append, split, if_neg (Ne.symm hnot.1), ih hnot.2]

/-- Splitting takes joined pieces apart again. -/
theorem split_intercalate {delimiter : Char} {pieces : List (List Char)} (hne : pieces ≠ [])
    (hnot : ∀ piece ∈ pieces, delimiter ∉ piece) :
    split delimiter ([delimiter].intercalate pieces) = pieces := by
  induction pieces with
  | nil => exact absurd rfl hne
  | cons piece rest ih =>
      have hpiece := hnot piece List.mem_cons_self
      cases rest with
      | nil => simpa using split_of_not_mem hpiece
      | cons next rest =>
          have hrest : ∀ other ∈ next :: rest, delimiter ∉ other := fun other hother =>
            hnot other (List.mem_cons_of_mem _ hother)
          have htail := ih (List.cons_ne_nil _ _) hrest
          rw [List.intercalate_cons_cons, List.append_assoc, List.singleton_append,
            split_append_cons hpiece, htail]

theorem toDigit_ten (c : Char) :
    toDigit 10 c = if c.isDigit then some (c.toNat - '0'.toNat) else none := by
  have hdigit : c.isDigit = true ↔ '0' ≤ c ∧ c ≤ '9' := by
    simp [Char.isDigit, Char.le_def]
  have hupper : c ≤ '9' → c.toNat - '0'.toNat < 10 := by
    intro hle
    have hnat : c.toNat ≤ '9'.toNat := UInt32.le_iff_toNat_le.mp hle
    simp at hnat ⊢
    omega
  simp only [toDigit, hdigit]
  split_ifs with h0 ha hA
  · simpa using hupper h0.2
  · simp
  · simp
  · rfl

theorem digits_eq_some_iff {acc n : Nat} {s : List Char} :
    digits acc s = some n ↔ (∀ c ∈ s, c.isDigit = true) ∧ Nat.ofDigitChars 10 s acc = n := by
  induction s generalizing acc with
  | nil => simp [digits]
  | cons c s ih =>
      rw [digits, toDigit_ten, Nat.ofDigitChars_cons]
      by_cases hc : c.isDigit = true
      · simp [hc, ih]
      · simp [hc]

/-- A numeral of `u16`: digits, with a plus sign in front or not. -/
def IsNumeral (s : List Char) (n : UInt16) : Prop :=
  ∃ body, (s = body ∨ s = '+' :: body) ∧ body ≠ [] ∧ (∀ c ∈ body, c.isDigit = true) ∧
    Nat.ofDigitChars 10 body 0 = n.toNat

theorem parseU16_eq_some_iff {s : List Char} {n : UInt16} :
    parseU16 s = some n ↔ IsNumeral s n := by
  have hbody (body : List Char) :
      (if body = [] then none else (digits 0 body).filter (· ≤ 65535)).map UInt16.ofNat = some n ↔
        body ≠ [] ∧ (∀ c ∈ body, c.isDigit = true) ∧ Nat.ofDigitChars 10 body 0 = n.toNat := by
    by_cases hnil : body = []
    · simp [hnil]
    · simp only [hnil, if_false, Option.map_eq_some_iff, Option.filter_eq_some_iff,
        digits_eq_some_iff, decide_eq_true_eq, ne_eq, not_false_iff, true_and]
      constructor
      · rintro ⟨value, ⟨⟨hdigits, rfl⟩, hle⟩, rfl⟩
        exact ⟨hdigits, (UInt16.toNat_ofNat_of_lt' (Nat.lt_succ_of_le hle)).symm⟩
      · rintro ⟨hdigits, hvalue⟩
        have hlt := n.toNat_lt
        exact ⟨n.toNat, ⟨⟨hdigits, hvalue⟩, by omega⟩, UInt16.ofNat_toNat⟩
  rw [parseU16, parseUnsigned, hbody]
  constructor
  · intro hparsed
    refine ⟨_, ?_, hparsed⟩
    cases hplus : stripChar '+' s with
    | none => exact .inl rfl
    | some rest => exact .inr (stripChar_eq_some_iff.mp hplus)
  · rintro ⟨body, hs, hne, hdigits, hvalue⟩
    obtain rfl | rfl := hs
    · -- a digit is no plus sign
      have hnone : stripChar '+' s = none := by
        obtain ⟨c, rest, rfl⟩ := List.exists_cons_of_ne_nil hne
        have hc : c ≠ '+' := by
          rintro rfl
          exact absurd (hdigits '+' List.mem_cons_self) (by decide)
        simp [stripChar, hc]
      rw [hnone]
      exact ⟨hne, hdigits, hvalue⟩
    · exact ⟨hne, hdigits, hvalue⟩

theorem isNumeral_toString (n : UInt16) : IsNumeral (toString n.toNat).toList n := by
  have hdigits : (toString n.toNat).toList = Nat.toDigits 10 n.toNat := Nat.toList_repr
  rw [hdigits]
  exact ⟨_, .inl rfl, Nat.toDigits_ne_nil,
    fun c hc => Nat.isDigit_of_mem_toDigits (by decide) (by decide) hc,
    Nat.ofDigitChars_ten_toDigits⟩

/-- A numeral holds digits and a sign only. -/
theorem IsNumeral.not_mem {s : List Char} {n : UInt16} (hs : IsNumeral s n) {c : Char}
    (hdigit : c.isDigit = false) (hplus : c ≠ '+') : c ∉ s := by
  obtain ⟨body, hs, -, hdigits, -⟩ := hs
  have hbody : c ∉ body := by
    intro hc
    rw [hdigits c hc] at hdigit
    cases hdigit
  obtain rfl | rfl := hs
  · exact hbody
  · simp [hplus, hbody]

end Text

end Newt
