import Newt.Foundation.SlidingWindow
import Newt.Noise.Session

/-! # The replay window of a session

The bitmap of `ReceivingKeyCounterValidator` records the counters that were received.
Counters share a bit when they differ by a multiple of 1024, so a counter that skips
others clears their bits first: one at a time up to a word, then word by word, then one
at a time again. The window answers as if all counters received so far were kept.
-/

namespace Newt.Noise

open Foundation

namespace ReceivingKeyCounterValidator

variable {v v' v'' : ReceivingKeyCounterValidator} {seen : List Nat} {counter : Nat}

/-! ## Single bits -/

theorem checkBit_eq (v : ReceivingKeyCounterValidator) (idx : Nat) :
    v.checkBit idx = (v.bitmap.get (word idx)).getLsbD (bit idx) := by
  rw [checkBit, Bool.eq_iff_iff, beq_iff_eq]
  simp only [BitVec.ofNat_eq_ofNat, BitVec.and_one_eq_setWidth_ofBool_getLsbD,
    BitVec.getLsbD_ushiftRight, Nat.add_zero]
  cases (v.bitmap.get (word idx)).getLsbD (bit idx) <;> decide

theorem bit_lt (idx : Nat) : bit idx < 64 := Nat.mod_lt _ (by decide)

/-- The place of a counter in the bitmap is the counter modulo 1024. -/
theorem place_eq_iff (i j : Nat) : word i = word j ∧ bit i = bit j ↔ i % nBits = j % nBits := by
  simp only [word, bit, nBits, nWords, wordSize, Fin.mk.injEq]
  omega

/-- What the bits are after a word was replaced. -/
theorem checkBit_set (v : ReceivingKeyCounterValidator) (i j : Nat) (x : BitVec 64) :
    { v with bitmap := v.bitmap.set (word i) x (word i).isLt }.checkBit j = true ↔
      (word i = word j ∧ x.getLsbD (bit j) = true) ∨ (word i ≠ word j ∧ v.checkBit j = true) := by
  have hget : (v.bitmap.set (word i) x (word i).isLt).get (word j) =
      if (word i).val = (word j).val then x else v.bitmap.get (word j) := by
    change (v.bitmap.set (word i) x (word i).isLt)[(word j).val] =
      if _ then x else v.bitmap[(word j).val]
    rw [Vector.getElem_set]
  rw [checkBit_eq, checkBit_eq, hget, Ne, Fin.ext_iff]
  split <;> simp_all

theorem getLsbD_mask (i j : Nat) : (1#64 <<< bit i).getLsbD (bit j) = decide (bit i = bit j) := by
  have hi := bit_lt i
  have hj := bit_lt j
  rw [BitVec.getLsbD_shiftLeft, BitVec.getLsbD_one]
  grind

theorem checkBit_setBit (v : ReceivingKeyCounterValidator) (i j : Nat) :
    (v.setBit i).checkBit j = true ↔ i % nBits = j % nBits ∨ v.checkBit j = true := by
  rw [setBit, checkBit_set, ← place_eq_iff, BitVec.getLsbD_or, getLsbD_mask, checkBit_eq]
  by_cases hword : word i = word j
  · simp [hword, or_comm]
  · simp [hword]

theorem checkBit_clearBit (v : ReceivingKeyCounterValidator) (i j : Nat) :
    (v.clearBit i).checkBit j = true ↔ i % nBits ≠ j % nBits ∧ v.checkBit j = true := by
  rw [clearBit, checkBit_set, Ne, Ne, ← place_eq_iff, BitVec.getLsbD_and, BitVec.getLsbD_not,
    getLsbD_mask, checkBit_eq]
  by_cases hword : word i = word j
  · simp [hword, bit_lt, and_comm]
  · simp [hword]

theorem checkBit_clearWord (v : ReceivingKeyCounterValidator) (i j : Nat) :
    (v.clearWord i).checkBit j = true ↔ word i ≠ word j ∧ v.checkBit j = true := by
  rw [clearWord, checkBit_set]
  by_cases hword : word i = word j <;> simp [hword]

theorem checkBit_zeros (v : ReceivingKeyCounterValidator) (j : Nat) :
    { v with bitmap := Vector.replicate nWords 0 }.checkBit j = false := by
  have hget : (Vector.replicate nWords (0 : BitVec 64)).get (word j) = 0 :=
    Vector.getElem_replicate _
  rw [checkBit_eq, hget]
  exact BitVec.getLsbD_zero

/-! ## Clearing the bits in between -/

/-- The bits of the counters from `i` up to `j` are cleared, all others are kept. -/
structure Cleared (v v' : ReceivingKeyCounterValidator) (i j : Nat) : Prop where
  next : v'.next = v.next
  receiveCnt : v'.receiveCnt = v.receiveCnt
  checkBit_iff : ∀ d, v'.checkBit d = true ↔
    v.checkBit d = true ∧ ∀ k, i ≤ k → k < j → k % nBits ≠ d % nBits

theorem Cleared.refl (v : ReceivingKeyCounterValidator) (i : Nat) : Cleared v v i i where
  next := rfl
  receiveCnt := rfl
  checkBit_iff d := by
    refine ⟨fun hbit => ⟨hbit, fun k hk hk' => ?_⟩, And.left⟩
    exact absurd hk (Nat.not_le.mpr hk')

theorem Cleared.trans {i j l : Nat} (hfirst : Cleared v v' i j) (hsecond : Cleared v' v'' j l)
    (hij : i ≤ j) (hjl : j ≤ l) : Cleared v v'' i l where
  next := hsecond.next.trans hfirst.next
  receiveCnt := hsecond.receiveCnt.trans hfirst.receiveCnt
  checkBit_iff d := by
    rw [hsecond.checkBit_iff, hfirst.checkBit_iff]
    constructor
    · rintro ⟨⟨hbit, hlow⟩, hhigh⟩
      refine ⟨hbit, fun k hk hk' => ?_⟩
      by_cases hlt : k < j
      · exact hlow k hk hlt
      · exact hhigh k (Nat.not_lt.mp hlt) hk'
    · rintro ⟨hbit, hall⟩
      exact ⟨⟨hbit, fun k hk hk' => hall k hk (Nat.lt_of_lt_of_le hk' hjl)⟩,
        fun k hk hk' => hall k (Nat.le_trans hij hk) hk'⟩

theorem cleared_clearBit (v : ReceivingKeyCounterValidator) (i : Nat) :
    Cleared v (v.clearBit i) i (i + 1) where
  next := rfl
  receiveCnt := rfl
  checkBit_iff d := by
    rw [checkBit_clearBit, and_comm]
    refine and_congr_right fun _ => ⟨fun hne k hk hk' => ?_, fun hall => ?_⟩
    · rwa [Nat.le_antisymm (Nat.le_of_lt_succ hk') hk]
    · exact hall i (Nat.le_refl i) (Nat.lt_succ_self i)

/-- A word that starts at `i` holds exactly the bits of the next 64 counters. -/
theorem cleared_clearWord (v : ReceivingKeyCounterValidator) {i : Nat} (hi : i % wordSize = 0) :
    Cleared v (v.clearWord i) i (i + wordSize) where
  next := rfl
  receiveCnt := rfl
  checkBit_iff d := by
    rw [checkBit_clearWord, and_comm]
    refine and_congr_right fun _ => ⟨fun hne k hk hk' => ?_, fun hall hword => ?_⟩
    · intro hmod
      apply hne
      simp only [word, nBits, nWords, wordSize, Fin.mk.injEq] at *
      omega
    · simp only [word, nBits, nWords, wordSize, Fin.mk.injEq] at *
      exact hall (i + d % 1024 % 64) (by omega) (by omega) (by omega)

theorem clearToWord_spec (v : ReceivingKeyCounterValidator) {i counter : Nat}
    (hi : i ≤ counter) :
    ∃ v' j, v.clearToWord i counter = (v', j) ∧ Cleared v v' i j ∧ i ≤ j ∧ j ≤ counter ∧
      (j % wordSize = 0 ∨ j = counter) := by
  fun_induction clearToWord v i counter with
  | case1 v i hstep ih =>
      obtain ⟨v', j, heq, hcleared, hij, hj, hend⟩ := ih hstep.2
      exact ⟨v', j, heq, (cleared_clearBit v i).trans hcleared (Nat.le_succ i) hij,
        Nat.le_of_succ_le hij, hj, hend⟩
  | case2 v i hstop =>
      refine ⟨v, i, rfl, .refl v i, Nat.le_refl i, hi, ?_⟩
      omega

theorem clearWords_spec (v : ReceivingKeyCounterValidator) {i counter : Nat} (hi : i ≤ counter)
    (haligned : i % wordSize = 0 ∨ i = counter) :
    ∃ v' j, v.clearWords i counter = (v', j) ∧ Cleared v v' i j ∧ i ≤ j ∧ j ≤ counter := by
  fun_induction clearWords v i counter with
  | case1 v i hstep ih =>
      have hmod : i % wordSize = 0 := by
        rcases haligned with hmod | rfl
        · exact hmod
        · omega
      have hround : (i + wordSize) - (i + wordSize) % wordSize = i + wordSize := by
        rw [Nat.add_mod_right, hmod, Nat.sub_zero]
      rw [hround] at ih ⊢
      obtain ⟨v', j, heq, hcleared, hij, hj⟩ := ih (Nat.le_of_lt hstep)
        (.inl (by rw [Nat.add_mod_right, hmod]))
      exact ⟨v', j, heq, (cleared_clearWord v hmod).trans hcleared (Nat.le_add_right _ _) hij,
        Nat.le_of_add_right_le hij, hj⟩
  | case2 v i hstop => exact ⟨v, i, rfl, .refl v i, Nat.le_refl i, hi⟩

theorem clearRest_spec (v : ReceivingKeyCounterValidator) {i counter : Nat} (hi : i ≤ counter) :
    Cleared v (v.clearRest i counter) i counter := by
  fun_induction clearRest v i counter with
  | case1 v i hstep ih =>
      exact (cleared_clearBit v i).trans (ih hstep) (Nat.le_succ i) hstep
  | case2 v i hstop =>
      rw [Nat.le_antisymm hi (Nat.not_lt.mp hstop)]
      exact .refl v counter

/-- The three loops of `mark_did_receive`. -/
theorem cleared_between (v : ReceivingKeyCounterValidator) {counter : Nat}
    (hcounter : v.next ≤ counter) :
    Cleared v (let (aligned, i) := v.clearToWord v.next counter
      let (words, i) := aligned.clearWords i counter
      words.clearRest i counter) v.next counter := by
  obtain ⟨aligned, i, hfirst, hcleared, hi, hi', hend⟩ := clearToWord_spec v hcounter
  obtain ⟨words, j, hsecond, hcleared', hj, hj'⟩ := clearWords_spec aligned hi' hend
  simp only [hfirst, hsecond]
  exact (hcleared.trans hcleared' hi hj).trans (clearRest_spec words hj') (Nat.le_trans hi hj) hj'

/-! ## The window -/

/-- The validator answers as if it had kept all counters in `seen`. -/
def Remembers (v : ReceivingKeyCounterValidator) (seen : List Nat) : Prop :=
  Window nBits v.checkBit v.next seen

theorem remembers_default : Remembers default [] := .empty _

/-- The quick check before decryption, for a fresh counter, for one that was received,
and for one that is too far behind. -/
theorem willAccept_spec (hv : v.Remembers seen) (hbound : counter + nBits < 2 ^ 64) :
    (Fresh nBits seen counter → v.willAccept counter = .ok ()) ∧
      (counter ∈ seen → (∀ d ∈ seen, d < counter + nBits) →
        v.willAccept counter = .error .duplicateCounter) ∧
      ((∃ d ∈ seen, counter + nBits ≤ d) → v.willAccept counter = .error .invalidCounter) := by
  rw [willAccept, Nat.mod_eq_of_lt hbound]
  refine ⟨fun hfresh => ?_, fun hmem hnear => ?_, fun hfar => ?_⟩
  · by_cases hnew : v.next ≤ counter
    · rw [if_pos hnew]
    · obtain ⟨hle, hbit⟩ := (hv.fresh_iff (Nat.not_le.mp hnew)).mp hfresh
      rw [if_neg hnew, if_neg (Nat.not_lt.mpr hle), hbit]
      rfl
  · have hlt := hv.below counter hmem
    have hle := hv.behind_iff.mp hnear
    rw [if_neg (Nat.not_le.mpr hlt), if_neg (Nat.not_lt.mpr hle),
      (hv.bit_iff counter hlt hle).mpr hmem]
    rfl
  · obtain ⟨d, hd, hle⟩ := hfar
    have hlt : counter + nBits < v.next := Nat.lt_of_le_of_lt hle (hv.below d hd)
    rw [if_neg (Nat.not_le.mpr (Nat.lt_of_le_of_lt (Nat.le_add_right _ _) hlt)), if_pos hlt]

/-- A counter at or above `next` is remembered once the bits it skips are cleared. -/
theorem Remembers.advance {cleared : ReceivingKeyCounterValidator} (hv : v.Remembers seen)
    (hcounter : v.next ≤ counter)
    (hkept : ∀ d, d < v.next → counter + 1 ≤ d + nBits → cleared.checkBit d = v.checkBit d)
    (hskipped : ∀ d, v.next ≤ d → d < counter → counter + 1 ≤ d + nBits →
      cleared.checkBit d = false) :
    { cleared.setBit counter with next := counter + 1 }.Remembers (counter :: seen) := by
  -- two counters of one window never share a bit
  have hother : ∀ d, d < counter → counter + 1 ≤ d + nBits →
      (cleared.setBit counter).checkBit d = cleared.checkBit d := by
    intro d hd hle
    have hplace : counter % nBits ≠ d % nBits := by
      simp only [nBits, nWords, wordSize] at *
      omega
    rw [Bool.eq_iff_iff, checkBit_setBit]
    simp [hplace]
  have hset : (cleared.setBit counter).checkBit counter = true :=
    (checkBit_setBit cleared counter counter).mpr (.inl rfl)
  refine Window.insert_new hv hcounter hset ?_ ?_
  · intro d hd hle
    exact (hother d (Nat.lt_of_lt_of_le hd hcounter) hle).trans (hkept d hd hle)
  · intro d hd hd' hle
    exact (hother d hd' hle).trans (hskipped d hd hd' hle)

/-- A counter in the window is remembered by its bit. -/
theorem Remembers.fill (hv : v.Remembers seen) (hcounter : counter < v.next)
    (hnear : v.next ≤ counter + nBits) : (v.setBit counter).Remembers (counter :: seen) := by
  have hinsert : Window nBits (v.setBit counter).checkBit v.next (counter :: seen) := by
    refine Window.insert_old hv hcounter fun d hd hle => ?_
    rw [checkBit_setBit]
    have hplace : counter % nBits = d % nBits ↔ d = counter := by
      simp only [nBits, nWords, wordSize] at *
      omega
    rw [hplace]
  exact hinsert

/-- A counter above `next` clears the bits of the counters it skips, or all of them. -/
theorem Remembers.skip (hv : v.Remembers seen) (hcounter : v.next ≤ counter) :
    ∃ cleared : ReceivingKeyCounterValidator,
      (if nBits ≤ counter - v.next then { v with bitmap := Vector.replicate nWords 0 }
        else (let (aligned, i) := v.clearToWord v.next counter
          let (words, i) := aligned.clearWords i counter
          words.clearRest i counter)) = cleared ∧
      cleared.receiveCnt = v.receiveCnt ∧
      { cleared.setBit counter with next := counter + 1 }.Remembers (counter :: seen) := by
  by_cases hfar : nBits ≤ counter - v.next
  · refine ⟨_, if_pos hfar, rfl, hv.advance hcounter ?_ ?_⟩
    · intro d hd hle
      omega
    · intro d hd hd' hle
      exact checkBit_zeros v d
  · have hcleared := cleared_between v hcounter
    refine ⟨_, if_neg hfar, hcleared.receiveCnt, hv.advance hcounter ?_ ?_⟩
    · intro d hd hle
      rw [Bool.eq_iff_iff, hcleared.checkBit_iff]
      refine and_iff_left fun k hk hk' => ?_
      simp only [nBits, nWords, wordSize] at *
      omega
    · intro d hd hd' hle
      rw [Bool.eq_false_iff, Ne, hcleared.checkBit_iff]
      rintro ⟨-, hall⟩
      exact hall d hd hd' rfl

/-- A fresh counter is marked, and any other one is refused. -/
theorem markDidReceive_spec (hv : v.Remembers seen) (hbound : counter + nBits < 2 ^ 64) :
    (Fresh nBits seen counter →
      ∃ v', v.markDidReceive counter = .ok v' ∧ v'.Remembers (counter :: seen) ∧
        v'.receiveCnt = v.receiveCnt) ∧
      (¬Fresh nBits seen counter → v.markDidReceive counter = .error .invalidCounter) := by
  have hsucc : (counter + 1) % 2 ^ 64 = counter + 1 := Nat.mod_eq_of_lt (by
    simp only [nBits, nWords, wordSize] at hbound
    omega)
  rw [markDidReceive, Nat.mod_eq_of_lt hbound]
  rcases Nat.lt_trichotomy counter v.next with hlt | heq | hgt
  · -- the counter is below the highest one
    rw [hv.fresh_iff hlt]
    by_cases hfar : counter + nBits < v.next
    · simp [hfar, Nat.not_le.mpr hfar]
    · rw [if_neg hfar, if_neg (Nat.ne_of_lt hlt), if_pos hlt]
      cases hbit : v.checkBit counter with
      | false =>
          have hfill := hv.fill hlt (Nat.not_lt.mp hfar)
          simp only [Bool.false_eq_true, if_false, and_true]
          exact ⟨fun _ => ⟨_, rfl, hfill, rfl⟩, fun hnot => absurd (Nat.not_lt.mp hfar) hnot⟩
      | true => simp
  · -- the counter is the next one in order
    have hnear : ¬counter + nBits < v.next := by omega
    have hfresh := hv.fresh_of_le (Nat.le_of_eq heq.symm)
    have hnext := hv.advance (Nat.le_of_eq heq.symm) (fun d _ _ => rfl)
      (fun d hd hd' _ => absurd (Nat.lt_of_le_of_lt hd hd') (by omega))
    rw [if_neg hnear, if_pos heq, ← heq, hsucc]
    exact ⟨fun _ => ⟨_, rfl, hnext, rfl⟩, fun hnot => absurd hfresh hnot⟩
  · -- the counter skips others
    have hnear : ¬counter + nBits < v.next := by omega
    have hfresh := hv.fresh_of_le (Nat.le_of_lt hgt)
    obtain ⟨cleared, hcleared, hcnt, hnext⟩ := hv.skip (Nat.le_of_lt hgt)
    rw [if_neg hnear, if_neg (Nat.ne_of_gt hgt), if_neg (Nat.lt_asymm hgt)]
    simp only [hcleared, hsucc]
    exact ⟨fun _ => ⟨_, rfl, hnext, hcnt⟩, fun hnot => absurd hfresh hnot⟩

end ReceivingKeyCounterValidator

end Newt.Noise
