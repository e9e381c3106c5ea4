import Newt.Transport.Frame

/-! # Announced and read lengths

The header of a frame announces a length of up to 64 bits. `read_frame` casts it
to `usize` before it compares it with the limit, so a 32-bit build takes some
oversized frames for short ones. `outcome` says what `read_frame` makes of a
stream, and `header` what the stream announces.
-/

namespace Newt.Transport

open Foundation ReadProgram

/-! ## What a stream announces -/

/-- The size of the extended length. -/
def extendedSize (len7 : UInt8) : Nat := if len7 = 126 then 2 else if len7 = 127 then 8 else 0

/-- The header of a frame up to the mask. -/
structure Header where
  size : Nat
  masked : Bool
  declared : Nat
  deriving DecidableEq, Repr

/-- The header at the start of a stream, once all of it is there. -/
def header : List UInt8 → Option Header
  | _ :: second :: rest =>
      let len7 := second &&& 0x7f
      let size := extendedSize len7
      if rest.length < size then none
      else
        some ⟨2 + size, second &&& 0x80 != 0,
          if size = 0 then len7.toNat else beNat (rest.take size)⟩
  | _ => none

def Header.maskSize (h : Header) : Nat := if h.masked then 4 else 0

/-- What `read_frame` makes of a stream. -/
inductive Outcome where
  | frame (frame : Frame) (rest : List UInt8)
  | failed (error : IoError)
  | pending

/-- Read a frame from a stream, which the peer may have closed. Reading past the
end of a closed stream is an error. -/
def outcome (usizeBits : Nat) (stream : List UInt8) (closed : Bool) : Outcome :=
  match (readFrame usizeBits).settle.consume stream with
  | (.returned frame, rest) => .frame frame rest
  | (.failed error, _) => .failed error
  | (.waiting _, _) => if closed then .failed "early eof" else .pending

/-- The length that `read_frame` goes on with. -/
def Header.length (usizeBits : Nat) (h : Header) : Nat := h.declared % 2 ^ usizeBits

/-- The bytes of the frame as `read_frame` sees it. -/
def Header.total (usizeBits : Nat) (h : Header) : Nat := h.size + h.maskSize + h.length usizeBits

/-! ## Reading in stages -/

/-- The length in the header, for the bytes of its extension. -/
def declaredLen (len7 : UInt8) (extension : List UInt8) : Nat :=
  if extendedSize len7 = 0 then len7.toNat else beNat extension

section Stages

variable {γ : Type}

theorem settle_readLen (usizeBits : Nat) (len7 : UInt8) (f : Nat → ReadProgram UInt8 IoError γ) :
    (readLen usizeBits len7 >>= f).settle =
      (readExact (extendedSize len7) fun l =>
        f (if len7 = 127 then beNat l % 2 ^ usizeBits else declaredLen len7 l)).settle := by
  unfold readLen declaredLen extendedSize
  by_cases hmedium : len7 = 126
  · subst hmedium
    rfl
  · by_cases hlarge : len7 = 127
    · subst hlarge
      rfl
    · simp only [hmedium, hlarge, ↓reduceIte, settle_readExact_zero]
      rfl

theorem settle_readMask (masked : Bool) (f : Option (List UInt8) → ReadProgram UInt8 IoError γ) :
    (readMask masked >>= f).settle =
      (readExact (if masked then 4 else 0) fun m =>
        f (if masked then some m else none)).settle := by
  cases masked with
  | true => rfl
  | false =>
      simp only [Bool.false_eq_true, ↓reduceIte, settle_readExact_zero]
      rfl

/-- An extension of two bytes always fits into a `usize`. -/
theorem declaredLen_mod {usizeBits : Nat} (hwidth : 16 ≤ usizeBits) {len7 : UInt8}
    {extension : List UInt8} (hlength : extension.length = extendedSize len7) :
    (if len7 = 127 then beNat extension % 2 ^ usizeBits else declaredLen len7 extension) =
      declaredLen len7 extension % 2 ^ usizeBits := by
  have hpow : 2 ^ 16 ≤ 2 ^ usizeBits := Nat.pow_le_pow_right (by decide) hwidth
  have hvalue := beNat_lt extension
  have hbyte := len7.toNat_lt
  unfold declaredLen
  rw [hlength] at hvalue
  unfold extendedSize at hvalue ⊢
  by_cases hlarge : len7 = 127
  · subst hlarge
    rfl
  · rw [if_neg hlarge]
    refine (Nat.mod_eq_of_lt ?_).symm
    by_cases hmedium : len7 = 126
    · subst hmedium
      simp only [↓reduceIte] at hvalue ⊢
      exact Nat.lt_of_lt_of_le hvalue hpow
    · simp only [hmedium, hlarge, ↓reduceIte]
      omega

end Stages

/-- What `read_frame` does after the header. -/
def readBody (fin : Bool) (opcode : UInt8) (masked : Bool) (len : Nat) :
    ReadProgram UInt8 IoError Frame :=
  if maxFrame < len then .fail "websocket frame too large"
  else do
    let mask ← readMask masked
    let payload ← ReadProgram.exactly len
    match mask with
    | some m => return ⟨fin, opcode, applyMask m payload⟩
    | none => return ⟨fin, opcode, payload⟩

theorem readFrame_settle (usizeBits : Nat) :
    (readFrame usizeBits).settle = (readExact 2 fun h =>
      readLen usizeBits (h.getD 1 0 &&& 0x7f) >>=
        readBody (h.getD 0 0 &&& 0x80 != 0) (h.getD 0 0 &&& 0x0f)
          (h.getD 1 0 &&& 0x80 != 0)).settle := rfl

/-- Without a complete header the call waits. -/
theorem consume_of_no_header (usizeBits : Nat) {stream : List UInt8}
    (hheader : header stream = none) :
    ∃ reading, (readFrame usizeBits).settle.consume stream = (.waiting reading, []) := by
  rw [readFrame_settle]
  match stream with
  | [] => exact consume_readExact_short _ _ (by decide)
  | [_] => exact consume_readExact_short _ _ (by simp)
  | first :: second :: rest =>
      rw [consume_readExact _ _ (by simp)]
      simp only [header] at hheader
      split at hheader
      next hshort =>
        rw [settle_readLen]
        exact consume_readExact_short _ _ hshort
      next => cases hheader

/-- After a complete header the call goes on with the length modulo the width of
a `usize`. -/
theorem consume_of_header {usizeBits : Nat} (hwidth : 16 ≤ usizeBits) {stream : List UInt8}
    {h : Header} (hheader : header stream = some h) :
    h.size ≤ stream.length ∧ ∃ fin opcode, (readFrame usizeBits).settle.consume stream =
      (readBody fin opcode h.masked (h.length usizeBits)).settle.consume (stream.drop h.size) := by
  match stream with
  | [] => cases hheader
  | [_] => cases hheader
  | first :: second :: rest =>
      simp only [header] at hheader
      split at hheader
      next => cases hheader
      next hlong =>
        cases hheader
        rw [Nat.not_lt] at hlong
        have htake : (rest.take (extendedSize (second &&& 0x7f))).length =
            extendedSize (second &&& 0x7f) := List.length_take_of_le hlong
        refine ⟨by simp only [List.length_cons]; omega, first &&& 0x80 != 0, first &&& 0x0f, ?_⟩
        rw [readFrame_settle, consume_readExact _ _ (by simp)]
        simp only [List.take_succ_cons, List.take_zero, List.getD_cons_zero, List.getD_cons_succ,
          List.drop_succ_cons, List.drop_zero]
        rw [settle_readLen, consume_readExact _ _ hlong, declaredLen_mod hwidth htake]
        rw [Nat.add_comm 2, List.drop_succ_cons, List.drop_succ_cons]
        rfl

section Body

variable (fin masked : Bool) (opcode : UInt8) {len : Nat} {buffer : List UInt8}

/-- The body of a frame is its mask and the given number of bytes. -/
theorem consume_readBody (hlen : len ≤ maxFrame)
    (henough : (if masked then 4 else 0) + len ≤ buffer.length) :
    ∃ frame : Frame, frame.payload.length = len ∧
      (readBody fin opcode masked len).settle.consume buffer =
        (.returned frame, buffer.drop ((if masked then 4 else 0) + len)) := by
  have hrest : len ≤ (buffer.drop (if masked then 4 else 0)).length := by
    rw [List.length_drop]
    omega
  rw [readBody, if_neg (Nat.not_lt.mpr hlen), settle_readMask,
    consume_readExact _ _ (Nat.le_of_add_right_le henough), ← List.drop_drop]
  cases masked with
  | true =>
      refine ⟨⟨fin, opcode, applyMask (buffer.take 4) ((buffer.drop 4).take len)⟩, ?_, ?_⟩
      · rw [applyMask_length]
        exact List.length_take_of_le hrest
      · exact (consume_readExact _ _ hrest).trans (consume_returned _ _)
  | false =>
      refine ⟨⟨fin, opcode, buffer.take len⟩, List.length_take_of_le hrest, ?_⟩
      exact (consume_readExact _ _ hrest).trans (consume_returned _ _)

theorem consume_readBody_short (hlen : len ≤ maxFrame)
    (hshort : buffer.length < (if masked then 4 else 0) + len) :
    ∃ reading, (readBody fin opcode masked len).settle.consume buffer = (.waiting reading, []) := by
  rw [readBody, if_neg (Nat.not_lt.mpr hlen), settle_readMask]
  by_cases hmask : buffer.length < if masked then 4 else 0
  · exact consume_readExact_short _ _ hmask
  · rw [consume_readExact _ _ (Nat.not_lt.mp hmask)]
    apply consume_readExact_short
    rw [List.length_drop]
    omega

end Body

/-! ## The two compared -/

section Outcome

variable {usizeBits : Nat} {stream : List UInt8} {h : Header} (closed : Bool)

theorem outcome_of_waiting {reading : Suspended UInt8 IoError Frame} {rest : List UInt8}
    (hconsume : (readFrame usizeBits).settle.consume stream = (.waiting reading, rest)) :
    outcome usizeBits stream closed = if closed then .failed "early eof" else .pending := by
  rw [outcome, hconsume]

theorem outcome_of_tooLarge (hwidth : 16 ≤ usizeBits) (hheader : header stream = some h)
    (hlarge : maxFrame < h.length usizeBits) :
    outcome usizeBits stream closed = .failed "websocket frame too large" := by
  obtain ⟨_, fin, opcode, hconsume⟩ := consume_of_header hwidth hheader
  rw [readBody, if_pos hlarge, settle_fail, consume_failed] at hconsume
  rw [outcome, hconsume]

theorem outcome_of_complete (hwidth : 16 ≤ usizeBits) (hheader : header stream = some h)
    (hsmall : h.length usizeBits ≤ maxFrame) (hcomplete : h.total usizeBits ≤ stream.length) :
    ∃ frame, frame.payload.length = h.length usizeBits ∧
      outcome usizeBits stream closed = .frame frame (stream.drop (h.total usizeBits)) := by
  unfold Header.total Header.maskSize at *
  obtain ⟨_, fin, opcode, hconsume⟩ := consume_of_header hwidth hheader
  have hbuffer :
      (if h.masked then 4 else 0) + h.length usizeBits ≤ (stream.drop h.size).length := by
    rw [List.length_drop]
    omega
  obtain ⟨frame, hpayload, hbody⟩ := consume_readBody fin h.masked opcode hsmall hbuffer
  refine ⟨frame, hpayload, ?_⟩
  rw [outcome, hconsume, hbody, List.drop_drop, Nat.add_assoc]

theorem outcome_of_incomplete (hwidth : 16 ≤ usizeBits) (hheader : header stream = some h)
    (hsmall : h.length usizeBits ≤ maxFrame) (hincomplete : stream.length < h.total usizeBits) :
    outcome usizeBits stream closed = if closed then .failed "early eof" else .pending := by
  unfold Header.total Header.maskSize at hincomplete
  obtain ⟨hsize, fin, opcode, hconsume⟩ := consume_of_header hwidth hheader
  have hbuffer :
      (stream.drop h.size).length < (if h.masked then 4 else 0) + h.length usizeBits := by
    rw [List.length_drop]
    omega
  obtain ⟨reading, hbody⟩ := consume_readBody_short fin h.masked opcode hsmall hbuffer
  exact outcome_of_waiting _ (hconsume.trans hbody)

/-- A frame is returned only if its header and all bytes that follow from it are
there. -/
theorem header_of_frame (hwidth : 16 ≤ usizeBits) {frame : Frame} {rest : List UInt8}
    (hframe : outcome usizeBits stream closed = .frame frame rest) :
    ∃ h, header stream = some h ∧ h.length usizeBits ≤ maxFrame ∧
      h.total usizeBits ≤ stream.length ∧ frame.payload.length = h.length usizeBits ∧
      rest = stream.drop (h.total usizeBits) := by
  cases hheader : header stream with
  | none =>
      obtain ⟨reading, hconsume⟩ := consume_of_no_header usizeBits hheader
      rw [outcome_of_waiting _ hconsume] at hframe
      cases closed <;> cases hframe
  | some h =>
      by_cases hsmall : h.length usizeBits ≤ maxFrame
      · by_cases hcomplete : h.total usizeBits ≤ stream.length
        · obtain ⟨found, hpayload, hfound⟩ := outcome_of_complete closed hwidth hheader hsmall
            hcomplete
          rw [hfound] at hframe
          cases hframe
          exact ⟨h, rfl, hsmall, hcomplete, hpayload, rfl⟩
        · rw [outcome_of_incomplete _ hwidth hheader hsmall (Nat.not_le.mp hcomplete)] at hframe
          cases closed <;> cases hframe
      · rw [outcome_of_tooLarge _ hwidth hheader (Nat.not_le.mp hsmall)] at hframe
        cases hframe

end Outcome

/-- A returned frame has the announced length and takes up its own bytes and no
others, and every announced length above the limit is an error. -/
structure ReadsAsAnnounced (usizeBits : Nat) (stream : List UInt8) (closed : Bool) : Prop where
  exact : ∀ frame rest, outcome usizeBits stream closed = .frame frame rest →
    ∃ h, header stream = some h ∧ frame.payload.length = h.declared ∧
      h.size + h.maskSize + h.declared ≤ stream.length ∧
      rest = stream.drop (h.size + h.maskSize + h.declared)
  limited : ∀ h, header stream = some h → maxFrame < h.declared →
    ∃ error, outcome usizeBits stream closed = .failed error

/-- The announced length exceeds a `usize`, and what is left of it passes the
limit. On a closed stream, the bytes for it are there. -/
def Misread (usizeBits : Nat) (stream : List UInt8) (closed : Bool) : Prop :=
  ∃ h, header stream = some h ∧ 2 ^ usizeBits ≤ h.declared ∧ h.length usizeBits ≤ maxFrame ∧
    (closed = true → h.total usizeBits ≤ stream.length)

/-- For both pointer widths, `read_frame` reads a stream as announced unless the
cast to `usize` makes an oversized frame a short one. -/
theorem readsAsAnnounced_iff {usizeBits : Nat} (hwidth : usizeBits = 32 ∨ usizeBits = 64)
    (stream : List UInt8) (closed : Bool) :
    ReadsAsAnnounced usizeBits stream closed ↔ ¬ Misread usizeBits stream closed := by
  have hwide : 16 ≤ usizeBits := by omega
  have hlimit := maxFrame_lt hwidth
  constructor
  · rintro hreads ⟨h, hheader, hlarge, hsmall, hclosed⟩
    obtain ⟨error, hfailed⟩ := hreads.limited h hheader (Nat.lt_of_lt_of_le hlimit hlarge)
    by_cases hcomplete : h.total usizeBits ≤ stream.length
    · obtain ⟨frame, _, hframe⟩ := outcome_of_complete closed hwide hheader hsmall hcomplete
      rw [hframe] at hfailed
      cases hfailed
    · cases closed with
      | true => exact hcomplete (hclosed rfl)
      | false =>
          rw [outcome_of_incomplete _ hwide hheader hsmall (Nat.not_le.mp hcomplete)] at hfailed
          cases hfailed
  · intro hnot
    -- the cast is harmless or what is left of the length is not read
    have hcast : ∀ h, header stream = some h → h.length usizeBits ≤ maxFrame →
        (closed = true → h.total usizeBits ≤ stream.length) →
          h.length usizeBits = h.declared := by
      intro h hheader hsmall hclosed
      refine Nat.mod_eq_of_lt (Nat.lt_of_not_le fun hlarge => ?_)
      exact hnot ⟨h, hheader, hlarge, hsmall, hclosed⟩
    constructor
    · intro frame rest hframe
      obtain ⟨h, hheader, hsmall, hcomplete, hpayload, rfl⟩ := header_of_frame closed hwide hframe
      have hlength := hcast h hheader hsmall fun _ => hcomplete
      unfold Header.total at hcomplete
      rw [hlength] at hpayload hcomplete
      refine ⟨h, hheader, hpayload, hcomplete, ?_⟩
      rw [Header.total, hlength]
    · intro h hheader hlarge
      by_cases hsmall : h.length usizeBits ≤ maxFrame
      · by_cases hclosed : closed = true → h.total usizeBits ≤ stream.length
        · rw [hcast h hheader hsmall hclosed] at hsmall
          exact absurd hlarge (Nat.not_lt.mpr hsmall)
        · rw [Classical.not_imp, Nat.not_le] at hclosed
          rw [outcome_of_incomplete _ hwide hheader hsmall hclosed.2, if_pos hclosed.1]
          exact ⟨_, rfl⟩
      · exact ⟨_, outcome_of_tooLarge _ hwide hheader (Nat.not_le.mp hsmall)⟩

theorem header_declared_lt {stream : List UInt8} {h : Header} (hheader : header stream = some h) :
    h.declared < 2 ^ 64 := by
  match stream with
  | [] => cases hheader
  | [_] => cases hheader
  | first :: second :: rest =>
      simp only [header] at hheader
      split at hheader
      next => cases hheader
      next =>
        cases hheader
        have hbyte := (second &&& 0x7f).toNat_lt
        have hvalue := beNat_lt (rest.take (extendedSize (second &&& 0x7f)))
        have hsize : extendedSize (second &&& 0x7f) ≤ 8 := by
          unfold extendedSize
          split
          · decide
          · split <;> decide
        have hpow : 256 ^ (rest.take (extendedSize (second &&& 0x7f))).length ≤ 256 ^ 8 := by
          apply Nat.pow_le_pow_right (by decide)
          exact Nat.le_trans (List.length_take_le _ _) hsize
        dsimp only
        split
        · omega
        · exact Nat.lt_of_lt_of_le hvalue hpow

/-- A 64-bit build takes no frame for another. -/
theorem not_misread_wide (stream : List UInt8) (closed : Bool) : ¬ Misread 64 stream closed := by
  rintro ⟨h, hheader, hlarge, _⟩
  exact absurd hlarge (Nat.not_le.mpr (header_declared_lt hheader))

theorem readsAsAnnounced_short :
    ¬ Misread 32 [0x81, 1, 7] false ∧ ReadsAsAnnounced 32 [0x81, 1, 7] false := by
  have hnot : ¬ Misread 32 [0x81, 1, 7] false := by
    rintro ⟨h, hheader, hlarge, _⟩
    cases hheader
    revert hlarge
    decide
  exact ⟨hnot, (readsAsAnnounced_iff (.inl rfl) _ _).mpr hnot⟩

/-- A binary frame that announces `2 ^ 32 + 1` bytes is a frame of one byte to a
32-bit build, and the bytes behind it are read as the next frame. -/
theorem oversized_read_as_short :
    outcome 32 [0x82, 127, 0, 0, 0, 1, 0, 0, 0, 1, 7] false = .frame ⟨true, 2, [7]⟩ [] ∧
      ¬ ∀ stream closed, ReadsAsAnnounced 32 stream closed := by
  have hframe : outcome 32 [0x82, 127, 0, 0, 0, 1, 0, 0, 0, 1, 7] false =
      .frame ⟨true, 2, [7]⟩ [] := rfl
  refine ⟨hframe, ?_⟩
  intro hreads
  obtain ⟨h, hheader, hlength, _⟩ := (hreads _ _).exact _ _ hframe
  cases hheader
  revert hlength
  decide

end Newt.Transport
