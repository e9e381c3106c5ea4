import Newt.Transport.Frame

/-! # The frame codec

What `write_frame` sends, `read_frame` reads back, frame by frame, and it leaves
the stream behind the frames untouched. The frames of a server may also be
unmasked, and only its last fragments carry the FIN flag.
-/

namespace Newt.Transport

open Foundation ReadProgram

/-! ## Frames on the wire -/

/-- The flag in the top bit of a header byte. -/
def flagBit (flag : Bool) : UInt8 := if flag then 0x80 else 0

/-- The length field of seven bits. -/
def len7 (len : Nat) : UInt8 :=
  if len < 126 then UInt8.ofNat len else if len ≤ 65535 then 126 else 127

/-- The extended length in network byte order. -/
def extended (len : Nat) : List UInt8 :=
  if len < 126 then [] else if len ≤ 65535 then beBytes 2 len else beBytes 8 len

/-- A frame on the wire, masked if there is a mask. -/
def encodeFrame (fin : Bool) (opcode : UInt8) (mask : Option (List UInt8)) (payload : List UInt8) :
    List UInt8 :=
  [flagBit fin ||| opcode, flagBit mask.isSome ||| len7 payload.length] ++
    (extended payload.length ++ (mask.getD [] ++ mask.elim payload fun m => applyMask m payload))

/-- Frames of a client are final and masked. -/
theorem writeFrame_eq (opcode : UInt8) (payload mask : List UInt8) :
    writeFrame opcode payload mask = encodeFrame true opcode (some mask) payload := by
  by_cases hshort : payload.length < 126
  · simp [writeFrame, encodeFrame, len7, extended, flagBit, hshort]
  · by_cases hmedium : payload.length ≤ 65535
    · simp [writeFrame, encodeFrame, len7, extended, flagBit, hshort, hmedium]
    · simp [writeFrame, encodeFrame, len7, extended, flagBit, hshort, hmedium]

theorem flagBit_ne_zero (flag : Bool) : (flagBit flag != 0) = flag := by
  cases flag <;> rfl

/-- The flag and the seven bits below it do not disturb each other. -/
theorem flagBit_or_and (flag : Bool) {low : UInt8} (hlow : low < 128) :
    (flagBit flag ||| low) &&& 0x80 = flagBit flag ∧ (flagBit flag ||| low) &&& 0x7f = low := by
  have hset : ∀ b : BitVec 8, b < 128 →
      (0x80 ||| b) &&& 0x80 = 0x80 ∧ (0x80 ||| b) &&& 0x7f = b := by
    decide
  have hclear : ∀ b : BitVec 8, b < 128 → (0 ||| b) &&& 0x80 = 0 ∧ (0 ||| b) &&& 0x7f = b := by
    decide
  cases flag with
  | true =>
      obtain ⟨hflag, hrest⟩ := hset low.toBitVec hlow
      exact ⟨UInt8.toBitVec_inj.mp hflag, UInt8.toBitVec_inj.mp hrest⟩
  | false =>
      obtain ⟨hflag, hrest⟩ := hclear low.toBitVec hlow
      exact ⟨UInt8.toBitVec_inj.mp hflag, UInt8.toBitVec_inj.mp hrest⟩

theorem and_nibble {opcode : UInt8} (hopcode : opcode < 16) (flag : Bool) :
    (flagBit flag ||| opcode) &&& 0x0f = opcode := by
  have hnibble : ∀ b : BitVec 8, b < 16 → (0x80 ||| b) &&& 0x0f = b ∧ (0 ||| b) &&& 0x0f = b := by
    decide
  obtain ⟨hset, hclear⟩ := hnibble opcode.toBitVec hopcode
  cases flag with
  | true => exact UInt8.toBitVec_inj.mp hset
  | false => exact UInt8.toBitVec_inj.mp hclear

theorem toNat_ofNat_of_lt {len : Nat} (hlen : len < 126) : (UInt8.ofNat len).toNat = len :=
  UInt8.toNat_ofNat_of_lt' (by rw [UInt8.size]; omega)

theorem len7_lt (len : Nat) : len7 len < 128 := by
  unfold len7
  split
  next hshort =>
    rw [UInt8.lt_iff_toNat_lt, toNat_ofNat_of_lt hshort]
    exact Nat.lt_trans hshort (by decide)
  next =>
    split
    · decide
    · decide

/-- Masking twice with the same mask is the identity. -/
theorem applyMask_applyMask (mask payload : List UInt8) :
    applyMask mask (applyMask mask payload) = payload := by
  unfold applyMask
  rw [List.mapIdx_mapIdx]
  apply List.ext_getElem?
  intro i
  rw [List.getElem?_mapIdx]
  cases payload[i]? with
  | none => rfl
  | some byte =>
      simp only [Option.map_some, Function.comp_apply]
      rw [UInt8.xor_assoc, UInt8.xor_self, UInt8.xor_zero]

/-! ## Reading back -/

theorem header_accepts (first second : UInt8) :
    (exactly 2 : ReadProgram UInt8 IoError (List UInt8)).Accepts [first, second] [first, second] :=
  accepts_exactly rfl

/-- An announced length is read back as long as it is a `usize`. -/
theorem readLen_accepts {usizeBits len : Nat} (hwidth : usizeBits ≤ 64)
    (hlen : len < 2 ^ usizeBits) : (readLen usizeBits (len7 len)).Accepts (extended len) len := by
  unfold len7 extended
  split
  next hshort =>
    have hvalue := toNat_ofNat_of_lt hshort
    have hne : ∀ special : UInt8, 126 ≤ special.toNat → UInt8.ofNat len ≠ special := by
      rintro special hspecial rfl
      omega
    rw [readLen, if_neg (hne 126 (by decide)), if_neg (hne 127 (by decide)), hvalue]
    exact accepts_pure len
  next hlong =>
    split
    next hmedium =>
      have hvalue : beNat (beBytes 2 len) = len := by
        rw [beNat_beBytes, Nat.mod_eq_of_lt (by omega)]
      have hread := (accepts_exactly (ε := IoError) (beBytes_length 2 len)).bind_pure beNat
      rw [hvalue] at hread
      rw [readLen, if_pos rfl]
      exact hread
    next hlarge =>
      have hword : len < 256 ^ 8 := by
        have hpow : 2 ^ usizeBits ≤ 2 ^ 64 := Nat.pow_le_pow_right (by decide) hwidth
        omega
      have hvalue : beNat (beBytes 8 len) % 2 ^ usizeBits = len := by
        rw [beNat_beBytes, Nat.mod_eq_of_lt hword, Nat.mod_eq_of_lt hlen]
      have hread := (accepts_exactly (ε := IoError) (beBytes_length 8 len)).bind_pure
        fun l => beNat l % 2 ^ usizeBits
      rw [hvalue] at hread
      rw [readLen, if_neg (by decide), if_pos rfl]
      exact hread

theorem readMask_accepts {mask : Option (List UInt8)} (hmask : ∀ m ∈ mask, m.length = 4) :
    (readMask mask.isSome).Accepts (mask.getD []) mask := by
  cases mask with
  | none => exact accepts_pure none
  | some m =>
      exact (accepts_exactly (hmask m rfl)).bind_pure some

/-- A frame with a payload of admissible length is read back, and the stream
behind it is left alone. -/
theorem readFrame_accepts {usizeBits : Nat} (hwidth : usizeBits ≤ 64)
    (hlimit : maxFrame < 2 ^ usizeBits) (fin : Bool) {opcode : UInt8} (hopcode : opcode < 16)
    {mask : Option (List UInt8)} (hmask : ∀ m ∈ mask, m.length = 4) {payload : List UInt8}
    (hpayload : payload.length ≤ maxFrame) :
    (readFrame usizeBits).Accepts (encodeFrame fin opcode mask payload) ⟨fin, opcode, payload⟩ := by
  have hlen := readLen_accepts hwidth (Nat.lt_of_le_of_lt hpayload hlimit)
  obtain ⟨hfin, _⟩ := flagBit_or_and fin (UInt8.lt_trans hopcode (by decide))
  obtain ⟨hmasked, hlen7⟩ := flagBit_or_and mask.isSome (len7_lt payload.length)
  unfold readFrame encodeFrame
  refine (header_accepts _ _).bind ?_
  simp only [List.getD_cons_zero, List.getD_cons_succ, hfin, hmasked, hlen7, flagBit_ne_zero,
    and_nibble hopcode]
  refine hlen.bind ?_
  rw [if_neg (Nat.not_lt.mpr hpayload)]
  refine (readMask_accepts hmask).bind ?_
  cases mask with
  | none =>
      exact (accepts_exactly (ε := IoError) (rfl : payload.length = payload.length)).bind_pure
        fun p => (⟨fin, opcode, p⟩ : Frame)
  | some m =>
      have hread := (accepts_exactly (ε := IoError) (applyMask_length m payload)).bind_pure
        fun p => (⟨fin, opcode, applyMask m p⟩ : Frame)
      rw [applyMask_applyMask] at hread
      exact hread

/-- A payload that is too large for a frame is refused at its length. -/
theorem readFrame_refuses {usizeBits : Nat} (hwidth : usizeBits ≤ 64) (fin : Bool) (opcode : UInt8)
    (mask : Option (List UInt8)) {payload : List UInt8} (hpayload : maxFrame < payload.length)
    (hlen : payload.length < 2 ^ usizeBits) (trailing : List UInt8) :
    ∃ rest, (readFrame usizeBits).settle.consume (encodeFrame fin opcode mask payload ++ trailing) =
      (.failed "websocket frame too large", rest) := by
  obtain ⟨_, hlen7⟩ := flagBit_or_and mask.isSome (len7_lt payload.length)
  have hread := readLen_accepts hwidth hlen
  rw [encodeFrame, List.append_assoc, List.append_assoc]
  unfold readFrame
  rw [settle_bind, consume_bind _ (header_accepts _ _ _)]
  simp only [List.getD_cons_succ, List.getD_cons_zero, hlen7]
  rw [settle_bind, consume_bind _ (hread _), if_pos hpayload]
  exact ⟨_, consume_failed _ _⟩

/-- A frame that `write_frame` emits. -/
structure Outgoing where
  opcode : UInt8
  payload : List UInt8
  mask : List UInt8
  opcode_lt : opcode < 16
  mask_length : mask.length = 4

namespace Outgoing

def bytes (frame : Outgoing) : List UInt8 := writeFrame frame.opcode frame.payload frame.mask

def toFrame (frame : Outgoing) : Frame := ⟨true, frame.opcode, frame.payload⟩

theorem accepts {usizeBits : Nat} (hwidth : usizeBits ≤ 64) (hlimit : maxFrame < 2 ^ usizeBits)
    {frame : Outgoing} (hpayload : frame.payload.length ≤ maxFrame) :
    (readFrame usizeBits).Accepts frame.bytes frame.toFrame := by
  unfold bytes
  rw [writeFrame_eq]
  refine readFrame_accepts hwidth hlimit true frame.opcode_lt ?_ hpayload
  rintro m ⟨⟩
  exact frame.mask_length

end Outgoing

/-- The frames that `write_frame` emits are read back one by one, for both pointer
widths. A payload above the limit, whose length is a `usize`, is refused. -/
theorem readFrames_writeFrames {usizeBits : Nat} (hwidth : usizeBits = 32 ∨ usizeBits = 64) :
    (∀ (frames : List Outgoing) (trailing : List UInt8),
      (∀ frame ∈ frames, frame.payload.length ≤ maxFrame) →
        ((readFrame usizeBits).times frames.length).settle.consume
            (frames.flatMap Outgoing.bytes ++ trailing) =
          (.returned (frames.map Outgoing.toFrame), trailing)) ∧
      ∀ (frame : Outgoing) (trailing : List UInt8), maxFrame < frame.payload.length →
        frame.payload.length < 2 ^ usizeBits →
          ∃ rest, (readFrame usizeBits).settle.consume (frame.bytes ++ trailing) =
            (.failed "websocket frame too large", rest) := by
  have hwide : usizeBits ≤ 64 := by omega
  have hlimit := maxFrame_lt hwidth
  constructor
  · intro frames trailing hpayload
    exact accepts_times _ _ frames
      (fun frame hframe => Outgoing.accepts hwide hlimit (hpayload frame hframe)) trailing
  · intro frame trailing hpayload hlen
    rw [Outgoing.bytes, writeFrame_eq]
    exact readFrame_refuses hwide true frame.opcode (some frame.mask) hpayload hlen trailing

/-- A text frame and a pong, and a binary frame above the limit. -/
theorem readFrames_writeFrames_text_pong :
    ((readFrame 32).times 2).settle.consume
        (writeFrame 0x1 [0x68, 0x69] [1, 2, 3, 4] ++ writeFrame 0xA [] [5, 6, 7, 8] ++ [0x81]) =
          (.returned [⟨true, 0x1, [0x68, 0x69]⟩, ⟨true, 0xA, []⟩], [0x81]) ∧
      ∃ rest, (readFrame 32).settle.consume
        (writeFrame 0x2 (List.replicate (maxFrame + 1) 0) [1, 2, 3, 4] ++ []) =
          (.failed "websocket frame too large", rest) := by
  have hcodec := readFrames_writeFrames (.inl rfl : 32 = 32 ∨ 32 = 64)
  constructor
  · exact hcodec.1 [⟨0x1, [0x68, 0x69], [1, 2, 3, 4], by decide, rfl⟩,
      ⟨0xA, [], [5, 6, 7, 8], by decide, rfl⟩] [0x81] (by simp [maxFrame])
  · exact hcodec.2 ⟨0x2, List.replicate (maxFrame + 1) 0, [1, 2, 3, 4], by decide, rfl⟩ []
      (by rw [List.length_replicate]; exact Nat.lt_succ_self maxFrame)
      (by rw [List.length_replicate]; decide)

end Newt.Transport
