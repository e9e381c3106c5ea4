import Newt.Transport.Recv

/-! # Dropping a pending `recv`

A dropped `recv` discards the bytes of its unfinished frame and the fragments
of its unfinished message. The drop is harmless while it holds neither: when
the call waits for the first byte of a frame and no text message is open.
Fragments of a binary message may be lost, since `recv` skips them anyway.
-/

namespace Newt.Transport

open Foundation LoopedReader

variable {Msg : Type}

/-- The call waits for the first byte of a frame, outside any text message. -/
def BetweenMessages (usizeBits : Nat) (wire : Wire Msg)
    (call : Call UInt8 IoError Frame RecvLocals) : Prop :=
  call.reading = (recv usizeBits wire).opening ∧ call.locals.msgIsText = false

/-- Locals that differ at most in the bytes of a message `recv` will skip. -/
def RecvLocals.Agree (first second : RecvLocals) : Prop :=
  first.msgIsText = second.msgIsText ∧ (first.msgIsText = true → first.msg = second.msg)

theorem RecvLocals.Agree.eq_of_text {first second : RecvLocals} (hagree : first.Agree second)
    (htext : first.msgIsText = true) : first = second := by
  cases first
  cases second
  obtain ⟨hflag, hmsg⟩ := hagree
  simp_all

/-- A data frame keeps agreeing locals in agreement, and returns from both
calls alike. -/
theorem onFrame_agree (wire : Wire Msg) {first second : RecvLocals}
    (hagree : first.Agree second) (frame : Frame) :
    onFrame wire first frame = onFrame wire second frame ∨
      ∃ next next' effects, onFrame wire first frame = (.again next, effects) ∧
        onFrame wire second frame = (.again next', effects) ∧ next.Agree next' := by
  by_cases htext : first.msgIsText = true
  · exact Or.inl (by rw [hagree.eq_of_text htext])
  obtain ⟨got, text⟩ := first
  obtain ⟨got', text'⟩ := second
  obtain rfl : text = text' := hagree.1
  obtain rfl : text = false := by simpa using htext
  obtain ⟨fin, opcode, payload⟩ := frame
  by_cases hping : opcode = 0x9
  · subst hping
    simp only [onFrame, if_true]
    cases wire.write ⟨0xA, payload⟩ with
    | ok _ => exact Or.inr ⟨_, _, _, rfl, rfl, hagree⟩
    | error e => exact Or.inl rfl
  by_cases hpong : opcode = 0xA
  · subst hpong
    exact Or.inr ⟨_, _, _, rfl, rfl, hagree⟩
  by_cases hclose : opcode = 0x8
  · exact Or.inl (by rw [onFrame_close wire hclose, onFrame_close wire hclose])
  by_cases hone : opcode = 0x1
  · subst hone
    exact Or.inl ((onFrame_first wire _ fin true payload).trans
      (onFrame_first wire _ fin true payload).symm)
  by_cases htwo : opcode = 0x2
  · subst htwo
    exact Or.inl ((onFrame_first wire _ fin false payload).trans
      (onFrame_first wire _ fin false payload).symm)
  by_cases hzero : opcode = 0x0
  · -- the fragment of a binary message, whose bytes are never looked at
    subst hzero
    rw [onFrame_continuation, onFrame_continuation]
    cases fin with
    | true => exact Or.inl rfl
    | false => exact Or.inr ⟨_, _, _, rfl, rfl, rfl, fun hopen => by cases hopen⟩
  · exact Or.inl (by simp only [onFrame, hping, hpong, hclose, hone, htwo, hzero, or_self, if_false])

/-- Calls at the same place of a frame with agreeing locals give the same
service on every continuation. -/
theorem interchangeable_of_agree (usizeBits : Nat) (wire : Wire Msg)
    {first second : Call UInt8 IoError Frame RecvLocals}
    (hreading : first.reading = second.reading) (hagree : first.locals.Agree second.locals) :
    (recv usizeBits wire).Interchangeable first second := by
  intro symbols
  induction symbols generalizing first second with
  | nil => exact ⟨rfl, rfl⟩
  | cons symbol rest ih =>
      simp only [serve, push, hreading]
      cases second.reading.push symbol with
      | failed error => exact ⟨rfl, rfl⟩
      | waiting reading =>
          have htail := @ih { first with reading := reading } { second with reading := reading }
            rfl hagree
          simpa [Served.after] using htail
      | returned frame =>
          rcases onFrame_agree wire hagree frame with hsame | ⟨next, next', effects, h₁, h₂, hnext⟩
          · simp only [recv, hsame, and_self]
          · have htail := @ih ⟨next, (recv usizeBits wire).opening⟩
              ⟨next', (recv usizeBits wire).opening⟩ rfl hnext
            simp only [recv] at htail ⊢
            simpa [h₁, h₂, Served.after] using htail

theorem BetweenMessages.interchangeable {usizeBits : Nat} {wire : Wire Msg}
    {call : Call UInt8 IoError Frame RecvLocals} (hcall : BetweenMessages usizeBits wire call) :
    (recv usizeBits wire).Interchangeable call (recv usizeBits wire).fresh := by
  obtain ⟨hreading, htext⟩ := hcall
  refine interchangeable_of_agree usizeBits wire hreading ⟨htext, ?_⟩
  intro hopen
  rw [htext] at hopen
  contradiction

/-- Whatever the stream, its arrivals, and the drops: when every dropped `recv`
waits between messages, the completed calls return exactly the messages of
uninterrupted calls. -/
theorem recv_returnsExactly (usizeBits : Nat) (wire : Wire Msg) (schedule : List (Event UInt8))
    (hdrops : (recv usizeBits wire).CancelsOnly (BetweenMessages usizeBits wire)
      (recv usizeBits wire).initial schedule) :
    (recv usizeBits wire).ReturnsExactly schedule :=
  returnsExactly_of_cancelsOnly _ _ (fun _ hcall => hcall.interchangeable) schedule hdrops

/-- A server text frame with the control message `{"type":"a","data":0}`. -/
def helloFrame : List UInt8 :=
  [0x81, 21, 0x7b, 0x22, 0x74, 0x79, 0x70, 0x65, 0x22, 0x3a, 0x22, 0x61, 0x22, 0x2c, 0x22,
    0x64, 0x61, 0x74, 0x61, 0x22, 0x3a, 0x30, 0x7d]

/-- A socket that accepts every write, and a decoder that knows one message. -/
def helloWire : Wire Unit where
  decode bytes := if bytes = helloFrame.drop 2 then .ok () else .error "expected value"
  write _ := .ok ()

/-- A ping is answered, the idle call is dropped by a tick, and the message
that follows arrives in two parts. -/
theorem recv_returnsExactly_after_ping :
    (recv 64 helloWire).CancelsOnly (BetweenMessages 64 helloWire) (recv 64 helloWire).initial
        [.arrive [0x89, 0], .poll, .cancel, .arrive (helloFrame.take 5), .poll,
          .arrive (helloFrame.drop 5), .poll] ∧
      (recv 64 helloWire).ReturnsExactly
        [.arrive [0x89, 0], .poll, .cancel, .arrive (helloFrame.take 5), .poll,
          .arrive (helloFrame.drop 5), .poll] := by
  have hdrops : (recv 64 helloWire).CancelsOnly (BetweenMessages 64 helloWire)
      (recv 64 helloWire).initial
        [.arrive [0x89, 0], .poll, .cancel, .arrive (helloFrame.take 5), .poll,
          .arrive (helloFrame.drop 5), .poll] :=
    ⟨trivial, trivial, fun _ => ⟨rfl, rfl⟩, trivial, trivial, trivial, trivial, trivial⟩
  exact ⟨hdrops, recv_returnsExactly 64 helloWire _ hdrops⟩

/-- The tick branch completes after the first header byte was read. The rest of
the frame is then taken for the header of another frame, and the message never
arrives. -/
theorem recv_drop_in_header_loses_message :
    ¬ ∀ schedule : List (Event UInt8), (recv 64 helloWire).ReturnsExactly schedule := by
  intro hexact
  have hresults := (hexact [.arrive (helloFrame.take 1), .poll, .cancel,
    .arrive (helloFrame.drop 1), .poll]).2 (Or.inr (by decide))
  have hlost := congrArg List.length hresults
  revert hlost
  decide

end Newt.Transport
