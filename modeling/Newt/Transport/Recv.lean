import Newt.Foundation.LoopedReader
import Newt.Transport.Frame

/-! # Receiving control messages

`recv` reads frames until a text message is complete. It answers pings on the
way and skips binary messages. The unfinished message lives in the locals of
the call. Both session loops call it from a `select!`, which drops the pending
call whenever another branch completes first.
-/

namespace Newt.Transport

open Foundation

/-- The locals of a running `recv`. -/
structure RecvLocals where
  msg : List UInt8
  msgIsText : Bool
  deriving DecidableEq, Repr

/-- A frame handed to the socket: opcode and payload before masking. -/
structure Written where
  opcode : UInt8
  payload : List UInt8
  deriving DecidableEq, Repr

/-- What `recv` returns: a control message, or nothing after a close frame. -/
abbrev RecvResult (Msg : Type) := Except IoError (Option Msg)

/-- What `recv` uses of its surroundings: the JSON decoder for message bytes,
and the outcome of writing a frame to the socket. -/
structure Wire (Msg : Type) where
  decode : List UInt8 → Except IoError Msg
  write : Written → Except IoError Unit

variable {Msg : Type}

/-- The body of the loop of `recv` after a frame was read. -/
def onFrame (wire : Wire Msg) (locals : RecvLocals) (frame : Frame) :
    Verdict RecvLocals (RecvResult Msg) × List Written :=
  if frame.opcode = 0x9 then
    match wire.write ⟨0xA, frame.payload⟩ with
    | .ok () => (.again locals, [⟨0xA, frame.payload⟩])
    | .error e => (.returned (.error e), [])
  else if frame.opcode = 0xA then (.again locals, [])
  else if frame.opcode = 0x8 then (.returned (.ok none), [])
  else if frame.opcode = 0x0 ∨ frame.opcode = 0x1 ∨ frame.opcode = 0x2 then
    let locals : RecvLocals :=
      if frame.opcode = 0x1 then ⟨[], true⟩
      else if frame.opcode = 0x2 then ⟨[], false⟩
      else locals
    let msg := locals.msg ++ frame.payload
    if frame.fin then
      if locals.msgIsText then
        match wire.decode msg with
        | .ok m => (.returned (.ok (some m)), [])
        | .error e => (.returned (.error e), [])
      else (.again { locals with msg := [] }, [])
    else (.again { locals with msg := msg }, [])
  else (.returned (.error "unknown websocket opcode"), [])

/-- The message so far, and whether its last fragment was read. -/
def collect (wire : Wire Msg) (text : Bool) (msg : List UInt8) (fin : Bool) :
    Verdict RecvLocals (RecvResult Msg) × List Written :=
  if fin then
    if text then (.returned ((wire.decode msg).map some), []) else (.again ⟨[], false⟩, [])
  else (.again ⟨msg, text⟩, [])

section OneFrame

variable (wire : Wire Msg)

theorem onFrame_first (locals : RecvLocals) (fin text : Bool) (payload : List UInt8) :
    onFrame wire locals ⟨fin, if text then 0x1 else 0x2, payload⟩ =
      collect wire text payload fin := by
  unfold onFrame collect
  cases text with
  | true =>
      cases fin with
      | true =>
          cases hdecode : wire.decode payload <;> simp [hdecode, Except.map]
      | false => simp
  | false => cases fin <;> simp

theorem onFrame_continuation (got : List UInt8) (fin text : Bool) (payload : List UInt8) :
    onFrame wire ⟨got, text⟩ ⟨fin, 0x0, payload⟩ = collect wire text (got ++ payload) fin := by
  unfold onFrame collect
  cases fin with
  | true =>
      cases text with
      | true => cases hdecode : wire.decode (got ++ payload) <;> simp [hdecode, Except.map]
      | false => simp
  | false => simp

theorem onFrame_close {locals : RecvLocals} {frame : Frame} (hclose : frame.opcode = 0x8) :
    onFrame wire locals frame = (.returned (.ok none), []) := by
  simp [onFrame, hclose]

end OneFrame

/-- The sessions end on an error and on a closed channel. -/
def endsSession : RecvResult Msg → Bool
  | .ok (some _) => false
  | _ => true

/-- Successive calls of `recv` on one connection. -/
def recv (usizeBits : Nat) (wire : Wire Msg) :
    LoopedReader UInt8 IoError Frame RecvLocals (RecvResult Msg) Written where
  body := readFrame usizeBits
  opening := ⟨2, _, [], by decide⟩
  opening_eq := rfl
  start := ⟨[], false⟩
  onItem := onFrame wire
  onFail := .error
  stops := endsSession

end Newt.Transport
