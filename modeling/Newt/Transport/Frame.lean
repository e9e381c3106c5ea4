import Newt.Core.Text
import Newt.Foundation.Bytes
import Newt.Foundation.ReadProgram

/-! # WebSocket frames of the control channel

The hand-written frame codec of `transport/ws.rs`. Reading a frame waits for
its header, extended length, mask, and payload in turn, so a reader can be
suspended in each of them. `usizeBits` is the pointer width of the build: a
64-bit extended length is cast to `usize` before it is compared with the limit.
-/

namespace Newt

open Foundation

namespace Transport

/-- Largest control-plane frame that is accepted. -/
def maxFrame : Nat := 16 * 1024 * 1024

theorem maxFrame_lt {usizeBits : Nat} (hwidth : usizeBits = 32 ∨ usizeBits = 64) :
    maxFrame < 2 ^ usizeBits := by
  rcases hwidth with rfl | rfl
  · decide
  · decide

/-- One frame with its payload unmasked. -/
structure Frame where
  fin : Bool
  opcode : UInt8
  payload : List UInt8
  deriving DecidableEq, Repr

/-- Exclusive or with the four mask bytes, repeated along the payload. -/
def applyMask (mask payload : List UInt8) : List UInt8 :=
  payload.mapIdx fun i byte => byte ^^^ mask.getD (i &&& 3) 0

theorem applyMask_length (mask payload : List UInt8) :
    (applyMask mask payload).length = payload.length := by
  unfold applyMask
  rw [List.length_mapIdx]

/-- The payload length announced by the header. -/
def readLen (usizeBits : Nat) (len7 : UInt8) : ReadProgram UInt8 IoError Nat :=
  if len7 = 126 then do
    let l ← ReadProgram.exactly 2
    return beNat l
  else if len7 = 127 then do
    let l ← ReadProgram.exactly 8
    return beNat l % 2 ^ usizeBits
  else return len7.toNat

def readMask (masked : Bool) : ReadProgram UInt8 IoError (Option (List UInt8)) :=
  if masked then do
    let m ← ReadProgram.exactly 4
    return some m
  else return none

/-- Read one frame: fin flag, opcode, and unmasked payload. -/
def readFrame (usizeBits : Nat) : ReadProgram UInt8 IoError Frame := do
  let h ← ReadProgram.exactly 2
  let h0 := h.getD 0 0
  let h1 := h.getD 1 0
  let fin := h0 &&& 0x80 != 0
  let opcode := h0 &&& 0x0f
  let masked := h1 &&& 0x80 != 0
  let len ← readLen usizeBits (h1 &&& 0x7f)
  if maxFrame < len then
    ReadProgram.fail "websocket frame too large"
  else
    let mask ← readMask masked
    let payload ← ReadProgram.exactly len
    match mask with
    | some m => return ⟨fin, opcode, applyMask m payload⟩
    | none => return ⟨fin, opcode, payload⟩

/-- One client frame: FIN set and the payload masked with `mask`. -/
def writeFrame (opcode : UInt8) (payload mask : List UInt8) : List UInt8 :=
  let len := payload.length
  let announced :=
    if len < 126 then [0x80 ||| UInt8.ofNat len]
    else if len ≤ 65535 then (0x80 ||| 126) :: beBytes 2 len
    else (0x80 ||| 127) :: beBytes 8 len
  (0x80 ||| opcode) :: announced ++ mask ++ applyMask mask payload

end Transport

end Newt
