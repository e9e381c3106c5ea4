import Newt.Noise.Handshake

/-! # Established sessions

The transport keys of one session and its replay window. Both directions check
that the destination buffer is large enough and panic otherwise. On receipt the
check comes first, before the index, the replay window, and the tag.
-/

namespace Newt.Noise

open Foundation

def wordSize : Nat := 64
def nWords : Nat := 16
def nBits : Nat := wordSize * nWords

/-- The counters seen so far: all below `next - 1024` count as seen, the last
1024 are kept in a bitmap. Counters are 64-bit and wrap. -/
structure ReceivingKeyCounterValidator where
  next : Nat
  receiveCnt : Nat
  bitmap : Vector (BitVec 64) nWords
  deriving DecidableEq, Repr

namespace ReceivingKeyCounterValidator

def default : ReceivingKeyCounterValidator := ⟨0, 0, Vector.replicate nWords 0⟩

def word (idx : Nat) : Fin nWords :=
  ⟨idx % nBits / wordSize, by simp only [nBits, nWords, wordSize]; omega⟩

def bit (idx : Nat) : Nat := idx % nBits % wordSize

def setBit (v : ReceivingKeyCounterValidator) (idx : Nat) : ReceivingKeyCounterValidator :=
  { v with bitmap := v.bitmap.set (word idx) (v.bitmap.get (word idx) ||| 1#64 <<< bit idx) }

def clearBit (v : ReceivingKeyCounterValidator) (idx : Nat) : ReceivingKeyCounterValidator :=
  { v with bitmap := v.bitmap.set (word idx) (v.bitmap.get (word idx) &&& ~~~(1#64 <<< bit idx)) }

/-- Clear the word that contains `idx`. -/
def clearWord (v : ReceivingKeyCounterValidator) (idx : Nat) : ReceivingKeyCounterValidator :=
  { v with bitmap := v.bitmap.set (word idx) 0 }

def checkBit (v : ReceivingKeyCounterValidator) (idx : Nat) : Bool :=
  ((v.bitmap.get (word idx) >>> bit idx) &&& 1) == 1

/-- The counter was not received yet and is not too far back. -/
def willAccept (v : ReceivingKeyCounterValidator) (counter : Nat) : Except WireGuardError Unit :=
  -- a growing counter cannot be a replay
  if v.next ≤ counter then .ok ()
  else if (counter + nBits) % 2 ^ 64 < v.next then .error .invalidCounter
  else if !v.checkBit counter then .ok ()
  else .error .duplicateCounter

/-- Clear bits from `i` up to a word boundary or `counter`. -/
def clearToWord (v : ReceivingKeyCounterValidator) (i counter : Nat) :
    ReceivingKeyCounterValidator × Nat :=
  if i % wordSize ≠ 0 ∧ i < counter then clearToWord (v.clearBit i) (i + 1) counter else (v, i)
termination_by counter - i

/-- Clear whole words while more than a word is left. -/
def clearWords (v : ReceivingKeyCounterValidator) (i counter : Nat) :
    ReceivingKeyCounterValidator × Nat :=
  if i + wordSize < counter then
    -- the mask of the source rounds down to a word boundary
    clearWords (v.clearWord i) ((i + wordSize) - (i + wordSize) % wordSize) counter
  else (v, i)
termination_by counter - i
decreasing_by simp only [wordSize] at *; omega

/-- Clear the remaining bits before `counter`. -/
def clearRest (v : ReceivingKeyCounterValidator) (i counter : Nat) :
    ReceivingKeyCounterValidator :=
  if i < counter then clearRest (v.clearBit i) (i + 1) counter else v
termination_by counter - i

/-- Mark a counter as received, unless it turned out to be used. -/
def markDidReceive (v : ReceivingKeyCounterValidator) (counter : Nat) :
    Except WireGuardError ReceivingKeyCounterValidator :=
  if (counter + nBits) % 2 ^ 64 < v.next then .error .invalidCounter
  else if counter = v.next then
    .ok { v.setBit counter with next := (v.next + 1) % 2 ^ 64 }
  else if counter < v.next then
    if v.checkBit counter then .error .invalidCounter else .ok (v.setBit counter)
  else
    -- packets were dropped or reordered, so the bits in between are stale
    let cleared :=
      if nBits ≤ counter - v.next then { v with bitmap := Vector.replicate nWords 0 }
      else
        let (aligned, i) := v.clearToWord v.next counter
        let (words, i) := aligned.clearWords i counter
        words.clearRest i counter
    .ok { cleared.setBit counter with next := (counter + 1) % 2 ^ 64 }

end ReceivingKeyCounterValidator

structure Session where
  receivingIndex : BitVec 32
  sendingIndex : BitVec 32
  receiver : Bytes
  sender : Bytes
  sendingKeyCounter : Nat
  receivingKeyCounter : ReceivingKeyCounterValidator
  deriving DecidableEq, Repr

namespace Session

def new (seed : SessionSeed) : Session where
  receivingIndex := seed.localIndex
  sendingIndex := seed.peerIndex
  receiver := seed.receivingKey
  sender := seed.sendingKey
  sendingKeyCounter := 0
  receivingKeyCounter := .default

def localIndex (session : Session) : Nat := session.receivingIndex.toNat

/-- `receiving_counter_mark`: mark the counter and count the packet. -/
def receivingCounterMark (session : Session) (counter : Nat) : Except WireGuardError Session :=
  match session.receivingKeyCounter.markDidReceive counter with
  | .error e => .error e
  | .ok v => .ok { session with
      receivingKeyCounter := { v with receiveCnt := (v.receiveCnt + 1) % 2 ^ 64 } }

/-- Encrypt a packet of the interface into a buffer of `dstLen` bytes. -/
def formatPacketData (P : Primitives) (session : Session) (src : Bytes) (dstLen : Nat) :
    Except Panic (Session × Bytes) :=
  if dstLen < src.length + dataOverheadSz then .error .destinationBufferTooSmall
  else
    let counter := session.sendingKeyCounter
    .ok ({ session with sendingKeyCounter := (counter + 1) % 2 ^ 64 },
      leBytes 4 data ++ leBytes 4 session.sendingIndex.toNat ++ leBytes 8 counter ++
        P.aeadChacha20Seal session.sender counter src [])

/-- Decrypt a data packet of the network into a buffer of `dstLen` bytes. -/
def receivePacketData (P : Primitives) (session : Session) (packet : PacketData) (dstLen : Nat) :
    Except Panic (Session × Except WireGuardError Bytes) :=
  if dstLen < packet.encryptedEncapsulatedPacket.length then .error .destinationBufferTooSmall
  else if packet.receiverIdx ≠ session.receivingIndex then .ok (session, .error .wrongIndex)
  else
    match session.receivingKeyCounter.willAccept packet.counter with
    | .error e => .ok (session, .error e)
    | .ok () =>
        match P.aeadChacha20Open session.receiver packet.counter
            packet.encryptedEncapsulatedPacket [] with
        | .error e => .ok (session, .error e)
        | .ok plaintext =>
            match session.receivingCounterMark packet.counter with
            | .error e => .ok (session, .error e)
            | .ok session' => .ok (session', .ok plaintext)

end Session

end Newt.Noise
