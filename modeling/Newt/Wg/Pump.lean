import Newt.Noise.Tunn

/-! # The pump around a WireGuard tunnel

The wrapper of `wg.rs`. Every call of the engine gets a scratch buffer sized by
the MTU. Buffer sizes are `usize` computations that fit for every MTU the
process can allocate, so they are plain numbers here.
-/

namespace Newt.Wg

open Foundation Noise

structure Pump where
  tun : Tunn
  mtu : Nat

/-- Output of feeding an inbound datagram into the pump. -/
inductive Inbound where
  | packet (packet : Bytes)
  | network (datagram : Bytes)
  | nothing
  deriving DecidableEq, Repr

/-- `public_from_b64`: 32 bytes in standard base64, whose decoder is external. -/
def publicFromB64 (decode : String → Except String Bytes) (s : String) : Except String Bytes :=
  match decode (String.ofList (Text.trim s.toList)) with
  | .error e => .error s!"bad pubkey b64: {e}"
  | .ok raw => if raw.length = 32 then .ok raw else .error "pubkey not 32 bytes"

namespace Pump

/-- Build a pump with an explicit WireGuard peer index. -/
def withIndex (P : Primitives) (secret peerPublic : Bytes) (mtu : Nat) (index : BitVec 32)
    (durationAtStart : Nat) : Pump :=
  ⟨Tunn.new P secret peerPublic none (some 5) index durationAtStart, mtu⟩

def new (P : Primitives) (secret peerPublic : Bytes) (mtu durationAtStart : Nat) : Pump :=
  withIndex P secret peerPublic mtu 0 durationAtStart

/-- The length of a scratch buffer. -/
def scratch (pump : Pump) : Nat := max pump.mtu 1500 + 32

/-- The length of the buffer both receive loops read datagrams into. -/
def recvBuf (mtu : Nat) : Nat := max mtu 1500 + 64

def networkOnly : TunnResult → Option Bytes
  | .writeToNetwork b => some b
  | _ => none

def inbound : TunnResult → Inbound
  | .writeToTunnelV4 p _ | .writeToTunnelV6 p _ => .packet p
  | .writeToNetwork b => .network b
  | _ => .nothing

/-- Encrypt an outbound IP packet. -/
def encapsulate (P : Primitives) (m : Moment) (pump : Pump) (packet : Bytes) :
    Except Panic (Pump × Option Bytes) :=
  match pump.tun.encapsulate P m packet pump.scratch with
  | .error p => .error p
  | .ok (tun, result) => .ok ({ pump with tun := tun }, networkOnly result)

/-- Decrypt one inbound datagram. The source address of a decrypted packet is
dropped. -/
def decapsulate (P : Primitives) (m : Moment) (pump : Pump) (datagram : Bytes) :
    Except Panic (Pump × Inbound) :=
  match pump.tun.decapsulate P m datagram pump.scratch with
  | .error p => .error p
  | .ok (tun, result) => .ok ({ pump with tun := tun }, inbound result)

/-- Ask for the next queued packet. -/
def drain (P : Primitives) (m : Moment) (pump : Pump) : Except Panic (Pump × Inbound) :=
  pump.decapsulate P m []

/-- Force a handshake initiation. -/
def initiateHandshake (P : Primitives) (m : Moment) (pump : Pump) : Pump × Option Bytes :=
  let (tun, result) := pump.tun.formatHandshakeInitiation P m pump.scratch false
  ({ pump with tun := tun }, networkOnly result)

def updateTimers (P : Primitives) (m : Moment) (pump : Pump) :
    Except Panic (Pump × Option Bytes) :=
  match pump.tun.updateTimers P m pump.scratch with
  | .error p => .error p
  | .ok (tun, result) => .ok ({ pump with tun := tun }, networkOnly result)

/-- Bounds the calls of `drain` that return a packet: one for each queued packet,
and one for an initiation when no handshake is in progress. -/
def pending (pump : Pump) : Nat :=
  pump.tun.packetQueue.length + if pump.tun.handshake.isInProgress then 0 else 1

/-- Call `drain` until it returns nothing, at most `fuel` times. The call
number selects the moment of each call. -/
def drainLoop (P : Primitives) (moments : Nat → Moment) :
    Nat → Nat → Pump → Except Panic (Pump × List Inbound)
  | 0, _, pump => .ok (pump, [])
  | fuel + 1, call, pump =>
      match pump.drain P (moments call) with
      | .error p => .error p
      | .ok (pump, .nothing) => .ok (pump, [])
      | .ok (pump, more) =>
          match drainLoop P moments fuel (call + 1) pump with
          | .error p => .error p
          | .ok (pump, rest) => .ok (pump, more :: rest)

/-- Feed a datagram and drain the queue, as both receive loops do. The source
loops without a bound, and `drainLoop_eq_of_pending_lt` shows that this bound
never cuts the loop short. -/
def receive (P : Primitives) (moments : Nat → Moment) (pump : Pump) (datagram : Bytes) :
    Except Panic (Pump × List Inbound) :=
  match pump.decapsulate P (moments 0) datagram with
  | .error p => .error p
  | .ok (pump, first) =>
      match drainLoop P moments (pump.pending + 1) 1 pump with
      | .error p => .error p
      | .ok (pump, rest) => .ok (pump, first :: rest)

/-- The part of a receive loop with the first `drains` calls of `drain`. -/
def receivePart (P : Primitives) (moments : Nat → Moment) (drains : Nat) (pump : Pump)
    (datagram : Bytes) : Except Panic (Pump × List Inbound) :=
  match pump.decapsulate P (moments 0) datagram with
  | .error p => .error p
  | .ok (pump, first) =>
      match drainLoop P moments drains 1 pump with
      | .error p => .error p
      | .ok (pump, rest) => .ok (pump, first :: rest)

/-- The whole loop is one of its parts. -/
theorem receive_eq_receivePart (P : Primitives) (moments : Nat → Moment) (pump : Pump)
    (datagram : Bytes) :
    ∃ drains, pump.receive P moments datagram = pump.receivePart P moments drains datagram := by
  rw [receive]
  split
  · next hpanic => exact ⟨0, by rw [receivePart, hpanic]⟩
  · next next first hfirst => exact ⟨next.pending + 1, by rw [receivePart, hfirst]⟩

/-- The pumps that a sequence of operations can produce. -/
inductive Reachable (P : Primitives) : Pump → Prop
  | new (secret peerPublic : Bytes) (mtu : Nat) (index : BitVec 32) (durationAtStart : Nat) :
      Reachable P (withIndex P secret peerPublic mtu index durationAtStart)
  | encapsulate {pump next : Pump} {m : Moment} {packet : Bytes} {out : Option Bytes}
      (prior : Reachable P pump) (step : pump.encapsulate P m packet = .ok (next, out)) :
      Reachable P next
  | decapsulate {pump next : Pump} {m : Moment} {datagram : Bytes} {out : Inbound}
      (prior : Reachable P pump) (step : pump.decapsulate P m datagram = .ok (next, out)) :
      Reachable P next
  | initiateHandshake {pump : Pump} {m : Moment} (prior : Reachable P pump) :
      Reachable P (pump.initiateHandshake P m).1
  | updateTimers {pump next : Pump} {m : Moment} {out : Option Bytes}
      (prior : Reachable P pump) (step : pump.updateTimers P m = .ok (next, out)) :
      Reachable P next

end Pump

/-- The peer index of an inbound datagram: the receiver index without the low
byte. Initiations carry no receiver index. -/
def peerIndexOf (datagram : Bytes) : Option (BitVec 32) :=
  if datagram.length < 8 then none
  else
    let recvIdxOff :=
      if datagram.getD 0 0 = 2 then some 8
      else if datagram.getD 0 0 = 3 ∨ datagram.getD 0 0 = 4 then some 4
      else none
    match recvIdxOff with
    | none => none
    | some off =>
        if datagram.length < off + 4 then none
        else some (u32FromLe (slice datagram off (off + 4)) >>> 8)

end Newt.Wg
