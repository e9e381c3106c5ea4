import Mathlib.Logic.Function.Basic
import Newt.Noise.Session

/-! # The WireGuard tunnel to one peer

One handshake, a ring of sessions, a queue of packets that wait for a session,
and the timers that drive rekeying and keepalives. Every operation receives the
length of its destination buffer, as the engine does, and may panic on it.

Datagrams reach this engine without their source address, so the rate limiter
never answers with a cookie and only drops handshake messages under load.
-/

namespace Newt.Noise

open Foundation

def ipv4MinHeaderSize : Nat := 20
def ipv6MinHeaderSize : Nat := 40
def maxQueueDepth : Nat := 256
def nSessions : Nat := 8
def peerHandshakeRateLimit : Nat := 10

def secs (n : Nat) : Nat := n * 1000000000

def rekeyAfterTime : Nat := secs 120
def rejectAfterTime : Nat := secs 180
def rekeyAttemptTime : Nat := secs 90
def rekeyTimeout : Nat := secs 5
def keepaliveTimeout : Nat := secs 10
def cookieExpirationTime : Nat := secs 120

inductive TunnResult where
  | done
  | err (error : WireGuardError)
  | writeToNetwork (datagram : Bytes)
  | writeToTunnelV4 (packet : Bytes) (src : Ipv4Addr)
  | writeToTunnelV6 (packet : Bytes) (src : Ipv6Addr)
  deriving DecidableEq, Repr

inductive TimerName where
  | timeCurrent
  | timeSessionEstablished
  | timeLastHandshakeStarted
  | timeLastPacketReceived
  | timeLastPacketSent
  | timeLastDataPacketReceived
  | timeLastDataPacketSent
  | timeCookieReceived
  | timePersistentKeepalive
  deriving DecidableEq, Repr

/-- All times are counted from the creation of the tunnel. -/
structure Timers where
  isInitiator : Bool
  timers : TimerName → Nat
  sessionTimers : Fin nSessions → Nat
  wantKeepalive : Bool
  wantHandshake : Bool
  persistentKeepalive : Nat
  shouldResetRr : Bool

namespace Timers

def new (persistentKeepalive : Option Nat) (resetRr : Bool) : Timers where
  isInitiator := false
  timers _ := 0
  sessionTimers _ := 0
  wantKeepalive := false
  wantHandshake := false
  persistentKeepalive := persistentKeepalive.getD 0
  shouldResetRr := resetRr

/-- Set all timers to the current time. -/
def clear (timers : Timers) (now : Nat) : Timers :=
  { timers with timers := fun _ => now, wantHandshake := false, wantKeepalive := false }

end Timers

structure RateLimiter where
  mac1Key : Bytes
  limit : Nat
  count : Nat
  lastReset : Nat
  deriving DecidableEq, Repr

namespace RateLimiter

def new (P : Primitives) (publicKey : Bytes) (limit : Nat) : RateLimiter :=
  ⟨P.b2sHash labelMac1 publicKey, limit, 0, 0⟩

def resetCount (limiter : RateLimiter) (now : Nat) : RateLimiter :=
  if secs 1 ≤ now - limiter.lastReset then { limiter with count := 0, lastReset := now }
  else limiter

/-- `verify_packet` for a datagram without source address: check the first MAC
of handshake messages and count them. -/
def verifyPacket (P : Primitives) (limiter : RateLimiter) (src : Bytes) :
    RateLimiter × Except WireGuardError Packet :=
  match parseIncomingPacket src with
  | .error e => (limiter, .error e)
  | .ok packet =>
      match packet with
      | .handshakeInit _ | .handshakeResponse _ =>
          let msg := src.take (src.length - 32)
          let mac1 := slice src (src.length - 32) (src.length - 16)
          if P.b2sKeyedMac16 limiter.mac1Key msg ≠ mac1 then (limiter, .error .invalidMac)
          else
            let counted := { limiter with count := (limiter.count + 1) % 2 ^ 64 }
            -- without a source address no cookie can be sent
            if limiter.limit ≤ limiter.count then (counted, .error .underLoad)
            else (counted, .ok packet)
      | _ => (limiter, .ok packet)

end RateLimiter

structure Tunn where
  handshake : Handshake
  sessions : Fin nSessions → Option Session
  current : Nat
  packetQueue : List Bytes
  timers : Timers
  txBytes : Nat
  rxBytes : Nat
  rateLimiter : RateLimiter

namespace Tunn

/-- The place of a session index in the ring. -/
def slot (index : Nat) : Fin nSessions := ⟨index % nSessions, Nat.mod_lt _ (by decide)⟩

/-- The 24 bits of `index` that fit become the high bits of every local index. -/
def new (P : Primitives) (staticPrivate peerStaticPublic : Bytes) (presharedKey : Option Bytes)
    (persistentKeepalive : Option Nat) (index : BitVec 32) (durationAtStart : Nat) : Tunn where
  handshake := Handshake.new P staticPrivate (P.publicKey staticPrivate) peerStaticPublic
    (index <<< 8) presharedKey durationAtStart
  sessions _ := none
  current := 0
  packetQueue := []
  timers := Timers.new persistentKeepalive true
  txBytes := 0
  rxBytes := 0
  rateLimiter := RateLimiter.new P (P.publicKey staticPrivate) peerHandshakeRateLimit

def timerTick (t : Tunn) (name : TimerName) : Tunn :=
  let timers :=
    match name with
    | .timeLastPacketReceived => { t.timers with wantKeepalive := true, wantHandshake := false }
    | .timeLastPacketSent => { t.timers with wantHandshake := true, wantKeepalive := false }
    | _ => t.timers
  { t with timers := { timers with
      timers := Function.update timers.timers name (timers.timers .timeCurrent) } }

def timerTickSessionEstablished (t : Tunn) (isInitiator : Bool) (sessionIdx : Nat) : Tunn :=
  let t := t.timerTick .timeSessionEstablished
  { t with timers := { t.timers with
      sessionTimers := Function.update t.timers.sessionTimers (slot sessionIdx)
        (t.timers.timers .timeCurrent)
      isInitiator := isInitiator } }

/-- Drop all sessions and all waiting packets. -/
def clearAll (t : Tunn) (now : Nat) : Tunn :=
  { t with sessions := fun _ => none, packetQueue := [], timers := t.timers.clear now }

def updateSessionTimers (t : Tunn) (timeNow : Nat) : Tunn :=
  { t with
    sessions := fun i =>
      if rejectAfterTime < timeNow - t.timers.sessionTimers i then none else t.sessions i
    timers := { t.timers with
      sessionTimers := fun i =>
        if rejectAfterTime < timeNow - t.timers.sessionTimers i then timeNow
        else t.timers.sessionTimers i } }

def queuePacket (t : Tunn) (packet : Bytes) : Tunn :=
  if t.packetQueue.length < maxQueueDepth then
    { t with packetQueue := t.packetQueue ++ [packet] }
  else t

def requeuePacket (t : Tunn) (packet : Bytes) : Tunn :=
  if t.packetQueue.length < maxQueueDepth then
    { t with packetQueue := packet :: t.packetQueue }
  else t

/-- Send an initiation, unless one is in progress and `forceResend` is not set. -/
def formatHandshakeInitiation (P : Primitives) (m : Moment) (t : Tunn) (dstLen : Nat)
    (forceResend : Bool) : Tunn × TunnResult :=
  if t.handshake.isInProgress && !forceResend then (t, .done)
  else
    let t := if t.handshake.isExpired then { t with timers := t.timers.clear m.now } else t
    let startingNewHandshake := !t.handshake.isInProgress
    match t.handshake.formatHandshakeInitiation P m dstLen with
    | .error e => (t, .err e)
    | .ok (packet, handshake) =>
        let t := { t with handshake := handshake }
        let t := if startingNewHandshake then t.timerTick .timeLastHandshakeStarted else t
        (t.timerTick .timeLastPacketSent, .writeToNetwork packet)

/-- Encapsulate a packet of the tunnel interface: encrypt it with the current
session, or queue it and start a handshake. -/
def encapsulate (P : Primitives) (m : Moment) (t : Tunn) (src : Bytes) (dstLen : Nat) :
    Except Panic (Tunn × TunnResult) :=
  match t.sessions (slot t.current) with
  | some session =>
      match session.formatPacketData P src dstLen with
      | .error p => .error p
      | .ok (session, packet) =>
          let t := { t with
            sessions := Function.update t.sessions (slot t.current) (some session) }
          let t := t.timerTick .timeLastPacketSent
          -- keepalives do not count as data
          let t := if src ≠ [] then t.timerTick .timeLastDataPacketSent else t
          .ok ({ t with txBytes := t.txBytes + src.length }, .writeToNetwork packet)
  | none => .ok (formatHandshakeInitiation P m (t.queuePacket src) dstLen false)

/-- Take a packet from the queue and try to encapsulate it. -/
def sendQueuedPacket (P : Primitives) (m : Moment) (t : Tunn) (dstLen : Nat) :
    Except Panic (Tunn × TunnResult) :=
  match t.packetQueue with
  | [] => .ok (t, .done)
  | packet :: rest =>
      match encapsulate P m { t with packetQueue := rest } packet dstLen with
      | .error p => .error p
      | .ok (t, .err _) => .ok (t.requeuePacket packet, .done)
      | .ok (t, result) => .ok (t, result)

/-- Move to a session that is at least as recent as the current one. -/
def setCurrentSession (t : Tunn) (newIdx : Nat) : Tunn :=
  if t.current = newIdx then t
  else if (t.sessions (slot t.current)).isNone ∨
      t.timers.sessionTimers (slot t.current) ≤ t.timers.sessionTimers (slot newIdx) then
    { t with current := newIdx }
  else t

def handleHandshakeInit (P : Primitives) (m : Moment) (t : Tunn) (p : HandshakeInit)
    (dstLen : Nat) : Except Panic (Tunn × TunnResult) :=
  match t.handshake.receiveHandshakeInitialization P m p dstLen with
  | .error p => .error p
  | .ok (handshake, .error e) => .ok ({ t with handshake := handshake }, .err e)
  | .ok (handshake, .ok (packet, seed)) =>
      let session := Session.new seed
      let index := session.localIndex
      let t := { t with
        handshake := handshake
        sessions := Function.update t.sessions (slot index) (some session) }
      let t := t.timerTick .timeLastPacketReceived
      let t := t.timerTick .timeLastPacketSent
      .ok (t.timerTickSessionEstablished false index, .writeToNetwork packet)

def handleHandshakeResponse (P : Primitives) (m : Moment) (t : Tunn) (p : HandshakeResponse)
    (dstLen : Nat) : Except Panic (Tunn × TunnResult) :=
  match t.handshake.receiveHandshakeResponse P m p with
  | .error e => .ok (t, .err e)
  | .ok (handshake, seed) =>
      -- the keepalive is encrypted before the session is stored
      match (Session.new seed).formatPacketData P [] dstLen with
      | .error p => .error p
      | .ok (session, keepalivePacket) =>
          let lIdx := session.localIndex
          let index := lIdx % nSessions
          let t := { t with
            handshake := handshake
            sessions := Function.update t.sessions (slot index) (some session) }
          let t := t.timerTick .timeLastPacketReceived
          let t := t.timerTickSessionEstablished true index
          .ok (t.setCurrentSession lIdx, .writeToNetwork keepalivePacket)

def handleCookieReply (P : Primitives) (t : Tunn) (p : PacketCookieReply) : Tunn × TunnResult :=
  match t.handshake.receiveCookieReply P p with
  | .error e => (t, .err e)
  | .ok handshake =>
      let t := { t with handshake := handshake }
      ((t.timerTick .timeLastPacketReceived).timerTick .timeCookieReceived, .done)

/-- Truncate a decrypted packet to the length in its IP header and report its
source address. -/
def validateDecapsulatedPacket (t : Tunn) (packet : Bytes) : Tunn × TunnResult :=
  let version := packet.getD 0 0 >>> 4
  let accept (computedLen : Nat) (result : TunnResult) : Tunn × TunnResult :=
    if packet.length < computedLen then (t, .err .invalidPacket)
    else
      let t := t.timerTick .timeLastDataPacketReceived
      ({ t with rxBytes := t.rxBytes + computedLen }, result)
  if packet.length = 0 then (t, .done)
  else if version = 4 ∧ ipv4MinHeaderSize ≤ packet.length then
    let computedLen := beNat (slice packet 2 4)
    accept computedLen
      (.writeToTunnelV4 (packet.take computedLen) (Vector.ofFn fun i => packet.getD (12 + i) 0))
  else if version = 6 ∧ ipv6MinHeaderSize ≤ packet.length then
    let computedLen := beNat (slice packet 4 6) + ipv6MinHeaderSize
    accept computedLen
      (.writeToTunnelV6 (packet.take computedLen) (Vector.ofFn fun i => packet.getD (8 + i) 0))
  else (t, .err .invalidPacket)

/-- Decrypt a data packet with the session its receiver index selects. -/
def handleData (P : Primitives) (t : Tunn) (packet : PacketData) (dstLen : Nat) :
    Except Panic (Tunn × TunnResult) :=
  let rIdx := packet.receiverIdx.toNat
  match t.sessions (slot rIdx) with
  | none => .ok (t, .err .noCurrentSession)
  | some session =>
      -- the slot may hold another session, which then refuses the index
      match session.receivePacketData P packet dstLen with
      | .error p => .error p
      | .ok (_, .error e) => .ok (t, .err e)
      | .ok (session, .ok decapsulatedPacket) =>
          let t := { t with sessions := Function.update t.sessions (slot rIdx) (some session) }
          let t := t.setCurrentSession rIdx
          let t := t.timerTick .timeLastPacketReceived
          .ok (t.validateDecapsulatedPacket decapsulatedPacket)

def handleVerifiedPacket (P : Primitives) (m : Moment) (t : Tunn) (packet : Packet)
    (dstLen : Nat) : Except Panic (Tunn × TunnResult) :=
  match packet with
  | .handshakeInit p => t.handleHandshakeInit P m p dstLen
  | .handshakeResponse p => t.handleHandshakeResponse P m p dstLen
  | .packetCookieReply p => .ok (t.handleCookieReply P p)
  | .packetData p => t.handleData P p dstLen

/-- Process a datagram of the network. An empty one asks for the next packet of
the queue. -/
def decapsulate (P : Primitives) (m : Moment) (t : Tunn) (datagram : Bytes) (dstLen : Nat) :
    Except Panic (Tunn × TunnResult) :=
  if datagram = [] then t.sendQueuedPacket P m dstLen
  else
    match t.rateLimiter.verifyPacket P datagram with
    | (limiter, .error e) => .ok ({ t with rateLimiter := limiter }, .err e)
    | (limiter, .ok packet) =>
        handleVerifiedPacket P m { t with rateLimiter := limiter } packet dstLen

/-- Give up on the peer: no session, no waiting packet, no handshake. -/
def expire (t : Tunn) (now : Nat) : Tunn × TunnResult :=
  (({ t with handshake := t.handshake.setExpired }).clearAll now, .err .connectionExpired)

/-- The end of `update_timers`: send what the timers asked for. -/
def sendTimed (P : Primitives) (m : Moment) (t : Tunn) (dstLen : Nat)
    (handshakeInitiationRequired keepaliveRequired : Bool) : Except Panic (Tunn × TunnResult) :=
  if handshakeInitiationRequired then .ok (t.formatHandshakeInitiation P m dstLen true)
  else if keepaliveRequired then t.encapsulate P m [] dstLen
  else .ok (t, .done)

def updateTimers (P : Primitives) (m : Moment) (t : Tunn) (dstLen : Nat) :
    Except Panic (Tunn × TunnResult) :=
  let now := m.now
  let t := if t.timers.shouldResetRr then
    { t with rateLimiter := t.rateLimiter.resetCount now } else t
  let t := { t with timers := { t.timers with
    timers := Function.update t.timers.timers .timeCurrent now } }
  let t := t.updateSessionTimers now
  let sessionEstablished := t.timers.timers .timeSessionEstablished
  let handshakeStarted := t.timers.timers .timeLastHandshakeStarted
  let autPacketReceived := t.timers.timers .timeLastPacketReceived
  let autPacketSent := t.timers.timers .timeLastPacketSent
  let dataPacketReceived := t.timers.timers .timeLastDataPacketReceived
  let dataPacketSent := t.timers.timers .timeLastDataPacketSent
  if t.handshake.isExpired then .ok (t, .err .connectionExpired)
  else
    let t := if t.handshake.hasCookie ∧
        cookieExpirationTime ≤ now - t.timers.timers .timeCookieReceived then
      { t with handshake := t.handshake.clearCookie } else t
    if rejectAfterTime * 3 ≤ now - sessionEstablished then .ok (t.expire now)
    else
      match t.handshake.timer with
      | some timeInitSent =>
          if rekeyAttemptTime ≤ now - handshakeStarted then .ok (t.expire now)
          else t.sendTimed P m dstLen (decide (rekeyTimeout ≤ now - timeInitSent)) false
      | none =>
          let rekeyOnSend := decide (sessionEstablished < dataPacketSent ∧
            rekeyAfterTime ≤ now - sessionEstablished)
          let rekeyOnReceive := decide (sessionEstablished < dataPacketReceived ∧
            rejectAfterTime - keepaliveTimeout - rekeyTimeout ≤ now - sessionEstablished)
          let silent := decide (autPacketReceived < dataPacketSent ∧
            keepaliveTimeout + rekeyTimeout ≤ now - autPacketReceived)
          let required := (t.timers.isInitiator && (rekeyOnSend || rekeyOnReceive)) ||
            (silent && t.timers.wantHandshake)
          -- `mem::replace` resets the wish only when the other conditions hold
          let t := if silent then
            { t with timers := { t.timers with wantHandshake := false } } else t
          if required then t.sendTimed P m dstLen true false
          else
            let unanswered := decide (autPacketSent < dataPacketReceived ∧
              keepaliveTimeout ≤ now - autPacketSent)
            let keepalive := unanswered && t.timers.wantKeepalive
            let t := if unanswered then
              { t with timers := { t.timers with wantKeepalive := false } } else t
            let persistent := decide (0 < t.timers.persistentKeepalive ∧
              secs t.timers.persistentKeepalive ≤ now - t.timers.timers .timePersistentKeepalive)
            let t := if persistent then t.timerTick .timePersistentKeepalive else t
            t.sendTimed P m dstLen false (keepalive || persistent)

end Tunn

end Newt.Noise
