import Newt.Foundation.Traced
import Newt.Olm.LocalPorts
import Newt.Olm.Peers
import Newt.Olm.Reconnect

/-! # The loop of a client session

A session of the client waits for control messages, ticks, datagrams, and its backend, and
works on one data plane that a connect creates or replaces. The handling of a message is that
of `handleMessage`, with a note for every datagram it sends.
-/

namespace Newt.Olm

open Foundation Noise Wg Stack
open Proxy hiding Bytes

namespace Backend

variable {σ : Type}

def mode : Backend σ → AccessMode
  | .userspace .. => .userspace
  | .kernel _ => .kernel

theorem mode_addRoutes (added : Cidr → Bool) (cidrs : List Cidr) (b : Backend σ) :
    (b.addRoutes added cidrs).mode = b.mode := by
  cases b <;> rfl

end Backend

/-- A backend with the decrypted packets that wait for the next poll of its stack. The kernel
takes every packet at once. -/
structure Exposed (σ : Type) where
  backend : Backend σ
  rx : List Bytes
  direct : backend.mode = .kernel → rx = []

namespace Exposed

variable {σ : Type}

/-- A backend for which nothing waits. -/
def idle (backend : Backend σ) : Exposed σ := ⟨backend, [], fun _ => rfl⟩

def addRoutes (added : Cidr → Bool) (cidrs : List Cidr) (x : Exposed σ) : Exposed σ where
  backend := x.backend.addRoutes added cidrs
  rx := x.rx
  direct hkernel := x.direct ((Backend.mode_addRoutes added cidrs x.backend).symm.trans hkernel)

end Exposed

/-- The surroundings of a message for backends with their packets. -/
def Conditions.exposing (σ : Type) (cfg : ClientRun) (w : Conditions) :
    Surroundings (Exposed σ) where
  resolve := w.resolve
  moment := w.moment
  durationAtStart := w.durationAtStart
  send := w.send
  newBackend old tunnelIp := do
    let backend ← Backend.new w.host cfg (old.map Exposed.backend) tunnelIp
    return .idle backend
  addRoutes k cidrs x := x.addRoutes (w.host.routeAdded k) cidrs

/-- The state of a session: the data plane, if there is one, and the ticks since the last
ping. -/
structure Loop (σ : Type) where
  dp : Option (DataPlane (Exposed σ))
  pingTicks : Nat

namespace Loop

/-- What the session does, as the server, the network, and the host see it. -/
inductive Note where
  | registered
  | pinged
  | punched (datagram : Bytes) (relay : SocketAddr)
  /-- The router puts out a datagram or a packet. -/
  | out (out : Out)
  /-- The host takes these packets. -/
  | read (packets : List Bytes)
  deriving DecidableEq

namespace Note

def out? : Note → Option Out
  | .out o => some o
  | _ => none

/-- The packet that a note delivers to the host. -/
def delivered? : Note → Option Bytes
  | .out (.toHost packet) => some packet
  | _ => none

/-- The packets that the host takes. -/
def taken : Note → List Bytes
  | .read packets => packets
  | _ => []

/-- Notes that have nothing to do with the tunnels. -/
def isAside : Note → Bool
  | .registered | .pinged | .punched _ _ => true
  | .out _ | .read _ => false

end Note

/-- How the session stops. -/
inductive Halt where
  | failed (e : IoError)
  /-- The server closed the connection or ended the session. -/
  | finished
  | panicked (panic : Panic)
  | fault (fault : Fault)

/-- What a tick meets: the outcomes of the sends, the datagrams of the hole punch, and the
clock readings of the peers. -/
structure Ticking where
  register : Except IoError Unit
  punches : List (Bytes × SocketAddr)
  punch : Nat → Except IoError Unit
  moments : Nat → Moment
  send : Nat → Except IoError Unit
  ping : Except IoError Unit

/-- A datagram, with the outcomes of what it causes. -/
structure Arrival where
  received : Except IoError Bytes
  moments : Nat → Moment
  outcome : Nat → Except IoError Unit

/-- What the backend does when it is driven. The kernel backend reads `packet` from its device,
the other fields up to `emitted` belong to the userspace backend. -/
structure Driving (σ : Type) where
  accepted : Except IoError (Option (Nat × Connect σ))
  change : Handle → σ → σ
  order : Plane.KeyOrder
  emitted : List Bytes
  packet : Except IoError Bytes
  moments : Nat → Moment
  send : Nat → Except IoError Unit

/-- What wakes the session. -/
inductive Wake (Json σ : Type) where
  | message (received : Except IoError (Option (WsMessage Json))) (w : Conditions)
  | tick (env : Ticking)
  | datagram (env : Arrival)
  | drive (env : Driving σ)
  | task (h : Handle) (event : TaskEvent)

/-- Send datagrams in order, up to the first failure. -/
def sendEach (note : Bytes → SocketAddr → Note) (send : Nat → Except IoError Unit) :
    Nat → List (Bytes × SocketAddr) → Traced Note Halt Unit
  | _, [] => return ()
  | k, (datagram, endpoint) :: rest => do
      .tell (note datagram endpoint)
      .lift ((send k).mapError .failed)
      sendEach note send (k + 1) rest

/-- A datagram of the router. -/
def toNet (datagram : Bytes) (endpoint : SocketAddr) : Note := .out (.toNet datagram endpoint)

/-- Send a datagram, if there is one. -/
def sendOut (send : Except IoError Unit) :
    Option (Bytes × SocketAddr) → Traced Note Halt Unit
  | none => return ()
  | some (datagram, endpoint) => do
      .tell (toNet datagram endpoint)
      .lift (send.mapError .failed)

/-! ## Messages -/

section Messages

variable {Json β : Type} (client : Client Json) (w : Surroundings β)

def upsertSite (k : Nat) (d : DataPlane β) (site : SiteConfig) :
    Traced Note Halt (DataPlane β) := do
  let (d, init) := client.upsertSite w k d site
  sendOut (w.send k) init
  return d

def syncSites : Nat → DataPlane β → List SiteConfig → Traced Note Halt (DataPlane β)
  | _, d, [] => return d
  | k, d, site :: rest => do
      let d ← upsertSite client w k d site
      syncSites (k + 1) d rest

/-- Build a data plane and send its initiations. -/
def connect (dp : Option (DataPlane β)) (wg : WgData) : Traced Note Halt (DataPlane β) := do
  let (d, inits) ← .lift
    ((client.buildDataplane w (dp.map DataPlane.backend) wg).mapError .failed)
  sendEach toNet w.send 0 inits
  return d

/-- Messages that act on a running data plane. Only sites that are added or updated cause
datagrams. -/
def peerMessage (d : DataPlane β) (topic : Topic) (data : Json) :
    Traced Note Halt (DataPlane β) :=
  match topic with
  | .peerAdd | .peerUpdate =>
      match client.serde.siteConfig data with
      | none => return d
      | some site => upsertSite client w 0 d site
  | .sync =>
      match client.serde.syncData data with
      | none => return d
      | some sites => syncSites client w 0 d sites
  | topic => return (client.handlePeerMessage w d topic data).1

/-- `handle_message`, with what it sends. -/
def message (dp : Option (DataPlane β)) (msg : WsMessage Json) :
    Traced Note Halt (Option (DataPlane β)) :=
  match Topic.ofText msg.typ with
  | none => return dp
  | some .connect => do
      let d ← connect client w dp ((client.serde.wgData msg.data).getD .default)
      return some d
  | some .error => return dp
  | some .terminate => .lift (.error .finished)
  | some topic =>
      match dp with
      | none => return none
      | some d => do
          let d ← peerMessage client w d topic msg.data
          return some d

/-- What the result of `handleMessage` means for the session. -/
def verdict : Option (DataPlane β) × Except IoError Bool → Except Halt (Option (DataPlane β))
  | (_, .error e) => .error (.failed e)
  | (_, .ok true) => .error .finished
  | (dp, .ok false) => .ok dp

theorem sendOut_result (k : Nat) (init : Option (Bytes × SocketAddr)) :
    (sendOut (w.send k) init).result = (Client.sendInit w k init).mapError .failed := by
  cases init with
  | none => rfl
  | some out =>
      rw [sendOut, Client.sendInit]
      rfl

theorem sendEach_result (k : Nat) (inits : List (Bytes × SocketAddr)) :
    (sendEach toNet w.send k inits).result = (Client.sendInits w k inits).mapError .failed := by
  induction inits generalizing k with
  | nil => rfl
  | cons init inits ih =>
      rw [Client.sendInits]
      cases hsend : w.send k with
      | error e => simp [sendEach, hsend, Traced.tell, Traced.lift, Except.mapError]
      | ok sent =>
          simp only [← ih]
          simp [sendEach, hsend, Traced.tell, Traced.lift, Except.mapError]

/-- What the end of a loop that stops at the first failed send means for the session. -/
def settled (out : DataPlane β × Except IoError Unit) : Except Halt (DataPlane β) :=
  (out.2.mapError .failed).map fun _ => out.1

theorem settled_of_send {send : Traced Note Halt Unit} {sent : Except IoError Unit}
    (hsend : send.result = sent.mapError .failed) (d : DataPlane β) :
    (send >>= fun _ => pure d).result = settled (d, sent) := by
  cases sent with
  | error e =>
      rw [Traced.bind_of_error _ hsend]
      rfl
  | ok _ =>
      rw [Traced.bind_of_ok _ hsend]
      rfl

theorem upsertSite_result (k : Nat) (d : DataPlane β) (site : SiteConfig) :
    (upsertSite client w k d site).result =
      settled ((client.upsertSite w k d site).1,
        Client.sendInit w k (client.upsertSite w k d site).2) := by
  rw [upsertSite]
  rcases client.upsertSite w k d site with ⟨next, init⟩
  exact settled_of_send (sendOut_result w k init) next

theorem syncSites_result (k : Nat) (d : DataPlane β) (sites : List SiteConfig) :
    (syncSites client w k d sites).result = settled (client.syncSites w k d sites) := by
  induction sites generalizing k d with
  | nil => rfl
  | cons site sites ih =>
      have hsite := upsertSite_result client w k d site
      rw [syncSites, Client.syncSites]
      cases hsend : Client.sendInit w k (client.upsertSite w k d site).2 with
      | error e =>
          rw [hsend] at hsite
          rw [Traced.bind_of_error _ hsite]
          simp only [hsend]
          rfl
      | ok sent =>
          rw [hsend] at hsite
          rw [Traced.bind_of_ok _ hsite]
          simp only [hsend]
          exact ih (k + 1) _

theorem peerMessage_result (d : DataPlane β) (topic : Topic) (data : Json) :
    (peerMessage client w d topic data).result =
      settled (client.handlePeerMessage w d topic data) := by
  cases topic with
  | peerAdd | peerUpdate =>
      rw [peerMessage, Client.handlePeerMessage]
      cases client.serde.siteConfig data with
      | none => rfl
      | some site => exact upsertSite_result client w 0 d site
  | sync =>
      rw [peerMessage, Client.handlePeerMessage]
      cases client.serde.syncData data with
      | none => rfl
      | some sites => exact syncSites_result client w 0 d sites
  | peerRemove =>
      simp only [peerMessage, Client.handlePeerMessage]
      cases client.serde.peerRemove data <;> rfl
  | peerDataAdd | peerDataRemove =>
      simp only [peerMessage, Client.handlePeerMessage]
      cases client.serde.peerData data <;> rfl
  | _ => rfl

theorem verdict_settled (out : DataPlane β × Except IoError Unit)
    {x : Traced Note Halt (DataPlane β)} (hx : x.result = settled out) :
    (x >>= fun d => pure (some d)).result =
      verdict (some out.1, out.2.map fun _ => false) := by
  rcases out with ⟨d, e | _⟩
  · rw [Traced.bind_of_error _ hx]
    rfl
  · rw [Traced.bind_of_ok _ hx]
    rfl

/-- The session goes on with the data plane that `handleMessage` leaves, or stops as it says. -/
theorem message_result (dp : Option (DataPlane β)) (msg : WsMessage Json) :
    (message client w dp msg).result = verdict (client.handleMessage w dp msg) := by
  simp only [message, Client.handleMessage]
  cases Topic.ofText msg.typ with
  | none => rfl
  | some topic =>
      cases topic with
      | connect =>
          simp only [connect]
          cases client.buildDataplane w (dp.map DataPlane.backend)
              ((client.serde.wgData msg.data).getD .default) with
          | error e => rfl
          | ok out =>
              rcases out with ⟨d, inits⟩
              have hsent := settled_of_send (sendEach_result w 0 inits) d
              refine (verdict_settled (d, Client.sendInits w 0 inits) hsent).trans ?_
              cases hinits : Client.sendInits w 0 inits <;> simp only [hinits] <;> rfl
      | error => rfl
      | terminate => rfl
      | _ =>
          cases dp with
          | none => rfl
          | some d => exact verdict_settled _ (peerMessage_result client w d _ msg.data)

end Messages

/-! ## The other events -/

section Events

variable {Json σ : Type} (client : Client Json) (alloc : Allocator) (api : TcpApi σ)

/-- Hand what the router puts out to the host and to the network. The kernel takes a packet at
once, the stack of the userspace backend at its next poll. -/
def handOut (outcome : Nat → Except IoError Unit) :
    Nat → Exposed σ → List Out → Traced Note Halt (Exposed σ)
  | _, x, [] => return x
  | k, x, .toNet datagram endpoint :: rest => do
      .tell (toNet datagram endpoint)
      .lift ((outcome k).mapError .failed)
      handOut outcome (k + 1) x rest
  | k, x, .toHost packet :: rest => do
      .tell (.out (.toHost packet))
      match hbackend : x.backend with
      | .userspace .. =>
          handOut outcome (k + 1)
            ⟨x.backend, x.rx ++ [packet], by simp [hbackend, Backend.mode]⟩ rest
      | .kernel _ => do
          .tell (.read [packet])
          .lift ((outcome k).mapError .failed)
          handOut outcome (k + 1) x rest

/-- Feed a datagram, as far as it fits the buffer of the session, to the router. -/
def inbound (env : Arrival) (arrived : Bytes) (d : DataPlane (Exposed σ)) :
    Traced Note Halt (DataPlane (Exposed σ)) := do
  let (router, outs) ← .lift
    ((d.router.handleInbound client.P env.moments
      (arrived.take (Pump.recvBuf client.mtu))).mapError .panicked)
  let backend ← handOut env.outcome 0 d.backend outs
  return ⟨router, backend⟩

/-- Route what the host emits. -/
def routeAll (moments : Nat → Moment) (send : Nat → Except IoError Unit) :
    Nat → DataPlane (Exposed σ) → List Bytes → Traced Note Halt (DataPlane (Exposed σ))
  | _, d, [] => return d
  | k, d, packet :: rest => do
      let (router, out) ← .lift
        ((d.router.routeOutbound client.P (moments k) packet).mapError .panicked)
      sendOut (send k) out
      routeAll moments send (k + 1) { d with router := router } rest

/-- The packet that the kernel backend reads, as far as it fits its buffer. -/
def readPacket (packet : Bytes) : List Bytes :=
  let packet := packet.take (Pump.recvBuf client.mtu)
  if packet = [] then [] else [packet]

/-- What the backend yields when it is driven. The stack reads all packets that wait. -/
def driveBackend (env : Driving σ) (x : Exposed σ) :
    Traced Note Halt (Exposed σ × List Bytes) :=
  match x.backend with
  | .userspace address ports b => do
      let accepted ← .lift (env.accepted.mapError .failed)
      .tell (.read x.rx)
      let b ← .lift ((b.drive alloc api accepted env.change env.order).mapError .fault)
      return (.idle (.userspace address ports b), env.emitted)
  | .kernel _ => do
      let packet ← .lift (env.packet.mapError .failed)
      return (x, readPacket client packet)

def drive (env : Driving σ) (d : DataPlane (Exposed σ)) :
    Traced Note Halt (DataPlane (Exposed σ)) := do
  let (backend, packets) ← driveBackend client alloc api env d.backend
  routeAll client env.moments env.send 0 { d with backend := backend } packets

def tickRouter (env : Ticking) (d : DataPlane (Exposed σ)) :
    Traced Note Halt (DataPlane (Exposed σ)) := do
  let (router, out) ← .lift ((d.router.tick client.P env.moments).mapError .panicked)
  sendEach toNet env.send 0 out
  return { d with router := router }

/-- The server records each ping to keep the client online. -/
def heartbeat (send : Except IoError Unit) (pingTicks : Nat) : Traced Note Halt Nat :=
  if pingTicks + 1 ≥ 10 then do
    .tell .pinged
    .lift (send.mapError .failed)
    return 0
  else return pingTicks + 1

def register (send : Except IoError Unit) : Traced Note Halt Unit := do
  .tell .registered
  .lift (send.mapError .failed)

/-- Run a part of a turn on the data plane, if there is one. -/
def onPlane (part : DataPlane (Exposed σ) → Traced Note Halt (DataPlane (Exposed σ))) :
    Option (DataPlane (Exposed σ)) → Traced Note Halt (Option (DataPlane (Exposed σ)))
  | none => return none
  | some d => do
      let d ← part d
      return some d

def tick (env : Ticking) (loop : Loop σ) : Traced Note Halt (Loop σ) := do
  if loop.dp.isNone then register env.register
  sendEach .punched env.punch 0 env.punches
  let dp ← onPlane (tickRouter client env) loop.dp
  let pingTicks ← heartbeat env.ping loop.pingTicks
  return ⟨dp, pingTicks⟩

/-- The task of a tunnelled connection runs beside the session. -/
def runTask (h : Handle) (event : TaskEvent) (d : DataPlane (Exposed σ)) :
    DataPlane (Exposed σ) :=
  match d.backend.backend with
  | .userspace address ports b =>
      ⟨d.router, .userspace address ports { b with toPlane := b.toPlane.runTask h event },
        d.backend.rx, fun hkernel => by cases hkernel⟩
  | .kernel _ => d

variable (cfg : ClientRun)

def turn (loop : Loop σ) : Wake Json σ → Traced Note Halt (Loop σ)
  | .message (.error e) _ => .lift (.error (.failed e))
  | .message (.ok none) _ => .lift (.error .finished)
  | .message (.ok (some msg)) w => do
      let dp ← message client (w.exposing σ cfg) loop.dp msg
      return { loop with dp := dp }
  | .tick env => tick client env loop
  | .datagram env => do
      let arrived ← .lift (env.received.mapError .failed)
      let dp ← onPlane (inbound client env arrived) loop.dp
      return { loop with dp := dp }
  | .drive env => do
      let dp ← onPlane (drive client alloc api env) loop.dp
      return { loop with dp := dp }
  | .task h event => return { loop with dp := loop.dp.map (runTask h event) }

/-- The session from the first register on. -/
def session (send : Except IoError Unit) (wakes : List (Wake Json σ)) :
    Traced Note Halt (Loop σ) := do
  register send
  wakes.foldlM (turn client alloc api cfg) ⟨none, 0⟩

end Events

end Loop

end Newt.Olm
