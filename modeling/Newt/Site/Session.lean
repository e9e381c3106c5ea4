import Newt.Core.StateMachine
import Newt.Foundation.Traced
import Newt.Site.DataPlane
import Newt.Wg.Pump

/-! # Sessions of a site

The session loop of `tunnel.rs`: the control messages, the ticks, and the
data-plane progress between them, with the actions of the state machine carried
out as they come. Decoding of JSON payloads, name resolution, and the sockets are
outside this development and enter as parameters. A session leaves a trace of
what it does, which continues until it ends.
-/

namespace Newt.Site

open Foundation Noise Wg Stack Newt.Core
open Proxy hiding Bytes

/-- How a session ends: the server closed the channel, an operation failed, or
the program panicked. -/
inductive Ending where
  | closed
  | failed (e : IoError)
  | panicked (fault : Fault)

/-- The access functions and decoders of JSON values. -/
structure Serde (Json : Type) where
  get : String → Json → Option Json
  asArray : Json → Option (List Json)
  asStr : Json → Option String
  exitNodeData : Json → Option (List ExitNode)
  wgData : Json → Option WgData

/-- The configuration and key material of a site. -/
structure SiteRun (Json : Type) where
  P : Primitives
  decode : String → Except String Bytes
  serde : Serde Json
  secret : Bytes
  publicB64 : String
  mtu : Nat
  /-- The address parser of the network stack. -/
  isIpAddress : String → Bool

/-- What carrying out one action meets outside. -/
structure Surroundings where
  send : Except IoError Unit
  lookupHost : String → UInt16 → Except IoError (Option SocketAddr)
  bind : Except IoError Unit
  sendTo : Except IoError Unit
  moment : Moment
  durationAtStart : Nat

/-- What a session does, as far as the outside and the data plane see it. -/
inductive Note where
  /-- An action is carried out while a data plane exists, or while none does. -/
  | executed (act : Action) (existed : Bool)
  | broughtUp
  /-- An update of the targets, which is applied or else discarded. -/
  | update (topic : Topic) (configVersion : Option Int) (applied : Bool)
  | heartbeat (configVersion : Option Int)

structure Session (σ : Type) where
  sm : Sm
  data : Option (DataPlane σ)
  configVersion : Option Int
  pingTicks : Nat

/-- What wakes the session loop. -/
inductive Input (Json σ : Type) where
  | recv (msg : Except IoError (Option (WsMessage Json))) (w : Nat → Surroundings)
  | tick (w : Nat → Surroundings) (ping holepunch : Except Ending Unit)
      (heartbeat : Except IoError Unit)
  /-- The datagrams of one turn change the sockets, unless receiving fails. -/
  | drive (change : Except Ending (Handle → σ → σ)) (order : Plane.KeyOrder)
  /-- Another event drops a turn while it sends, after the sockets changed. -/
  | dropped (change : Handle → σ → σ)
  | task (h : Handle) (event : TaskEvent)

variable {Json σ : Type}

/-- The target specifications in an array of strings. Other entries are skipped. -/
def specsOf (serde : Serde Json) (value : Option Json) : List String :=
  ((value.bind serde.asArray).map fun entries => entries.filterMap serde.asStr).getD []

def toEvent (serde : Serde Json) (topic : Option Topic) (data : Json) : Option Event :=
  match topic with
  | some .pingExitNodes => (serde.exitNodeData data).map .exitNodes
  | some .wgConnect => (serde.wgData data).map .wgConnect
  | some .wgReconnect => some .reconnect
  | some .wgTerminate => some .terminate
  | _ => none

/-- The operation failed with an I/O error. -/
def io {α : Type} (x : Except IoError α) : Except Ending α := x.mapError .failed

/-- A missing value is an I/O error. -/
def required {α : Type} (message : IoError) : Option α → Except Ending α
  | none => .error (.failed message)
  | some a => .ok a

def parseIpv4 (s : String) : Option Ipv4Addr :=
  match IpAddr.parse s.toList with
  | some (.v4 octets) => some octets
  | _ => none

/-- The host and port of a WireGuard endpoint. -/
def splitEndpoint (endpoint : String) : Option (String × UInt16) :=
  (Text.rsplitOnce ':' endpoint.toList).bind fun (host, port) =>
    (Text.parseU16 port).map fun port => (String.ofList host, port)

namespace Session

variable (cfg : SiteRun Json) (alloc : Allocator) (api : TcpApi σ)

/-- `DataPlane::bring_up` -/
def bringUp (w : Surroundings) (wg : WgData) : Except Ending (DataPlane σ) := do
  let (host, port) ← required "bad endpoint" (splitEndpoint wg.endpoint)
  let addresses ← io (w.lookupHost host port)
  let _ ← required "resolve endpoint" addresses
  io w.bind
  let peerPub ← io (publicFromB64 cfg.decode wg.publicKey)
  let pump := Pump.new cfg.P cfg.secret peerPub cfg.mtu w.durationAtStart
  if (pump.initiateHandshake cfg.P w.moment).2.isSome then io w.sendTo
  if cfg.isIpAddress wg.tunnelIp = false then .error (.failed "bad tunnelIP")
  let d ← (DataPlane.bringUp alloc api wg.tcp).mapError .panicked
  -- an IPv6 tunnel is refused only here, after the listeners are set up
  let _ ← required "bad serverIP" (parseIpv4 wg.serverIp)
  let _ ← required "bad tunnelIP" (parseIpv4 wg.tunnelIp)
  return d

/-- Carry out one action on the data plane. -/
def exec (w : Surroundings) (data : Option (DataPlane σ)) (act : Action) :
    Traced Note Ending (Option (DataPlane σ)) := do
  .tell (.executed act data.isSome)
  match act with
  | .send _ =>
      .lift (io w.send)
      return data
  | .bringUp wg =>
      let d ← .lift (bringUp cfg alloc api w wg)
      .tell .broughtUp
      return some d
  | .teardown => return none
  | .stop => .lift (.error (.failed "terminated by server"))

/-- Carry out actions in order, up to the first that fails. -/
def execAll (w : Nat → Surroundings) : Nat → Option (DataPlane σ) → List Action →
    Traced Note Ending (Option (DataPlane σ))
  | _, data, [] => return data
  | k, data, act :: rest => do
      let data ← exec cfg alloc api (w k) data act
      execAll w (k + 1) data rest

/-- Let the state machine handle an event. -/
def perform (w : Nat → Surroundings) (s : Session σ) (ev : Event) :
    Traced Note Ending (Session σ) := do
  let (sm, acts) := s.sm.step ev
  let data ← execAll cfg alloc api w 0 s.data acts
  return { s with sm := sm, data := data }

/-- Handle the event of a message, if it is one. -/
def performMessage (w : Nat → Surroundings) (s : Session σ) :
    Option Event → Traced Note Ending (Session σ)
  | none => return s
  | some ev => perform cfg alloc api w s ev

/-- Change the targets of the data plane. Without one the update is dropped. -/
def updateTargets (s : Session σ) (topic : Topic) (version : Option Int)
    (change : DataPlane σ → Except Fault (DataPlane σ)) : Traced Note Ending (Session σ) := do
  .tell (.update topic version s.data.isSome)
  match s.data with
  | none => return s
  | some d =>
      let d ← .lift ((change d).mapError .panicked)
      return { s with data := some d }

/-- Take over the version of a message, if it carries one. -/
def learnVersion (s : Session σ) (version : Option Int) : Session σ :=
  if version.isSome then { s with configVersion := version } else s

def receive (w : Nat → Surroundings) (s : Session σ) (msg : WsMessage Json) :
    Traced Note Ending (Session σ) :=
  -- the version is taken over before the message is
  let s := s.learnVersion msg.configVersion
  match Topic.ofText msg.typ with
  | some .tcpAdd =>
      s.updateTargets .tcpAdd msg.configVersion fun d =>
        d.addTargets alloc api (specsOf cfg.serde (cfg.serde.get "targets" msg.data))
  | some .tcpRemove =>
      s.updateTargets .tcpRemove msg.configVersion fun d =>
        d.removeTargets (specsOf cfg.serde (cfg.serde.get "targets" msg.data))
  | some .sync =>
      s.updateTargets .sync msg.configVersion fun d =>
        d.reconcileTargets alloc api (specsOf cfg.serde
          ((cfg.serde.get "proxyTargets" msg.data).bind (cfg.serde.get "tcp")))
  | topic => performMessage cfg alloc api w s (toEvent cfg.serde topic msg.data)

/-- Keep the tunnel alive on a tick. -/
def keepAlive (s : Session σ) (ping holepunch : Except Ending Unit) : Except Ending Unit :=
  match s.data with
  | none => .ok ()
  | some _ => do
      ping
      holepunch

/-- Every tenth tick sends a heartbeat with the version learned last. -/
def beat (s : Session σ) (heartbeat : Except IoError Unit) : Traced Note Ending (Session σ) :=
  if s.pingTicks + 1 < 10 then return { s with pingTicks := s.pingTicks + 1 }
  else do
    .lift (io heartbeat)
    .tell (.heartbeat s.configVersion)
    return { s with pingTicks := 0 }

/-- One turn of `DataPlane::step_io`. -/
def stepIo (d : DataPlane σ) (change : Handle → σ → σ) (order : Plane.KeyOrder) :
    Except Fault (DataPlane σ) :=
  d.run alloc api [.poll change, .acceptNew, .shuttle order]

/-- The part of a turn of `DataPlane::step_io` up to a send after the poll. -/
def dropIo (d : DataPlane σ) (change : Handle → σ → σ) : DataPlane σ :=
  { d with sockets := d.sockets.poll change }

/-- One turn of the session loop. -/
def turn (s : Session σ) : Input Json σ → Traced Note Ending (Session σ)
  | .recv (.error e) _ => .lift (.error (.failed e))
  | .recv (.ok none) _ => .lift (.error .closed)
  | .recv (.ok (some msg)) w => receive cfg alloc api w s msg
  | .tick w ping holepunch heartbeat => do
      let s ← perform cfg alloc api w s (.tick 1000)
      .lift (s.keepAlive ping holepunch)
      s.beat heartbeat
  | .drive change order =>
      match s.data with
      -- this branch waits only while a data plane exists
      | none => return s
      | some d => do
          let change ← .lift change
          let d ← .lift ((stepIo alloc api d change order).mapError .panicked)
          return { s with data := some d }
  | .dropped change => return { s with data := s.data.map fun d => dropIo d change }
  | .task h event =>
      return { s with data := s.data.map fun d => { d with toPlane := d.toPlane.runTask h event } }

/-- A session on a new channel, before the first turn. -/
def fresh : Session σ := ⟨Sm.new cfg.publicB64 "rust-0.2.2" false, none, none, 0⟩

/-- The session up to the last of the inputs, or up to its end. -/
def session (w : Nat → Surroundings) (inputs : List (Input Json σ)) :
    Traced Note Ending (Session σ) := do
  let s ← perform cfg alloc api w (fresh cfg) .wsConnected
  inputs.foldlM (turn cfg alloc api) s

end Session

/-- A site whose payloads are tunnel configurations without targets. -/
def plainSite : SiteRun WgData where
  P := Primitives.null
  decode _ := .ok (List.replicate 32 0)
  serde :=
    { get := fun _ _ => none
      asArray := fun _ => none
      asStr := fun _ => none
      exitNodeData := fun _ => some []
      wgData := some }
  secret := []
  publicB64 := ""
  mtu := 1280
  isIpAddress _ := true

/-- A network on which every name is one host and every send succeeds. -/
def quiet : Surroundings where
  send := .ok ()
  lookupHost _ _ := .ok (some .documentation)
  bind := .ok ()
  sendTo := .ok ()
  moment := ⟨0, []⟩
  durationAtStart := 0

/-- A control message that arrives over the quiet network. -/
def arrival (topic : Topic) (version : Option Int) : Input WgData BufferedSocket :=
  .recv (.ok (some ⟨topic.text, ⟨"host:51820", "key", "10.0.0.1", "10.0.0.2", 0, []⟩, version⟩))
    fun _ => quiet

end Newt.Site
