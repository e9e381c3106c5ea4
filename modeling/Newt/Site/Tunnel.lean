import Newt.Site.Echo
import Newt.Site.Session
import Newt.Wg.Loops

/-! # The tunnel of a site

The data plane of a site with the WireGuard tunnel it runs on: `step_io` with all its stages,
the passes of it that the session drops while they send, and the pings and hole punches of a
tick. A run of the loop consists of a run of the pump and
a run of the sockets and listeners. They meet in the packets only: what the pump decrypts waits
for the stack, and what the stack emits goes to the pump.
-/

namespace Newt.Site

open Foundation Noise Wg Stack Newt.Core
open Proxy hiding Bytes

structure Tunnel (σ : Type) extends DataPlane σ where
  pump : Pump
  /-- Decrypted packets that wait for the next poll of the stack. -/
  rx : List Bytes
  endpoint : SocketAddr
  relayAddr : SocketAddr
  serverIp : Ipv4Addr
  tunnelIp4 : Ipv4Addr
  pingSeq : UInt16

namespace Tunnel

/-- What the loop does, as the sockets and the stack see it. -/
inductive Note where
  | tunnel (traffic : Traffic)
  /-- The stack reads these packets. -/
  | polled (packets : List Bytes)
  | punched (datagram : Bytes) (relay : SocketAddr)

namespace Note

def traffic? : Note → Option Traffic
  | .tunnel traffic => some traffic
  | _ => none

/-- The packet that a note delivers to the stack. -/
def delivered? : Note → Option Bytes
  | .tunnel (.delivered packet) => some packet
  | _ => none

/-- The packets that the stack reads. -/
def read : Note → List Bytes
  | .polled packets => packets
  | _ => []

end Note

/-- How the loop stops. -/
inductive Halt where
  | failed (e : IoError)
  | pump (panic : Panic)
  | stack (fault : Fault)
  /-- The sum of a checksum leaves its 32 bits. -/
  | overflow

/-- What one turn of `step_io` meets: a datagram unless the 50 ms pass without one, what the
stack does to the sockets and emits, and the clock readings of the calls. -/
structure Pass (σ : Type) where
  received : Except IoError (Option Bytes)
  receiving : Nat → Moment
  change : Handle → σ → σ
  outbound : List Bytes
  encapsulating : Nat → Moment
  timers : Moment
  order : Plane.KeyOrder

/-- Where a pass of `step_io` is dropped. It waits for the socket at every send, and another
event of the session drops it there. The datagram is then handed to the socket in vain. -/
inductive Cut where
  /-- Passing on what comes out of the pump, after this many calls of `drain`. -/
  | receiving (drains : Nat)
  /-- Sending the last of this many packets of the stack. -/
  | submitting (count : Nat)
  | timers
  deriving DecidableEq, Repr

/-- What wakes the loop. -/
inductive Wake (σ : Type) where
  | stepIo (pass : Pass σ)
  | dropped (pass : Pass σ) (cut : Cut)
  | tick (m : Moment) (ping : Except IoError Unit) (punch : Option Bytes)
      (holepunch : Except IoError Unit)
  | addTargets (specs : List String)
  | removeTargets (specs : List String)
  | reconcileTargets (specs : List String)
  | task (h : Handle) (event : TaskEvent)

variable {Json σ : Type} (P : Primitives) (alloc : Allocator) (api : TcpApi σ)

/-- The end of `bring_up`, once the handshake is started: the listeners and the addresses. -/
def assemble (wg : WgData) (endpoint : SocketAddr) (started : Pump × Option Bytes) :
    Except Ending (Tunnel σ × List Note) := do
  let relayPort := if wg.relayPort = 0 then 21820 else wg.relayPort
  let d ← (DataPlane.bringUp alloc api wg.tcp).mapError .panicked
  let serverIp ← required "bad serverIP" (parseIpv4 wg.serverIp)
  let tunnelIp4 ← required "bad tunnelIP" (parseIpv4 wg.tunnelIp)
  return (⟨d, started.1, [], endpoint, ⟨endpoint.ip, relayPort⟩, serverIp, tunnelIp4, 0⟩,
    (started.2.map fun b => Note.tunnel (.sent b endpoint)).toList)

/-- `DataPlane::bring_up` with the tunnel. -/
def bringUp (cfg : SiteRun Json) (w : Surroundings) (wg : WgData) :
    Except Ending (Tunnel σ × List Note) := do
  let (host, port) ← required "bad endpoint" (splitEndpoint wg.endpoint)
  let addresses ← io (w.lookupHost host port)
  let endpoint ← required "resolve endpoint" addresses
  io w.bind
  let peerPub ← io (publicFromB64 cfg.decode wg.publicKey)
  let pump := Pump.new cfg.P cfg.secret peerPub cfg.mtu w.durationAtStart
  let started := pump.initiateHandshake cfg.P w.moment
  if started.2.isSome then io w.sendTo
  if cfg.isIpAddress wg.tunnelIp = false then .error (.failed "bad tunnelIP")
  assemble alloc api wg endpoint started

/-- Encrypt a packet. The datagram, if there is one, is returned for the socket. -/
def submit (m : Moment) (t : Tunnel σ) (packet : Bytes) :
    Traced Note Halt (Tunnel σ × Option Bytes) := do
  .tell (.tunnel (.submitted packet))
  let (pump, datagram) ← .lift ((t.pump.encapsulate P m packet).mapError .pump)
  .tellAll (datagram.map fun b => Note.tunnel (.sent b t.endpoint)).toList
  return ({ t with pump := pump }, datagram)

/-- Encrypt what the stack emitted. The outcome of the sends is ignored. -/
def submitAll (moments : Nat → Moment) : Nat → Tunnel σ → List Bytes → Traced Note Halt (Tunnel σ)
  | _, t, [] => return t
  | k, t, packet :: rest => do
      let (t, _) ← t.submit P (moments k) packet
      submitAll moments (k + 1) t rest

/-- Receive a datagram into the buffer of the loop, if one came, and let the pump take it. -/
def feed (take : Bytes → Except Panic (Pump × List Inbound))
    (received : Except IoError (Option Bytes)) (t : Tunnel σ) : Traced Note Halt (Tunnel σ) :=
  match received with
  | .error e => .lift (.error (.failed e))
  | .ok none => return t
  | .ok (some arrived) => do
      let datagram := arrived.take (Pump.recvBuf t.pump.mtu)
      .tell (.tunnel (.fed datagram))
      let (pump, outs) ← .lift ((take datagram).mapError .pump)
      .tellAll ((outs.filterMap (Traffic.ofInbound t.endpoint)).map .tunnel)
      return { t with pump := pump, rx := t.rx ++ outs.filterMap Inbound.packet? }

/-- Receive a datagram, if one came, and drain the pump. -/
def receive (pass : Pass σ) (t : Tunnel σ) : Traced Note Halt (Tunnel σ) :=
  t.feed (t.pump.receive P pass.receiving) pass.received

/-- The stack reads all packets that wait, and changes the sockets. -/
def poll (change : Handle → σ → σ) (t : Tunnel σ) : Traced Note Halt (Tunnel σ) := do
  .tell (.polled t.rx)
  return { t with rx := [], sockets := t.sockets.poll change }

def updateTimers (m : Moment) (t : Tunnel σ) : Traced Note Halt (Tunnel σ) := do
  let (pump, datagram) ← .lift ((t.pump.updateTimers P m).mapError .pump)
  .tellAll (datagram.map fun b => Note.tunnel (.sent b t.endpoint)).toList
  return { t with pump := pump }

/-- An operation on the sockets and listeners only. -/
def onPlane (op : DataPlane.Op σ) (t : Tunnel σ) : Traced Note Halt (Tunnel σ) := do
  let d ← .lift ((t.toDataPlane.apply alloc api op).mapError .stack)
  return { t with toDataPlane := d }

/-- The first three stages of `step_io`, which have all its sends. -/
def exchange (pass : Pass σ) (t : Tunnel σ) : Traced Note Halt (Tunnel σ) := do
  let t ← t.receive P pass
  let t ← t.poll pass.change
  let t ← submitAll P pass.encapsulating 0 t pass.outbound
  t.updateTimers P pass.timers

def stepIo (pass : Pass σ) (t : Tunnel σ) : Traced Note Halt (Tunnel σ) := do
  let t ← t.exchange P pass
  let t ← t.onPlane alloc api .acceptNew
  t.onPlane alloc api (.shuttle pass.order)

/-- A pass of `step_io` up to where it is dropped. Every call of the pump may be the last, also
one without a datagram to send. -/
def dropIo (pass : Pass σ) (t : Tunnel σ) : Cut → Traced Note Halt (Tunnel σ)
  | .receiving drains => t.feed (t.pump.receivePart P pass.receiving drains) pass.received
  | .submitting count => do
      let t ← t.receive P pass
      let t ← t.poll pass.change
      submitAll P pass.encapsulating 0 t (pass.outbound.take count)
  | .timers => t.exchange P pass

def sendPing (m : Moment) (send : Except IoError Unit) (t : Tunnel σ) :
    Traced Note Halt (Tunnel σ) := do
  let t := { t with pingSeq := t.pingSeq + 1 }
  match icmpEcho t.tunnelIp4 t.serverIp 1 t.pingSeq with
  | none => .lift (.error .overflow)
  | some packet =>
      let (t, datagram) ← t.submit P m packet
      if datagram.isSome then .lift (send.mapError .failed)
      return t

/-- The datagram of the hole punch is built from the identity of the site. -/
def sendHolepunch (punch : Option Bytes) (send : Except IoError Unit) (t : Tunnel σ) :
    Traced Note Halt (Tunnel σ) :=
  match punch with
  | none => return t
  | some datagram => do
      .tell (.punched datagram t.relayAddr)
      .lift (send.mapError .failed)
      return t

def turn (t : Tunnel σ) : Wake σ → Traced Note Halt (Tunnel σ)
  | .stepIo pass => t.stepIo P alloc api pass
  | .dropped pass cut => t.dropIo P pass cut
  | .tick m ping punch holepunch => do
      let t ← t.sendPing P m ping
      t.sendHolepunch punch holepunch
  | .addTargets specs => t.onPlane alloc api (.addTargets specs)
  | .removeTargets specs => t.onPlane alloc api (.removeTargets specs)
  | .reconcileTargets specs => t.onPlane alloc api (.reconcileTargets specs)
  | .task h event => t.onPlane alloc api (.task h event)

def run (t : Tunnel σ) (wakes : List (Wake σ)) : Traced Note Halt (Tunnel σ) :=
  wakes.foldlM (turn P alloc api) t

/-- What a dropped pass does to the sockets and listeners. -/
def Cut.ops (pass : Pass σ) : Cut → List (DataPlane.Op σ)
  | .receiving _ => []
  | .submitting _ | .timers => [.poll pass.change]

/-- What a turn does to the sockets and listeners. -/
def Wake.ops : Wake σ → List (DataPlane.Op σ)
  | .stepIo pass => [.poll pass.change, .acceptNew, .shuttle pass.order]
  | .dropped pass cut => cut.ops pass
  | .tick _ _ _ _ => []
  | .addTargets specs => [.addTargets specs]
  | .removeTargets specs => [.removeTargets specs]
  | .reconcileTargets specs => [.reconcileTargets specs]
  | .task h event => [.task h event]

/-! ## A part of the loop, as runs of the pump and the plane -/

/-- What the loop did between two states is a run of the pump and a run of the plane. The
stack reads what the pump delivers, in order. -/
structure Refines (ops : List (DataPlane.Op σ)) (t : Tunnel σ) (notes : List Note)
    (last : Tunnel σ) : Prop where
  pump : t.pump.Carries P last.pump (notes.filterMap Note.traffic?)
  plane : t.toDataPlane.run alloc api ops = .ok last.toDataPlane
  stack : t.rx ++ notes.filterMap Note.delivered? = notes.flatMap Note.read ++ last.rx
  endpoint : last.endpoint = t.endpoint
  sent : ∀ datagram endpoint, .tunnel (.sent datagram endpoint) ∈ notes → endpoint = t.endpoint

variable {P alloc api} {t u last : Tunnel σ} {notes more : List Note}
  {ops rest : List (DataPlane.Op σ)}

theorem Refines.refl (t : Tunnel σ) : Refines P alloc api [] t [] t where
  pump := .refl t.pump
  plane := rfl
  stack := by simp
  endpoint := rfl
  sent _ _ hmem := absurd hmem List.not_mem_nil

theorem Refines.trans (hfirst : Refines P alloc api ops t notes u)
    (hsecond : Refines P alloc api rest u more last) :
    Refines P alloc api (ops ++ rest) t (notes ++ more) last where
  pump := by
    rw [List.filterMap_append]
    exact hfirst.pump.trans hsecond.pump
  plane := by
    rw [DataPlane.run, List.foldlM_append]
    exact bind_eq_ok_iff.mpr ⟨_, hfirst.plane, hsecond.plane⟩
  stack := by
    rw [List.filterMap_append, ← List.append_assoc, hfirst.stack, List.append_assoc,
      hsecond.stack, List.flatMap_append, List.append_assoc]
  endpoint := hsecond.endpoint.trans hfirst.endpoint
  sent datagram endpoint hmem := by
    rcases List.mem_append.mp hmem with hmem | hmem
    · exact hfirst.sent datagram endpoint hmem
    · exact (hsecond.sent datagram endpoint hmem).trans hfirst.endpoint

variable (alloc api)

/-- Traffic of the pump: the packets it delivers are queued for the stack. -/
theorem refines_pump {pump : Pump} {traffic : List Traffic}
    (hcarries : t.pump.Carries P pump traffic)
    (hsent : ∀ datagram endpoint, .sent datagram endpoint ∈ traffic → endpoint = t.endpoint) :
    Refines P alloc api [] t (traffic.map .tunnel)
      { t with pump := pump
               rx := t.rx ++ (traffic.map Note.tunnel).filterMap Note.delivered? } where
  pump := by
    have hall : (traffic.map Note.tunnel).filterMap Note.traffic? = traffic := by
      rw [List.filterMap_map]
      exact List.filterMap_some
    rw [hall]
    exact hcarries
  plane := rfl
  stack := by
    have hread : (traffic.map Note.tunnel).flatMap Note.read = [] := by
      rw [List.flatMap_map]
      exact List.flatMap_eq_nil_iff.mpr fun _ _ => rfl
    rw [hread, List.nil_append]
  endpoint := rfl
  sent datagram endpoint hmem := by
    obtain ⟨_, htraffic, hnote⟩ := List.mem_map.mp hmem
    cases hnote
    exact hsent datagram endpoint htraffic

/-- Traffic that delivers nothing. -/
theorem refines_outbound (front : List Traffic) {pump : Pump} {datagram : Option Bytes}
    (hfront : (front.map Note.tunnel).filterMap Note.delivered? = [])
    (hsent : ∀ datagram endpoint, .sent datagram endpoint ∉ front)
    (hcarries : t.pump.Carries P pump
      (front ++ (datagram.map (Traffic.sent · t.endpoint)).toList)) :
    Refines P alloc api [] t
      (front.map .tunnel ++ (datagram.map fun b => Note.tunnel (.sent b t.endpoint)).toList)
      { t with pump := pump } := by
  have hrefines := refines_pump alloc api hcarries fun b endpoint hmem => by
    rcases List.mem_append.mp hmem with hmem | hmem
    · exact absurd hmem (hsent b endpoint)
    · cases datagram <;> simp_all
  have hnotes : (front ++ (datagram.map (Traffic.sent · t.endpoint)).toList).map Note.tunnel =
      front.map .tunnel ++ (datagram.map fun b => Note.tunnel (.sent b t.endpoint)).toList := by
    cases datagram <;> simp
  have hnone : ((datagram.map fun b => Note.tunnel (.sent b t.endpoint)).toList).filterMap
      Note.delivered? = [] := by
    cases datagram <;> rfl
  rw [hnotes, List.filterMap_append, hfront, hnone, List.append_nil, List.append_nil] at hrefines
  exact hrefines

variable (P)

theorem submit_refines (m : Moment) (t : Tunnel σ) (packet : Bytes) :
    (t.submit P m packet).Ends fun notes out => Refines P alloc api [] t notes out.1 := by
  refine Traced.ends_tell_bind (Traced.ends_lift_bind ?_)
  intro out hpump
  refine Traced.ends_tellAll_bind (Traced.ends_pure ?_)
  rw [List.append_nil]
  exact refines_outbound alloc api [.submitted packet] rfl (by simp)
    (Pump.carries_encapsulate (mapError_eq_ok_iff.mp hpump) t.endpoint)

theorem submitAll_refines (moments : Nat → Moment) (k : Nat) (t : Tunnel σ)
    (packets : List Bytes) :
    (submitAll P moments k t packets).Ends fun notes => Refines P alloc api [] t notes := by
  induction packets generalizing k t with
  | nil => exact Traced.ends_pure (.refl t)
  | cons packet packets ih =>
      refine (submit_refines P alloc api (moments k) t packet).bind ?_
      intro notes out hfirst last hlast
      exact hfirst.trans (ih (k + 1) out.1 last hlast)

theorem feed_refines {take : Bytes → Except Panic (Pump × List Inbound)}
    (received : Except IoError (Option Bytes)) (t : Tunnel σ)
    (htake : ∀ datagram pump outs, take datagram = .ok (pump, outs) →
      t.pump.Carries P pump
        (.fed datagram :: outs.filterMap (Traffic.ofInbound t.endpoint))) :
    (t.feed take received).Ends fun notes => Refines P alloc api [] t notes := by
  unfold feed
  split
  · exact Traced.ends_lift fun _ herror => by cases herror
  · exact Traced.ends_pure (.refl t)
  · next arrived =>
      refine Traced.ends_tell_bind (Traced.ends_lift_bind ?_)
      intro out hpump
      obtain ⟨pump, outs⟩ := out
      refine Traced.ends_tellAll_bind (Traced.ends_pure ?_)
      have hcarries := htake _ _ _ (mapError_eq_ok_iff.mp hpump)
      have hrefines := refines_pump alloc api hcarries ?_
      · have hdelivered : ((Traffic.fed (arrived.take (Pump.recvBuf t.pump.mtu)) ::
            outs.filterMap (Traffic.ofInbound t.endpoint)).map Note.tunnel).filterMap
              Note.delivered? = outs.filterMap Inbound.packet? := by
          have hpacket : (fun out => (Traffic.ofInbound t.endpoint out).bind
              (Note.delivered? ∘ Note.tunnel)) = Inbound.packet? := by
            funext out
            cases out <;> rfl
          rw [List.filterMap_map, ← hpacket, ← List.filterMap_filterMap]
          rfl
        rw [hdelivered] at hrefines
        rw [List.append_nil]
        exact hrefines
      · intro datagram endpoint hmem
        rcases List.mem_cons.mp hmem with hfed | hmem
        · cases hfed
        · obtain ⟨out, -, hout⟩ := List.mem_filterMap.mp hmem
          cases out <;> cases hout
          rfl

theorem receive_refines (pass : Pass σ) (t : Tunnel σ) :
    (t.receive P pass).Ends fun notes => Refines P alloc api [] t notes :=
  feed_refines P alloc api pass.received t fun _ _ _ htake =>
    Pump.carries_receive htake t.endpoint

theorem poll_refines (change : Handle → σ → σ) (t : Tunnel σ) :
    (t.poll change).Ends fun notes => Refines P alloc api [.poll change] t notes :=
  Traced.ends_tell_bind <| Traced.ends_pure
    { pump := .refl t.pump
      plane := rfl
      stack := by simp [Note.delivered?, Note.read]
      endpoint := rfl
      sent := by simp }

theorem updateTimers_refines (m : Moment) (t : Tunnel σ) :
    (t.updateTimers P m).Ends fun notes => Refines P alloc api [] t notes := by
  refine Traced.ends_lift_bind ?_
  intro out hpump
  refine Traced.ends_tellAll_bind (Traced.ends_pure ?_)
  rw [List.append_nil]
  exact refines_outbound alloc api [] rfl (by simp)
    (Pump.carries_updateTimers (mapError_eq_ok_iff.mp hpump) t.endpoint)

theorem onPlane_refines (op : DataPlane.Op σ) (t : Tunnel σ) :
    (t.onPlane alloc api op).Ends fun notes => Refines P alloc api [op] t notes := by
  refine Traced.ends_lift_bind ?_
  intro d hplane
  refine Traced.ends_pure ⟨.refl t.pump, ?_, by simp, rfl, by simp⟩
  rw [DataPlane.run, List.foldlM_cons]
  exact bind_eq_ok_iff.mpr ⟨d, mapError_eq_ok_iff.mp hplane, rfl⟩

theorem exchange_refines (pass : Pass σ) (t : Tunnel σ) :
    (t.exchange P pass).Ends fun notes => Refines P alloc api [.poll pass.change] t notes := by
  refine (receive_refines P alloc api pass t).bind fun _ _ hreceive => ?_
  refine (poll_refines P alloc api pass.change _).bind fun _ _ hpoll => ?_
  refine (submitAll_refines P alloc api pass.encapsulating 0 _ pass.outbound).bind
    fun _ _ hsubmit => ?_
  intro last hlast
  have htimers := updateTimers_refines P alloc api pass.timers _ last hlast
  exact hreceive.trans (hpoll.trans (hsubmit.trans htimers))

theorem stepIo_refines (pass : Pass σ) (t : Tunnel σ) :
    (t.stepIo P alloc api pass).Ends fun notes =>
      Refines P alloc api (Wake.ops (.stepIo pass)) t notes := by
  refine (exchange_refines P alloc api pass t).bind fun _ _ hexchange => ?_
  refine (onPlane_refines P alloc api .acceptNew _).bind fun _ _ haccept => ?_
  intro last hlast
  have hshuttle := onPlane_refines P alloc api (.shuttle pass.order) _ last hlast
  exact hexchange.trans (haccept.trans hshuttle)

theorem dropIo_refines (pass : Pass σ) (t : Tunnel σ) (cut : Cut) :
    (t.dropIo P pass cut).Ends fun notes => Refines P alloc api (cut.ops pass) t notes := by
  cases cut with
  | receiving drains =>
      exact feed_refines P alloc api pass.received t fun _ _ _ htake =>
        Pump.carries_receivePart htake t.endpoint
  | submitting count =>
      refine (receive_refines P alloc api pass t).bind fun _ _ hreceive => ?_
      refine (poll_refines P alloc api pass.change _).bind fun _ _ hpoll => ?_
      intro last hlast
      have hsubmit := submitAll_refines P alloc api pass.encapsulating 0 _
        (pass.outbound.take count) last hlast
      exact hreceive.trans (hpoll.trans hsubmit)
  | timers => exact exchange_refines P alloc api pass t

theorem sendPing_refines (m : Moment) (send : Except IoError Unit) (t : Tunnel σ) :
    (t.sendPing P m send).Ends fun notes => Refines P alloc api [] t notes := by
  rw [sendPing]
  split
  · exact Traced.ends_lift fun _ herror => by cases herror
  · next packet _ =>
      -- the number of the ping is in no part of the refinement
      have hsubmit : (({ t with pingSeq := t.pingSeq + 1 } : Tunnel σ).submit P m packet).Ends
          fun notes out => Refines P alloc api [] t notes out.1 := by
        intro out hout
        obtain ⟨hpump, hplane, hstack, hendpoint, hsent⟩ :=
          submit_refines P alloc api m _ packet out hout
        exact ⟨hpump, hplane, hstack, hendpoint, hsent⟩
      refine hsubmit.bind fun notes out hrefines => ?_
      have hdone : (pure out.1 : Traced Note Halt (Tunnel σ)).Ends fun more last =>
          Refines P alloc api [] t (notes ++ more) last :=
        Traced.ends_pure (by rwa [List.append_nil])
      dsimp only
      split
      · exact Traced.ends_lift_bind fun _ _ => hdone
      · exact hdone

theorem sendHolepunch_refines (punch : Option Bytes) (send : Except IoError Unit) (t : Tunnel σ) :
    (t.sendHolepunch punch send).Ends fun notes => Refines P alloc api [] t notes := by
  cases punch with
  | none => exact Traced.ends_pure (.refl t)
  | some datagram =>
      refine Traced.ends_tell_bind (Traced.ends_lift_bind fun _ _ => Traced.ends_pure ?_)
      exact ⟨.refl t.pump, rfl, by simp [Note.delivered?, Note.read], rfl, by simp⟩

/-- Every turn is a part of a run of the pump and of a run of the plane. -/
theorem turn_refines (t : Tunnel σ) (wake : Wake σ) :
    (t.turn P alloc api wake).Ends fun notes => Refines P alloc api wake.ops t notes := by
  cases wake with
  | stepIo pass => exact stepIo_refines P alloc api pass t
  | dropped pass cut => exact dropIo_refines P alloc api pass t cut
  | tick m ping punch holepunch =>
      refine (sendPing_refines P alloc api m ping t).bind fun _ _ hping => ?_
      intro last hlast
      exact hping.trans (sendHolepunch_refines P alloc api punch holepunch _ last hlast)
  | addTargets specs => exact onPlane_refines P alloc api _ t
  | removeTargets specs => exact onPlane_refines P alloc api _ t
  | reconcileTargets specs => exact onPlane_refines P alloc api _ t
  | task h event => exact onPlane_refines P alloc api _ t

theorem wakes_refine (t : Tunnel σ) (wakes : List (Wake σ)) :
    (t.run P alloc api wakes).Ends fun notes =>
      Refines P alloc api (wakes.flatMap Wake.ops) t notes := by
  intro last hlast
  have hkeeps := Traced.foldlM_keeps
    (fun done notes u => Refines P alloc api (done.flatMap Wake.ops) t notes u)
    (fun done notes wake u next hrefines hnext => by
      rw [List.flatMap_append, List.flatMap_singleton]
      exact hrefines.trans (turn_refines P alloc api u wake next hnext))
    [] wakes (Refines.refl t) hlast
  exact hkeeps

/-! ## The plane that the session sees -/

/-- The stack did not stop the loop. -/
def Halt.OffPlane (halt : Halt) : Prop := ∀ fault, halt ≠ .stack fault

theorem offPlane_of_pump {α : Type} {x : Except Panic α} {halt : Halt}
    (hx : x.mapError Halt.pump = .error halt) : halt.OffPlane := by
  cases x with
  | ok a => cases hx
  | error panic =>
      cases hx
      intro fault hfault
      cases hfault

theorem receive_offPlane (pass : Pass σ) (t : Tunnel σ) :
    (t.receive P pass).Fails Halt.OffPlane := by
  unfold receive feed
  split
  · intro halt hhalt fault hfault
    cases hhalt
    cases hfault
  · exact Traced.fails_of_ok rfl
  · refine Traced.fails_tell_bind
      (Traced.fails_lift_bind (fun _ hpump => offPlane_of_pump hpump) ?_)
    intro out _
    exact Traced.fails_of_ok rfl

theorem submitAll_offPlane (moments : Nat → Moment) (k : Nat) (t : Tunnel σ)
    (packets : List Bytes) : (submitAll P moments k t packets).Fails Halt.OffPlane := by
  induction packets generalizing k t with
  | nil => exact Traced.fails_of_ok rfl
  | cons packet packets ih =>
      have hsubmit : (t.submit P (moments k) packet).Fails Halt.OffPlane := by
        refine Traced.fails_tell_bind
          (Traced.fails_lift_bind (fun _ hpump => offPlane_of_pump hpump) ?_)
        intro out _
        exact Traced.fails_of_ok rfl
      exact Traced.fails_bind hsubmit fun out => ih (k + 1) out.1

theorem exchange_offPlane (pass : Pass σ) (t : Tunnel σ) :
    (t.exchange P pass).Fails Halt.OffPlane := by
  refine Traced.fails_bind (receive_offPlane P pass t) fun t => ?_
  refine Traced.fails_bind (x := t.poll pass.change) (Traced.fails_of_ok rfl) fun t => ?_
  refine Traced.fails_bind (submitAll_offPlane P _ 0 t pass.outbound) fun t => ?_
  refine Traced.fails_lift_bind (fun _ hpump => offPlane_of_pump hpump) ?_
  intro out _
  exact Traced.fails_of_ok rfl

/-- A fault of the stack in an operation is a fault of the plane. -/
theorem onPlane_faults (op : DataPlane.Op σ) (ops : List (DataPlane.Op σ)) (t : Tunnel σ) :
    (t.onPlane alloc api op).Fails fun halt => ∀ fault, halt = .stack fault →
      t.toDataPlane.run alloc api (op :: ops) = .error fault := by
  refine Traced.fails_lift_bind ?_ fun _ _ => Traced.fails_of_ok rfl
  intro halt hhalt fault hfault
  rw [DataPlane.run, List.foldlM_cons]
  cases hplane : t.toDataPlane.apply alloc api op with
  | ok d =>
      rw [hplane] at hhalt
      cases hhalt
  | error other =>
      rw [hplane] at hhalt
      cases hhalt
      cases hfault
      rfl

/-- The sockets and listeners after a pass are those that the session loop computes without the
pump, and a fault of the stack is a fault of that loop. -/
theorem stepIo_plane (pass : Pass σ) (t : Tunnel σ) :
    ((t.stepIo P alloc api pass).Ends fun _ last =>
      Session.stepIo alloc api t.toDataPlane pass.change pass.order = .ok last.toDataPlane) ∧
    (t.stepIo P alloc api pass).Fails fun halt => ∀ fault, halt = .stack fault →
      Session.stepIo alloc api t.toDataPlane pass.change pass.order = .error fault := by
  refine ⟨fun last hlast => (stepIo_refines P alloc api pass t last hlast).plane, ?_⟩
  have hexchange : (t.exchange P pass).Fails fun halt => ∀ fault, halt = .stack fault →
      Session.stepIo alloc api t.toDataPlane pass.change pass.order = .error fault :=
    fun halt hhalt fault hfault => absurd hfault (exchange_offPlane P pass t halt hhalt fault)
  refine hexchange.bind (exchange_refines P alloc api pass t) fun _ u hu => ?_
  -- the session loop runs the same three operations
  have hpolled : Session.stepIo alloc api t.toDataPlane pass.change pass.order =
      u.toDataPlane.run alloc api [.acceptNew, .shuttle pass.order] := by
    rw [← Except.ok.inj hu.plane]
    rfl
  rw [hpolled]
  refine (onPlane_faults alloc api .acceptNew _ u).bind (onPlane_refines P alloc api .acceptNew u)
    fun _ v hv => ?_
  have haccepted : u.toDataPlane.run alloc api [.acceptNew, .shuttle pass.order] =
      v.toDataPlane.run alloc api [.shuttle pass.order] := by
    rw [DataPlane.run, ← List.singleton_append, List.foldlM_append]
    exact congrArg (· >>= fun d => d.run alloc api [.shuttle pass.order]) hv.plane
  rw [haccepted]
  exact onPlane_faults alloc api (.shuttle pass.order) [] v

include alloc api in
/-- A dropped pass leaves the plane as it was, or as the session loop leaves it. -/
theorem dropIo_plane (pass : Pass σ) (t : Tunnel σ) (cut : Cut) :
    (t.dropIo P pass cut).Ends fun _ last =>
      last.toDataPlane = t.toDataPlane ∨
        last.toDataPlane = Session.dropIo t.toDataPlane pass.change := by
  intro last hlast
  have hplane := (dropIo_refines P alloc api pass t cut last hlast).plane
  cases cut with
  | receiving drains => exact .inl (Except.ok.inj hplane).symm
  | submitting count => exact .inr (Except.ok.inj hplane).symm
  | timers => exact .inr (Except.ok.inj hplane).symm

/-! ## From the start of a tunnel -/

variable {P alloc api} {cfg : SiteRun Json} {w : Surroundings} {wg : WgData}

/-- Bringing a tunnel up is bringing up the plane, with the pump kept. -/
theorem bringUp_plane (cfg : SiteRun Json) (w : Surroundings) (wg : WgData) :
    (fun out => out.1.toDataPlane) <$> bringUp alloc api cfg w wg =
      Session.bringUp cfg alloc api w wg := by
  have hmap {α β γ : Type} (f : β → γ) (x : Except Ending α) (g : α → Except Ending β) :
      f <$> (x >>= g) = x >>= fun a => f <$> g a := by cases x <;> rfl
  simp only [bringUp, Session.bringUp, assemble, hmap, apply_ite (Functor.map _)]
  rfl

theorem bringUp_ok (hup : bringUp alloc api cfg w wg = .ok (t, notes)) :
    ∃ peerPub init, publicFromB64 cfg.decode wg.publicKey = .ok peerPub ∧
      (Pump.new cfg.P cfg.secret peerPub cfg.mtu w.durationAtStart).initiateHandshake cfg.P
        w.moment = (t.pump, init) ∧
      DataPlane.bringUp alloc api wg.tcp = .ok t.toDataPlane ∧ t.rx = [] ∧
      notes = (init.map fun b => Note.tunnel (.sent b t.endpoint)).toList := by
  obtain ⟨hostport, -, hup⟩ := bind_eq_ok_iff.mp hup
  obtain ⟨addresses, -, hup⟩ := bind_eq_ok_iff.mp hup
  obtain ⟨endpoint, -, hup⟩ := bind_eq_ok_iff.mp hup
  obtain ⟨-, hup⟩ := bind_unit_eq_ok_iff.mp hup
  obtain ⟨peerPub, hkey, hup⟩ := bind_eq_ok_iff.mp hup
  have hassemble : assemble alloc api wg endpoint
      ((Pump.new cfg.P cfg.secret peerPub cfg.mtu w.durationAtStart).initiateHandshake cfg.P
        w.moment) = .ok (t, notes) := by
    dsimp only at hup
    split_ifs at hup
    · cases (bind_unit_eq_ok_iff.mp hup).2
    · exact (bind_unit_eq_ok_iff.mp hup).2
    · cases hup
    · exact hup
  obtain ⟨d, hplane, hassemble⟩ := bind_eq_ok_iff.mp hassemble
  obtain ⟨serverIp, -, hassemble⟩ := bind_eq_ok_iff.mp hassemble
  obtain ⟨tunnelIp4, -, hassemble⟩ := bind_eq_ok_iff.mp hassemble
  cases hassemble
  exact ⟨peerPub, _, mapError_eq_ok_iff.mp hkey, rfl, mapError_eq_ok_iff.mp hplane, rfl, rfl⟩

/-- From the start of a tunnel on, whatever the loop meets in whatever order: what it feeds,
submits, delivers, and sends is the traffic of one run of a new pump, and its sockets and
listeners are those of a run of the plane. The stack reads exactly what the pump delivered, in
order, and all datagrams of the pump go to the endpoint. -/
theorem loop_refines (hup : bringUp alloc api cfg w wg = .ok (t, notes)) {wakes : List (Wake σ)}
    (hrun : (t.run cfg.P alloc api wakes).result = .ok last) :
    ∃ peerPub d, publicFromB64 cfg.decode wg.publicKey = .ok peerPub ∧
      (Pump.new cfg.P cfg.secret peerPub cfg.mtu w.durationAtStart).Carries cfg.P last.pump
        ((notes ++ (t.run cfg.P alloc api wakes).notes).filterMap Note.traffic?) ∧
      DataPlane.bringUp alloc api wg.tcp = .ok d ∧
      d.run alloc api (wakes.flatMap Wake.ops) = .ok last.toDataPlane ∧
      (t.run cfg.P alloc api wakes).notes.filterMap Note.delivered? =
        (t.run cfg.P alloc api wakes).notes.flatMap Note.read ++ last.rx ∧
      ∀ datagram endpoint,
        .tunnel (.sent datagram endpoint) ∈ notes ++ (t.run cfg.P alloc api wakes).notes →
          endpoint = last.endpoint := by
  obtain ⟨peerPub, init, hkey, hinit, hplane, hrx, rfl⟩ := bringUp_ok hup
  have hrefines := wakes_refine cfg.P alloc api t wakes last hrun
  refine ⟨peerPub, t.toDataPlane, hkey, ?_, hplane, hrefines.plane, ?_, ?_⟩
  · have hstart := Pump.carries_initiateHandshake hinit t.endpoint
    have htraffic : (init.map fun b => Note.tunnel (.sent b t.endpoint)).toList.filterMap
        Note.traffic? = (init.map (Traffic.sent · t.endpoint)).toList := by
      cases init <;> rfl
    rw [List.filterMap_append, htraffic]
    exact hstart.trans hrefines.pump
  · have hstack := hrefines.stack
    rwa [hrx, List.nil_append] at hstack
  · intro datagram endpoint hmem
    rw [hrefines.endpoint]
    rcases List.mem_append.mp hmem with hmem | hmem
    · cases init with
      | none => cases hmem
      | some b =>
          simp only [Option.map_some, Option.toList_some, List.mem_singleton, Note.tunnel.injEq,
            Traffic.sent.injEq] at hmem
          exact hmem.2
    · exact hrefines.sent datagram endpoint hmem

/-! ## A ping that waits for the handshake -/

/-- A site that listens for one target, after it sent the initiation. -/
def raised : Tunnel BufferedSocket where
  toDataPlane := DataPlane.webSite
  pump := ((Pump.new Primitives.null [] (List.replicate 32 0) 1280 0).initiateHandshake
    Primitives.null Pump.start).1
  rx := []
  endpoint := .documentation
  relayAddr := ⟨SocketAddr.documentation.ip, 21820⟩
  serverIp := #v[10, 0, 0, 1]
  tunnelIp4 := #v[10, 0, 0, 2]
  pingSeq := 0

/-- A turn without outbound packets in which the stack changes nothing. -/
def quietPass (received : Option Bytes) : Pass BufferedSocket :=
  ⟨.ok received, fun _ => Pump.start, fun _ s => s, [], fun _ => Pump.start, Pump.start, .inserted⟩

/-- A tick, then the response to the initiation in a pass that is dropped as soon as the pump
took it, then a pass with a datagram that the pump rejects. The ping of the tick waits in the
queue until then. -/
def answered : List (Wake BufferedSocket) :=
  [.tick Pump.start (.ok ()) none (.ok ()),
    .dropped (quietPass (some ([2, 0, 0, 0, 1, 0, 0, 0, 1, 0, 0, 0] ++ List.replicate 80 0)))
      (.receiving 0),
    .stepIo (quietPass (some [0]))]

theorem bringUp_raised : ∃ notes, bringUp .firstFree bufferedApi plainSite quiet
    ⟨"host:51820", "key", "10.0.0.1", "10.0.0.2", 0, ["80:10.0.0.1:8080"]⟩ =
      .ok (raised, notes) := ⟨_, rfl⟩

theorem loop_refines_answered :
    ∃ last, (raised.run Primitives.null .firstFree bufferedApi answered).result = .ok last ∧
      ∃ peerPub d, publicFromB64 plainSite.decode "key" = .ok peerPub ∧
        DataPlane.bringUp .firstFree bufferedApi ["80:10.0.0.1:8080"] = .ok d ∧
        d.run .firstFree bufferedApi (answered.flatMap Wake.ops) = .ok last.toDataPlane := by
  obtain ⟨notes, hup⟩ := bringUp_raised
  cases hrun : (raised.run Primitives.null .firstFree bufferedApi answered).result with
  | error halt =>
      have hok : (raised.run Primitives.null .firstFree bufferedApi answered).result.isOk := by
        decide +kernel
      rw [hrun] at hok
      cases hok
  | ok last =>
      obtain ⟨peerPub, d, hkey, -, hplane, hops, -⟩ := loop_refines hup hrun
      exact ⟨last, rfl, peerPub, d, hkey, hplane, hops⟩

end Tunnel

end Newt.Site
