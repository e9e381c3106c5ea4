import Newt.Olm.Demux
import Newt.Olm.Loop

/-! # A client session as runs of the router

From one connect to the next the data plane of a client is one run of a new router. Each event
of the session is a fixed sequence of calls: the sites of the connect, the datagrams, the packets
of the host, the ticks, and the later messages. What the session sends, and what the host gets,
are the outputs of these calls in their order.
-/

namespace Newt.Olm

open Foundation Noise Wg Stack
open Proxy hiding Bytes

/-! ## What a run of a router puts out -/

/-- The datagrams as outputs. -/
def Out.allToNet (datagrams : List (Bytes × SocketAddr)) : List Out :=
  datagrams.map fun (datagram, endpoint) => .toNet datagram endpoint

namespace Router

variable (P : Primitives) (decode : String → Except String Bytes)

/-- What a call puts out. -/
def outs (router : Router) : Call → List Out
  | .upsertPeer m durationAtStart siteId key endpoint cidrs =>
      Out.allToNet
        (router.upsertPeer P decode m durationAtStart siteId key endpoint cidrs).2.toList
  | .routeOutbound m ipPkt =>
      match router.routeOutbound P m ipPkt with
      | .error _ => []
      | .ok (_, out) => Out.allToNet out.toList
  | .handleInbound moments datagram =>
      match router.handleInbound P moments datagram with
      | .error _ => []
      | .ok (_, outs) => outs
  | .tick moments =>
      match router.tick P moments with
      | .error _ => []
      | .ok (_, out) => Out.allToNet out
  | _ => []

/-- What a run puts out. -/
def runOuts : Router → List Call → List Out
  | _, [] => []
  | router, call :: rest =>
      outs P decode router call ++
        match router.apply P decode call with
        | .error _ => []
        | .ok next => runOuts next rest

variable {P decode} {router middle next : Router} {calls more : List Call} {call : Call}

theorem run_trans (hrun : router.run P decode calls = .ok middle)
    (hmore : middle.run P decode more = .ok next) :
    router.run P decode (calls ++ more) = .ok next := by
  rw [run_append, hrun]
  exact hmore

theorem runOuts_append (hrun : router.run P decode calls = .ok middle) (more : List Call) :
    router.runOuts P decode (calls ++ more) =
      router.runOuts P decode calls ++ middle.runOuts P decode more := by
  induction calls generalizing router with
  | nil =>
      cases hrun
      rfl
  | cons call calls ih =>
      rw [Router.run] at hrun
      cases happly : router.apply P decode call with
      | error panic => simp [happly] at hrun
      | ok after =>
          simp only [happly] at hrun
          rw [List.cons_append, runOuts, runOuts, happly]
          simp only [ih hrun, List.append_assoc]

theorem runOuts_single (happly : router.apply P decode call = .ok next) :
    router.runOuts P decode [call] = outs P decode router call := by
  simp only [runOuts, happly, List.append_nil]

end Router

/-! ## The calls of an event -/

section Calls

variable {Json β : Type} (client : Client Json) (w : Surroundings β)

/-- The calls that a site makes: none without a key or an endpoint that resolves. -/
def siteCalls (k : Nat) (site : SiteConfig) : List Router.Call :=
  if site.publicKey = "" then []
  else
    match w.resolve k site.wgEndpoint with
    | none => []
    | some ep =>
        [.upsertPeer (w.moment k) (w.durationAtStart k) site.siteId site.publicKey ep
          (parseCidrs site.routedCidrs)]

def sitesCalls : Nat → List SiteConfig → List Router.Call
  | _, [] => []
  | k, site :: rest => siteCalls w k site ++ sitesCalls (k + 1) rest

/-- The calls of a connect on the new router. -/
def connectCalls (msg : WsMessage Json) : List Router.Call :=
  sitesCalls w 0 ((client.serde.wgData msg.data).getD .default).sites

def redirectCalls (payload : Option PeerEndpoint) : List Router.Call :=
  match payload with
  | none => []
  | some r =>
      match w.resolve 0 r.endpoint with
      | none => []
      | some ep => [.setEndpoint r.siteId ep]

/-- The calls of a message on the current router. -/
def peerCalls (topic : Topic) (data : Json) : List Router.Call :=
  match topic with
  | .peerAdd | .peerUpdate =>
      match client.serde.siteConfig data with
      | none => []
      | some site => siteCalls w 0 site
  | .peerRemove =>
      match client.serde.peerRemove data with
      | none => []
      | some siteId => [.removePeer siteId]
  | .peerRelay => redirectCalls w (client.serde.peerRelay data)
  | .peerUnrelay => redirectCalls w (client.serde.peerUnrelay data)
  | .peerDataAdd =>
      match client.serde.peerData data with
      | none => []
      | some r => [.addCidrs r.siteId (parseCidrs r.remoteSubnets)]
  | .peerDataRemove =>
      match client.serde.peerData data with
      | none => []
      | some r => [.removeCidrs r.siteId (parseCidrs r.remoteSubnets)]
  | .sync =>
      match client.serde.syncData data with
      | none => []
      | some sites => sitesCalls w 0 sites
  | .connect | .error | .terminate => []

theorem siteCalls_run (k : Nat) (d : DataPlane β) (site : SiteConfig) :
    d.router.run client.P client.decode (siteCalls w k site) =
        .ok (client.upsertSite w k d site).1.router ∧
      d.router.runOuts client.P client.decode (siteCalls w k site) =
        Out.allToNet (client.upsertSite w k d site).2.toList := by
  simp only [siteCalls, Client.upsertSite]
  split
  · exact ⟨rfl, rfl⟩
  · cases w.resolve k site.wgEndpoint with
    | none => exact ⟨rfl, rfl⟩
    | some ep => exact ⟨(Router.run_singleton _ _).mpr rfl, Router.runOuts_single rfl⟩

theorem buildSites_run (k : Nat) (router : Router) (sites : List SiteConfig) :
    router.run client.P client.decode (sitesCalls w k sites) =
        .ok (client.buildSites w k router sites).1 ∧
      router.runOuts client.P client.decode (sitesCalls w k sites) =
        Out.allToNet (client.buildSites w k router sites).2.1 := by
  induction sites generalizing k router with
  | nil => exact ⟨rfl, rfl⟩
  | cons site sites ih =>
      simp only [sitesCalls, siteCalls, Client.buildSites]
      split
      · exact ih (k + 1) router
      · cases w.resolve k site.wgEndpoint with
        | none => exact ih (k + 1) router
        | some ep =>
            obtain ⟨hrun, houts⟩ := ih (k + 1) (client.upsertRouter w k router site ep).1
            refine ⟨Router.run_trans ((Router.run_singleton _ _).mpr rfl) hrun, ?_⟩
            rw [Router.runOuts_append ((Router.run_singleton _ _).mpr rfl),
              Router.runOuts_single rfl]
            simp only [Out.allToNet, List.map_append] at houts ⊢
            exact congrArg _ houts

end Calls

/-! ## The handles of a backend -/

namespace UserspaceBackend

variable {σ : Type} (alloc : Allocator) (api : TcpApi σ) {b : UserspaceBackend σ}

/-- Every operation finds its handles alive. -/
theorem apply_returns (howns : b.toPlane.Owns []) (op : Op σ) :
    ∃ next, b.apply alloc api op = .ok next ∧ next.toPlane.Owns [] := by
  have hserves {op : Op σ} (hop : ∀ index connect, op ≠ .accept index connect) :
      ∃ next, b.apply alloc api op = .ok next ∧ next.toPlane.Owns [] := by
    obtain ⟨next, hstep, hnext, -⟩ := apply_serves alloc api howns hop
    exact ⟨next, hstep, hnext⟩
  cases op with
  | accept index connect =>
      rw [apply]
      cases b.forwards[index]? with
      | none => exact ⟨b, rfl, howns⟩
      | some f =>
          by_cases htaken : (connect (f.dest, f.destPort) b.nextPort api.new).isSome = true
          · obtain ⟨next, hopen, hnext, -⟩ := openOutgoing_opens alloc api howns htaken
            exact ⟨next, hopen, hnext⟩
          · obtain ⟨next, hopen, hnext, -⟩ := openOutgoing_refused alloc api howns htaken
            exact ⟨next, hopen, hnext⟩
  | poll | shuttle | task => exact hserves (by simp)

theorem Reachable.owns {discipline : Plane.Discipline σ}
    (hreach : Reachable alloc api discipline b) : b.toPlane.Owns [] := by
  induction hreach with
  | new hnew =>
      obtain ⟨fl, -, hreturn⟩ := bind_eq_ok_iff.mp hnew
      cases hreturn
      exact List.Perm.nil
  | op op _ _ step ih =>
      obtain ⟨next, hnext, howns⟩ := apply_returns alloc api ih op
      cases hnext.symm.trans step
      exact howns

/-- Driving a backend meets no dead handle, and is three of its operations. -/
theorem drive_returns (hreach : Reachable alloc api .any b) (accepted : Option (Nat × Connect σ))
    (change : Handle → σ → σ) (order : Plane.KeyOrder) :
    ∃ next, b.drive alloc api accepted change order = .ok next ∧
      next.Reachable alloc api .any := by
  have hstep {b : UserspaceBackend σ} (hreach : Reachable alloc api .any b) (op : Op σ) :
      ∃ next, b.apply alloc api op = .ok next ∧ next.Reachable alloc api .any := by
    obtain ⟨next, hnext, -⟩ := apply_returns alloc api (hreach.owns alloc api) op
    exact ⟨next, hnext, .op op hreach (allowed_any api b op) hnext⟩
  have hopen : ∃ opened, b.openNext alloc api accepted = .ok opened ∧
      opened.Reachable alloc api .any := by
    cases accepted with
    | none => exact ⟨b, rfl, hreach⟩
    | some stream => exact hstep hreach (.accept stream.1 stream.2)
  obtain ⟨opened, hopened, hreach⟩ := hopen
  obtain ⟨polled, hpolled, hreach⟩ := hstep hreach (.poll change)
  obtain ⟨next, hpass, hnext⟩ := hstep hreach (.shuttle order)
  refine ⟨next, ?_, hnext⟩
  exact bind_eq_ok_iff.mpr ⟨opened, hopened, bind_eq_ok_iff.mpr ⟨polled, hpolled, hpass⟩⟩

end UserspaceBackend

namespace Backend

variable {σ : Type} (alloc : Allocator) (api : TcpApi σ)

/-- A userspace backend is one that its operations make of a new one. -/
def Reached : Backend σ → Prop
  | .userspace _ _ b => b.Reachable alloc api .any
  | .kernel _ => True

variable {alloc api}

theorem Reached.addRoutes {b : Backend σ} (hreached : b.Reached alloc api)
    (added : Cidr → Bool) (cidrs : List Cidr) :
    (b.addRoutes added cidrs).Reached alloc api := by
  cases b <;> exact hreached

end Backend

namespace Loop

variable {Json σ : Type} (client : Client Json) (cfg : ClientRun)

def routeCalls (moments : Nat → Moment) : Nat → List Bytes → List Router.Call
  | _, [] => []
  | k, packet :: rest => .routeOutbound (moments k) packet :: routeCalls moments (k + 1) rest

/-- The packets of the host when the backend is driven. -/
def Driving.packets (env : Driving σ) : AccessMode → List Bytes
  | .userspace => env.emitted
  | .kernel =>
      match env.packet with
      | .error _ => []
      | .ok packet => readPacket client packet

/-- The calls of an event on the current router. -/
def Wake.calls : Wake Json σ → List Router.Call
  | .message (.ok (some msg)) w =>
      match Topic.ofText msg.typ with
      | none => []
      | some topic => peerCalls client (w.exposing σ cfg) topic msg.data
  | .message _ _ => []
  | .tick env => [.tick env.moments]
  | .datagram env =>
      match env.received with
      | .error _ => []
      | .ok arrived => [.handleInbound env.moments (arrived.take (Pump.recvBuf client.mtu))]
  | .drive env => routeCalls env.moments 0 (env.packets client cfg.access)
  | .task _ _ => []

def Wake.connect? : Wake Json σ → Option (WsMessage Json × Conditions)
  | .message (.ok (some msg)) w =>
      if Topic.ofText msg.typ = some .connect then some (msg, w) else none
  | _ => none

/-! ## Parts of a turn -/

variable (alloc : Allocator) (api : TcpApi σ) in
/-- A part of a turn hands `outs` to the network and the host. The host takes the packets in
order, and what it has not taken waits. -/
structure Emits (outs : List Out) (x : Exposed σ) (notes : List Note) (y : Exposed σ) :
    Prop where
  mode : y.backend.mode = x.backend.mode
  reached : x.backend.Reached alloc api → y.backend.Reached alloc api
  outs : notes.filterMap Note.out? = outs
  host : x.rx ++ notes.filterMap Note.delivered? = notes.flatMap Note.taken ++ y.rx

variable {alloc : Allocator} {api : TcpApi σ} {x y z : Exposed σ} {outs further : List Out}
  {notes more : List Note}

theorem Emits.refl (x : Exposed σ) : Emits alloc api [] x [] x := ⟨rfl, id, rfl, by simp⟩

theorem Emits.trans (hfirst : Emits alloc api outs x notes y)
    (hsecond : Emits alloc api further y more z) :
    Emits alloc api (outs ++ further) x (notes ++ more) z where
  mode := hsecond.mode.trans hfirst.mode
  reached hreached := hsecond.reached (hfirst.reached hreached)
  outs := by rw [List.filterMap_append, hfirst.outs, hsecond.outs]
  host := by
    rw [List.filterMap_append, ← List.append_assoc, hfirst.host, List.append_assoc,
      hsecond.host, List.flatMap_append, List.append_assoc]

/-- Routes are not seen by anyone who waits for packets. -/
theorem emits_addRoutes (added : Cidr → Bool) (cidrs : List Cidr) (x : Exposed σ) :
    Emits alloc api [] x [] (x.addRoutes added cidrs) where
  mode := Backend.mode_addRoutes added cidrs x.backend
  reached hreached := hreached.addRoutes added cidrs
  outs := rfl
  host := by simp [Exposed.addRoutes]

theorem emits_aside (x : Exposed σ) (haside : ∀ note ∈ notes, note.isAside = true) :
    Emits alloc api [] x notes x := by
  induction notes with
  | nil => exact .refl x
  | cons note notes ih =>
      obtain ⟨hnote, hnotes⟩ := List.forall_mem_cons.mp haside
      have hfirst : Emits alloc api [] x [note] x := by
        cases note with
        | registered | pinged | punched _ _ =>
            exact ⟨rfl, id, rfl, by simp [Note.delivered?, Note.taken]⟩
        | out _ | read _ => cases hnote
      exact hfirst.trans (ih hnotes)

theorem emits_toNet (x : Exposed σ) (datagram : Bytes) (endpoint : SocketAddr) :
    Emits alloc api [.toNet datagram endpoint] x [toNet datagram endpoint] x :=
  ⟨rfl, id, rfl, by simp [toNet, Note.delivered?, Note.taken]⟩

variable (alloc api) in
theorem sendOut_emits (x : Exposed σ) (send : Except IoError Unit)
    (out : Option (Bytes × SocketAddr)) :
    (sendOut send out).Ends fun notes _ => Emits alloc api (Out.allToNet out.toList) x notes x := by
  cases out with
  | none => exact Traced.ends_pure (.refl x)
  | some out => exact Traced.ends_tell_bind (Traced.ends_lift fun _ _ => emits_toNet x _ _)

variable (alloc api) in
theorem sendEach_emits (x : Exposed σ) (send : Nat → Except IoError Unit) (k : Nat)
    (datagrams : List (Bytes × SocketAddr)) :
    (sendEach toNet send k datagrams).Ends fun notes _ =>
      Emits alloc api (Out.allToNet datagrams) x notes x := by
  induction datagrams generalizing k with
  | nil => exact Traced.ends_pure (.refl x)
  | cons out datagrams ih =>
      refine Traced.ends_tell_bind (Traced.ends_lift_bind fun _ _ => ?_)
      intro _ hrest
      exact (emits_toNet x _ _).trans (ih (k + 1) _ hrest)

variable (alloc api) in
theorem handOut_emits (outcome : Nat → Except IoError Unit) (k : Nat) (x : Exposed σ)
    (outs : List Out) :
    (handOut outcome k x outs).Ends fun notes y => Emits alloc api outs x notes y := by
  induction outs generalizing k x with
  | nil => exact Traced.ends_pure (.refl x)
  | cons out outs ih =>
      cases out with
      | toNet datagram endpoint =>
          refine Traced.ends_tell_bind (Traced.ends_lift_bind fun _ _ => ?_)
          intro y hrest
          exact (emits_toNet x datagram endpoint).trans (ih (k + 1) x y hrest)
      | toHost packet =>
          rw [handOut]
          refine Traced.ends_tell_bind ?_
          split
          · next address ports b hbackend =>
              intro y hrest
              have hqueued : Emits alloc api [.toHost packet] x [.out (.toHost packet)]
                  ⟨x.backend, x.rx ++ [packet], by simp [hbackend, Backend.mode]⟩ :=
                ⟨rfl, id, rfl, rfl⟩
              exact hqueued.trans (ih (k + 1) _ y hrest)
          · next b hbackend =>
              refine Traced.ends_tell_bind (Traced.ends_lift_bind fun _ _ => ?_)
              intro y hrest
              -- nothing waits for the kernel, so it takes the packet in order
              have hempty : x.rx = [] := x.direct (by rw [hbackend]; rfl)
              have htaken : Emits alloc api [.toHost packet] x
                  [.out (.toHost packet), .read [packet]] x :=
                ⟨rfl, id, rfl, by simp [hempty, Note.delivered?, Note.taken]⟩
              exact htaken.trans (ih (k + 1) x y hrest)

/-! ## Turns -/

variable (alloc api) in
/-- A part of a session makes `calls` on the router of its data plane, and hands on what they
put out. -/
structure Step (calls : List Router.Call) (d : DataPlane (Exposed σ)) (notes : List Note)
    (next : DataPlane (Exposed σ)) : Prop where
  router : d.router.run client.P client.decode calls = .ok next.router
  emits :
    Emits alloc api (d.router.runOuts client.P client.decode calls) d.backend notes next.backend

variable {client cfg} {d next last : DataPlane (Exposed σ)} {calls rest : List Router.Call}

theorem Step.trans (hfirst : Step client alloc api calls d notes next)
    (hsecond : Step client alloc api rest next more last) :
    Step client alloc api (calls ++ rest) d (notes ++ more) last where
  router := Router.run_trans hfirst.router hsecond.router
  emits := by
    rw [Router.runOuts_append hfirst.router]
    exact hfirst.emits.trans hsecond.emits

theorem step_same (hrouter : next.router = d.router)
    (hemits : Emits alloc api [] d.backend notes next.backend) :
    Step client alloc api [] d notes next :=
  ⟨by rw [hrouter]; rfl, hemits⟩

theorem step_call {call : Router.Call} {router : Router} {y : Exposed σ}
    (happly : d.router.apply client.P client.decode call = .ok router)
    (hemits : Emits alloc api (Router.outs client.P client.decode d.router call) d.backend notes
      y) :
    Step client alloc api [call] d notes ⟨router, y⟩ where
  router := (Router.run_singleton _ _).mpr happly
  emits := by rwa [Router.runOuts_single happly]

variable (alloc api) in
theorem upsertSite_backend (client : Client Json) (cfg : ClientRun) (w : Conditions) (k : Nat)
    (d : DataPlane (Exposed σ)) (site : SiteConfig) :
    Emits alloc api [] d.backend [] (client.upsertSite (w.exposing σ cfg) k d site).1.backend := by
  simp only [Client.upsertSite]
  split
  · exact .refl _
  · split
    · exact .refl _
    · exact emits_addRoutes _ _ _

theorem redirectPeer_step (w : Conditions) (d : DataPlane (Exposed σ))
    (payload : Option PeerEndpoint) :
    Step client alloc api (redirectCalls (w.exposing σ cfg) payload) d []
      (Client.redirectPeer (w.exposing σ cfg) d payload) := by
  have hnothing : Step client alloc api [] d [] d := step_same rfl (.refl _)
  cases payload with
  | none => exact hnothing
  | some r =>
      simp only [redirectCalls, Client.redirectPeer]
      cases (w.exposing σ cfg).resolve 0 r.endpoint with
      | none => exact hnothing
      | some ep => exact step_call rfl (.refl _)

variable (alloc api) in
theorem upsertSite_step (w : Conditions) (k : Nat) (d : DataPlane (Exposed σ))
    (site : SiteConfig) :
    (upsertSite client (w.exposing σ cfg) k d site).Ends fun notes next =>
      Step client alloc api (siteCalls (w.exposing σ cfg) k site) d notes next := by
  obtain ⟨hrun, houts⟩ := siteCalls_run client (w.exposing σ cfg) k d site
  have hbackend := upsertSite_backend alloc api client cfg w k d site
  rw [upsertSite]
  generalize client.upsertSite (w.exposing σ cfg) k d site = out at hrun houts hbackend ⊢
  obtain ⟨next, init⟩ := out
  refine (sendOut_emits alloc api next.backend _ init).bind ?_
  intro notes _ hemits
  refine Traced.ends_pure ⟨hrun, ?_⟩
  rw [houts, List.append_nil]
  exact hbackend.trans hemits

theorem syncSites_step (w : Conditions) (k : Nat) (d : DataPlane (Exposed σ))
    (sites : List SiteConfig) :
    (syncSites client (w.exposing σ cfg) k d sites).Ends fun notes next =>
      Step client alloc api (sitesCalls (w.exposing σ cfg) k sites) d notes next := by
  induction sites generalizing k d with
  | nil => exact Traced.ends_pure (step_same rfl (.refl _))
  | cons site sites ih =>
      refine (upsertSite_step alloc api w k d site).bind ?_
      intro notes next hsite last hlast
      exact hsite.trans (ih (k + 1) next last hlast)

theorem peerMessage_step (w : Conditions) (d : DataPlane (Exposed σ)) (topic : Topic)
    (data : Json) :
    (peerMessage client (w.exposing σ cfg) d topic data).Ends fun notes next =>
      Step client alloc api (peerCalls client (w.exposing σ cfg) topic data) d notes next := by
  have hnothing : Step client alloc api [] d [] d := step_same rfl (.refl _)
  cases topic with
  | peerAdd | peerUpdate =>
      simp only [peerMessage, peerCalls]
      cases client.serde.siteConfig data with
      | none => exact Traced.ends_pure hnothing
      | some site => exact upsertSite_step alloc api w 0 d site
  | sync =>
      simp only [peerMessage, peerCalls]
      cases client.serde.syncData data with
      | none => exact Traced.ends_pure hnothing
      | some sites => exact syncSites_step w 0 d sites
  | peerRemove =>
      refine Traced.ends_pure ?_
      simp only [Client.handlePeerMessage, peerCalls]
      cases client.serde.peerRemove data with
      | none => exact hnothing
      | some siteId => exact step_call rfl (.refl _)
  | peerRelay => exact Traced.ends_pure (redirectPeer_step w d _)
  | peerUnrelay => exact Traced.ends_pure (redirectPeer_step w d _)
  | peerDataAdd =>
      refine Traced.ends_pure ?_
      simp only [Client.handlePeerMessage, peerCalls]
      cases client.serde.peerData data with
      | none => exact hnothing
      | some r => exact step_call rfl (emits_addRoutes _ _ _)
  | peerDataRemove =>
      refine Traced.ends_pure ?_
      simp only [Client.handlePeerMessage, peerCalls]
      cases client.serde.peerData data with
      | none => exact hnothing
      | some r => exact step_call rfl (.refl _)
  | connect | error | terminate => exact Traced.ends_pure hnothing

theorem inbound_step (env : Arrival) (arrived : Bytes) (d : DataPlane (Exposed σ)) :
    (inbound client env arrived d).Ends fun notes next =>
      Step client alloc api [.handleInbound env.moments (arrived.take (Pump.recvBuf client.mtu))] d
        notes next := by
  refine Traced.ends_lift_bind ?_
  intro out hrouter
  obtain ⟨router, outs⟩ := out
  have hinbound := mapError_eq_ok_iff.mp hrouter
  refine (handOut_emits alloc api env.outcome 0 d.backend outs).bind ?_
  intro notes y hemits
  refine Traced.ends_pure (step_call ?_ ?_)
  · rw [Router.apply, hinbound]
    rfl
  · rw [List.append_nil, Router.outs, hinbound]
    exact hemits

theorem routeAll_step (moments : Nat → Moment) (send : Nat → Except IoError Unit) (k : Nat)
    (d : DataPlane (Exposed σ)) (packets : List Bytes) :
    (routeAll client moments send k d packets).Ends fun notes next =>
      Step client alloc api (routeCalls moments k packets) d notes next := by
  induction packets generalizing k d with
  | nil => exact Traced.ends_pure (step_same rfl (.refl _))
  | cons packet packets ih =>
      refine Traced.ends_lift_bind ?_
      intro out hrouter
      obtain ⟨router, out⟩ := out
      have houtbound := mapError_eq_ok_iff.mp hrouter
      refine (sendOut_emits alloc api d.backend (send k) out).bind ?_
      intro notes _ hemits last hlast
      have hcall : Step client alloc api [.routeOutbound (moments k) packet] d notes
          { d with router := router } := by
        refine step_call ?_ ?_
        · rw [Router.apply, houtbound]
          rfl
        · rw [Router.outs, houtbound]
          exact hemits
      exact hcall.trans (ih (k + 1) _ last hlast)

/-- Driving a backend yields the packets of its kind, and the stack takes what waits. -/
theorem driveBackend_emits (env : Driving σ) (x : Exposed σ) :
    (driveBackend client alloc api env x).Ends fun notes out =>
      Emits alloc api [] x notes out.1 ∧ out.2 = env.packets client x.backend.mode := by
  rw [driveBackend]
  split
  · next address ports b hbackend =>
      refine Traced.ends_lift_bind fun accepted _ => Traced.ends_tell_bind ?_
      refine Traced.ends_lift_bind fun driven hdrive => Traced.ends_pure ⟨⟨?_, ?_, rfl, ?_⟩, ?_⟩
      · rw [hbackend]
        rfl
      · intro hreached
        rw [hbackend] at hreached
        obtain ⟨next, hnext, hdriven⟩ :=
          UserspaceBackend.drive_returns alloc api hreached accepted env.change env.order
        cases hnext.symm.trans (mapError_eq_ok_iff.mp hdrive)
        exact hdriven
      · simp [Note.delivered?, Note.taken, Exposed.idle]
      · rw [hbackend]
        rfl
  · next b hbackend =>
      refine Traced.ends_lift_bind fun packet hpacket => Traced.ends_pure ⟨.refl x, ?_⟩
      rw [hbackend, Backend.mode, Driving.packets, mapError_eq_ok_iff.mp hpacket]

theorem drive_step (env : Driving σ) (d : DataPlane (Exposed σ)) :
    (drive client alloc api env d).Ends fun notes next =>
      Step client alloc api (routeCalls env.moments 0 (env.packets client d.backend.backend.mode)) d
        notes next := by
  refine (driveBackend_emits env d.backend).bind ?_
  intro notes out hdriven last hlast
  obtain ⟨backend, packets⟩ := out
  obtain ⟨hemits, rfl⟩ := hdriven
  have hpolled : Step client alloc api [] d notes { d with backend := backend } :=
    step_same rfl hemits
  exact hpolled.trans (routeAll_step env.moments env.send 0 _ _ last hlast)

variable (alloc api) in
theorem tickRouter_step (env : Ticking) (d : DataPlane (Exposed σ)) :
    (tickRouter client env d).Ends fun notes next =>
      Step client alloc api [.tick env.moments] d notes next := by
  refine Traced.ends_lift_bind ?_
  intro out hrouter
  obtain ⟨router, out⟩ := out
  have htick := mapError_eq_ok_iff.mp hrouter
  refine (sendEach_emits alloc api d.backend env.send 0 out).bind ?_
  intro notes _ hemits
  refine Traced.ends_pure (step_call ?_ ?_)
  · rw [Router.apply, htick]
    rfl
  · rw [List.append_nil, Router.outs, htick]
    exact hemits

/-! ## Whole sessions -/

theorem sendEach_punched (send : Nat → Except IoError Unit) (k : Nat)
    (datagrams : List (Bytes × SocketAddr)) :
    (sendEach .punched send k datagrams).Ends fun notes _ =>
      ∀ note ∈ notes, note.isAside = true := by
  induction datagrams generalizing k with
  | nil => exact Traced.ends_pure fun note hmem => by cases hmem
  | cons out datagrams ih =>
      refine Traced.ends_tell_bind (Traced.ends_lift_bind fun _ _ => ?_)
      intro _ hrest
      exact List.forall_mem_cons.mpr ⟨rfl, ih (k + 1) _ hrest⟩

theorem heartbeat_aside (send : Except IoError Unit) (pingTicks : Nat) :
    (heartbeat send pingTicks).Ends fun notes _ => ∀ note ∈ notes, note.isAside = true := by
  rw [heartbeat]
  split
  · refine Traced.ends_tell_bind (Traced.ends_lift_bind fun _ _ => Traced.ends_pure ?_)
    simp [Note.isAside]
  · exact Traced.ends_pure fun note hmem => by cases hmem

/-- A part of a turn that leaves a data plane, with a step to it. -/
theorem ends_some {part : Traced Note Halt (DataPlane (Exposed σ))}
    (hpart : part.Ends fun notes next => Step client alloc api calls d notes next) :
    (part >>= fun d => (pure (some d) : Traced Note Halt _)).Ends fun notes dp =>
      ∃ next, dp = some next ∧ Step client alloc api calls d notes next := by
  refine hpart.bind fun notes next hstep => Traced.ends_pure ⟨next, rfl, ?_⟩
  rwa [List.append_nil]

theorem tick_step (env : Ticking) {loop : Loop σ} (hdp : loop.dp = some d) :
    (tick client env loop).Ends fun notes after =>
      ∃ next, after.dp = some next ∧ Step client alloc api [.tick env.moments] d notes next := by
  have haside {notes : List Note} (d : DataPlane (Exposed σ))
      (hnotes : ∀ note ∈ notes, note.isAside = true) : Step client alloc api [] d notes d :=
    step_same rfl (emits_aside _ hnotes)
  simp only [tick, hdp, Option.isNone_some, Bool.false_eq_true, if_false]
  refine (sendEach_punched env.punch 0 env.punches).bind ?_
  intro punches _ hpunches
  refine (ends_some (tickRouter_step alloc api env d)).bind ?_
  intro notes dp hticked
  obtain ⟨next, rfl, hstep⟩ := hticked
  refine (heartbeat_aside env.ping loop.pingTicks).bind ?_
  intro pings _ hpings
  refine Traced.ends_pure ⟨next, rfl, ?_⟩
  rw [List.append_nil]
  have hrest : Step client alloc api [.tick env.moments] d (notes ++ pings) next :=
    hstep.trans (haside next hpings)
  exact (haside d hpunches).trans hrest

theorem runTask_step (h : Handle) (event : TaskEvent) (d : DataPlane (Exposed σ)) :
    Step client alloc api [] d [] (runTask h event d) := by
  rw [runTask]
  split
  · next address ports b hbackend =>
      refine step_same rfl ⟨by rw [hbackend]; rfl, ?_, rfl, by simp⟩
      intro hreached
      rw [hbackend] at hreached
      exact .op (.task h event) hreached (UserspaceBackend.allowed_any api b _) rfl
  · exact step_same rfl (.refl _)

theorem message_step (w : Conditions) (d : DataPlane (Exposed σ)) {msg : WsMessage Json}
    {topic : Topic} (htopic : Topic.ofText msg.typ = some topic) (hconnect : topic ≠ .connect) :
    (message client (w.exposing σ cfg) (some d) msg).Ends fun notes dp =>
      ∃ next, dp = some next ∧
        Step client alloc api (peerCalls client (w.exposing σ cfg) topic msg.data) d notes
          next := by
  have hpeer : (peerMessage client (w.exposing σ cfg) d topic msg.data).Ends fun notes next =>
      Step client alloc api (peerCalls client (w.exposing σ cfg) topic msg.data) d notes next :=
    peerMessage_step w d topic msg.data
  simp only [message, htopic]
  cases topic with
  | connect => exact absurd rfl hconnect
  | error => exact Traced.ends_pure ⟨d, rfl, step_same rfl (.refl _)⟩
  | terminate => exact Traced.ends_lift fun _ herror => by cases herror
  | _ => exact ends_some hpeer

/-- An event other than a connect is its calls on the router of the data plane. -/
theorem turn_step {loop : Loop σ} (hdp : loop.dp = some d)
    (hmode : d.backend.backend.mode = cfg.access) {wake : Wake Json σ}
    (hwake : wake.connect? = none) :
    (turn client alloc api cfg loop wake).Ends fun notes after =>
      ∃ next, after.dp = some next ∧
        Step client alloc api (wake.calls client cfg) d notes next := by
  have hkeeps {x : Traced Note Halt (Option (DataPlane (Exposed σ)))}
      (hx : x.Ends fun notes dp => ∃ next, dp = some next ∧
        Step client alloc api (wake.calls client cfg) d notes next) :
      (x >>= fun dp => (pure { loop with dp := dp } : Traced Note Halt (Loop σ))).Ends
        fun notes after => ∃ next, after.dp = some next ∧
          Step client alloc api (wake.calls client cfg) d notes next := by
    refine hx.bind fun notes dp hdp => Traced.ends_pure ?_
    rwa [List.append_nil]
  cases wake with
  | message received w =>
      rcases received with e | _ | msg
      · exact Traced.ends_lift fun _ herror => by cases herror
      · exact Traced.ends_lift fun _ herror => by cases herror
      · refine hkeeps ?_
        rw [hdp]
        simp only [Wake.connect?, ite_eq_right_iff, reduceCtorEq, imp_false] at hwake
        simp only [Wake.calls]
        cases htopic : Topic.ofText msg.typ with
        | none =>
            simp only [message, htopic]
            exact Traced.ends_pure ⟨d, rfl, step_same rfl (.refl _)⟩
        | some topic =>
            refine message_step w d htopic ?_
            rintro rfl
            exact hwake htopic
  | tick env => exact tick_step env hdp
  | datagram env =>
      refine Traced.ends_lift_bind fun arrived harrived => ?_
      refine hkeeps ?_
      rw [hdp, Wake.calls, mapError_eq_ok_iff.mp harrived]
      exact ends_some (inbound_step env arrived d)
  | drive env =>
      refine hkeeps ?_
      rw [hdp, Wake.calls, ← hmode]
      exact ends_some (drive_step env d)
  | task h event =>
      exact Traced.ends_pure ⟨runTask h event d, by rw [hdp]; rfl, runTask_step h event d⟩

/-- Without a data plane nothing but a connect changes that. -/
theorem turn_none {loop : Loop σ} (hdp : loop.dp = none) {wake : Wake Json σ}
    (hwake : wake.connect? = none) :
    (turn client alloc api cfg loop wake).Ends fun _ after => after.dp = none := by
  have hkeeps {x : Traced Note Halt (Option (DataPlane (Exposed σ)))}
      (hx : x.Ends fun _ dp => dp = none) :
      (x >>= fun dp => (pure { loop with dp := dp } : Traced Note Halt (Loop σ))).Ends
        fun _ after => after.dp = none :=
    hx.bind fun _ dp hdp => Traced.ends_pure hdp
  cases wake with
  | message received w =>
      rcases received with e | _ | msg
      · exact Traced.ends_lift fun _ herror => by cases herror
      · exact Traced.ends_lift fun _ herror => by cases herror
      · refine hkeeps ?_
        simp only [Wake.connect?, ite_eq_right_iff, reduceCtorEq, imp_false] at hwake
        rw [hdp, message]
        split
        · exact Traced.ends_pure rfl
        · next hconnect => exact absurd hconnect hwake
        · exact Traced.ends_pure rfl
        · exact Traced.ends_lift fun _ herror => by cases herror
        · exact Traced.ends_pure rfl
  | tick env =>
      have hany {α : Type} (x : Traced Note Halt α) : x.Ends fun _ _ => True :=
        fun _ _ => trivial
      simp only [turn, tick, hdp, Option.isNone_none, if_true]
      refine (hany _).bind fun _ _ _ => (hany _).bind fun _ _ _ => ?_
      refine (Traced.ends_pure (Q := fun _ dp => dp = none) rfl).bind fun _ dp hdp => ?_
      exact (hany _).bind fun _ _ _ => Traced.ends_pure hdp
  | datagram env =>
      refine Traced.ends_lift_bind fun arrived _ => hkeeps ?_
      rw [hdp]
      exact Traced.ends_pure rfl
  | drive env =>
      refine hkeeps ?_
      rw [hdp]
      exact Traced.ends_pure rfl
  | task h event =>
      refine Traced.ends_pure ?_
      rw [hdp]
      rfl

theorem newBackend_ok {w : Conditions} {old : Option (Exposed σ)} {tunnelIp : IpAddr}
    {x : Exposed σ} (hnew : (w.exposing σ cfg).newBackend old tunnelIp = .ok x) :
    ∃ backend : Backend σ, backend.mode = cfg.access ∧ backend.Reached alloc api ∧
      x = .idle backend := by
  obtain ⟨backend, hbackend, hreturn⟩ := bind_eq_ok_iff.mp hnew
  cases hreturn
  refine ⟨backend, ?_, ?_, rfl⟩
  · rcases (Backend.new_eq_ok_iff _ _).mp hbackend with
      ⟨haccess, _, _, _, rfl⟩ | ⟨haccess, _, _, _, rfl⟩
    · exact haccess.symm
    · exact haccess.symm
  · cases backend with
    | userspace address ports b => exact .new (Backend.new_userspace _ _ hbackend)
    | kernel k => trivial

variable (client alloc api cfg) in
/-- A data plane that is one run of a new router, with the backend of the configuration. What
the run put out was handed on, and the host has taken the packets in order, up to those that
wait for it. -/
structure Raised (calls : List Router.Call) (notes : List Note) (d : DataPlane (Exposed σ)) :
    Prop where
  mode : d.backend.backend.mode = cfg.access
  reached : d.backend.backend.Reached alloc api
  router : (Router.new client.secret client.mtu).run client.P client.decode calls = .ok d.router
  outs : notes.filterMap Note.out? =
    (Router.new client.secret client.mtu).runOuts client.P client.decode calls
  host : notes.filterMap Note.delivered? = notes.flatMap Note.taken ++ d.backend.rx

theorem Raised.step (hraised : Raised client cfg alloc api calls notes d)
    (hstep : Step client alloc api rest d more next) :
    Raised client cfg alloc api (calls ++ rest) (notes ++ more) next where
  mode := hstep.emits.mode.trans hraised.mode
  reached := hstep.emits.reached hraised.reached
  router := Router.run_trans hraised.router hstep.router
  outs := by
    rw [List.filterMap_append, hraised.outs, hstep.emits.outs, Router.runOuts_append hraised.router]
  host := by
    rw [List.filterMap_append, hraised.host, List.append_assoc, hstep.emits.host,
      List.flatMap_append, List.append_assoc]

variable (alloc api) in
/-- A connect is its calls on a new router, with a backend for which nothing waits. -/
theorem connect_raises (w : Conditions) (dp : Option (DataPlane (Exposed σ))) (wg : WgData) :
    (connect client (w.exposing σ cfg) dp wg).Ends fun notes next =>
      Raised client cfg alloc api (sitesCalls (w.exposing σ cfg) 0 wg.sites) notes next := by
  refine Traced.ends_lift_bind ?_
  intro out hbuild
  replace hbuild := mapError_eq_ok_iff.mp hbuild
  simp only [Client.buildDataplane] at hbuild
  split at hbuild
  · cases hbuild
  · split at hbuild
    · cases hbuild
    · next hnew =>
        obtain ⟨backend, hmode, hreached, rfl⟩ := newBackend_ok hnew
        obtain ⟨hrun, houts⟩ := buildSites_run client (w.exposing σ cfg) 0
          (Router.new client.secret client.mtu) wg.sites
        cases hbuild
        refine (sendEach_emits alloc api (Exposed.idle backend) w.send 0 _).bind ?_
        intro notes _ hemits
        refine Traced.ends_pure ?_
        rw [List.append_nil]
        exact
          { mode := (Backend.mode_addRoutes _ _ backend).trans hmode
            reached := hreached.addRoutes _ _
            router := hrun
            outs := hemits.outs.trans houts.symm
            host := hemits.host }

theorem turn_connect {loop : Loop σ} {wake : Wake Json σ} {msg : WsMessage Json}
    {w : Conditions} (hwake : wake.connect? = some (msg, w)) :
    (turn client alloc api cfg loop wake).Ends fun notes after =>
      ∃ next, after.dp = some next ∧
        Raised client cfg alloc api (connectCalls client (w.exposing σ cfg) msg) notes next := by
  have hmessage : wake = .message (.ok (some msg)) w ∧ Topic.ofText msg.typ = some .connect := by
    cases wake with
    | message received w' =>
        rcases received with e | _ | msg'
        · cases hwake
        · cases hwake
        · simp only [Wake.connect?, Option.ite_none_right_eq_some, Option.some.injEq,
            Prod.mk.injEq] at hwake
          obtain ⟨htopic, rfl, rfl⟩ := hwake
          exact ⟨rfl, htopic⟩
    | _ => cases hwake
  obtain ⟨rfl, htopic⟩ := hmessage
  simp only [turn, message, htopic, bind_assoc, pure_bind]
  refine (connect_raises alloc api w loop.dp _).bind ?_
  intro notes next hraised
  refine Traced.ends_pure ⟨next, rfl, ?_⟩
  rw [List.append_nil]
  exact hraised

variable (client alloc api cfg) in
/-- A session up to one more event. -/
theorem session_append (send : Except IoError Unit) (wakes : List (Wake Json σ))
    (wake : Wake Json σ) :
    session client alloc api cfg send (wakes ++ [wake]) =
      session client alloc api cfg send wakes >>= fun loop =>
        turn client alloc api cfg loop wake := by
  simp only [session, List.foldlM_append, List.foldlM_cons, List.foldlM_nil, bind_pure, bind_assoc]

theorem session_concat {send : Except IoError Unit} {wakes : List (Wake Json σ)}
    {wake : Wake Json σ} {after : Loop σ}
    (hsession : (session client alloc api cfg send (wakes ++ [wake])).result = .ok after) :
    ∃ loop, (session client alloc api cfg send wakes).result = .ok loop ∧
      (turn client alloc api cfg loop wake).result = .ok after ∧
      (session client alloc api cfg send (wakes ++ [wake])).notes =
        (session client alloc api cfg send wakes).notes ++
          (turn client alloc api cfg loop wake).notes := by
  rw [session_append] at hsession ⊢
  cases hloop : (session client alloc api cfg send wakes).result with
  | error e =>
      rw [Traced.bind_of_error _ hloop] at hsession
      cases hsession
  | ok loop =>
      rw [Traced.bind_of_ok _ hloop] at hsession ⊢
      exact ⟨loop, rfl, hsession, rfl⟩

variable (client cfg) in
/-- The calls since a connect. -/
def callsSince (msg : WsMessage Json) (w : Conditions) (later : List (Wake Json σ)) :
    List Router.Call :=
  connectCalls client (w.exposing σ cfg) msg ++ later.flatMap (Wake.calls client cfg)

/-- A session with a data plane goes back to its last connect. -/
theorem session_raised {send : Except IoError Unit} {wakes : List (Wake Json σ)} {loop : Loop σ}
    (hsession : (session client alloc api cfg send wakes).result = .ok loop)
    (hdp : loop.dp = some d) :
    ∃ earlier wake later msg w recent, wakes = earlier ++ wake :: later ∧
      wake.connect? = some (msg, w) ∧ (∀ other ∈ later, other.connect? = none) ∧
      (session client alloc api cfg send wakes).notes =
        (session client alloc api cfg send earlier).notes ++ recent ∧
      Raised client cfg alloc api (callsSince client cfg msg w later) recent d := by
  induction wakes using List.reverseRecOn generalizing loop d with
  | nil =>
      cases send with
      | error e => cases hsession
      | ok _ =>
          cases hsession
          cases hdp
  | append_singleton wakes wake ih =>
      obtain ⟨before, hbefore, hturn, hnotes⟩ := session_concat hsession
      cases hwake : wake.connect? with
      | none =>
          cases hprior : before.dp with
          | none =>
              have hnone : loop.dp = none := turn_none hprior hwake loop hturn
              rw [hdp] at hnone
              cases hnone
          | some prior =>
              obtain ⟨earlier, first, later, msg, w, recent, rfl, hfirst, hlater, hrecent,
                hraised⟩ := ih hbefore hprior
              obtain ⟨next, hnext, hstep⟩ := turn_step hprior hraised.mode hwake loop hturn
              cases hdp.symm.trans hnext
              refine ⟨earlier, first, later ++ [wake], msg, w,
                recent ++ (turn client alloc api cfg before wake).notes, by simp, hfirst, ?_, ?_,
                ?_⟩
              · intro other hmem
                rcases List.mem_append.mp hmem with hmem | hmem
                · exact hlater other hmem
                · rw [List.mem_singleton.mp hmem]
                  exact hwake
              · rw [hnotes, hrecent, List.append_assoc]
              · have hboth := hraised.step hstep
                rw [callsSince, List.append_assoc] at hboth
                rwa [callsSince, List.flatMap_append, List.flatMap_singleton]
      | some connect =>
          obtain ⟨msg, w⟩ := connect
          obtain ⟨next, hnext, hraised⟩ := turn_connect hwake loop hturn
          cases hdp.symm.trans hnext
          refine ⟨wakes, wake, [], msg, w, _, rfl, hwake, by simp, hnotes, ?_⟩
          rwa [callsSince, List.flatMap_nil, List.append_nil]

/-- The userspace backend of a session is one that its operations make of a new one. -/
theorem session_userspace {send : Except IoError Unit} {wakes : List (Wake Json σ)}
    {loop : Loop σ} (hsession : (session client alloc api cfg send wakes).result = .ok loop)
    (hdp : loop.dp = some d) {address : IpAddr} {ports : List UInt16} {b : UserspaceBackend σ}
    (hbackend : d.backend.backend = .userspace address ports b) :
    b.Reachable alloc api .any := by
  obtain ⟨_, _, _, _, _, _, _, _, _, _, hraised⟩ := session_raised hsession hdp
  have hreached := hraised.reached
  rwa [hbackend] at hreached

/-- A tick on which every send succeeds. -/
def plainTick : Ticking :=
  ⟨.ok (), [], fun _ => .ok (), fun _ => ⟨0, []⟩, fun _ => .ok (), .ok ()⟩

/-- The answer to the second request arrives, and the client has its data plane. -/
def connected : List (Wake (List SiteConfig) BufferedSocket) :=
  [.tick plainTick, .message (.ok (some Client.answer)) Client.calm, .tick plainTick]

theorem session_connected :
    ∃ loop d, (session Client.plain .firstFree bufferedApi Client.forwarding (.ok ())
      connected).result = .ok loop ∧ loop.dp = some d := ⟨_, _, rfl, rfl⟩

end Loop

end Newt.Olm
