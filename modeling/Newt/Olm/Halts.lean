import Newt.Olm.Turns

/-! # What can end a client session

A session ends because an operation of a socket or of the backend fails, or because the server
ends it, and then the client connects again. A panic would end the program. With packets and
datagrams of ordinary length no call panics in any session: not the pumps of the router, whose
buffers hold them, and not the sockets, whose handles are live.
-/

namespace Newt.Olm

open Foundation Noise Wg Stack
open Proxy hiding Bytes

namespace Router

variable (P : Primitives) (secret : Bytes) (mtu : Nat)

/-- Whatever waits in the pumps of the router fits their buffers. -/
def Fits (router : Router) : Prop :=
  ∃ traffic, Independent P secret mtu router traffic ∧ ShortTraffic mtu traffic

variable {P secret mtu} {decode : String → Except String Bytes} {router next : Router}

theorem fits_new : (Router.new secret mtu).Fits P secret mtu :=
  ⟨fun _ => [], independent_new secret mtu, fun siteId packet hmem => by cases hmem⟩

theorem Fits.apply (hfits : router.Fits P secret mtu) {call : Call}
    (hordinary : call.Ordinary mtu) :
    ∃ next, router.apply P decode call = .ok next ∧ next.Fits P secret mtu := by
  obtain ⟨traffic, hind, hshort⟩ := hfits
  have hreturns : ∃ next, router.apply P decode call = .ok next :=
    hind.apply_returns hshort hordinary
  obtain ⟨next, happly⟩ := hreturns
  exact ⟨next, happly, _, hind.apply happly, hshort.record hordinary⟩

/-- A call that carries traffic returns the next router with what it puts out. -/
theorem Fits.returns {α : Type} (hfits : router.Fits P secret mtu)
    (decode : String → Except String Bytes) (call : Call) {result : Except Panic (Router × α)}
    (hcall : router.apply P decode call = result.map Prod.fst) (hordinary : call.Ordinary mtu) :
    ∃ next out, result = .ok (next, out) ∧ next.Fits P secret mtu := by
  have happlied : ∃ next, router.apply P decode call = .ok next ∧ next.Fits P secret mtu :=
    hfits.apply hordinary
  obtain ⟨next, happly, hnext⟩ := happlied
  obtain ⟨out, hresult, rfl⟩ := map_eq_ok_iff.mp (hcall.symm.trans happly)
  exact ⟨out.1, out.2, hresult, hnext⟩

theorem Fits.run (hfits : router.Fits P secret mtu) {calls : List Call}
    (hordinary : ∀ call ∈ calls, call.Ordinary mtu)
    (hrun : router.run P decode calls = .ok next) : next.Fits P secret mtu := by
  induction calls generalizing router with
  | nil =>
      cases hrun
      exact hfits
  | cons call calls ih =>
      obtain ⟨hcall, hcalls⟩ := List.forall_mem_cons.mp hordinary
      have happlied : ∃ after, router.apply P decode call = .ok after ∧
          after.Fits P secret mtu := hfits.apply hcall
      obtain ⟨after, happly, hafter⟩ := happlied
      rw [Router.run, happly] at hrun
      exact ih hafter hcalls hrun

end Router

namespace Loop

variable {Json σ : Type} {client : Client Json} {cfg : ClientRun} {alloc : Allocator}
  {api : TcpApi σ} {d : DataPlane (Exposed σ)}

/-- What the network and the host hand to the session is of ordinary length. -/
def Wake.Ordinary (mtu : Nat) : Wake Json σ → Prop
  | .datagram env =>
      ∀ arrived, env.received = .ok arrived → arrived.length ≤ Pump.packetRoom mtu + 48
  | .drive env =>
      (∀ packet ∈ env.emitted, packet.length ≤ Pump.packetRoom mtu) ∧
      ∀ packet, env.packet = .ok packet → packet.length ≤ Pump.packetRoom mtu
  | _ => True

/-- The session ends without a panic, and the client goes on to the next one. -/
def Halt.IsEnd (halt : Halt) : Prop := (∃ e, halt = .failed e) ∨ halt = .finished

/-! ## The calls are ordinary -/

section Calls

variable {β : Type} (w : Surroundings β) (mtu : Nat)

theorem siteCalls_ordinary (k : Nat) (site : SiteConfig) :
    ∀ call ∈ siteCalls w k site, call.Ordinary mtu := by
  rw [siteCalls]
  split
  · simp
  · split <;> simp [Router.Call.Ordinary]

theorem sitesCalls_ordinary (k : Nat) (sites : List SiteConfig) :
    ∀ call ∈ sitesCalls w k sites, call.Ordinary mtu := by
  induction sites generalizing k with
  | nil => simp [sitesCalls]
  | cons site sites ih =>
      rw [sitesCalls, List.forall_mem_append]
      exact ⟨siteCalls_ordinary w mtu k site, ih (k + 1)⟩

theorem peerCalls_ordinary (client : Client Json) (topic : Topic) (data : Json) :
    ∀ call ∈ peerCalls client w topic data, call.Ordinary mtu := by
  have hredirect (payload : Option PeerEndpoint) :
      ∀ call ∈ redirectCalls w payload, call.Ordinary mtu := by
    cases payload with
    | none => simp [redirectCalls]
    | some r =>
        rw [redirectCalls]
        split <;> simp [Router.Call.Ordinary]
  cases topic with
  | peerAdd | peerUpdate =>
      rw [peerCalls]
      split
      · simp
      · exact siteCalls_ordinary w mtu 0 _
  | sync =>
      rw [peerCalls]
      split
      · simp
      · exact sitesCalls_ordinary w mtu 0 _
  | peerRelay | peerUnrelay => exact hredirect _
  | peerRemove | peerDataAdd | peerDataRemove =>
      rw [peerCalls]
      split <;> simp [Router.Call.Ordinary]
  | connect | error | terminate => simp [peerCalls]

end Calls

theorem routeCalls_ordinary {mtu : Nat} (moments : Nat → Moment) (k : Nat)
    {packets : List Bytes} (hshort : ∀ packet ∈ packets, packet.length ≤ Pump.packetRoom mtu) :
    ∀ call ∈ routeCalls moments k packets, call.Ordinary mtu := by
  induction packets generalizing k with
  | nil => simp [routeCalls]
  | cons packet packets ih =>
      obtain ⟨hpacket, hpackets⟩ := List.forall_mem_cons.mp hshort
      exact List.forall_mem_cons.mpr ⟨hpacket, ih (k + 1) hpackets⟩

theorem packets_short {env : Driving σ} (mode : AccessMode)
    (hordinary : (Wake.drive env : Wake Json σ).Ordinary client.mtu) :
    ∀ packet ∈ env.packets client mode, packet.length ≤ Pump.packetRoom client.mtu := by
  cases mode with
  | userspace => exact hordinary.1
  | kernel =>
      intro packet hmem
      rw [Driving.packets] at hmem
      split at hmem
      · cases hmem
      · next read hread =>
          rw [readPacket] at hmem
          split at hmem
          · cases hmem
          · rw [List.mem_singleton.mp hmem, List.length_take]
            exact Nat.le_trans (Nat.min_le_right _ _) (hordinary.2 read hread)

theorem calls_ordinary {wake : Wake Json σ} (hordinary : wake.Ordinary client.mtu) :
    ∀ call ∈ wake.calls client cfg, call.Ordinary client.mtu := by
  cases wake with
  | message received w =>
      rcases received with e | _ | msg
      · simp [Wake.calls]
      · simp [Wake.calls]
      · rw [Wake.calls]
        split
        · simp
        · exact peerCalls_ordinary _ _ client _ msg.data
  | tick env => simp [Wake.calls, Router.Call.Ordinary]
  | datagram env =>
      rw [Wake.calls]
      split
      · simp
      · next arrived harrived =>
          intro call hmem
          rw [List.mem_singleton.mp hmem, Router.Call.Ordinary, List.length_take]
          exact Nat.le_trans (Nat.min_le_right _ _) (hordinary arrived harrived)
  | drive env => exact routeCalls_ordinary env.moments 0 (packets_short cfg.access hordinary)
  | task h event => simp [Wake.calls]

/-! ## A turn does not panic -/

theorem isEnd_of_io {α : Type} {r : Except IoError α} {halt : Halt}
    (hhalt : r.mapError Halt.failed = .error halt) : halt.IsEnd := by
  cases r with
  | error e =>
      cases hhalt
      exact .inl ⟨e, rfl⟩
  | ok a => cases hhalt

theorem fails_return {α β : Type} {x : Traced Note Halt α} {f : α → β}
    (hx : x.Fails Halt.IsEnd) :
    (x >>= fun a => (pure (f a) : Traced Note Halt β)).Fails Halt.IsEnd :=
  Traced.fails_bind hx fun _ => Traced.fails_of_ok rfl

theorem sendOut_fails (send : Except IoError Unit) (out : Option (Bytes × SocketAddr)) :
    (sendOut send out).Fails Halt.IsEnd := by
  cases out with
  | none => exact Traced.fails_of_ok rfl
  | some out => exact Traced.fails_tell_bind fun _ hhalt => isEnd_of_io hhalt

theorem sendEach_fails (note : Bytes → SocketAddr → Note) (send : Nat → Except IoError Unit)
    (k : Nat) (datagrams : List (Bytes × SocketAddr)) :
    (sendEach note send k datagrams).Fails Halt.IsEnd := by
  induction datagrams generalizing k with
  | nil => exact Traced.fails_of_ok rfl
  | cons out datagrams ih =>
      apply Traced.fails_tell_bind
      exact Traced.fails_lift_bind (fun _ hhalt => isEnd_of_io hhalt) fun _ _ => ih (k + 1)

theorem handOut_fails (outcome : Nat → Except IoError Unit) (k : Nat) (x : Exposed σ)
    (outs : List Out) : (handOut outcome k x outs).Fails Halt.IsEnd := by
  induction outs generalizing k x with
  | nil => exact Traced.fails_of_ok rfl
  | cons out outs ih =>
      cases out with
      | toNet datagram endpoint =>
          apply Traced.fails_tell_bind
          exact Traced.fails_lift_bind (fun _ hhalt => isEnd_of_io hhalt) fun _ _ => ih (k + 1) x
      | toHost packet =>
          rw [handOut]
          apply Traced.fails_tell_bind
          split
          · exact ih (k + 1) _
          · apply Traced.fails_tell_bind
            exact Traced.fails_lift_bind (fun _ hhalt => isEnd_of_io hhalt) fun _ _ => ih (k + 1) x

variable (hfits : d.router.Fits client.P client.secret client.mtu)

section Fits

include hfits

theorem inbound_fails {env : Arrival} {arrived : Bytes}
    (hshort : arrived.length ≤ Pump.packetRoom client.mtu + 48) :
    (inbound client env arrived d).Fails Halt.IsEnd := by
  have hordinary : (Router.Call.handleInbound env.moments
      (arrived.take (Pump.recvBuf client.mtu))).Ordinary client.mtu := by
    rw [Router.Call.Ordinary, List.length_take]
    exact Nat.le_trans (Nat.min_le_right _ _) hshort
  obtain ⟨next, outs, hinbound, -⟩ := hfits.returns client.decode _ rfl hordinary
  rw [inbound, hinbound]
  refine Traced.fails_lift_bind (fun _ hhalt => by cases hhalt) fun out _ => ?_
  refine Traced.fails_bind (handOut_fails env.outcome 0 d.backend out.2) ?_
  intro _
  exact Traced.fails_of_ok rfl

theorem tickRouter_fails (env : Ticking) : (tickRouter client env d).Fails Halt.IsEnd := by
  obtain ⟨next, out, htick, -⟩ := hfits.returns client.decode (.tick env.moments) rfl trivial
  rw [tickRouter, htick]
  refine Traced.fails_lift_bind (fun _ hhalt => by cases hhalt) fun out _ => ?_
  refine Traced.fails_bind (sendEach_fails toNet env.send 0 out.2) ?_
  intro _
  exact Traced.fails_of_ok rfl

theorem routeAll_fails (moments : Nat → Moment) (send : Nat → Except IoError Unit) (k : Nat)
    {packets : List Bytes}
    (hshort : ∀ packet ∈ packets, packet.length ≤ Pump.packetRoom client.mtu) :
    (routeAll client moments send k d packets).Fails Halt.IsEnd := by
  induction packets generalizing k d with
  | nil => exact Traced.fails_of_ok rfl
  | cons packet packets ih =>
      obtain ⟨hpacket, hpackets⟩ := List.forall_mem_cons.mp hshort
      obtain ⟨next, out, hroute, hnext⟩ := hfits.returns client.decode
        (.routeOutbound (moments k) packet) rfl hpacket
      rw [routeAll, hroute]
      refine Traced.fails_lift_bind (fun _ hhalt => by cases hhalt) fun routed hrouted => ?_
      cases hrouted
      refine Traced.fails_bind (sendOut_fails (send k) out) ?_
      intro _
      exact ih (d := { d with router := next }) hnext (k + 1) hpackets

end Fits

theorem driveBackend_fails (env : Driving σ) {x : Exposed σ}
    (hreached : x.backend.Reached alloc api) :
    (driveBackend client alloc api env x).Fails Halt.IsEnd := by
  rw [driveBackend]
  split
  · next address ports b hbackend =>
      rw [hbackend] at hreached
      refine Traced.fails_lift_bind (fun _ hhalt => isEnd_of_io hhalt) fun accepted _ => ?_
      apply Traced.fails_tell_bind
      obtain ⟨next, hdrive, -⟩ :=
        UserspaceBackend.drive_returns alloc api hreached accepted env.change env.order
      rw [hdrive]
      exact Traced.fails_of_ok rfl
  · refine Traced.fails_lift_bind (fun _ hhalt => isEnd_of_io hhalt) fun packet _ => ?_
    exact Traced.fails_of_ok rfl

theorem drive_fails {env : Driving σ} (hfits : d.router.Fits client.P client.secret client.mtu)
    (hreached : d.backend.backend.Reached alloc api)
    (hordinary : (Wake.drive env : Wake Json σ).Ordinary client.mtu) :
    (drive client alloc api env d).Fails Halt.IsEnd := by
  refine (driveBackend_fails env hreached).bind (driveBackend_emits env d.backend) ?_
  intro notes out hdriven
  obtain ⟨backend, packets⟩ := out
  obtain ⟨-, rfl⟩ := hdriven
  exact routeAll_fails (d := { d with backend := backend }) hfits env.moments env.send 0
    (packets_short d.backend.backend.mode hordinary)

theorem heartbeat_fails (send : Except IoError Unit) (pingTicks : Nat) :
    (heartbeat send pingTicks).Fails Halt.IsEnd := by
  rw [heartbeat]
  split
  · apply Traced.fails_tell_bind
    exact Traced.fails_lift_bind (fun _ hhalt => isEnd_of_io hhalt) fun _ _ =>
      Traced.fails_of_ok rfl
  · exact Traced.fails_of_ok rfl

theorem register_fails (send : Except IoError Unit) : (register send).Fails Halt.IsEnd :=
  Traced.fails_tell_bind fun _ hhalt => isEnd_of_io hhalt

/-- The data plane of the session, if there is one, is ready for whatever comes. -/
def Ready (client : Client Json) (alloc : Allocator) (api : TcpApi σ)
    (dp : Option (DataPlane (Exposed σ))) : Prop :=
  ∀ d, dp = some d → d.router.Fits client.P client.secret client.mtu ∧
    d.backend.backend.Reached alloc api

theorem onPlane_fails {part : DataPlane (Exposed σ) → Traced Note Halt (DataPlane (Exposed σ))}
    {dp : Option (DataPlane (Exposed σ))} (hpart : ∀ d, dp = some d → (part d).Fails Halt.IsEnd) :
    (onPlane part dp).Fails Halt.IsEnd := by
  cases dp with
  | none => exact Traced.fails_of_ok rfl
  | some d => exact fails_return (hpart d rfl)

theorem tick_fails (env : Ticking) {loop : Loop σ} (hready : Ready client alloc api loop.dp) :
    (tick client env loop).Fails Halt.IsEnd := by
  have hplane : (onPlane (tickRouter client env) loop.dp).Fails Halt.IsEnd :=
    onPlane_fails fun d hd => tickRouter_fails (hready d hd).1 env
  have hrest : (do
      sendEach .punched env.punch 0 env.punches
      let dp ← onPlane (tickRouter client env) loop.dp
      let pingTicks ← heartbeat env.ping loop.pingTicks
      return ⟨dp, pingTicks⟩ : Traced Note Halt (Loop σ)).Fails Halt.IsEnd := by
    refine Traced.fails_bind (sendEach_fails .punched env.punch 0 env.punches) fun _ => ?_
    refine Traced.fails_bind hplane fun dp => ?_
    exact fails_return (heartbeat_fails env.ping loop.pingTicks)
  rw [tick]
  split
  · exact Traced.fails_bind (register_fails env.register) fun _ => hrest
  · exact hrest

theorem message_fails (w : Conditions) (dp : Option (DataPlane (Exposed σ)))
    (msg : WsMessage Json) :
    (message client (w.exposing σ cfg) dp msg).Fails Halt.IsEnd := by
  intro halt hhalt
  rw [message_result] at hhalt
  generalize client.handleMessage (w.exposing σ cfg) dp msg = out at hhalt
  rcases out with ⟨next, e | stop⟩
  · cases hhalt
    exact .inl ⟨e, rfl⟩
  · cases stop with
    | false => cases hhalt
    | true =>
        cases hhalt
        exact .inr rfl

theorem turn_fails {loop : Loop σ} (hready : Ready client alloc api loop.dp) {wake : Wake Json σ}
    (hordinary : wake.Ordinary client.mtu) :
    (turn client alloc api cfg loop wake).Fails Halt.IsEnd := by
  cases wake with
  | message received w =>
      rcases received with e | _ | msg
      · intro halt hhalt
        cases hhalt
        exact .inl ⟨e, rfl⟩
      · intro halt hhalt
        cases hhalt
        exact .inr rfl
      · exact fails_return (message_fails w loop.dp msg)
  | tick env => exact tick_fails env hready
  | datagram env =>
      refine Traced.fails_lift_bind (fun _ hhalt => isEnd_of_io hhalt) fun arrived harrived => ?_
      apply fails_return
      exact onPlane_fails fun d hd =>
        inbound_fails (hready d hd).1 (hordinary arrived (mapError_eq_ok_iff.mp harrived))
  | drive env =>
      apply fails_return
      exact onPlane_fails fun d hd => drive_fails (hready d hd).1 (hready d hd).2 hordinary
  | task h event => exact Traced.fails_of_ok rfl

/-! ## Whole sessions -/

theorem callsSince_ordinary {msg : WsMessage Json} {w : Conditions} {later : List (Wake Json σ)}
    (hlater : ∀ wake ∈ later, wake.Ordinary client.mtu) :
    ∀ call ∈ callsSince client cfg msg w later, call.Ordinary client.mtu := by
  rw [callsSince, List.forall_mem_append]
  refine ⟨sitesCalls_ordinary _ _ 0 _, ?_⟩
  intro call hmem
  obtain ⟨wake, hwake, hcall⟩ := List.mem_flatMap.mp hmem
  exact calls_ordinary (hlater wake hwake) call hcall

/-- Whatever a session met, its data plane is ready. -/
theorem session_ready {send : Except IoError Unit} {wakes : List (Wake Json σ)} {loop : Loop σ}
    (hsession : (session client alloc api cfg send wakes).result = .ok loop)
    (hordinary : ∀ wake ∈ wakes, wake.Ordinary client.mtu) : Ready client alloc api loop.dp := by
  intro d hdp
  obtain ⟨earlier, wake, later, msg, w, recent, rfl, -, -, -, hraised⟩ :=
    session_raised hsession hdp
  have hlater : ∀ wake ∈ later, wake.Ordinary client.mtu := by
    intro other hmem
    exact hordinary other (List.mem_append_right earlier (List.mem_cons_of_mem wake hmem))
  exact ⟨Router.fits_new.run (callsSince_ordinary hlater) hraised.router, hraised.reached⟩

/-- Whatever a session meets, in whatever order, it goes on, or it ends because a send or a
receive failed, the backend failed, or the server ended it, as long as the host emits packets of
at most the MTU or 1500 bytes, and no datagram is longer by more than 48. -/
theorem session_never_panics (send : Except IoError Unit) {wakes : List (Wake Json σ)}
    (hordinary : ∀ wake ∈ wakes, wake.Ordinary client.mtu) :
    (∃ loop, (session client alloc api cfg send wakes).result = .ok loop) ∨
      (∃ e, (session client alloc api cfg send wakes).result = .error (.failed e)) ∨
      (session client alloc api cfg send wakes).result = .error .finished := by
  have hfails : (session client alloc api cfg send wakes).Fails Halt.IsEnd := by
    induction wakes using List.reverseRecOn with
    | nil => exact fails_return (register_fails send)
    | append_singleton wakes wake ih =>
        rw [List.forall_mem_append] at hordinary
        rw [session_append]
        refine (ih hordinary.1).bind (Q := fun _ loop => Ready client alloc api loop.dp) ?_ ?_
        · intro loop hloop
          exact session_ready hloop hordinary.1
        · intro _ loop hready
          exact turn_fails hready (hordinary.2 wake (List.mem_singleton_self wake))
  cases hresult : (session client alloc api cfg send wakes).result with
  | ok loop => exact .inl ⟨loop, rfl⟩
  | error halt =>
      rcases hfails halt hresult with ⟨e, rfl⟩ | rfl
      · exact .inr (.inl ⟨e, rfl⟩)
      · exact .inr (.inr rfl)

theorem session_never_panics_connected :
    (∃ loop, (session Client.plain .firstFree bufferedApi Client.forwarding (.ok ())
        connected).result = .ok loop) ∨
      (∃ e, (session Client.plain .firstFree bufferedApi Client.forwarding (.ok ())
        connected).result = .error (.failed e)) ∨
      (session Client.plain .firstFree bufferedApi Client.forwarding (.ok ())
        connected).result = .error .finished := by
  apply session_never_panics
  intro wake hmem
  simp only [connected, List.mem_cons, List.not_mem_nil, or_false] at hmem
  rcases hmem with rfl | rfl | rfl <;> trivial

end Loop

end Newt.Olm
