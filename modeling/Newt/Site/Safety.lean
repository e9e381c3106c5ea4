import Newt.Site.Ownership
import Newt.Site.Tunnel
import Newt.Wg.Room

/-! # What can stop the tunnel of a site

A turn of the loop can fail with an error of a socket, and then the session ends and the site
reconnects. A panic would end the program. With packets and datagrams of ordinary length no
call panics in any run: not the pump, whose buffers hold them, not the sockets, whose handles
are live, and not the checksums of the pings.
-/

namespace Newt.Site.Tunnel

open Foundation Noise Wg Stack Newt.Core
open Proxy hiding Bytes

variable {Json σ : Type} {P : Primitives} {alloc : Allocator} {api : TcpApi σ} {mtu : Nat}

/-- The loop stops because an operation of a socket failed. -/
def Halt.IsFailure (halt : Halt) : Prop := ∃ e, halt = .failed e

/-- What the network and the stack hand to the loop is of ordinary length. -/
def Wake.Ordinary (mtu : Nat) : Wake σ → Prop
  | .stepIo pass | .dropped pass _ =>
      (∀ datagram, pass.received = .ok (some datagram) →
        datagram.length ≤ Pump.packetRoom mtu + 48) ∧
      ∀ packet ∈ pass.outbound, packet.length ≤ Pump.packetRoom mtu
  | _ => True

/-- The waiting packets fit, and every handle is live. -/
structure Sound (mtu : Nat) (t : Tunnel σ) : Prop where
  mtu : t.pump.mtu = mtu
  queue : t.pump.Roomy
  owned : t.toDataPlane.Owned

/-- A part of a turn neither panics nor leaves a state from which a later one would. -/
def Stays (mtu : Nat) (x : Traced Note Halt (Tunnel σ)) : Prop :=
  x.Fails Halt.IsFailure ∧ x.Ends fun _ t => t.Sound mtu

variable {x : Traced Note Halt (Tunnel σ)} {f : Tunnel σ → Traced Note Halt (Tunnel σ)}
  {t : Tunnel σ}

theorem stays_of_ok (hx : x.result = .ok t) (hsound : t.Sound mtu) : Stays mtu x :=
  ⟨Traced.fails_of_ok hx, Traced.ends_of_ok hx hsound⟩

theorem stays_of_failed {e : IoError} (hx : x.result = .error (.failed e)) : Stays mtu x := by
  constructor
  · intro halt hhalt
    exact ⟨e, Except.error.inj (hhalt.symm.trans hx)⟩
  · intro u hu
    cases hx.symm.trans hu

theorem Stays.bind (hx : Stays mtu x) (hf : ∀ t, t.Sound mtu → Stays mtu (f t)) :
    Stays mtu (x >>= f) :=
  ⟨hx.1.bind hx.2 fun _ t ht => (hf t ht).1, hx.2.bind fun _ t ht => (hf t ht).2⟩

/-- The pump carries short packets: the queue still fits. -/
theorem Sound.carries {pump : Pump} {traffic : List Traffic} (hsound : t.Sound mtu)
    (hcarries : t.pump.Carries P pump traffic)
    (hshort : ∀ packet ∈ traffic.filterMap Traffic.submitted?,
      packet.length ≤ Pump.packetRoom mtu) :
    pump.mtu = mtu ∧ pump.Roomy := by
  rw [← hsound.mtu] at hshort ⊢
  exact (hcarries.roomy hsound.queue hshort).symm

theorem submit_ok (m : Moment) (hsound : t.Sound mtu) {packet : Bytes}
    (hshort : packet.length ≤ Pump.packetRoom mtu) :
    ∃ out, (t.submit P m packet).result = .ok out ∧ out.1.Sound mtu := by
  have hfit : packet.length ≤ Pump.packetRoom t.pump.mtu := by rwa [hsound.mtu]
  obtain ⟨⟨pump, datagram⟩, hpump⟩ := Pump.encapsulate_returns (P := P) m hfit
  obtain ⟨hmtu, hroomy⟩ := hsound.carries (Pump.carries_encapsulate hpump t.endpoint) <| by
    intro other hmem
    have hother : other = packet := by cases datagram <;> simpa [Traffic.submitted?] using hmem
    rwa [hother]
  refine ⟨({ t with pump := pump }, datagram), ?_, hmtu, hroomy, hsound.owned⟩
  rw [submit, hpump]
  rfl

theorem submitAll_stays (moments : Nat → Moment) (k : Nat) (hsound : t.Sound mtu)
    {packets : List Bytes} (hshort : ∀ packet ∈ packets, packet.length ≤ Pump.packetRoom mtu) :
    Stays mtu (submitAll P moments k t packets) := by
  induction packets generalizing k t with
  | nil => exact stays_of_ok rfl hsound
  | cons packet packets ih =>
      obtain ⟨out, hsubmit, hnext⟩ :=
        submit_ok (P := P) (moments k) hsound (hshort packet List.mem_cons_self)
      have hrest := ih (k + 1) hnext fun other hmem => hshort other (List.mem_cons_of_mem _ hmem)
      rw [submitAll, Traced.bind_of_ok _ hsubmit]
      exact hrest

theorem feed_stays {take : Bytes → Except Panic (Pump × List Inbound)}
    {received : Except IoError (Option Bytes)} (hsound : t.Sound mtu)
    (hreceived : ∀ datagram, received = .ok (some datagram) →
      datagram.length ≤ Pump.packetRoom mtu + 48)
    (hreturns : ∀ datagram : Bytes, datagram.length ≤ Pump.packetRoom t.pump.mtu + 48 →
      ∃ out, take datagram = .ok out)
    (htake : ∀ datagram pump outs, take datagram = .ok (pump, outs) →
      t.pump.Carries P pump
        (.fed datagram :: outs.filterMap (Traffic.ofInbound t.endpoint))) :
    Stays mtu (t.feed take received) := by
  unfold feed
  split
  · exact stays_of_failed rfl
  · exact stays_of_ok rfl hsound
  · next arrived =>
      have hshort : (arrived.take (Pump.recvBuf t.pump.mtu)).length ≤
          Pump.packetRoom t.pump.mtu + 48 := by
        rw [List.length_take, hsound.mtu]
        exact Nat.le_trans (Nat.min_le_right _ _) (hreceived arrived rfl)
      obtain ⟨⟨pump, outs⟩, hpump⟩ := hreturns _ hshort
      obtain ⟨hmtu, hroomy⟩ := hsound.carries (htake _ _ _ hpump) <| by
        rw [List.filterMap_cons, Traffic.submitted_ofInbound]
        simp [Traffic.submitted?]
      let next : Tunnel σ := { t with pump := pump, rx := t.rx ++ outs.filterMap Inbound.packet? }
      have hnext : next.Sound mtu := ⟨hmtu, hroomy, hsound.owned⟩
      refine stays_of_ok ?_ hnext
      simp only [hpump]
      rfl

theorem receive_stays {pass : Pass σ} (hsound : t.Sound mtu)
    (hordinary : Wake.Ordinary mtu (.stepIo pass)) : Stays mtu (t.receive P pass) :=
  feed_stays hsound hordinary.1
    (fun _ hshort => Pump.receive_returns pass.receiving hsound.queue hshort)
    fun _ _ _ htake => Pump.carries_receive htake t.endpoint

theorem updateTimers_stays (m : Moment) (hsound : t.Sound mtu) :
    Stays mtu (t.updateTimers P m) := by
  obtain ⟨⟨pump, datagram⟩, hpump⟩ := Pump.updateTimers_returns (P := P) m t.pump
  obtain ⟨hmtu, hroomy⟩ := hsound.carries (Pump.carries_updateTimers hpump t.endpoint) <| by
    cases datagram <;> simp [Traffic.submitted?]
  refine stays_of_ok (t := { t with pump := pump }) ?_ ⟨hmtu, hroomy, hsound.owned⟩
  rw [updateTimers, hpump]
  rfl

theorem onPlane_stays (op : DataPlane.Op σ) (hsound : t.Sound mtu) :
    Stays mtu (t.onPlane alloc api op) := by
  obtain ⟨d, hplane, howned⟩ := hsound.owned.apply alloc api op
  refine stays_of_ok (t := { t with toDataPlane := d }) ?_ ⟨hsound.mtu, hsound.queue, howned⟩
  rw [onPlane, hplane]
  rfl

theorem poll_stays (change : Handle → σ → σ) (hsound : t.Sound mtu) : Stays mtu (t.poll change) :=
  stays_of_ok rfl ⟨hsound.mtu, hsound.queue, Plane.Owns.poll hsound.owned change⟩

theorem exchange_stays {pass : Pass σ} (hsound : t.Sound mtu)
    (hordinary : Wake.Ordinary mtu (.stepIo pass)) : Stays mtu (t.exchange P pass) := by
  refine (receive_stays hsound hordinary).bind fun t ht => ?_
  refine (poll_stays pass.change ht).bind fun t ht => ?_
  refine (submitAll_stays pass.encapsulating 0 ht hordinary.2).bind fun t ht => ?_
  exact updateTimers_stays pass.timers ht

theorem stepIo_stays {pass : Pass σ} (hsound : t.Sound mtu)
    (hordinary : Wake.Ordinary mtu (.stepIo pass)) : Stays mtu (t.stepIo P alloc api pass) := by
  refine (exchange_stays hsound hordinary).bind fun t ht => ?_
  exact (onPlane_stays .acceptNew ht).bind fun t ht => onPlane_stays (.shuttle pass.order) ht

theorem dropIo_stays {pass : Pass σ} {cut : Cut} (hsound : t.Sound mtu)
    (hordinary : Wake.Ordinary mtu (.dropped pass cut)) : Stays mtu (t.dropIo P pass cut) := by
  cases cut with
  | receiving drains =>
      exact feed_stays hsound hordinary.1
        (fun _ hshort => Pump.receivePart_returns pass.receiving drains hsound.queue hshort)
        fun _ _ _ htake => Pump.carries_receivePart htake t.endpoint
  | submitting count =>
      refine (receive_stays hsound hordinary).bind fun t ht => ?_
      refine (poll_stays pass.change ht).bind fun t ht => ?_
      exact submitAll_stays pass.encapsulating 0 ht fun packet hmem =>
        hordinary.2 packet (List.mem_of_mem_take hmem)
  | timers => exact exchange_stays hsound hordinary

theorem icmpEcho_length {src dst : Ipv4Addr} {ident seq : UInt16} {packet : Bytes}
    (hecho : icmpEcho src dst ident seq = some packet) : packet.length = 36 := by
  obtain ⟨c, -, hecho⟩ := Option.bind_eq_some_iff.mp hecho
  obtain ⟨d, -, hecho⟩ := Option.bind_eq_some_iff.mp hecho
  cases hecho
  rw [List.length_append, copyTwo_length (by simp [ipv4Header_length]), ipv4Header_length,
    copyTwo_length (by simp [echoMessage_length]), echoMessage_length]

/-- A ping is short, and its checksums do not overflow. -/
theorem sendPing_stays (m : Moment) (send : Except IoError Unit) (hsound : t.Sound mtu) :
    Stays mtu (t.sendPing P m send) := by
  obtain ⟨packet, hpacket, -⟩ := icmpEcho_verifies t.tunnelIp4 t.serverIp 1 (t.pingSeq + 1)
  have hlength : packet.length ≤ Pump.packetRoom mtu := by
    rw [icmpEcho_length hpacket, Pump.packetRoom]
    omega
  have hnumbered : Sound mtu { t with pingSeq := t.pingSeq + 1 } :=
    ⟨hsound.mtu, hsound.queue, hsound.owned⟩
  obtain ⟨out, hsubmit, hnext⟩ := submit_ok (P := P) m hnumbered hlength
  simp only [sendPing, hpacket]
  rw [Traced.bind_of_ok _ hsubmit]
  split
  · cases send with
    | error e => exact stays_of_failed rfl
    | ok _ => exact stays_of_ok rfl hnext
  · exact stays_of_ok rfl hnext

theorem sendHolepunch_stays (punch : Option Bytes) (send : Except IoError Unit)
    (hsound : t.Sound mtu) : Stays mtu (t.sendHolepunch punch send) := by
  cases punch with
  | none => exact stays_of_ok rfl hsound
  | some datagram =>
      cases send with
      | error e => exact stays_of_failed rfl
      | ok _ => exact stays_of_ok rfl hsound

theorem turn_stays {wake : Wake σ} (hsound : t.Sound mtu) (hordinary : wake.Ordinary mtu) :
    Stays mtu (t.turn P alloc api wake) := by
  cases wake with
  | stepIo pass => exact stepIo_stays hsound hordinary
  | dropped pass cut => exact dropIo_stays hsound hordinary
  | tick m ping punch holepunch =>
      exact (sendPing_stays m ping hsound).bind fun t ht => sendHolepunch_stays punch holepunch ht
  | addTargets specs => exact onPlane_stays _ hsound
  | removeTargets specs => exact onPlane_stays _ hsound
  | reconcileTargets specs => exact onPlane_stays _ hsound
  | task h event => exact onPlane_stays _ hsound

theorem run_stays {wakes : List (Wake σ)} (hsound : t.Sound mtu)
    (hordinary : ∀ wake ∈ wakes, wake.Ordinary mtu) : Stays mtu (t.run P alloc api wakes) := by
  induction wakes generalizing t with
  | nil => exact stays_of_ok rfl hsound
  | cons wake wakes ih =>
      rw [run, List.foldlM_cons]
      refine (turn_stays hsound (hordinary wake List.mem_cons_self)).bind fun t ht => ?_
      exact ih ht fun other hmem => hordinary other (List.mem_cons_of_mem _ hmem)

theorem bringUp_sound {cfg : SiteRun Json} {w : Surroundings} {wg : WgData} {notes : List Note}
    (hup : bringUp alloc api cfg w wg = .ok (t, notes)) : t.Sound cfg.mtu := by
  obtain ⟨peerPub, init, -, hinit, hplane, -, -⟩ := bringUp_ok hup
  have hnew := Pump.withIndex_roomy cfg.P cfg.secret peerPub cfg.mtu 0 w.durationAtStart
  have hcarries := Pump.carries_initiateHandshake hinit t.endpoint
  obtain ⟨hroomy, hmtu⟩ := hcarries.roomy hnew (by cases init <;> simp [Traffic.submitted?])
  obtain ⟨d, hd, howned⟩ := DataPlane.bringUp_owned alloc api wg.tcp
  cases hd.symm.trans hplane
  exact ⟨hmtu, hroomy, howned⟩

/-- Whatever a tunnel meets from its start on, in whatever order, its loop goes on or stops
because a socket failed, as long as the stack emits packets of at most the MTU or 1500 bytes,
and no datagram is longer by more than 48. Datagrams of up to 16 bytes more fit the receive
buffer. -/
theorem stops_only_on_failure {cfg : SiteRun Json} {w : Surroundings} {wg : WgData}
    {notes : List Note} (hup : bringUp alloc api cfg w wg = .ok (t, notes))
    {wakes : List (Wake σ)} (hordinary : ∀ wake ∈ wakes, wake.Ordinary cfg.mtu) :
    (∃ last, (t.run cfg.P alloc api wakes).result = .ok last) ∨
      ∃ e, (t.run cfg.P alloc api wakes).result = .error (.failed e) := by
  have hstays : Stays cfg.mtu (t.run cfg.P alloc api wakes) :=
    run_stays (bringUp_sound hup) hordinary
  cases hresult : (t.run cfg.P alloc api wakes).result with
  | ok last => exact .inl ⟨last, rfl⟩
  | error halt =>
      obtain ⟨e, rfl⟩ := hstays.1 halt hresult
      exact .inr ⟨e, rfl⟩

theorem stops_only_on_failure_answered :
    (∃ last, (raised.run Primitives.null .firstFree bufferedApi answered).result = .ok last) ∨
      ∃ e, (raised.run Primitives.null .firstFree bufferedApi answered).result =
        .error (.failed e) := by
  obtain ⟨notes, hup⟩ := bringUp_raised
  refine stops_only_on_failure hup fun wake hmem => ?_
  simp only [answered, List.mem_cons, List.not_mem_nil, or_false] at hmem
  rcases hmem with rfl | rfl | rfl
  · trivial
  · refine ⟨fun datagram hreceived => ?_, fun packet hpacket => by cases hpacket⟩
    cases hreceived
    decide
  · refine ⟨fun datagram hreceived => ?_, fun packet hpacket => by cases hpacket⟩
    cases hreceived
    decide

end Newt.Site.Tunnel
