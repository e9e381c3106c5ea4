import Newt.Foundation.Loop
import Newt.Olm.Table
import Newt.Wg.Room

/-! # The peers of the client are independent

The router of the client keeps a pump for each site and gives every packet and every datagram
to one of them. What a peer does is therefore what a pump of its own would do with the traffic
of its site, whatever the other sites do in between, and a peer that is replaced starts with a
new pump.
-/

namespace Newt.Olm

open Foundation Noise Wg

/-- What an output of the router is for the pump it comes from. -/
def Out.traffic : Out → Traffic
  | .toHost packet => .delivered packet
  | .toNet datagram endpoint => .sent datagram endpoint

/-- The traffic of a datagram that may be sent. -/
def sentTraffic (out : Option (Bytes × SocketAddr)) : List Traffic :=
  (out.map fun (datagram, endpoint) => Traffic.sent datagram endpoint).toList

namespace Router

variable (P : Primitives) (decode : String → Except String Bytes)

/-- The traffic of a site when the host emits a packet. -/
def outboundTraffic (m : Moment) (router : Router) (ipPkt : Bytes) (siteId : Int) :
    List Traffic :=
  match ((destIp ipPkt).bind router.bestPeer).bind (router.peers[·]?) with
  | none => []
  | some p =>
      if p.siteId = siteId then
        .submitted ipPkt :: match router.routeOutbound P m ipPkt with
          | .error _ => []
          | .ok (_, out) => sentTraffic out
      else []

/-- The traffic of a site when a datagram arrives. -/
def inboundTraffic (moments : Nat → Moment) (router : Router) (datagram : Bytes) (siteId : Int) :
    List Traffic :=
  match (router.demux datagram).bind (router.peers[·]?) with
  | none => []
  | some p =>
      if p.siteId = siteId then
        .fed datagram :: match router.handleInbound P moments datagram with
          | .error _ => []
          | .ok (_, outs) => outs.map Out.traffic
      else []

/-- The traffic of a site when the timers run. -/
def tickTraffic (moments : Nat → Moment) (siteId : Int) : Nat → List Peer → List Traffic
  | _, [] => []
  | i, p :: rest =>
      (if p.siteId = siteId then
        match p.pump.updateTimers P (moments i) with
        | .error _ => []
        | .ok (_, dg) => sentTraffic (dg.map fun b => (b, p.endpoint))
      else []) ++ tickTraffic moments siteId (i + 1) rest

/-- The traffic of every site after a call. A peer that is created starts with an initiation. -/
def recordTraffic (router : Router) (traffic : Int → List Traffic) : Call → Int → List Traffic
  | .upsertPeer m durationAtStart siteId key endpoint cidrs =>
      match publicFromB64 decode key with
      | .error _ => traffic
      | .ok _ => Function.update traffic siteId (sentTraffic
          (router.upsertPeer P decode m durationAtStart siteId key endpoint cidrs).2)
  | .routeOutbound m ipPkt => fun siteId =>
      traffic siteId ++ router.outboundTraffic P m ipPkt siteId
  | .handleInbound moments datagram => fun siteId =>
      traffic siteId ++ router.inboundTraffic P moments datagram siteId
  | .tick moments => fun siteId => traffic siteId ++ tickTraffic P moments siteId 0 router.peers
  | _ => traffic

/-- The traffic of every site in a run, since its peer was created last. -/
def runTraffic : Router → (Int → List Traffic) → List Call → Int → List Traffic
  | _, traffic, [] => traffic
  | router, traffic, call :: rest =>
      match router.apply P decode call with
      | .error _ => traffic
      | .ok next => runTraffic next (router.recordTraffic P decode traffic call) rest

/-! ## One call -/

/-- Every peer runs a pump of its own, which carries the traffic of its site. -/
structure Independent (secret : Bytes) (mtu : Nat) (router : Router)
    (traffic : Int → List Traffic) : Prop where
  sameSecret : router.secret = secret
  sameMtu : router.mtu = mtu
  unique : router.UniqueSites
  carries : ∀ p ∈ router.peers, ∃ peerPublic durationAtStart,
    (Pump.withIndex P secret peerPublic mtu p.index durationAtStart).Carries P p.pump
      (traffic p.siteId)

variable {P decode} {secret : Bytes} {mtu : Nat} {router next : Router}
  {traffic : Int → List Traffic}

/-- The pump of one peer carries more traffic of its site, and the other sites have none. -/
theorem Independent.set_pump (hind : Independent P secret mtu router traffic) {i : Nat} {p : Peer}
    (hp : router.peers[i]? = some p) {pump : Pump} {more : List Traffic}
    (hcarries : p.pump.Carries P pump more) {after : Int → List Traffic}
    (hown : after p.siteId = traffic p.siteId ++ more)
    (hother : ∀ siteId, siteId ≠ p.siteId → after siteId = traffic siteId) :
    Independent P secret mtu
      { router with peers := router.peers.set i { p with pump := pump } } after where
  sameSecret := hind.sameSecret
  sameMtu := hind.sameMtu
  unique := by
    have hmap := map_set_pump (f := Peer.siteId) (fun _ _ => rfl) pump hp
    have hunique := hind.unique
    rw [UniqueSites, Keyed.UniqueKeys] at hunique ⊢
    rwa [hmap]
  carries q hq := by
    obtain ⟨hi, hpi⟩ := List.getElem?_eq_some_iff.mp hp
    obtain ⟨j, hj, hget⟩ := List.getElem_of_mem hq
    rw [List.length_set] at hj
    rw [List.getElem_set] at hget
    split at hget
    · subst hget
      obtain ⟨peerPublic, start, hbefore⟩ := hind.carries p (List.mem_of_getElem? hp)
      refine ⟨peerPublic, start, ?_⟩
      rw [hown]
      exact hbefore.trans hcarries
    · next hne =>
        have hsite : q.siteId ≠ p.siteId := by
          intro hsame
          have hsites : (router.peers.map Peer.siteId)[i]? =
              (router.peers.map Peer.siteId)[j]? := by
            rw [List.getElem?_map, List.getElem?_map, hp, List.getElem?_eq_getElem hj, hget,
              Option.map_some, Option.map_some, hsame]
          exact hne ((List.getElem?_inj (by simpa using hi) hind.unique).mp hsites)
        rw [hother q.siteId hsite]
        exact hind.carries q (hget ▸ List.getElem_mem _)

theorem routeOutbound_independent (hind : Independent P secret mtu router traffic) {m : Moment}
    {ipPkt : Bytes} {out : Option (Bytes × SocketAddr)}
    (hroute : router.routeOutbound P m ipPkt = .ok (next, out)) :
    Independent P secret mtu next
      fun siteId => traffic siteId ++ router.outboundTraffic P m ipPkt siteId := by
  have htraffic := hroute
  simp only [routeOutbound] at hroute
  cases howner : (destIp ipPkt).bind router.bestPeer with
  | none =>
      simp only [howner, Except.ok.injEq, Prod.mk.injEq] at hroute
      obtain ⟨rfl, -⟩ := hroute
      simpa [outboundTraffic, howner] using hind
  | some i =>
      simp only [howner] at hroute
      cases hp : router.peers[i]? with
      | none =>
          simp only [hp, Except.ok.injEq, Prod.mk.injEq] at hroute
          obtain ⟨rfl, -⟩ := hroute
          simpa [outboundTraffic, howner, hp] using hind
      | some p =>
          simp only [hp] at hroute
          cases hpump : p.pump.encapsulate P m ipPkt with
          | error panic => simp [hpump] at hroute
          | ok result =>
              obtain ⟨pump, datagram⟩ := result
              simp only [hpump, Except.ok.injEq, Prod.mk.injEq] at hroute
              obtain ⟨rfl, rfl⟩ := hroute
              refine hind.set_pump hp (Pump.carries_encapsulate hpump p.endpoint) ?_ ?_
              · simp only [outboundTraffic, howner, Option.bind_some, hp, htraffic, if_true]
                cases datagram <;> rfl
              · intro siteId hsite
                simp [outboundTraffic, howner, hp, Ne.symm hsite]

theorem handleInbound_independent (hind : Independent P secret mtu router traffic)
    {moments : Nat → Moment} {datagram : Bytes} {outs : List Out}
    (hinbound : router.handleInbound P moments datagram = .ok (next, outs)) :
    Independent P secret mtu next
      fun siteId => traffic siteId ++ router.inboundTraffic P moments datagram siteId := by
  have htraffic := hinbound
  simp only [handleInbound, feed] at hinbound
  cases hdemux : router.demux datagram with
  | none =>
      simp only [hdemux, Except.ok.injEq, Prod.mk.injEq] at hinbound
      obtain ⟨rfl, -⟩ := hinbound
      simpa [inboundTraffic, hdemux] using hind
  | some i =>
      simp only [hdemux] at hinbound
      cases hp : router.peers[i]? with
      | none =>
          simp only [hp, Except.ok.injEq, Prod.mk.injEq] at hinbound
          obtain ⟨rfl, -⟩ := hinbound
          simpa [inboundTraffic, hdemux, hp] using hind
      | some p =>
          simp only [hp] at hinbound
          cases hpump : p.pump.receive P moments datagram with
          | error panic => simp [hpump] at hinbound
          | ok result =>
              obtain ⟨pump, results⟩ := result
              simp only [hpump, Except.ok.injEq, Prod.mk.injEq] at hinbound
              obtain ⟨rfl, rfl⟩ := hinbound
              refine hind.set_pump hp (Pump.carries_receive hpump p.endpoint) ?_ ?_
              · simp only [inboundTraffic, hdemux, Option.bind_some, hp, htraffic, if_true]
                rw [List.map_filterMap]
                congr 3
                funext result
                cases result <;> rfl
              · intro siteId hsite
                simp [inboundTraffic, hdemux, hp, Ne.symm hsite]

theorem tickTraffic_absent {moments : Nat → Moment} {siteId : Int} {peers : List Peer} {i : Nat}
    (habsent : siteId ∉ peers.map Peer.siteId) : tickTraffic P moments siteId i peers = [] := by
  induction peers generalizing i with
  | nil => rfl
  | cons p peers ih =>
      rw [List.map_cons, List.mem_cons, not_or] at habsent
      rw [tickTraffic, if_neg (Ne.symm habsent.1), ih habsent.2, List.append_nil]

/-- The timers of every peer run on its own pump. -/
theorem tickPeers_carries {moments : Nat → Moment} {i : Nat} {peers after : List Peer}
    {out : List (Bytes × SocketAddr)} (htick : tickPeers P moments i peers = .ok (after, out))
    (hunique : (peers.map Peer.siteId).Nodup) :
    ∀ q ∈ after, ∃ p ∈ peers, q.siteId = p.siteId ∧ q.index = p.index ∧
      p.pump.Carries P q.pump (tickTraffic P moments p.siteId i peers) := by
  induction peers generalizing i after out with
  | nil =>
      cases htick
      intro q hq
      cases hq
  | cons p peers ih =>
      rw [List.map_cons, List.nodup_cons] at hunique
      simp only [tickPeers] at htick
      cases hpump : p.pump.updateTimers P (moments i) with
      | error panic => simp [hpump] at htick
      | ok result =>
          obtain ⟨pump, datagram⟩ := result
          simp only [hpump] at htick
          cases hrest : tickPeers P moments (i + 1) peers with
          | error panic => simp [hrest] at htick
          | ok result =>
              obtain ⟨rest, more⟩ := result
              simp only [hrest, Except.ok.injEq, Prod.mk.injEq] at htick
              obtain ⟨rfl, -⟩ := htick
              intro q hq
              rcases List.mem_cons.mp hq with rfl | hq
              · refine ⟨p, List.mem_cons_self, rfl, rfl, ?_⟩
                have hcarries := Pump.carries_updateTimers hpump p.endpoint
                rw [tickTraffic, if_pos rfl, hpump, tickTraffic_absent hunique.1, List.append_nil]
                cases datagram <;> exact hcarries
              · obtain ⟨p', hp', hsite, hindex, hcarries⟩ := ih hrest hunique.2 q hq
                refine ⟨p', List.mem_cons_of_mem _ hp', hsite, hindex, ?_⟩
                have hother : p.siteId ≠ p'.siteId := fun hsame =>
                  hunique.1 (hsame ▸ List.mem_map_of_mem hp')
                rw [tickTraffic, if_neg hother, List.nil_append]
                exact hcarries

theorem tick_independent (hind : Independent P secret mtu router traffic)
    {moments : Nat → Moment} {out : List (Bytes × SocketAddr)}
    (htick : router.tick P moments = .ok (next, out)) :
    Independent P secret mtu next
      fun siteId => traffic siteId ++ tickTraffic P moments siteId 0 router.peers := by
  simp only [tick] at htick
  cases hpeers : tickPeers P moments 0 router.peers with
  | error panic => simp [hpeers] at htick
  | ok result =>
      obtain ⟨peers, more⟩ := result
      simp only [hpeers, Except.ok.injEq, Prod.mk.injEq] at htick
      obtain ⟨rfl, -⟩ := htick
      refine ⟨hind.sameSecret, hind.sameMtu, ?_, ?_⟩
      · have hmap := tickPeers_map (f := Peer.siteId) (fun _ _ => rfl) hpeers
        have hunique := hind.unique
        rw [UniqueSites, Keyed.UniqueKeys] at hunique ⊢
        rwa [hmap]
      · intro q hq
        obtain ⟨p, hp, hsite, hindex, hcarries⟩ := tickPeers_carries hpeers hind.unique q hq
        obtain ⟨peerPublic, start, hbefore⟩ := hind.carries p hp
        refine ⟨peerPublic, start, ?_⟩
        rw [hsite, hindex]
        exact hbefore.trans hcarries

/-- Peers that keep their pumps. -/
theorem Independent.of_kept (hind : Independent P secret mtu router traffic)
    (hsecret : next.secret = router.secret) (hmtu : next.mtu = router.mtu)
    (hunique : next.UniqueSites)
    (hkept : next.peers.map (fun p => (p.siteId, p.index, p.pump)) ⊆
      router.peers.map fun p => (p.siteId, p.index, p.pump)) :
    Independent P secret mtu next traffic where
  sameSecret := hsecret.trans hind.sameSecret
  sameMtu := hmtu.trans hind.sameMtu
  unique := hunique
  carries q hq := by
    have hmem := hkept (List.mem_map_of_mem hq)
    obtain ⟨p, hp, hsame⟩ := List.mem_map.mp hmem
    obtain ⟨hsite, hindex, hpump⟩ : p.siteId = q.siteId ∧ p.index = q.index ∧ p.pump = q.pump := by
      simpa using hsame
    rw [← hsite, ← hindex, ← hpump]
    exact hind.carries p hp

theorem removePeer_independent (hind : Independent P secret mtu router traffic) (siteId : Int) :
    Independent P secret mtu (router.removePeer siteId) traffic :=
  hind.of_kept rfl rfl (removePeer_unique hind.unique siteId)
    (List.filter_sublist.map _).subset

theorem modifyPeer_independent (hind : Independent P secret mtu router traffic) (siteId : Int)
    {f : Peer → Peer}
    (hf : ∀ p, ((f p).siteId, (f p).index, (f p).pump) = (p.siteId, p.index, p.pump)) :
    Independent P secret mtu (router.modifyPeer siteId f) traffic := by
  refine hind.of_kept rfl rfl (modifyPeer_unique hind.unique siteId fun p => ?_) ?_
  · exact congrArg Prod.fst (hf p)
  · rw [modifyPeer, Keyed.map_key_modifyFirst hf]
    exact List.Subset.refl _

theorem upsertPeer_ok {m : Moment} {durationAtStart : Nat} {siteId : Int} {key : String}
    {endpoint : SocketAddr} {cidrs : List Cidr} {peerPub : Bytes} {pump : Pump}
    {init : Option Bytes} (hkey : publicFromB64 decode key = .ok peerPub)
    (hinit : (Pump.withIndex P router.secret peerPub router.mtu router.nextIndex
      durationAtStart).initiateHandshake P m = (pump, init)) :
    router.upsertPeer P decode m durationAtStart siteId key endpoint cidrs =
      ({ router with
          peers := (router.removePeer siteId).peers ++
            [⟨siteId, pump, endpoint, cidrs, router.nextIndex⟩]
          nextIndex := succPeerIndex router.nextIndex },
        init.map fun b => (b, endpoint)) := by
  simp only [upsertPeer, hkey, removePeer, hinit]

/-- A new peer starts with a new pump and its initiation. Its site has no other peer. -/
theorem upsertPeer_independent (hind : Independent P secret mtu router traffic) {m : Moment}
    {durationAtStart : Nat} {siteId : Int} {key : String} {endpoint : SocketAddr}
    {cidrs : List Cidr} :
    Independent P secret mtu
      (router.upsertPeer P decode m durationAtStart siteId key endpoint cidrs).1
      (router.recordTraffic P decode traffic
        (.upsertPeer m durationAtStart siteId key endpoint cidrs)) := by
  have hunique := upsertPeer_unique P decode m durationAtStart hind.unique siteId key endpoint cidrs
  simp only [recordTraffic]
  cases hkey : publicFromB64 decode key with
  | error e =>
      simp only [upsertPeer, hkey]
      exact hind
  | ok peerPub =>
      cases hinit : (Pump.withIndex P router.secret peerPub router.mtu router.nextIndex
          durationAtStart).initiateHandshake P m with
      | mk pump init =>
          rw [upsertPeer_ok hkey hinit] at hunique ⊢
          refine ⟨hind.sameSecret, hind.sameMtu, hunique, ?_⟩
          intro q hq
          rcases List.mem_append.mp hq with hq | hq
          · have hother : q.siteId ≠ siteId := by simpa using (List.mem_filter.mp hq).2
            simp only [Function.update_of_ne hother]
            exact (removePeer_independent hind siteId).carries q hq
          · rw [List.mem_singleton] at hq
            subst hq
            refine ⟨peerPub, durationAtStart, ?_⟩
            simp only [Function.update_self, ← hind.sameSecret, ← hind.sameMtu]
            have hcarries := Pump.carries_initiateHandshake hinit endpoint
            cases init <;> exact hcarries

/-- A call leaves the peers independent. -/
theorem Independent.apply (hind : Independent P secret mtu router traffic) {call : Call}
    (happly : router.apply P decode call = .ok next) :
    Independent P secret mtu next (router.recordTraffic P decode traffic call) := by
  cases call with
  | upsertPeer m durationAtStart siteId key endpoint cidrs =>
      cases happly
      exact upsertPeer_independent hind
  | removePeer siteId =>
      cases happly
      exact removePeer_independent hind siteId
  | setEndpoint siteId endpoint =>
      cases happly
      exact modifyPeer_independent hind siteId fun _ => rfl
  | setCidrs siteId cidrs =>
      cases happly
      exact modifyPeer_independent hind siteId fun _ => rfl
  | addCidrs siteId cidrs =>
      cases happly
      exact modifyPeer_independent hind siteId fun _ => rfl
  | removeCidrs siteId drop =>
      cases happly
      exact modifyPeer_independent hind siteId fun _ => rfl
  | routeOutbound m ipPkt =>
      obtain ⟨⟨_, out⟩, hroute, rfl⟩ := map_eq_ok_iff.mp happly
      exact routeOutbound_independent hind hroute
  | handleInbound moments datagram =>
      obtain ⟨⟨_, outs⟩, hinbound, rfl⟩ := map_eq_ok_iff.mp happly
      exact handleInbound_independent hind hinbound
  | tick moments =>
      obtain ⟨⟨_, out⟩, htick, rfl⟩ := map_eq_ok_iff.mp happly
      exact tick_independent hind htick

theorem Independent.run (hind : Independent P secret mtu router traffic) {calls : List Call}
    (hrun : router.run P decode calls = .ok next) :
    Independent P secret mtu next (router.runTraffic P decode traffic calls) := by
  induction calls generalizing router traffic with
  | nil =>
      cases hrun
      exact hind
  | cons call calls ih =>
      rw [Router.run] at hrun
      rw [runTraffic]
      cases happly : router.apply P decode call with
      | error panic => simp [happly] at hrun
      | ok middle =>
          simp only [happly] at hrun
          exact ih (hind.apply happly) hrun

theorem independent_new (secret : Bytes) (mtu : Nat) :
    Independent P secret mtu (Router.new secret mtu) fun _ => [] where
  sameSecret := rfl
  sameMtu := rfl
  unique := List.nodup_nil
  carries p hp := by cases hp

/-- In every run of a new router, each peer has done what a pump of its own does with the
traffic of its site since the peer was created: it was fed, submitted, and put out the same,
in the same order, whatever the other peers did. -/
theorem peers_independent {calls : List Call}
    (hrun : (Router.new secret mtu).run P decode calls = .ok next) :
    next.UniqueSites ∧ ∀ p ∈ next.peers, ∃ peerPublic durationAtStart,
      (Pump.withIndex P secret peerPublic mtu p.index durationAtStart).Carries P p.pump
        ((Router.new secret mtu).runTraffic P decode (fun _ => []) calls p.siteId) := by
  have hind := (independent_new secret mtu).run hrun
  exact ⟨hind.unique, hind.carries⟩

theorem peers_independent_twoSites :
    served.peers.map Peer.siteId = [1, 2] ∧ served.UniqueSites ∧
      ∀ p ∈ served.peers, ∃ peerPublic durationAtStart,
        (Pump.withIndex Primitives.null [] peerPublic 1280 p.index durationAtStart).Carries
          Primitives.null p.pump ((Router.new [] 1280).runTraffic Primitives.null zeroKey
            (fun _ => []) twoSites p.siteId) :=
  ⟨rfl, peers_independent served_reachable⟩

/-! ## The router does not panic -/

/-- What the host and the network hand to the router is of ordinary length. -/
def Call.Ordinary (mtu : Nat) : Call → Prop
  | .routeOutbound _ ipPkt => ipPkt.length ≤ Pump.packetRoom mtu
  | .handleInbound _ datagram => datagram.length ≤ Pump.packetRoom mtu + 48
  | _ => True

/-- Every packet that was submitted for a site is short. -/
def ShortTraffic (mtu : Nat) (traffic : Int → List Traffic) : Prop :=
  ∀ siteId, ∀ packet ∈ (traffic siteId).filterMap Traffic.submitted?,
    packet.length ≤ Pump.packetRoom mtu

theorem sentTraffic_submitted (out : Option (Bytes × SocketAddr)) :
    (sentTraffic out).filterMap Traffic.submitted? = [] := by
  cases out <;> rfl

theorem outs_submitted (outs : List Out) :
    (outs.map Out.traffic).filterMap Traffic.submitted? = [] := by
  rw [List.filterMap_map]
  refine List.filterMap_eq_nil_iff.mpr fun out _ => ?_
  cases out <;> rfl

theorem tickTraffic_submitted {moments : Nat → Moment} {siteId : Int} {i : Nat}
    {peers : List Peer} :
    (tickTraffic P moments siteId i peers).filterMap Traffic.submitted? = [] := by
  induction peers generalizing i with
  | nil => rfl
  | cons p peers ih =>
      rw [tickTraffic, List.filterMap_append, ih, List.append_nil]
      split
      · split
        · rfl
        · exact sentTraffic_submitted _
      · rfl

theorem ShortTraffic.append (hshort : ShortTraffic mtu traffic) {more : Int → List Traffic}
    (hmore : ∀ siteId, ∀ packet ∈ (more siteId).filterMap Traffic.submitted?,
      packet.length ≤ Pump.packetRoom mtu) :
    ShortTraffic mtu fun siteId => traffic siteId ++ more siteId := by
  intro siteId packet hmem
  rw [List.filterMap_append, List.mem_append] at hmem
  rcases hmem with hmem | hmem
  · exact hshort siteId packet hmem
  · exact hmore siteId packet hmem

theorem ShortTraffic.record (hshort : ShortTraffic mtu traffic) {call : Call}
    (hordinary : call.Ordinary mtu) :
    ShortTraffic mtu (router.recordTraffic P decode traffic call) := by
  cases call with
  | upsertPeer m durationAtStart siteId key endpoint cidrs =>
      simp only [recordTraffic]
      split
      · exact hshort
      · intro other packet hmem
        by_cases hsite : other = siteId
        · subst hsite
          rw [Function.update_self, sentTraffic_submitted] at hmem
          cases hmem
        · rw [Function.update_of_ne hsite] at hmem
          exact hshort other packet hmem
  | routeOutbound m ipPkt =>
      refine hshort.append fun siteId packet hmem => ?_
      rw [outboundTraffic] at hmem
      split at hmem
      · cases hmem
      · split at hmem
        · have hpacket : packet = ipPkt := by
            split at hmem
            · simpa [Traffic.submitted?] using hmem
            · simpa [Traffic.submitted?, sentTraffic_submitted] using hmem
          rw [hpacket]
          exact hordinary
        · cases hmem
  | handleInbound moments datagram =>
      refine hshort.append fun siteId packet hmem => ?_
      rw [inboundTraffic] at hmem
      split at hmem
      · cases hmem
      · split at hmem
        · split at hmem
          · cases hmem
          · rw [List.filterMap_cons, outs_submitted] at hmem
            cases hmem
        · cases hmem
  | tick moments =>
      refine hshort.append fun siteId packet hmem => ?_
      rw [tickTraffic_submitted] at hmem
      cases hmem
  | _ => exact hshort

theorem tickPeers_returns (moments : Nat → Moment) (i : Nat) (peers : List Peer) :
    ∃ out, tickPeers P moments i peers = .ok out := by
  induction peers generalizing i with
  | nil => exact ⟨_, rfl⟩
  | cons p peers ih =>
      obtain ⟨⟨pump, dg⟩, hpump⟩ := Pump.updateTimers_returns (P := P) (moments i) p.pump
      obtain ⟨⟨rest, out⟩, hrest⟩ := ih (i + 1)
      exact ⟨_, by simp only [tickPeers, hpump, hrest]; rfl⟩

/-- The packets that wait for a peer were submitted for its site. -/
theorem Independent.roomy (hind : Independent P secret mtu router traffic)
    (hshort : ShortTraffic mtu traffic) {p : Peer} (hp : p ∈ router.peers) :
    p.pump.Roomy ∧ p.pump.mtu = mtu := by
  obtain ⟨peerPublic, start, hcarries⟩ := hind.carries p hp
  exact hcarries.roomy (Pump.withIndex_roomy P secret peerPublic mtu p.index start)
    (hshort p.siteId)

theorem Independent.apply_returns (hind : Independent P secret mtu router traffic)
    (hshort : ShortTraffic mtu traffic) {call : Call} (hordinary : call.Ordinary mtu) :
    ∃ next, router.apply P decode call = .ok next := by
  cases call with
  | routeOutbound m ipPkt =>
      suffices ∃ out, router.routeOutbound P m ipPkt = .ok out by
        obtain ⟨out, hout⟩ := this
        exact ⟨out.1, by rw [Router.apply, hout]; rfl⟩
      simp only [routeOutbound]
      split
      · exact ⟨_, rfl⟩
      · split
        · exact ⟨_, rfl⟩
        · next p hp =>
            obtain ⟨-, hmtu⟩ := hind.roomy hshort (List.mem_of_getElem? hp)
            have hfit : ipPkt.length ≤ Pump.packetRoom p.pump.mtu := by
              rw [hmtu]
              exact hordinary
            obtain ⟨⟨pump, dg⟩, hpump⟩ := Pump.encapsulate_returns (P := P) m hfit
            exact ⟨_, by rw [hpump]⟩
  | handleInbound moments datagram =>
      suffices ∃ out, router.handleInbound P moments datagram = .ok out by
        obtain ⟨out, hout⟩ := this
        exact ⟨out.1, by rw [Router.apply, hout]; rfl⟩
      simp only [handleInbound, feed]
      split
      · exact ⟨_, rfl⟩
      · split
        · exact ⟨_, rfl⟩
        · next p hp =>
            obtain ⟨hroomy, hmtu⟩ := hind.roomy hshort (List.mem_of_getElem? hp)
            have hfit : datagram.length ≤ Pump.packetRoom p.pump.mtu + 48 := by
              rw [hmtu]
              exact hordinary
            obtain ⟨⟨pump, outs⟩, hpump⟩ := Pump.receive_returns (P := P) moments hroomy hfit
            exact ⟨_, by rw [hpump]⟩
  | tick moments =>
      obtain ⟨⟨peers, out⟩, hpeers⟩ := tickPeers_returns (P := P) moments 0 router.peers
      exact ⟨_, by rw [Router.apply, tick, hpeers]; rfl⟩
  | _ => exact ⟨_, rfl⟩

/-- No run of a new router panics as long as the host emits packets of at most the MTU or 1500
bytes, and no datagram is longer by more than 48. -/
theorem run_never_panics (secret : Bytes) {calls : List Call}
    (hordinary : ∀ call ∈ calls, call.Ordinary mtu) :
    ∃ last, (Router.new secret mtu).run P decode calls = .ok last := by
  have hrun {router : Router} {traffic : Int → List Traffic}
      (hind : Independent P secret mtu router traffic) (hshort : ShortTraffic mtu traffic) :
      ∃ last, router.run P decode calls = .ok last := by
    induction calls generalizing router traffic with
    | nil => exact ⟨router, rfl⟩
    | cons call calls ih =>
        have hcall := hordinary call List.mem_cons_self
        have hreturns : ∃ next, router.apply P decode call = .ok next :=
          hind.apply_returns hshort hcall
        obtain ⟨next, happly⟩ := hreturns
        rw [Router.run, happly]
        exact ih (fun other hmem => hordinary other (List.mem_cons_of_mem _ hmem))
          (hind.apply happly) (hshort.record hcall)
  exact hrun (independent_new secret mtu) fun siteId packet hmem => by cases hmem

theorem run_never_panics_twoSites :
    ∃ last, (Router.new [] 1280).run Primitives.null zeroKey twoSites = .ok last := by
  refine run_never_panics [] fun call hmem => ?_
  simp only [twoSites, List.mem_cons, List.not_mem_nil, or_false] at hmem
  rcases hmem with rfl | rfl | rfl
  · trivial
  · trivial
  · simp [Call.Ordinary, Pump.packetRoom]

end Router

end Newt.Olm
