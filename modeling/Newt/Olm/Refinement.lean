import Newt.Olm.Table

/-! # Control messages change one site at a time

Every message about a peer means one `Change`, decided by the payload and by the
outcomes of key decoding and name resolution. Handling the message carries out
this change on the table of the router, and keeps at most one peer per site.
-/

namespace Newt.Olm

open Foundation Noise Wg

namespace Client

variable {Json β : Type} (client : Client Json) (w : Surroundings β)

/-! ## What a message means -/

/-- A site replaces its entry if its key is not empty and decodes and its
endpoint resolves. -/
def siteChange (k : Nat) (site : SiteConfig) : Change :=
  if site.publicKey = "" then .keep
  else
    match w.resolve k site.wgEndpoint with
    | none => .keep
    | some ep =>
        if (publicFromB64 client.decode site.publicKey).isOk then
          .replace site.siteId ⟨ep, (parseCidrs site.routedCidrs).toFinset⟩
        else .keep

/-- A new endpoint counts if it resolves. -/
def endpointChange (r : PeerEndpoint) : Change :=
  match w.resolve 0 r.endpoint with
  | none => .keep
  | some ep => .redirect r.siteId ep

/-- The change that a message about a peer asks for. -/
def change (topic : Topic) (data : Json) : Change :=
  match topic with
  | .peerAdd | .peerUpdate => ((client.serde.siteConfig data).map (client.siteChange w 0)).getD .keep
  | .peerRemove => ((client.serde.peerRemove data).map .remove).getD .keep
  | .peerRelay => ((client.serde.peerRelay data).map (endpointChange w)).getD .keep
  | .peerUnrelay => ((client.serde.peerUnrelay data).map (endpointChange w)).getD .keep
  | .peerDataAdd =>
      ((client.serde.peerData data).map fun r =>
        .addCidrs r.siteId (parseCidrs r.remoteSubnets).toFinset).getD .keep
  | .peerDataRemove =>
      ((client.serde.peerData data).map fun r =>
        .removeCidrs r.siteId (parseCidrs r.remoteSubnets).toFinset).getD .keep
  | _ => .keep

theorem upsertSite_table (k : Nat) (d : DataPlane β) (site : SiteConfig) :
    (client.upsertSite w k d site).1.router.table =
      (client.siteChange w k site).apply d.router.table := by
  unfold upsertSite siteChange
  split
  · rfl
  · cases w.resolve k site.wgEndpoint with
    | none => rfl
    | some ep => exact Router.upsertPeer_table ..

theorem upsertSite_unique (k : Nat) {d : DataPlane β} (hunique : d.router.UniqueSites)
    (site : SiteConfig) : (client.upsertSite w k d site).1.router.UniqueSites := by
  unfold upsertSite
  split
  · exact hunique
  · cases w.resolve k site.wgEndpoint with
    | none => exact hunique
    | some ep => exact Router.upsertPeer_unique _ _ _ _ hunique ..

theorem redirectPeer_unique {d : DataPlane β} (hunique : d.router.UniqueSites)
    (payload : Option PeerEndpoint) : (redirectPeer w d payload).router.UniqueSites := by
  cases payload with
  | none => exact hunique
  | some r =>
      simp only [redirectPeer]
      cases w.resolve 0 r.endpoint with
      | none => exact hunique
      | some ep => exact Router.modifyPeer_unique hunique _ fun _ => rfl

theorem syncSites_unique {k : Nat} {d : DataPlane β} (hunique : d.router.UniqueSites)
    (sites : List SiteConfig) : (client.syncSites w k d sites).1.router.UniqueSites := by
  induction sites generalizing k d with
  | nil => exact hunique
  | cons site rest ih =>
      have hnext := client.upsertSite_unique w k hunique site
      simp only [syncSites]
      split
      · exact hnext
      · exact ih hnext

theorem handlePeerMessage_unique {d : DataPlane β} (hunique : d.router.UniqueSites)
    (topic : Topic) (data : Json) :
    (client.handlePeerMessage w d topic data).1.router.UniqueSites := by
  cases topic with
  | connect | error | terminate => exact hunique
  | peerAdd | peerUpdate =>
      simp only [handlePeerMessage]
      cases client.serde.siteConfig data with
      | none => exact hunique
      | some site => exact client.upsertSite_unique w 0 hunique site
  | peerRemove =>
      simp only [handlePeerMessage]
      cases client.serde.peerRemove data with
      | none => exact hunique
      | some site => exact Router.removePeer_unique hunique site
  | peerRelay => exact redirectPeer_unique w hunique _
  | peerUnrelay => exact redirectPeer_unique w hunique _
  | peerDataAdd =>
      simp only [handlePeerMessage]
      cases client.serde.peerData data with
      | none => exact hunique
      | some r => exact Router.modifyPeer_unique hunique _ fun _ => rfl
  | peerDataRemove =>
      simp only [handlePeerMessage]
      cases client.serde.peerData data with
      | none => exact hunique
      | some r => exact Router.modifyPeer_unique hunique _ fun _ => rfl
  | sync =>
      simp only [handlePeerMessage]
      cases client.serde.syncData data with
      | none => exact hunique
      | some sites => exact client.syncSites_unique w hunique sites

theorem buildSites_unique {k : Nat} {router : Router} (hunique : router.UniqueSites)
    (sites : List SiteConfig) : (client.buildSites w k router sites).1.UniqueSites := by
  induction sites generalizing k router with
  | nil => exact hunique
  | cons site rest ih =>
      simp only [buildSites]
      split
      · exact ih hunique
      · split
        · exact ih hunique
        · exact ih (Router.upsertPeer_unique _ _ _ _ hunique ..)

theorem buildDataplane_unique {old : Option β} {wg : WgData} {d : DataPlane β}
    {inits : List (Bytes × SocketAddr)}
    (hbuild : client.buildDataplane w old wg = .ok (d, inits)) : d.router.UniqueSites := by
  unfold buildDataplane at hbuild
  split at hbuild
  · cases hbuild
  · split at hbuild
    · cases hbuild
    · cases hbuild
      have hnew : (Router.new client.secret client.mtu).UniqueSites := List.nodup_nil
      exact client.buildSites_unique w hnew _

/-! ## Sessions -/

/-- The data planes of a session: control messages that end well, and traffic. -/
inductive Reachable : Option (DataPlane β) → Prop
  | start : Reachable none
  | message {dp next : Option (DataPlane β)} (w : Surroundings β) (msg : WsMessage Json)
      (prior : Reachable dp) (step : client.handleMessage w dp msg = (next, .ok false)) :
      Reachable next
  | traffic {d : DataPlane β} {router : Router} (backend : β) (call : Router.Call)
      (prior : Reachable (some d)) (htraffic : call.isTraffic = true)
      (step : d.router.apply client.P client.decode call = .ok router) :
      Reachable (some ⟨router, backend⟩)

/-- Handling a message keeps at most one peer per site, whatever its result. -/
theorem handleMessage_unique {dp : Option (DataPlane β)}
    (hunique : ∀ d ∈ dp, d.router.UniqueSites) (msg : WsMessage Json) :
    ∀ d ∈ (client.handleMessage w dp msg).1, d.router.UniqueSites := by
  unfold handleMessage
  split
  · exact hunique
  · dsimp only
    split
    · exact hunique
    · next built inits hbuild =>
        split
        · exact hunique
        · rintro d ⟨⟩
          exact client.buildDataplane_unique w hbuild
  · exact hunique
  · exact hunique
  · cases dp with
    | none => exact hunique
    | some d =>
        rintro next ⟨⟩
        exact client.handlePeerMessage_unique w (hunique d rfl) _ _

theorem Reachable.unique {client : Client Json} {dp : Option (DataPlane β)}
    (hreach : client.Reachable dp) : ∀ d ∈ dp, d.router.UniqueSites := by
  induction hreach with
  | start =>
      intro d hd
      cases hd
  | message w msg _ step ih =>
      have hnext := client.handleMessage_unique w ih msg
      rw [step] at hnext
      exact hnext
  | @traffic d router backend call _ htraffic step ih =>
      rintro next ⟨⟩
      have hsites := (Router.traffic_map (f := Peer.siteId) (fun _ _ => rfl) htraffic step).2
      have hunique := ih d rfl
      unfold Router.UniqueSites Keyed.UniqueKeys at hunique ⊢
      rw [hsites]
      exact hunique

/-- What happens in a session: a message arrives under conditions of type `ω`, or
traffic changes the pumps and the backend. -/
inductive SessionStep (ω Json β : Type) where
  | message (w : ω) (msg : WsMessage Json)
  | traffic (backend : β) (call : Router.Call)

section SessionRuns

variable {ω : Type} (env : ω → Surroundings β)

/-- The data plane after one step, as long as the session goes on. -/
def sessionStep (dp : Option (DataPlane β)) :
    SessionStep ω Json β → Option (Option (DataPlane β))
  | .message w msg =>
      match client.handleMessage (env w) dp msg with
      | (next, .ok false) => some next
      | (_, .ok true) | (_, .error _) => none
  | .traffic backend call => do
      let d ← dp
      guard (call.isTraffic = true)
      let router ← (d.router.apply client.P client.decode call).toOption
      return some ⟨router, backend⟩

/-- A session starts without a data plane. -/
def session (steps : List (SessionStep ω Json β)) : Option (Option (DataPlane β)) :=
  steps.foldlM (client.sessionStep env) none

/-- The property holds of every message of the session and the data plane it
finds. -/
def AtMessages (steps : List (SessionStep ω Json β))
    (Q : ω → Option (DataPlane β) → WsMessage Json → Prop) : Prop :=
  ∀ before w msg after dp, steps = before ++ .message w msg :: after →
    client.session env before = some dp → Q w dp msg

variable {client env}

theorem Reachable.sessionStep {dp next : Option (DataPlane β)} {step : SessionStep ω Json β}
    (hreach : client.Reachable dp) (hstep : client.sessionStep env dp step = some next) :
    client.Reachable next := by
  cases step with
  | message w msg =>
      simp only [Client.sessionStep] at hstep
      split at hstep
      · next after hhandle =>
          cases hstep
          exact .message (env w) msg hreach hhandle
      · cases hstep
      · cases hstep
  | traffic backend call =>
      simp only [Client.sessionStep, Option.bind_eq_bind, Option.bind_eq_some_iff] at hstep
      obtain ⟨d, rfl, ⟨⟩, hguard, router, hrouter, hnext⟩ := hstep
      cases hnext
      have htraffic : call.isTraffic = true := by simpa using hguard
      cases happly : d.router.apply client.P client.decode call with
      | error panic =>
          rw [happly] at hrouter
          cases hrouter
      | ok after =>
          rw [happly] at hrouter
          cases hrouter
          exact .traffic backend call hreach htraffic happly

theorem session_reachable {steps : List (SessionStep ω Json β)} {dp : Option (DataPlane β)}
    (hrun : client.session env steps = some dp) : client.Reachable dp := by
  suffices hall : ∀ start, client.Reachable start →
      steps.foldlM (client.sessionStep env) start = some dp → client.Reachable dp from
    hall none .start hrun
  clear hrun
  induction steps with
  | nil =>
      rintro start hstart ⟨⟩
      exact hstart
  | cons step rest ih =>
      intro start hstart hrun
      rw [List.foldlM_cons] at hrun
      obtain ⟨next, hstep, hrest⟩ := Option.bind_eq_some_iff.mp hrun
      exact ih next (hstart.sessionStep hstep) hrest

/-- Two properties that agree on the data planes of a session agree on its
messages. -/
theorem atMessages_congr {Q R : ω → Option (DataPlane β) → WsMessage Json → Prop}
    (hagree : ∀ w dp msg, client.Reachable dp → (Q w dp msg ↔ R w dp msg))
    (steps : List (SessionStep ω Json β)) :
    client.AtMessages env steps Q ↔ client.AtMessages env steps R := by
  constructor
  · intro hall before w msg after dp hsteps hrun
    exact (hagree w dp msg (session_reachable hrun)).mp (hall before w msg after dp hsteps hrun)
  · intro hall before w msg after dp hsteps hrun
    exact (hagree w dp msg (session_reachable hrun)).mpr (hall before w msg after dp hsteps hrun)

end SessionRuns

/-! ## Sequences of messages -/

/-- A client whose payloads are lists of sites and whose keys all decode. -/
def plain : Client (List SiteConfig) where
  P := Primitives.null
  decode _ := .ok (List.replicate 32 0)
  serde :=
    { wgData := fun sites => some ⟨sites, "100.89.0.5/24"⟩
      siteConfig := List.head?
      peerRemove := fun sites => sites.head?.map SiteConfig.siteId
      peerRelay := fun sites => sites.head?.map fun s => ⟨s.siteId, s.relayEndpoint⟩
      peerUnrelay := fun sites => sites.head?.map fun s => ⟨s.siteId, s.endpoint⟩
      peerData := fun sites => sites.head?.map fun s => ⟨s.siteId, s.remoteSubnets⟩
      syncData := some }
  secret := []
  mtu := 1280

/-- A network on which every name is one host and every send succeeds. -/
def quiet : Surroundings Unit where
  resolve _ _ := some .documentation
  moment _ := ⟨0, []⟩
  durationAtStart _ := 0
  send _ := .ok ()
  newBackend _ _ := .ok ()
  addRoutes _ _ backend := backend

def site (siteId : Int) (subnet : String) : SiteConfig :=
  ⟨siteId, "host:51820", "", "key", [subnet], []⟩

/-- The data plane after a connect with one site. -/
def connected : DataPlane Unit :=
  ⟨(plain.buildSites quiet 0 (Router.new [] 1280) [site 7 "10.0.0.0/24"]).1, ()⟩

theorem connected_reachable : plain.Reachable (some connected) := by
  have hstep : plain.handleMessage quiet none ⟨"olm/wg/connect", [site 7 "10.0.0.0/24"]⟩ =
      (some connected, .ok false) := by
    rfl
  exact .message quiet _ .start hstep

end Client

end Newt.Olm
