import Newt.Olm.Sync

/-! # Routes of the operating system

The router and the routes of the operating system are updated in two steps, and
only the first can be refused. A message leaves a route without a peer exactly
when the update that it belongs to has no effect on the router, or a later one of
the same message undoes it.
-/

namespace Newt.Olm

open Foundation Noise Wg

/-- The same surroundings with a log of the ranges passed to `add_routes`. -/
def Surroundings.logged {β : Type} (w : Surroundings β) : Surroundings (β × List Cidr) where
  resolve := w.resolve
  moment := w.moment
  durationAtStart := w.durationAtStart
  send := w.send
  newBackend old tunnelIp := (w.newBackend (old.map Prod.fst) tunnelIp).map fun b => (b, [])
  addRoutes k cidrs backend := (w.addRoutes k cidrs backend.1, backend.2 ++ cidrs)

/-- A data plane with an empty log. -/
def DataPlane.logging {β : Type} (d : DataPlane β) : DataPlane (β × List Cidr) :=
  ⟨d.router, (d.backend, [])⟩

/-- A data plane without its log. -/
def DataPlane.unlogged {β : Type} (d : DataPlane (β × List Cidr)) : DataPlane β :=
  ⟨d.router, d.backend.1⟩

/-- A peer of the router has the range. -/
def Router.Routes (router : Router) (c : Cidr) : Prop := ∃ p ∈ router.peers, c ∈ p.cidrs

theorem Router.exists_peer_iff {router : Router} (hunique : router.UniqueSites) (c : Cidr)
    (Q : Int → Prop) :
    (∃ p ∈ router.peers, c ∈ p.cidrs ∧ Q p.siteId) ↔
      ∃ siteId e, router.table siteId = some e ∧ c ∈ e.cidrs ∧ Q siteId := by
  constructor
  · rintro ⟨p, hp, hc, hQ⟩
    exact ⟨p.siteId, p.entry, table_of_mem hunique hp, List.mem_toFinset.mpr hc, hQ⟩
  · rintro ⟨siteId, e, he, hc, hQ⟩
    obtain ⟨p, hp, rfl⟩ := Option.map_eq_some_iff.mp he
    obtain ⟨hmem, rfl⟩ := Keyed.mem_of_table hp
    exact ⟨p, hmem, List.mem_toFinset.mp hc, hQ⟩

theorem Router.routes_iff {router : Router} (hunique : router.UniqueSites) (c : Cidr) :
    router.Routes c ↔ ∃ siteId e, router.table siteId = some e ∧ c ∈ e.cidrs := by
  simpa [Routes] using exists_peer_iff hunique c fun _ => True

/-- A new peer always gets an initiation. -/
theorem Router.upsertPeer_init (P : Primitives) (decode : String → Except String Bytes) (m : Moment)
    (durationAtStart : Nat) (router : Router) (site : Int) (key : String) (endpoint : SocketAddr)
    (cidrs : List Cidr) :
    (router.upsertPeer P decode m durationAtStart site key endpoint cidrs).2.isSome =
      (publicFromB64 decode key).isOk := by
  unfold upsertPeer
  cases publicFromB64 decode key with
  | error e => rfl
  | ok peerPub =>
      have hfits (pump : Pump) : ¬ pump.scratch < handshakeInitSz := by
        simp only [Pump.scratch, handshakeInitSz]
        omega
      simp [Pump.initiateHandshake, Tunn.formatHandshakeInitiation, Pump.withIndex, Tunn.new,
        Handshake.new, Handshake.isInProgress, Handshake.isExpired,
        Handshake.formatHandshakeInitiation, hfits, Except.isOk, Except.toBool, Pump.networkOnly]

namespace Client

variable {Json β : Type} (client : Client Json) (w : Surroundings β)

/-- The ranges passed to `add_routes` while a message is handled. -/
def routesPassed (dp : Option (DataPlane β)) (msg : WsMessage Json) : List Cidr :=
  match Topic.ofText msg.typ with
  | none => []
  | some .connect =>
      let wg := (client.serde.wgData msg.data).getD .default
      match client.buildDataplane w.logged (dp.map fun d => d.logging.backend) wg with
      | .error _ => []
      | .ok (d, _) => d.backend.2
  | some topic =>
      match dp with
      | none => []
      | some d => (client.handlePeerMessage w.logged d.logging topic msg.data).1.backend.2

/-- Every range passed to `add_routes` is one of a peer when the message is
handled. -/
def RoutesCovered (dp : Option (DataPlane β)) (msg : WsMessage Json) : Prop :=
  ∀ c ∈ client.routesPassed w dp msg,
    ∃ d, (client.handleMessage w dp msg).1 = some d ∧ d.router.Routes c

/-! ## The log does not interfere -/

theorem upsertSite_unlogged (k : Nat) (d : DataPlane (β × List Cidr)) (site : SiteConfig) :
    client.upsertSite w k d.unlogged site =
      ((client.upsertSite w.logged k d site).1.unlogged,
        (client.upsertSite w.logged k d site).2) := by
  simp only [upsertSite, Surroundings.logged]
  split
  · rfl
  · cases w.resolve k site.wgEndpoint <;> rfl

theorem syncSites_unlogged (k : Nat) (d : DataPlane (β × List Cidr)) (sites : List SiteConfig) :
    client.syncSites w k d.unlogged sites =
      ((client.syncSites w.logged k d sites).1.unlogged,
        (client.syncSites w.logged k d sites).2) := by
  induction sites generalizing k d with
  | nil => rfl
  | cons site rest ih =>
      simp only [syncSites, upsertSite_unlogged]
      have hsend : sendInit w k (client.upsertSite w.logged k d site).2 =
          sendInit w.logged k (client.upsertSite w.logged k d site).2 := rfl
      rw [hsend]
      cases sendInit w.logged k (client.upsertSite w.logged k d site).2 with
      | error e => rfl
      | ok _ => exact ih (k + 1) _

theorem redirectPeer_unlogged (d : DataPlane (β × List Cidr)) (payload : Option PeerEndpoint) :
    redirectPeer w d.unlogged payload = (redirectPeer w.logged d payload).unlogged := by
  cases payload with
  | none => rfl
  | some r =>
      simp only [redirectPeer, Surroundings.logged]
      cases w.resolve 0 r.endpoint <;> rfl

theorem handlePeerMessage_unlogged (d : DataPlane (β × List Cidr)) (topic : Topic) (data : Json) :
    client.handlePeerMessage w d.unlogged topic data =
      ((client.handlePeerMessage w.logged d topic data).1.unlogged,
        (client.handlePeerMessage w.logged d topic data).2) := by
  cases topic with
  | connect | error | terminate => rfl
  | peerAdd | peerUpdate =>
      simp only [handlePeerMessage]
      cases client.serde.siteConfig data with
      | none => rfl
      | some site =>
          simp only [upsertSite_unlogged]
          rfl
  | peerRemove =>
      simp only [handlePeerMessage]
      cases client.serde.peerRemove data <;> rfl
  | peerRelay | peerUnrelay => simp only [handlePeerMessage, redirectPeer_unlogged]
  | peerDataAdd =>
      simp only [handlePeerMessage]
      cases client.serde.peerData data <;> rfl
  | peerDataRemove =>
      simp only [handlePeerMessage]
      cases client.serde.peerData data <;> rfl
  | sync =>
      simp only [handlePeerMessage]
      cases client.serde.syncData data with
      | none => rfl
      | some sites => exact client.syncSites_unlogged w 0 d sites

theorem buildSites_logged (k : Nat) (router : Router) (sites : List SiteConfig) :
    client.buildSites w.logged k router sites = client.buildSites w k router sites := by
  induction sites generalizing k router with
  | nil => rfl
  | cons site rest ih =>
      simp only [buildSites, ih]
      rfl

theorem buildDataplane_unlogged (old : Option (β × List Cidr)) (wg : WgData) :
    client.buildDataplane w (old.map Prod.fst) wg =
      (client.buildDataplane w.logged old wg).map fun built => (built.1.unlogged, built.2) := by
  unfold buildDataplane
  rw [buildSites_logged]
  cases IpAddr.parse (Text.splitFirst '/' wg.tunnelIp.toList) with
  | none => rfl
  | some tunnelIp =>
      simp only [Surroundings.logged]
      cases w.newBackend (old.map Prod.fst) tunnelIp <;> rfl

theorem sendInits_logged (k : Nat) (inits : List (Bytes × SocketAddr)) :
    sendInits w.logged k inits = sendInits w k inits := by
  induction inits generalizing k with
  | nil => rfl
  | cons init rest ih =>
      simp only [sendInits, ih]
      rfl

/-- Handling a message with the log is handling it without, once the log is
dropped. -/
theorem handleMessage_unlogged (dp : Option (DataPlane (β × List Cidr))) (msg : WsMessage Json) :
    client.handleMessage w (dp.map DataPlane.unlogged) msg =
      ((client.handleMessage w.logged dp msg).1.map DataPlane.unlogged,
        (client.handleMessage w.logged dp msg).2) := by
  have hold : (dp.map DataPlane.unlogged).map DataPlane.backend =
      (dp.map DataPlane.backend).map Prod.fst := by
    cases dp <;> rfl
  simp only [handleMessage]
  cases Topic.ofText msg.typ with
  | none => rfl
  | some topic =>
      cases topic with
      | error | terminate => rfl
      | connect =>
          simp only [hold, buildDataplane_unlogged]
          cases client.buildDataplane w.logged (dp.map DataPlane.backend)
              ((client.serde.wgData msg.data).getD .default) with
          | error e => rfl
          | ok built =>
              simp only [Except.map, sendInits_logged]
              cases sendInits w 0 built.2 <;> rfl
      | _ =>
          cases dp with
          | none => rfl
          | some d => simp only [Option.map_some, handlePeerMessage_unlogged]

/-! ## The ranges that are passed -/

/-- The ranges of one site, whether or not its key decodes. -/
def siteRoutes (k : Nat) (site : SiteConfig) : List Cidr :=
  if site.publicKey = "" then []
  else if (w.resolve k site.wgEndpoint).isSome then parseCidrs site.routedCidrs
  else []

/-- The ranges of a list of sites, numbered from `k` on. -/
def sitesRoutes : Nat → List SiteConfig → List Cidr
  | _, [] => []
  | k, site :: rest => siteRoutes w k site ++ sitesRoutes (k + 1) rest

theorem sitesRoutes_logged (k : Nat) (sites : List SiteConfig) :
    sitesRoutes w.logged k sites = sitesRoutes w k sites := by
  induction sites generalizing k with
  | nil => rfl
  | cons site rest ih =>
      rw [sitesRoutes, ih]
      rfl

instance (k : Nat) (site : SiteConfig) : Decidable (client.Usable w k site) :=
  inferInstanceAs (Decidable (site.publicKey ≠ "" ∧
    (publicFromB64 client.decode site.publicKey).isOk = true ∧
    (w.resolve k site.wgEndpoint).isSome = true))

/-- The sites of a sync up to the first initiation that cannot be sent. -/
def processed : Nat → List SiteConfig → List SiteConfig
  | _, [] => []
  | k, site :: rest =>
      if client.Usable w k site ∧ (w.send k).isOk = false then [site]
      else site :: processed (k + 1) rest

theorem upsertSite_routes (k : Nat) (d : DataPlane (β × List Cidr)) (site : SiteConfig) :
    (client.upsertSite w.logged k d site).1.backend.2 = d.backend.2 ++ siteRoutes w k site := by
  simp only [upsertSite, siteRoutes]
  split
  · simp
  · simp only [Surroundings.logged]
    cases w.resolve k site.wgEndpoint <;> simp

theorem upsertSite_init (k : Nat) (d : DataPlane β) (site : SiteConfig) :
    (client.upsertSite w k d site).2.isSome = true ↔ client.Usable w k site := by
  simp only [upsertSite, Usable]
  split
  · next hkey => simp [hkey]
  · next hkey =>
      cases hresolve : w.resolve k site.wgEndpoint with
      | none => simp
      | some ep => simp [hkey, upsertRouter, Router.upsertPeer_init]

/-- Sending stops a sync only after a site that got into the router. -/
theorem sendInit_isOk (k : Nat) (d : DataPlane β) (site : SiteConfig) :
    (sendInit w k (client.upsertSite w k d site).2).isOk = false ↔
      client.Usable w k site ∧ (w.send k).isOk = false := by
  rw [← client.upsertSite_init w k d site]
  cases (client.upsertSite w k d site).2 <;> simp [sendInit, Except.isOk, Except.toBool]

theorem syncSites_cons (k : Nat) (d : DataPlane β) (site : SiteConfig) (rest : List SiteConfig) :
    (client.syncSites w k d (site :: rest)).1 =
      if client.Usable w k site ∧ (w.send k).isOk = false then (client.upsertSite w k d site).1
      else (client.syncSites w (k + 1) (client.upsertSite w k d site).1 rest).1 := by
  have hsend := client.sendInit_isOk w k d site
  simp only [syncSites]
  cases hresult : sendInit w k (client.upsertSite w k d site).2 with
  | error e =>
      rw [hresult] at hsend
      rw [if_pos (hsend.mp rfl)]
  | ok _ =>
      rw [hresult] at hsend
      rw [if_neg (mt hsend.mpr (by simp [Except.isOk, Except.toBool]))]

theorem syncSites_routes (k : Nat) (d : DataPlane (β × List Cidr)) (sites : List SiteConfig) :
    (client.syncSites w.logged k d sites).1.backend.2 =
      d.backend.2 ++ sitesRoutes w k (client.processed w k sites) := by
  induction sites generalizing k d with
  | nil => simp [syncSites, processed, sitesRoutes]
  | cons site rest ih =>
      have hcons : (client.syncSites w.logged k d (site :: rest)).1 =
          if client.Usable w k site ∧ (w.send k).isOk = false then
            (client.upsertSite w.logged k d site).1
          else (client.syncSites w.logged (k + 1) (client.upsertSite w.logged k d site).1 rest).1 :=
        client.syncSites_cons w.logged k d site rest
      rw [hcons, processed]
      split
      · simp [sitesRoutes, upsertSite_routes]
      · rw [ih, upsertSite_routes, sitesRoutes, List.append_assoc]

/-! ## The table after a list of sites -/

/-- The changes of a list of sites, numbered from `k` on. -/
def changeSites : Nat → List SiteConfig → Table → Table
  | _, [], table => table
  | k, site :: rest, table => changeSites (k + 1) rest ((client.siteChange w k site).apply table)

theorem syncSites_changes (k : Nat) (d : DataPlane β) (sites : List SiteConfig) :
    (client.syncSites w k d sites).1.router.table =
      client.changeSites w k (client.processed w k sites) d.router.table := by
  induction sites generalizing k d with
  | nil => rfl
  | cons site rest ih =>
      rw [syncSites_cons, processed]
      split
      · exact client.upsertSite_table w k d site
      · rw [ih, upsertSite_table, changeSites]

/-- Some usable site of the list is this one. -/
def Named : Nat → List SiteConfig → Int → Prop
  | _, [], _ => False
  | k, site :: rest, siteId =>
      (client.Usable w k site ∧ site.siteId = siteId) ∨ Named (k + 1) rest siteId

/-- Some usable site of the list has the range, and no later one replaces it. -/
def Lasting (c : Cidr) : Nat → List SiteConfig → Prop
  | _, [] => False
  | k, site :: rest =>
      (client.Usable w k site ∧ c ∈ parseCidrs site.routedCidrs ∧
        ¬ client.Named w (k + 1) rest site.siteId) ∨ Lasting c (k + 1) rest

theorem siteChange_of_usable {k : Nat} {site : SiteConfig} (husable : client.Usable w k site) :
    ∃ ep, client.siteChange w k site =
      .replace site.siteId ⟨ep, (parseCidrs site.routedCidrs).toFinset⟩ := by
  obtain ⟨hkey, hdecodes, hresolves⟩ := husable
  obtain ⟨ep, hep⟩ := Option.isSome_iff_exists.mp hresolves
  exact ⟨ep, by simp [siteChange, hkey, hep, hdecodes]⟩

theorem siteChange_of_not_usable {k : Nat} {site : SiteConfig}
    (husable : ¬ client.Usable w k site) : client.siteChange w k site = .keep := by
  by_cases hkey : site.publicKey = ""
  · simp [siteChange, hkey]
  · cases hresolve : w.resolve k site.wgEndpoint with
    | none => simp [siteChange, hkey, hresolve]
    | some ep => simp_all [siteChange, Usable]

/-- After a list of sites the table has a range of a lasting site, or one of a
site that the list does not name. -/
theorem changeSites_has_iff (c : Cidr) (k : Nat) (sites : List SiteConfig) (table : Table) :
    (∃ siteId e, client.changeSites w k sites table siteId = some e ∧ c ∈ e.cidrs) ↔
      client.Lasting w c k sites ∨
        ∃ siteId e, table siteId = some e ∧ c ∈ e.cidrs ∧ ¬ client.Named w k sites siteId := by
  induction sites generalizing k table with
  | nil => simp [changeSites, Lasting, Named]
  | cons site rest ih =>
      rw [changeSites, ih, Lasting, or_assoc, or_left_comm]
      refine or_congr_right ?_
      by_cases husable : client.Usable w k site
      · obtain ⟨ep, hchange⟩ := client.siteChange_of_usable w husable
        simp only [hchange, Change.apply, Change.site, Change.entry, Named, husable, true_and]
        constructor
        · rintro ⟨siteId, e, he, hc, hlast⟩
          by_cases hsite : siteId = site.siteId
          · subst hsite
            rw [Function.update_self, Option.some.injEq] at he
            subst he
            exact .inl ⟨List.mem_toFinset.mp hc, hlast⟩
          · rw [Function.update_of_ne hsite] at he
            exact .inr ⟨siteId, e, he, hc, not_or.mpr ⟨Ne.symm hsite, hlast⟩⟩
        · rintro (⟨hc, hlast⟩ | ⟨siteId, e, he, hc, hother⟩)
          · exact ⟨site.siteId, _, Function.update_self .., List.mem_toFinset.mpr hc, hlast⟩
          · obtain ⟨hsite, hlast⟩ := not_or.mp hother
            exact ⟨siteId, e, by rwa [Function.update_of_ne (Ne.symm hsite)], hc, hlast⟩
      · rw [client.siteChange_of_not_usable w husable]
        simp [husable, Named, Change.apply, Change.site]

theorem routes_changeSites_iff {router next : Router} (hunique : router.UniqueSites)
    (hnext : next.UniqueSites) {k : Nat} {sites : List SiteConfig}
    (htable : next.table = client.changeSites w k sites router.table) (c : Cidr) :
    next.Routes c ↔ client.Lasting w c k sites ∨
      ∃ p ∈ router.peers, c ∈ p.cidrs ∧ ¬ client.Named w k sites p.siteId := by
  rw [Router.routes_iff hnext, htable, changeSites_has_iff,
    Router.exists_peer_iff hunique c fun siteId => ¬ client.Named w k sites siteId]

/-! ## A new data plane -/

/-- The number of usable sites, each of which gets an initiation. -/
def usableCount : Nat → List SiteConfig → Nat
  | _, [] => 0
  | k, site :: rest => (if client.Usable w k site then 1 else 0) + usableCount (k + 1) rest

theorem buildSites_spec (k : Nat) (router : Router) (sites : List SiteConfig) :
    (client.buildSites w k router sites).1.table = client.changeSites w k sites router.table ∧
      (client.buildSites w k router sites).2.1.length = client.usableCount w k sites ∧
      (client.buildSites w k router sites).2.2 = sitesRoutes w k sites := by
  induction sites generalizing k router with
  | nil => exact ⟨rfl, rfl, rfl⟩
  | cons site rest ih =>
      by_cases hkey : site.publicKey = ""
      · have husable : ¬ client.Usable w k site := fun husable => husable.1 hkey
        rw [changeSites, usableCount, sitesRoutes, siteChange_of_not_usable client w husable]
        simpa [buildSites, hkey, husable, siteRoutes, Change.apply, Change.site] using
          ih (k + 1) router
      cases hresolve : w.resolve k site.wgEndpoint with
      | none =>
          have husable : ¬ client.Usable w k site := by simp [Usable, hresolve]
          rw [changeSites, usableCount, sitesRoutes, siteChange_of_not_usable client w husable]
          simpa [buildSites, hkey, hresolve, husable, siteRoutes, Change.apply, Change.site] using
            ih (k + 1) router
      | some ep =>
          obtain ⟨htable, hcount, hroutes⟩ := ih (k + 1) (client.upsertRouter w k router site ep).1
          have hchange : (client.upsertRouter w k router site ep).1.table =
              (client.siteChange w k site).apply router.table := by
            simp only [upsertRouter, siteChange, hkey, hresolve, if_false]
            exact Router.upsertPeer_table ..
          have hinit : (client.upsertRouter w k router site ep).2.isSome = true ↔
              client.Usable w k site := by
            simp [upsertRouter, Router.upsertPeer_init, Usable, hkey, hresolve]
          simp only [buildSites, hkey, hresolve, if_false]
          refine ⟨by rw [htable, hchange, changeSites], ?_, ?_⟩
          · rw [List.length_append, hcount, usableCount]
            cases hcase : (client.upsertRouter w k router site ep).2 with
            | none => simp_all
            | some init => simp_all
          · rw [hroutes, sitesRoutes]
            simp [siteRoutes, hkey, hresolve]

theorem sendInits_isOk_iff (k : Nat) (inits : List (Bytes × SocketAddr)) :
    (sendInits w k inits).isOk = true ↔ ∀ j < inits.length, (w.send (k + j)).isOk = true := by
  induction inits generalizing k with
  | nil => simp [sendInits, Except.isOk, Except.toBool]
  | cons init rest ih =>
      rw [List.length_cons, Nat.forall_lt_succ_left]
      simp only [sendInits, Nat.add_zero]
      cases hsend : w.send k with
      | error e => simp [Except.isOk, Except.toBool]
      | ok _ =>
          rw [ih (k + 1)]
          simp [Except.isOk, Except.toBool, Nat.add_assoc, Nat.add_comm 1]

/-! ## When the routes are covered -/

/-- Each range of the sites belongs to a lasting site of the list, or to a peer
that the list does not name. -/
def SitesKept (peers : List Peer) (sites : List SiteConfig) : Prop :=
  ∀ c ∈ sitesRoutes w 0 sites, client.Lasting w c 0 sites ∨
    ∃ p ∈ peers, c ∈ p.cidrs ∧ ¬ client.Named w 0 sites p.siteId

/-- A connect that gets its backend keeps the ranges of its sites, if it can send
all initiations. Otherwise the old data plane has them already. -/
def ConnectKept (dp : Option (DataPlane β)) (wg : WgData) : Prop :=
  ∀ tunnelIp backend, IpAddr.parse (Text.splitFirst '/' wg.tunnelIp.toList) = some tunnelIp →
    w.newBackend (dp.map DataPlane.backend) tunnelIp = .ok backend →
    ((∀ j < client.usableCount w 0 wg.sites, (w.send j).isOk = true) →
      client.SitesKept w [] wg.sites) ∧
    (¬ (∀ j < client.usableCount w 0 wg.sites, (w.send j).isOk = true) →
      ∀ c ∈ sitesRoutes w 0 wg.sites, ∃ d ∈ dp, d.router.Routes c)

/-- The condition on a message and the data plane before it under which no route
is left without a peer. -/
def RoutesKept (dp : Option (DataPlane β)) (msg : WsMessage Json) : Prop :=
  match Topic.ofText msg.typ with
  | some .connect => client.ConnectKept w dp ((client.serde.wgData msg.data).getD .default)
  | some .peerAdd | some .peerUpdate =>
      ∀ d ∈ dp, ∀ site ∈ client.serde.siteConfig msg.data,
        client.SitesKept w d.router.peers [site]
  | some .sync =>
      ∀ d ∈ dp, ∀ sites ∈ client.serde.syncData msg.data,
        client.SitesKept w d.router.peers (client.processed w 0 sites)
  | some .peerDataAdd =>
      ∀ d ∈ dp, ∀ r ∈ client.serde.peerData msg.data,
        (∃ p ∈ d.router.peers, p.siteId = r.siteId) ∨
          ∀ c ∈ parseCidrs r.remoteSubnets, d.router.Routes c
  | _ => True

section Connect

variable {old : Option β} {wg : WgData}

theorem buildDataplane_ok {tunnelIp : IpAddr} {backend : β}
    (hip : IpAddr.parse (Text.splitFirst '/' wg.tunnelIp.toList) = some tunnelIp)
    (hbackend : w.newBackend old tunnelIp = .ok backend) :
    ∃ d inits, client.buildDataplane w old wg = .ok (d, inits) ∧
      d.router = (client.buildSites w 0 (Router.new client.secret client.mtu) wg.sites).1 ∧
      d.backend = w.addRoutes 0 (sitesRoutes w 0 wg.sites) backend ∧
      inits.length = client.usableCount w 0 wg.sites := by
  obtain ⟨_, hcount, hroutes⟩ :=
    client.buildSites_spec w 0 (Router.new client.secret client.mtu) wg.sites
  refine ⟨⟨_, w.addRoutes 0 (sitesRoutes w 0 wg.sites) backend⟩, _, ?_, rfl, rfl, hcount⟩
  unfold buildDataplane
  simp only [hip, hbackend, hroutes]

theorem buildDataplane_error
    (hnone : ¬ ∃ tunnelIp backend,
      IpAddr.parse (Text.splitFirst '/' wg.tunnelIp.toList) = some tunnelIp ∧
        w.newBackend old tunnelIp = .ok backend) :
    ∃ e, client.buildDataplane w old wg = .error e := by
  unfold buildDataplane
  cases hip : IpAddr.parse (Text.splitFirst '/' wg.tunnelIp.toList) with
  | none => exact ⟨_, rfl⟩
  | some tunnelIp =>
      cases hbackend : w.newBackend old tunnelIp with
      | error e =>
          simp only [hbackend]
          exact ⟨e, rfl⟩
      | ok backend => exact absurd ⟨tunnelIp, backend, hip, hbackend⟩ hnone

/-- A connect that gets its backend takes effect if all initiations can be sent, and
ends the session otherwise. -/
theorem handleMessage_connect {dp : Option (DataPlane β)} {msg : WsMessage Json}
    (htopic : Topic.ofText msg.typ = some .connect)
    (hwg : (client.serde.wgData msg.data).getD .default = wg) {tunnelIp : IpAddr} {backend : β}
    (hip : IpAddr.parse (Text.splitFirst '/' wg.tunnelIp.toList) = some tunnelIp)
    (hbackend : w.newBackend (dp.map DataPlane.backend) tunnelIp = .ok backend) :
    ∃ d, d.router = (client.buildSites w 0 (Router.new client.secret client.mtu) wg.sites).1 ∧
      d.backend = w.addRoutes 0 (sitesRoutes w 0 wg.sites) backend ∧
      if ∀ j < client.usableCount w 0 wg.sites, (w.send j).isOk = true then
        client.handleMessage w dp msg = (some d, .ok false)
      else ∃ e, client.handleMessage w dp msg = (dp, .error e) := by
  obtain ⟨d, inits, hbuild, hrouter, hroutes, hcount⟩ := client.buildDataplane_ok w hip hbackend
  have hsent := sendInits_isOk_iff w 0 inits
  simp only [hcount, Nat.zero_add] at hsent
  refine ⟨d, hrouter, hroutes, ?_⟩
  simp only [handleMessage, htopic, hwg, hbuild]
  cases hresult : sendInits w 0 inits with
  | error e =>
      rw [hresult] at hsent
      rw [if_neg (mt hsent.mpr (by simp [Except.isOk, Except.toBool]))]
      exact ⟨e, rfl⟩
  | ok _ =>
      rw [hresult] at hsent
      rw [if_pos (hsent.mp rfl)]

end Connect

/-- Logging does not change whether a backend can be had. -/
theorem logged_newBackend (dp : Option (DataPlane β)) (tunnelIp : IpAddr) :
    w.logged.newBackend (dp.map fun d => d.logging.backend) tunnelIp =
      (w.newBackend (dp.map DataPlane.backend) tunnelIp).map fun backend => (backend, []) := by
  have hold : (dp.map fun d => d.logging.backend).map Prod.fst = dp.map DataPlane.backend := by
    cases dp <;> rfl
  simp only [Surroundings.logged, hold]

section ConnectRoutes

variable {dp : Option (DataPlane β)} {msg : WsMessage Json} {wg : WgData}
  (htopic : Topic.ofText msg.typ = some .connect)
  (hwg : (client.serde.wgData msg.data).getD .default = wg)
include htopic hwg

theorem routesPassed_connect {tunnelIp : IpAddr} {backend : β}
    (hip : IpAddr.parse (Text.splitFirst '/' wg.tunnelIp.toList) = some tunnelIp)
    (hbackend : w.newBackend (dp.map DataPlane.backend) tunnelIp = .ok backend) :
    client.routesPassed w dp msg = sitesRoutes w 0 wg.sites := by
  have hlogged : w.logged.newBackend (dp.map fun d => d.logging.backend) tunnelIp =
      .ok (backend, []) := by
    rw [logged_newBackend, hbackend]
    rfl
  obtain ⟨dl, _, hbuildl, _, hbackendl, _⟩ := client.buildDataplane_ok w.logged hip hlogged
  simp only [routesPassed, htopic, hwg, hbuildl, hbackendl, sitesRoutes_logged]
  rfl

theorem routesPassed_refused (hrefused : ¬ ∃ tunnelIp backend,
      IpAddr.parse (Text.splitFirst '/' wg.tunnelIp.toList) = some tunnelIp ∧
        w.newBackend (dp.map DataPlane.backend) tunnelIp = .ok backend) :
    client.routesPassed w dp msg = [] := by
  have hlogged : ¬ ∃ tunnelIp backend,
      IpAddr.parse (Text.splitFirst '/' wg.tunnelIp.toList) = some tunnelIp ∧
        w.logged.newBackend (dp.map fun d => d.logging.backend) tunnelIp = .ok backend := by
    rintro ⟨tunnelIp, backend, hip, hbackend⟩
    rw [logged_newBackend] at hbackend
    cases hreal : w.newBackend (dp.map DataPlane.backend) tunnelIp with
    | error e =>
        rw [hreal] at hbackend
        cases hbackend
    | ok real => exact hrefused ⟨tunnelIp, real, hip, hreal⟩
  obtain ⟨e, herror⟩ := client.buildDataplane_error w.logged hlogged
  simp only [routesPassed, htopic, hwg, herror]

end ConnectRoutes

theorem connect_covered_iff (dp : Option (DataPlane β)) {msg : WsMessage Json}
    (htopic : Topic.ofText msg.typ = some .connect) :
    client.RoutesCovered w dp msg ↔
      client.ConnectKept w dp ((client.serde.wgData msg.data).getD .default) := by
  set wg := (client.serde.wgData msg.data).getD .default with hwg
  by_cases hget : ∃ tunnelIp backend,
      IpAddr.parse (Text.splitFirst '/' wg.tunnelIp.toList) = some tunnelIp ∧
        w.newBackend (dp.map DataPlane.backend) tunnelIp = .ok backend
  · obtain ⟨tunnelIp, backend, hip, hbackend⟩ := hget
    obtain ⟨d, hrouter, _, hhandled⟩ := client.handleMessage_connect w htopic hwg.symm hip hbackend
    have hkept : client.ConnectKept w dp wg ↔
        ((∀ j < client.usableCount w 0 wg.sites, (w.send j).isOk = true) →
          client.SitesKept w [] wg.sites) ∧
        (¬ (∀ j < client.usableCount w 0 wg.sites, (w.send j).isOk = true) →
          ∀ c ∈ sitesRoutes w 0 wg.sites, ∃ d ∈ dp, d.router.Routes c) :=
      ⟨fun hall => hall tunnelIp backend hip hbackend, fun hboth _ _ _ _ => hboth⟩
    rw [hkept, RoutesCovered, client.routesPassed_connect w htopic hwg.symm hip hbackend]
    split at hhandled
    · next hsent =>
        have hnew : (Router.new client.secret client.mtu).UniqueSites := List.nodup_nil
        have hcovers := client.routes_changeSites_iff w hnew
          (client.buildSites_unique w hnew wg.sites)
          (client.buildSites_spec w 0 (Router.new client.secret client.mtu) wg.sites).1
        rw [← hrouter] at hcovers
        rw [and_iff_left fun hfails => absurd hsent hfails, imp_iff_right hsent]
        simp [hhandled, hcovers, SitesKept, Router.new]
    · next hfails =>
        obtain ⟨e, hfailed⟩ := hhandled
        rw [and_iff_right fun hsent => absurd hsent hfails, imp_iff_right hfails]
        simp [hfailed]
  · rw [RoutesCovered, client.routesPassed_refused w htopic hwg.symm hget]
    constructor
    · intro _ tunnelIp backend hip hbackend
      exact absurd ⟨tunnelIp, backend, hip, hbackend⟩ hget
    · intro _ c hc
      cases hc

/-- A list of sites that is worked off on a running data plane. -/
theorem sites_covered_iff {d next : DataPlane β} (hunique : d.router.UniqueSites)
    (hnext : next.router.UniqueSites) {sites : List SiteConfig}
    (htable : next.router.table = client.changeSites w 0 sites d.router.table) :
    (∀ c ∈ sitesRoutes w 0 sites, next.router.Routes c) ↔
      client.SitesKept w d.router.peers sites :=
  forall₂_congr fun c _ => client.routes_changeSites_iff w hunique hnext htable c

theorem addCidrs_routes_iff {router : Router} (hunique : router.UniqueSites) (siteId : Int)
    (cidrs : List Cidr) :
    (∀ c ∈ cidrs, (router.addCidrs siteId cidrs).Routes c) ↔
      (∃ p ∈ router.peers, p.siteId = siteId) ∨ ∀ c ∈ cidrs, router.Routes c := by
  have hnext : (router.addCidrs siteId cidrs).UniqueSites :=
    Router.modifyPeer_unique hunique siteId fun _ => rfl
  have htable := router.addCidrs_table siteId cidrs
  cases hentry : router.table siteId with
  | none =>
      have hunknown : ¬ ∃ p ∈ router.peers, p.siteId = siteId := by
        rw [← Router.table_isSome_iff, hentry]
        simp
      have hsame : (router.addCidrs siteId cidrs).table = router.table := by
        rw [htable, Change.apply]
        simp only [Change.site, Change.entry, hentry, Option.map_none]
        rw [← hentry, Function.update_eq_self]
      simp only [hunknown, false_or, Router.routes_iff hnext, hsame, Router.routes_iff hunique]
  | some e =>
      have hknown : ∃ p ∈ router.peers, p.siteId = siteId := by
        rw [← Router.table_isSome_iff, hentry]
        rfl
      refine iff_of_true ?_ (.inl hknown)
      intro c hc
      rw [Router.routes_iff hnext, htable, Change.apply]
      simp only [Change.site, Change.entry, hentry, Option.map_some]
      refine ⟨siteId, _, Function.update_self .., ?_⟩
      exact Finset.mem_union_right _ (List.mem_toFinset.mpr hc)

/-- What handling a message other than connect has to do with the routes it
passes. -/
theorem peer_covered_iff {d : DataPlane β} {topic : Topic} {msg : WsMessage Json}
    (htopic : Topic.ofText msg.typ = some topic) (hconnect : topic ≠ .connect)
    (herror : topic ≠ .error) (hterminate : topic ≠ .terminate) :
    client.RoutesCovered w (some d) msg ↔
      ∀ c ∈ (client.handlePeerMessage w.logged d.logging topic msg.data).1.backend.2,
        (client.handlePeerMessage w d topic msg.data).1.router.Routes c := by
  cases topic <;> simp_all [RoutesCovered, routesPassed, handleMessage]

/-- The messages that pass no ranges. -/
theorem handlePeerMessage_backend {topic : Topic}
    (hquiet : topic ∈ [.error, .terminate, .peerRemove, .peerRelay, .peerUnrelay, .peerDataRemove])
    (d : DataPlane β) (data : Json) :
    (client.handlePeerMessage w d topic data).1.backend = d.backend := by
  have hredirect (payload : Option PeerEndpoint) :
      (redirectPeer w d payload).backend = d.backend := by
    cases payload with
    | none => rfl
    | some r =>
        simp only [redirectPeer]
        cases w.resolve 0 r.endpoint <;> rfl
  simp only [List.mem_cons, List.not_mem_nil, or_false] at hquiet
  rcases hquiet with rfl | rfl | rfl | rfl | rfl | rfl
  · rfl
  · rfl
  · simp only [handlePeerMessage]
    cases client.serde.peerRemove data <;> rfl
  · exact hredirect _
  · exact hredirect _
  · simp only [handlePeerMessage]
    cases client.serde.peerData data <;> rfl

theorem upsert_covered_iff {d : DataPlane β} (hunique : d.router.UniqueSites) (site : SiteConfig) :
    (∀ c ∈ (client.upsertSite w.logged 0 d.logging site).1.backend.2,
      (client.upsertSite w 0 d site).1.router.Routes c) ↔
      client.SitesKept w d.router.peers [site] := by
  have htable : (client.upsertSite w 0 d site).1.router.table =
      client.changeSites w 0 [site] d.router.table := client.upsertSite_table w 0 d site
  rw [upsertSite_routes,
    ← client.sites_covered_iff w hunique (client.upsertSite_unique w 0 hunique site) htable]
  simp [sitesRoutes, DataPlane.logging]

theorem sync_covered_iff {d : DataPlane β} (hunique : d.router.UniqueSites)
    (sites : List SiteConfig) :
    (∀ c ∈ (client.syncSites w.logged 0 d.logging sites).1.backend.2,
      (client.syncSites w 0 d sites).1.router.Routes c) ↔
      client.SitesKept w d.router.peers (client.processed w 0 sites) := by
  rw [syncSites_routes, ← client.sites_covered_iff w hunique
    (client.syncSites_unique w hunique sites) (client.syncSites_changes w 0 d sites)]
  simp [DataPlane.logging]

/-- For any data plane with one peer per site, handling a message leaves no route
without a peer exactly under the condition. -/
theorem routesCovered_iff {dp : Option (DataPlane β)}
    (hunique : ∀ d ∈ dp, d.router.UniqueSites) (msg : WsMessage Json) :
    client.RoutesCovered w dp msg ↔ client.RoutesKept w dp msg := by
  cases htopic : Topic.ofText msg.typ with
  | none => simp [RoutesCovered, RoutesKept, routesPassed, htopic]
  | some topic =>
      by_cases hconnect : topic = .connect
      · subst hconnect
        rw [client.connect_covered_iff w dp htopic]
        simp only [RoutesKept, htopic]
      cases dp with
      | none => cases topic <;> simp_all [RoutesCovered, RoutesKept, routesPassed]
      | some d =>
          have hd := hunique d rfl
          by_cases hquiet : topic ∈
              [.error, .terminate, .peerRemove, .peerRelay, .peerUnrelay, .peerDataRemove]
          · have hlog := client.handlePeerMessage_backend w.logged hquiet d.logging msg.data
            cases topic <;> simp_all [RoutesCovered, RoutesKept, routesPassed, DataPlane.logging]
          cases topic with
          | connect => exact absurd rfl hconnect
          | error | terminate | peerRemove | peerRelay | peerUnrelay | peerDataRemove =>
              exact absurd (by simp) hquiet
          | peerAdd | peerUpdate =>
              rw [client.peer_covered_iff w htopic (by simp) (by simp) (by simp)]
              simp only [RoutesKept, htopic, handlePeerMessage]
              cases client.serde.siteConfig msg.data with
              | none => simp [DataPlane.logging]
              | some site => simpa using client.upsert_covered_iff w hd site
          | peerDataAdd =>
              rw [client.peer_covered_iff w htopic (by simp) (by simp) (by simp)]
              simp only [RoutesKept, htopic, handlePeerMessage]
              cases client.serde.peerData msg.data with
              | none => simp [DataPlane.logging]
              | some r =>
                  simpa [DataPlane.logging, Surroundings.logged] using
                    addCidrs_routes_iff hd r.siteId (parseCidrs r.remoteSubnets)
          | sync =>
              rw [client.peer_covered_iff w htopic (by simp) (by simp) (by simp)]
              simp only [RoutesKept, htopic, handlePeerMessage]
              cases client.serde.syncData msg.data with
              | none => simp [DataPlane.logging]
              | some sites => simpa using client.sync_covered_iff w hd sites

/-- In every session, the messages leave no route without a peer exactly if each of
them meets the condition on the data plane it finds. -/
theorem session_covered_iff (steps : List (SessionStep (Surroundings β) Json β)) :
    client.AtMessages id steps client.RoutesCovered ↔
      client.AtMessages id steps client.RoutesKept :=
  atMessages_congr (fun w _ msg hreach => client.routesCovered_iff w hreach.unique msg) steps

/-- A session that connects one site and then gets a range for another one. -/
def strayRange : List (SessionStep (Surroundings Unit) (List SiteConfig) Unit) :=
  [.message quiet ⟨"olm/wg/connect", [site 7 "10.0.0.0/24"]⟩,
    .message quiet ⟨"olm/wg/peer/data/add", [site 8 "10.0.9.0/24"]⟩]

theorem strayRange_uncovered :
    (plain.session id strayRange).isSome = true ∧
      ¬ plain.AtMessages id strayRange plain.RoutesCovered := by
  refine ⟨rfl, ?_⟩
  intro hall
  have hcovered := hall [_] _ _ [] (some connected) rfl rfl
  obtain ⟨_, ⟨⟩, p, hp, hc⟩ := hcovered ⟨.v4 #v[10, 0, 9, 0], 24⟩ (by decide)
  have hkept : p.cidrs ∈ connected.router.peers.map Peer.cidrs := List.mem_map_of_mem hp
  have hranges : connected.router.peers.map Peer.cidrs = [[⟨.v4 #v[10, 0, 0, 0], 24⟩]] := rfl
  rw [hranges, List.mem_singleton] at hkept
  rw [hkept] at hc
  exact absurd hc (by decide)

end Client

end Newt.Olm
