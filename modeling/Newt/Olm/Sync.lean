import Newt.Olm.Refinement

/-! # Synchronisation of the peer set

`olm/sync` carries the authoritative peer set. The handler upserts every site of
the message and removes none, so a sync is authoritative exactly when the
message names every site that the router already has.
-/

namespace Newt.Olm

open Foundation Noise Wg

namespace Client

variable {Json β : Type} (client : Client Json) (w : Surroundings β)

/-- The site can be set up: its key is there and decodes, and its endpoint
resolves. -/
def Usable (k : Nat) (site : SiteConfig) : Prop :=
  site.publicKey ≠ "" ∧ (publicFromB64 client.decode site.publicKey).isOk = true ∧
    (w.resolve k site.wgEndpoint).isSome = true

/-- The entry that the last mention of a site in the message asks for. The sites
are numbered from `k` on. -/
def lastEntry : Nat → List SiteConfig → Int → Option Entry
  | _, [], _ => none
  | k, site :: rest, siteId =>
      (lastEntry (k + 1) rest siteId).or
        (if site.siteId = siteId then
          (w.resolve k site.wgEndpoint).map fun ep =>
            ⟨ep, (parseCidrs site.routedCidrs).toFinset⟩
        else none)

/-- The data plane holds exactly the peers of the message, each as its last
mention says, and routes nothing to other sites. -/
structure Authoritative (sites : List SiteConfig) (next : DataPlane β) : Prop where
  peers : ∀ siteId, (∃ p ∈ next.router.peers, p.siteId = siteId) ↔
    siteId ∈ sites.map SiteConfig.siteId
  entries : ∀ p ∈ next.router.peers, ∀ k site, sites[k]? = some site → site.siteId = p.siteId →
    (∀ j later, k < j → sites[j]? = some later → later.siteId ≠ p.siteId) →
    w.resolve k site.wgEndpoint = some p.endpoint ∧
      p.cidrs.toFinset = (parseCidrs site.routedCidrs).toFinset
  routes : ∀ dst i p, next.router.bestPeer dst = some i → next.router.peers[i]? = some p →
    p.siteId ∈ sites.map SiteConfig.siteId

/-! ## The last mention of a site -/

theorem lastEntry_isSome {k : Nat} {sites : List SiteConfig}
    (husable : ∀ j site, sites[j]? = some site → client.Usable w (k + j) site) (siteId : Int) :
    (lastEntry w k sites siteId).isSome = true ↔ siteId ∈ sites.map SiteConfig.siteId := by
  induction sites generalizing k with
  | nil => simp [lastEntry]
  | cons site rest ih =>
      have hrest : ∀ j later, rest[j]? = some later → client.Usable w (k + 1 + j) later := by
        intro j later hlater
        have hj := husable (j + 1) later (by simpa using hlater)
        rwa [Nat.add_assoc, Nat.add_comm 1 j]
      obtain ⟨_, _, hresolve⟩ := husable 0 site rfl
      rw [lastEntry, Option.isSome_or, Bool.or_eq_true, ih hrest, List.map_cons, List.mem_cons]
      by_cases hsite : site.siteId = siteId
      · simp [hsite, show (w.resolve k site.wgEndpoint).isSome = true from hresolve]
      · simp [hsite, Ne.symm hsite]

theorem lastEntry_absent {k : Nat} {sites : List SiteConfig} {siteId : Int}
    (habsent : ∀ site ∈ sites, site.siteId ≠ siteId) : lastEntry w k sites siteId = none := by
  induction sites generalizing k with
  | nil => rfl
  | cons site rest ih =>
      have hrest := ih (k := k + 1) fun later hlater => habsent later (List.mem_cons_of_mem _ hlater)
      rw [lastEntry, hrest, if_neg (habsent site List.mem_cons_self), Option.or_none]

theorem lastEntry_last {k n : Nat} {sites : List SiteConfig} {site : SiteConfig} {ep : SocketAddr}
    (hsite : sites[n]? = some site) (hresolve : w.resolve (k + n) site.wgEndpoint = some ep)
    (hlast : ∀ j (later : SiteConfig), n < j → sites[j]? = some later →
      later.siteId ≠ site.siteId) :
    lastEntry w k sites site.siteId = some ⟨ep, (parseCidrs site.routedCidrs).toFinset⟩ := by
  induction sites generalizing k n with
  | nil => cases hsite
  | cons first rest ih =>
      cases n with
      | zero =>
          rw [List.getElem?_cons_zero, Option.some.injEq] at hsite
          subst hsite
          have hrest : ∀ later ∈ rest, later.siteId ≠ first.siteId := by
            intro later hlater
            obtain ⟨j, hj⟩ := List.mem_iff_getElem?.mp hlater
            exact hlast (j + 1) later (Nat.succ_pos j) hj
          rw [Nat.add_zero] at hresolve
          rw [lastEntry, lastEntry_absent w hrest, if_pos rfl, hresolve]
          rfl
      | succ n =>
          have hrest : ∀ j (later : SiteConfig), n < j → rest[j]? = some later →
              later.siteId ≠ site.siteId := by
            intro j later hj hlater
            exact hlast (j + 1) later (Nat.succ_lt_succ hj) hlater
          have hshift : w.resolve (k + 1 + n) site.wgEndpoint = some ep := by
            rwa [Nat.add_assoc, Nat.add_comm 1 n]
          rw [lastEntry, ih hsite hshift hrest, Option.some_or]

/-! ## The loop of the handler -/

/-- When all sites are usable and all sends succeed, the message overrides the
entries of its sites and leaves the others. -/
theorem syncSites_table {k : Nat} {d next : DataPlane β} {sites : List SiteConfig}
    (husable : ∀ j site, sites[j]? = some site → client.Usable w (k + j) site)
    (hsync : client.syncSites w k d sites = (next, .ok ())) :
    next.router.table = fun siteId => (lastEntry w k sites siteId).or (d.router.table siteId) := by
  induction sites generalizing k d with
  | nil =>
      cases hsync
      rfl
  | cons site rest ih =>
      have hrest : ∀ j later, rest[j]? = some later → client.Usable w (k + 1 + j) later := by
        intro j later hlater
        have hj := husable (j + 1) later (by simpa using hlater)
        rwa [Nat.add_assoc, Nat.add_comm 1 j]
      simp only [syncSites] at hsync
      split at hsync
      · cases hsync
      · -- the first site is overridden by a later one with the same id, hence `or` in this order
        have htable := client.upsertSite_table w k d site
        obtain ⟨hkey, hdecodes, hresolves⟩ := husable 0 site rfl
        obtain ⟨ep, hep⟩ := Option.isSome_iff_exists.mp hresolves
        have hchange : client.siteChange w k site =
            .replace site.siteId ⟨ep, (parseCidrs site.routedCidrs).toFinset⟩ := by
          rw [siteChange, if_neg hkey]
          rw [Nat.add_zero] at hep
          simp only [hep, hdecodes, ↓reduceIte]
        rw [ih hrest hsync, htable, hchange]
        funext siteId
        rw [Nat.add_zero] at hep
        rw [lastEntry, hep, Option.or_assoc]
        congr 1
        simp only [Change.apply, Change.site, Change.entry, Function.update_apply, Option.map_some]
        by_cases hsite : site.siteId = siteId
        · simp [hsite]
        · simp [hsite, Ne.symm hsite]

theorem handleMessage_sync {d next : DataPlane β} {msg : WsMessage Json} {sites : List SiteConfig}
    (htopic : Topic.ofText msg.typ = some .sync)
    (hdata : client.serde.syncData msg.data = some sites)
    (hhandled : client.handleMessage w (some d) msg = (some next, .ok false)) :
    client.syncSites w 0 d sites = (next, .ok ()) := by
  simp only [handleMessage, htopic, handlePeerMessage, hdata, Prod.mk.injEq,
    Option.some.injEq] at hhandled
  obtain ⟨hnext, hresult⟩ := hhandled
  refine Prod.ext hnext ?_
  cases hloop : (client.syncSites w 0 d sites).2 with
  | error e =>
      rw [hloop] at hresult
      cases hresult
  | ok _ => rfl

/-- For every data plane that a session can reach and every sync message with
usable sites that is handled without an error: the data plane afterwards is what
the message says if and only if the message names every site that was there. -/
theorem sync_authoritative_iff {d next : DataPlane β} (hreach : client.Reachable (some d))
    {msg : WsMessage Json} {sites : List SiteConfig}
    (htopic : Topic.ofText msg.typ = some .sync)
    (hdata : client.serde.syncData msg.data = some sites)
    (husable : ∀ k site, sites[k]? = some site → client.Usable w k site)
    (hhandled : client.handleMessage w (some d) msg = (some next, .ok false)) :
    Authoritative w sites next ↔
      ∀ p ∈ d.router.peers, p.siteId ∈ sites.map SiteConfig.siteId := by
  have husable' : ∀ k site, sites[k]? = some site → client.Usable w (0 + k) site := by
    intro k site hsite
    rw [Nat.zero_add]
    exact husable k site hsite
  have htable :=
    client.syncSites_table w husable' (client.handleMessage_sync w htopic hdata hhandled)
  have hpresent : ∀ siteId, (∃ p ∈ next.router.peers, p.siteId = siteId) ↔
      siteId ∈ sites.map SiteConfig.siteId ∨ ∃ p ∈ d.router.peers, p.siteId = siteId := by
    intro siteId
    rw [← Router.table_isSome_iff, htable, Option.isSome_or, Bool.or_eq_true,
      client.lastEntry_isSome w husable', Router.table_isSome_iff]
  constructor
  · -- the handler removes no site, so each old one has to be among those of the message
    intro hauth p hp
    exact (hauth.peers p.siteId).mp ((hpresent p.siteId).mpr (.inr ⟨p, hp, rfl⟩))
  · intro hnamed
    have hpeers : ∀ siteId, (∃ p ∈ next.router.peers, p.siteId = siteId) ↔
        siteId ∈ sites.map SiteConfig.siteId := by
      intro siteId
      rw [hpresent]
      refine ⟨?_, .inl⟩
      rintro (hsite | ⟨p, hp, rfl⟩)
      · exact hsite
      · exact hnamed p hp
    have hunique : next.router.UniqueSites := by
      have hkept := client.handleMessage_unique w hreach.unique msg
      rw [hhandled] at hkept
      exact hkept next rfl
    refine ⟨hpeers, ?_, ?_⟩
    · intro p hp k site hsite hsame hlast
      obtain ⟨_, _, hresolves⟩ := husable k site hsite
      obtain ⟨ep, hep⟩ := Option.isSome_iff_exists.mp hresolves
      have hshift : w.resolve (0 + k) site.wgEndpoint = some ep := by rwa [Nat.zero_add]
      have hmention := lastEntry_last w hsite hshift (hsame ▸ hlast)
      have hentry := Router.table_of_mem hunique hp
      rw [htable, ← hsame] at hentry
      simp only [hmention, Option.some_or, Option.some.injEq, Peer.entry, Entry.mk.injEq] at hentry
      rw [hep, hentry.1, hentry.2]
      exact ⟨rfl, rfl⟩
    · intro dst i p _ hp
      exact (hpeers p.siteId).mp ⟨p, List.mem_of_getElem? hp, rfl⟩

/-! ## A site that is no longer announced -/

/-- The plane after a sync that names the given sites. -/
def synced (sites : List SiteConfig) : DataPlane Unit := (plain.syncSites quiet 0 connected sites).1

theorem usable_site (k : Nat) {sites : List SiteConfig} {config : SiteConfig}
    (hsites : ∀ s ∈ sites, s.publicKey = "key") (hconfig : sites[k]? = some config) :
    plain.Usable quiet k config := by
  have hkey := hsites config (List.mem_of_getElem? hconfig)
  refine ⟨?_, rfl, rfl⟩
  rw [hkey]
  decide

def syncMessage (sites : List SiteConfig) : WsMessage (List SiteConfig) := ⟨"olm/sync", sites⟩

theorem ofText_syncMessage (sites : List SiteConfig) :
    Topic.ofText (syncMessage sites).typ = some .sync := by
  have htext : Topic.ofText "olm/sync" = some .sync := by decide
  exact htext

theorem sync_authoritative_same_site :
    Authoritative quiet [site 7 "10.0.2.0/24"] (synced [site 7 "10.0.2.0/24"]) := by
  have husable : ∀ k config, [site 7 "10.0.2.0/24"][k]? = some config →
      plain.Usable quiet k config := by
    intro k config hconfig
    exact usable_site k (by simp [site]) hconfig
  have hhandled : plain.handleMessage quiet (some connected)
      (syncMessage [site 7 "10.0.2.0/24"]) = (some (synced [site 7 "10.0.2.0/24"]), .ok false) := rfl
  apply (plain.sync_authoritative_iff quiet connected_reachable (ofText_syncMessage _) rfl husable
    hhandled).mpr
  intro p hp
  have hids : connected.router.peers.map Peer.siteId = [7] := rfl
  have hid : p.siteId ∈ connected.router.peers.map Peer.siteId := List.mem_map_of_mem hp
  rw [hids] at hid
  exact hid

/-- Site 7 is connected and a sync names only site 8. Site 7 stays, and its
subnet is still routed to it. -/
theorem sync_keeps_absent_site :
    plain.Reachable (some connected) ∧
      plain.handleMessage quiet (some connected) (syncMessage [site 8 "10.0.9.0/24"]) =
        (some (synced [site 8 "10.0.9.0/24"]), .ok false) ∧
      (∀ k config, [site 8 "10.0.9.0/24"][k]? = some config → plain.Usable quiet k config) ∧
      (synced [site 8 "10.0.9.0/24"]).router.bestPeer (.v4 #v[10, 0, 0, 1]) = some 0 ∧
      (synced [site 8 "10.0.9.0/24"]).router.peers.map Peer.siteId = [7, 8] ∧
      ¬ Authoritative quiet [site 8 "10.0.9.0/24"] (synced [site 8 "10.0.9.0/24"]) := by
  have hids : (synced [site 8 "10.0.9.0/24"]).router.peers.map Peer.siteId = [7, 8] := rfl
  refine ⟨connected_reachable, rfl, ?_, by decide, hids, ?_⟩
  · intro k config hconfig
    exact usable_site k (by simp [site]) hconfig
  · intro hauth
    have hseven : (7 : Int) ∈ (synced [site 8 "10.0.9.0/24"]).router.peers.map Peer.siteId := by
      rw [hids]
      exact List.mem_cons_self
    have hnamed := (hauth.peers 7).mp (List.mem_map.mp hseven)
    simp [site] at hnamed

end Client

end Newt.Olm
