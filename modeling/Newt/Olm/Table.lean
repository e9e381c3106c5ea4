import Mathlib.Data.Finset.Lattice.Lemmas
import Mathlib.Data.Finset.SDiff
import Newt.Olm.Message

/-! # The routing table as a map

What the peers of a router mean: a map from sites to an endpoint and a set of
ranges. Each message of the control plane about a peer is one change of this
map, and `handle_message` carries it out.
-/

namespace Newt.Olm

open Foundation Noise Wg

/-- What the client knows about a site. -/
structure Entry where
  endpoint : SocketAddr
  cidrs : Finset Cidr
  deriving DecidableEq

/-- A map from sites to their entries. -/
abbrev Table := Int → Option Entry

/-- A change of one site. -/
inductive Change where
  | keep
  | replace (site : Int) (entry : Entry)
  | remove (site : Int)
  | redirect (site : Int) (endpoint : SocketAddr)
  | addCidrs (site : Int) (cidrs : Finset Cidr)
  | removeCidrs (site : Int) (cidrs : Finset Cidr)

namespace Change

/-- The site that a change is about. -/
def site : Change → Option Int
  | .keep => none
  | .replace site _ | .remove site | .redirect site _ | .addCidrs site _ | .removeCidrs site _ =>
      some site

/-- The new entry of the site a change is about. -/
def entry (old : Option Entry) : Change → Option Entry
  | .keep => old
  | .replace _ entry => some entry
  | .remove _ => none
  | .redirect _ endpoint => old.map fun e => { e with endpoint := endpoint }
  | .addCidrs _ cidrs => old.map fun e => { e with cidrs := e.cidrs ∪ cidrs }
  | .removeCidrs _ cidrs => old.map fun e => { e with cidrs := e.cidrs \ cidrs }

/-- Carry out a change. No other site is touched. -/
def apply (change : Change) (table : Table) : Table :=
  match change.site with
  | none => table
  | some site => Function.update table site (change.entry (table site))

end Change

def Peer.entry (p : Peer) : Entry := ⟨p.endpoint, p.cidrs.toFinset⟩

namespace Router

/-- The router holds at most one peer per site. -/
def UniqueSites (router : Router) : Prop := Keyed.UniqueKeys Peer.siteId router.peers

/-- The map that the peers of a router stand for. -/
def table (router : Router) : Table := fun site =>
  (Keyed.table Peer.siteId router.peers site).map Peer.entry

theorem table_isSome_iff (router : Router) (site : Int) :
    (router.table site).isSome = true ↔ ∃ p ∈ router.peers, p.siteId = site := by
  rw [table, Option.isSome_map]
  cases hfound : Keyed.table Peer.siteId router.peers site with
  | none =>
      have hnone := Keyed.table_eq_none_iff.mp hfound
      simpa using hnone
  | some p =>
      have hp := Keyed.mem_of_table hfound
      exact iff_of_true rfl ⟨p, hp⟩

theorem table_of_mem {router : Router} (hunique : router.UniqueSites) {p : Peer}
    (hp : p ∈ router.peers) : router.table p.siteId = some p.entry := by
  rw [table, (Keyed.table_eq_some_iff hunique).mpr ⟨hp, rfl⟩]
  rfl

/-! ## The router operations as changes -/

theorem removePeer_unique {router : Router} (hunique : router.UniqueSites) (site : Int) :
    (router.removePeer site).UniqueSites :=
  Keyed.UniqueKeys.eraseKey hunique site

theorem modifyPeer_unique {router : Router} (hunique : router.UniqueSites) (site : Int)
    {f : Peer → Peer} (hf : ∀ p, (f p).siteId = p.siteId) :
    (router.modifyPeer site f).UniqueSites :=
  Keyed.UniqueKeys.modifyFirst hf hunique _

/-- A change of one peer in place is the corresponding change of its entry. -/
theorem modifyPeer_table (router : Router) {site : Int} {f : Peer → Peer} {change : Change}
    (hsite : change.site = some site) (hf : ∀ p, (f p).siteId = p.siteId)
    (hentry : ∀ old : Option Peer, (old.map f).map Peer.entry =
      change.entry (old.map Peer.entry)) :
    (router.modifyPeer site f).table = change.apply router.table := by
  funext other
  simp only [table, modifyPeer, Change.apply, hsite, Function.update_apply]
  rw [Keyed.table_modifyFirst hf, Function.update_apply]
  split
  · exact hentry _
  · rfl

theorem addCidrs_table (router : Router) (site : Int) (cidrs : List Cidr) :
    (router.addCidrs site cidrs).table =
      (Change.addCidrs site cidrs.toFinset).apply router.table := by
  unfold addCidrs
  refine modifyPeer_table router rfl ?_ ?_
  · exact fun _ => rfl
  intro old
  cases old with
  | none => rfl
  | some p => simp [Change.entry, Peer.entry, List.toFinset_append]

theorem removeCidrs_table (router : Router) (site : Int) (drop : List Cidr) :
    (router.removeCidrs site drop).table =
      (Change.removeCidrs site drop.toFinset).apply router.table := by
  unfold removeCidrs
  refine modifyPeer_table router rfl ?_ ?_
  · exact fun _ => rfl
  intro old
  cases old with
  | none => rfl
  | some p =>
      simp only [Option.map_some, Peer.entry, Change.entry, Option.some.injEq, Entry.mk.injEq,
        true_and]
      ext c
      simp only [List.mem_toFinset, List.mem_filter, Finset.mem_sdiff, Bool.not_eq_true',
        List.any_eq_false, sameCidr_iff]
      refine and_congr_right fun _ => ⟨fun hdrop hc => hdrop c hc rfl, ?_⟩
      rintro hc d hd rfl
      exact hc hd

/-- A key that decodes replaces the site's entry, and any other key keeps it. -/
theorem upsertPeer_table (P : Primitives) (decode : String → Except String Bytes) (m : Moment)
    (durationAtStart : Nat) (router : Router) (site : Int) (key : String)
    (endpoint : SocketAddr) (cidrs : List Cidr) :
    (router.upsertPeer P decode m durationAtStart site key endpoint cidrs).1.table =
      (if (publicFromB64 decode key).isOk then Change.replace site ⟨endpoint, cidrs.toFinset⟩
        else Change.keep).apply router.table := by
  unfold upsertPeer
  cases publicFromB64 decode key with
  | error e => rfl
  | ok peerPub =>
      have hfresh : Keyed.table Peer.siteId (router.removePeer site).peers site = none := by
        simp [removePeer, Keyed.table_eraseKey]
      funext other
      simp only [table, Except.isOk, Except.toBool, ↓reduceIte, Change.apply, Change.site,
        Change.entry]
      rw [Keyed.table_push hfresh]
      simp only [removePeer, Keyed.table_eraseKey, Function.update_apply]
      split
      · rfl
      · rfl

theorem upsertPeer_unique (P : Primitives) (decode : String → Except String Bytes) (m : Moment)
    (durationAtStart : Nat) {router : Router} (hunique : router.UniqueSites) (site : Int)
    (key : String) (endpoint : SocketAddr) (cidrs : List Cidr) :
    (router.upsertPeer P decode m durationAtStart site key endpoint cidrs).1.UniqueSites := by
  unfold upsertPeer
  cases publicFromB64 decode key with
  | error e => exact hunique
  | ok peerPub =>
      refine (removePeer_unique hunique site).push ?_
      simp [removePeer, Keyed.table_eraseKey]

end Router

end Newt.Olm
