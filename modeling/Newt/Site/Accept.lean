import Newt.Site.Ownership

/-! # Accepting connections

`accept_new` collects the positions of the active listeners first and then takes
them out of the vector one by one, from the back. A listener that is taken out
leaves a hole that the last entry fills, and its replacement is appended. The
positions that are still to come are smaller, so they keep their entries, and
every connection is bridged to the destination of the entry that accepted it.
-/

namespace Newt.Site

open Foundation Keyed Stack Proxy

variable {σ : Type} (alloc : Allocator) (api : TcpApi σ)

/-- The new socket listens behind a handle that was not live, and no other socket
changes. -/
theorem addListener_fresh (sockets : SocketSet σ) (port : UInt16) :
    ∃ next handle, addListener alloc api sockets port = .ok (next, handle) ∧
      handle ∉ sockets.handles ∧
      next.live.get? = Function.update sockets.live.get? handle
        (some (api.listen port api.new)) := by
  have hget : (sockets.add alloc api.new).1.get (sockets.add alloc api.new).2 = .ok api.new := by
    simp only [SocketSet.get, SocketSet.add, Assoc.get?_insert, Function.update_self]
  refine ⟨_, _, bind_eq_ok_iff.mpr ⟨api.new, hget, rfl⟩, alloc.fresh _ _, ?_⟩
  simp only [SocketSet.put, Assoc.get?_modify, Assoc.get?_insert, Function.update_self,
    Option.map_some, Function.update_idem]

namespace DataPlane

/-- The socket of a listener has a connection. -/
def Active (d : DataPlane σ) (l : Listener) : Prop :=
  ∃ s, d.sockets.get l.handle = .ok s ∧ api.isActive s = true

variable {d : DataPlane σ}

/-- The positions found are those of the active listeners that have no bridge. -/
theorem mem_promotedFrom_iff {i : Nat} {ls : List Listener} {found : List (Nat × UInt16)}
    (hfound : d.promotedFrom api i ls = .ok found) (p : Nat × UInt16) :
    p ∈ found ↔ ∃ l, i ≤ p.1 ∧ ls[p.1 - i]? = some l ∧ p.2 = l.port ∧ d.Active api l ∧
      d.conns.get? l.handle = none := by
  induction ls generalizing i found with
  | nil =>
      cases hfound
      simp
  | cons l rest ih =>
      obtain ⟨s, hs, hrest⟩ := bind_eq_ok_iff.mp hfound
      obtain ⟨later, hlater, hreturn⟩ := bind_eq_ok_iff.mp hrest
      have hactive : d.Active api l ↔ api.isActive s = true := by
        simp [Active, hs]
      have htail := ih hlater
      -- a position is that of the first listener, or one of the later ones
      have hplace : (∃ l', i ≤ p.1 ∧ (l :: rest)[p.1 - i]? = some l' ∧ p.2 = l'.port ∧
            d.Active api l' ∧ d.conns.get? l'.handle = none) ↔
          (p = (i, l.port) ∧ d.Active api l ∧ d.conns.get? l.handle = none) ∨ p ∈ later := by
        rw [htail]
        constructor
        · rintro ⟨l', hle, hl', hport, hconn⟩
          rcases Nat.eq_or_lt_of_le hle with rfl | hlt
          · rw [Nat.sub_self, List.getElem?_cons_zero] at hl'
            cases hl'
            exact .inl ⟨Prod.ext rfl hport, hconn⟩
          · rw [show p.1 - i = p.1 - (i + 1) + 1 by omega, List.getElem?_cons_succ] at hl'
            exact .inr ⟨l', hlt, hl', hport, hconn⟩
        · rintro (⟨rfl, hconn⟩ | ⟨l', hlt, hl', hport, hconn⟩)
          · exact ⟨l, Nat.le_refl i, by simp, rfl, hconn⟩
          · refine ⟨l', Nat.le_of_succ_le hlt, ?_, hport, hconn⟩
            rw [show p.1 - i = p.1 - (i + 1) + 1 by omega, List.getElem?_cons_succ]
            exact hl'
      rw [hplace, hactive]
      cases hreturn
      split
      · next hnew => simp [hnew]
      · next hold => simp [hold]

/-- The listener with the handle that replaces its own, if there is one. -/
def renew (moved : Handle → Option Handle) (l : Listener) : Listener :=
  { l with handle := (moved l.handle).getD l.handle }

/-- The state of the second loop of `accept_new` on `d`: `moved` has the handles of
the listeners promoted so far with those of their replacements, and the positions
in `todo` are still to come. -/
structure Promoting (d : DataPlane σ) (moved : Handle → Option Handle) (todo : List (Nat × UInt16))
    (now : DataPlane σ) : Prop where
  places : ∀ p ∈ todo, now.listeners[p.1]? = d.listeners[p.1]?
  table : now.listeners.Perm (d.listeners.map (renew moved))
  moved_iff : ∀ l ∈ d.listeners, moved l.handle ≠ none ↔
    d.Active api l ∧ ∀ p ∈ todo, d.listeners[p.1]? ≠ some l
  origin : ∀ h, moved h ≠ none → ∃ l ∈ d.listeners, l.handle = h
  bridged : ∀ l ∈ d.listeners, moved l.handle ≠ none →
    now.conns.get? l.handle = some (Bridge.new (spawnTcp l.target))
  others : ∀ h, moved h = none → now.conns.get? h = d.conns.get? h
  fresh : ∀ l ∈ d.listeners, ∀ h, moved l.handle = some h →
    h ∉ d.sockets.handles ∧ now.sockets.live.get? h = some (api.listen l.port api.new)
  distinct : ∀ h h' new, moved h = some new → moved h' = some new → h = h'
  kept : ∀ h ∈ d.sockets.handles, now.sockets.live.get? h = d.sockets.live.get? h

/-- Nothing is promoted yet. -/
theorem promoting_start {todo : List (Nat × UInt16)}
    (htodo : ∀ l ∈ d.listeners, d.Active api l → ∃ p ∈ todo, d.listeners[p.1]? = some l) :
    Promoting api d (fun _ => none) todo d where
  places _ _ := rfl
  table := by rw [show renew (fun _ => none) = id from rfl, List.map_id]
  moved_iff l hl := by
    simp only [ne_eq, not_true, false_iff, not_and]
    intro hactive hnone
    obtain ⟨p, hp, hat⟩ := htodo l hl hactive
    exact hnone p hp hat
  origin h hmoved := absurd rfl hmoved
  bridged l _ hmoved := absurd rfl hmoved
  others _ _ := rfl
  fresh l _ h hmoved := by cases hmoved
  distinct h _ _ hmoved := by cases hmoved
  kept _ _ := rfl

section Step

variable {moved : Handle → Option Handle} {p : Nat × UInt16} {todo : List (Nat × UInt16)}
  {now : DataPlane σ}

theorem renew_of_none {l : Listener} (hnone : moved l.handle = none) : renew moved l = l := by
  rw [renew, hnone]
  rfl

theorem renew_update_of_ne {l : Listener} {h : Handle} (hne : l.handle ≠ h) (new : Option Handle) :
    renew (Function.update moved h new) l = renew moved l := by
  rw [renew, renew, Function.update_of_ne hne]

variable {api}

/-- The handle of a replacement is live. -/
theorem Promoting.live_of_moved (hinv : Promoting api d moved todo now) {h new : Handle}
    (hmoved : moved h = some new) : new ∈ now.sockets.handles := by
  obtain ⟨l, hl, rfl⟩ := hinv.origin h (by simp [hmoved])
  apply (now.sockets.live.get?_isSome_iff new).mp
  rw [(hinv.fresh l hl new hmoved).2]
  rfl

/-- The sockets that were there at the start are still live. -/
theorem Promoting.live_of_start (hinv : Promoting api d moved todo now) {h : Handle}
    (hh : h ∈ d.sockets.handles) : h ∈ now.sockets.handles := by
  apply (now.sockets.live.get?_isSome_iff h).mp
  rw [hinv.kept h hh]
  exact (d.sockets.live.get?_isSome_iff h).mpr hh

variable (api)

/-- Taking a listener out and adding its replacement renews its entry. -/
theorem perm_renewed (hnodup : UniqueKeys Listener.handle d.listeners)
    {listeners rest : List Listener} (htable : listeners.Perm (d.listeners.map (renew moved)))
    {l : Listener} (hl : l ∈ d.listeners) (hunmoved : moved l.handle = none)
    (htake : listeners.Perm (l :: rest)) (handle : Handle) :
    (rest ++ [{ l with handle := handle }]).Perm
      (d.listeners.map (renew (Function.update moved l.handle (some handle)))) := by
  obtain ⟨others, hothers⟩ : ∃ others, d.listeners.Perm (l :: others) :=
    ⟨_, List.perm_cons_erase hl⟩
  have hne : ∀ l' ∈ others, l'.handle ≠ l.handle := by
    intro l' hl' heq
    exact (hnodup.of_perm_cons hothers).1 (heq ▸ List.mem_map_of_mem hl')
  have hrest : rest.Perm (others.map (renew moved)) := by
    have hall := htake.symm.trans (htable.trans (hothers.map _))
    rw [List.map_cons, renew_of_none hunmoved] at hall
    exact hall.cons_inv
  have hsame : others.map (renew (Function.update moved l.handle (some handle))) =
      others.map (renew moved) :=
    List.map_congr_left fun l' hl' => renew_update_of_ne (hne l' hl') _
  refine List.Perm.trans ?_ (hothers.map _).symm
  rw [List.map_cons, hsame, renew, Function.update_self]
  exact (List.perm_append_singleton _ _).trans (hrest.cons _)

/-- What one promotion does: the entry makes room for its replacement, the bridge and
the new socket are added, and the places before the entry stay as they are. -/
theorem promote_spec {l : Listener} (hl : now.listeners[p.1]? = some l) :
    ∃ next rest handle, now.promote alloc api p = .ok next ∧
      now.listeners.Perm (l :: rest) ∧ next.listeners = rest ++ [⟨p.2, l.target, handle⟩] ∧
      (∀ i < p.1, next.listeners[i]? = now.listeners[i]?) ∧
      next.conns.get? = Function.update now.conns.get? l.handle
        (some (Bridge.new (spawnTcp l.target))) ∧
      handle ∉ now.sockets.handles ∧
      next.sockets.live.get? = Function.update now.sockets.live.get? handle
        (some (api.listen p.2 api.new)) := by
  obtain ⟨hlt, -⟩ := List.getElem?_eq_some_iff.mp hl
  obtain ⟨found, rest, hat, hremove⟩ := removeAt_of_lt hlt
  obtain ⟨hfirst, htake, hbefore⟩ := swapRemove_some hremove
  obtain rfl : l = found := Option.some.inj (hl.symm.trans hfirst)
  obtain ⟨sockets, handle, hadd, hunused, hsockets⟩ := addListener_fresh alloc api now.sockets p.2
  refine ⟨_, rest, handle, bind_eq_ok_iff.mpr ⟨_, hat, bind_eq_ok_iff.mpr ⟨_, hadd, rfl⟩⟩,
    htake, rfl, ?_, now.conns.get?_insert _ _, hunused, hsockets⟩
  intro i hi
  have hlength := htake.length_eq
  rw [List.length_cons] at hlength
  rw [List.getElem?_append_left (by omega), hbefore i hi]

/-- The handles of the replacements stay different when a new one is recorded. -/
theorem Promoting.distinct_update (hinv : Promoting api d moved todo now) {handle : Handle}
    (hunused : handle ∉ now.sockets.handles) (key : Handle) :
    ∀ h h' new, Function.update moved key (some handle) h = some new →
      Function.update moved key (some handle) h' = some new → h = h' := by
  intro h h' new hh hh'
  -- the handle of an earlier replacement is live, so it is not the new one
  have hold : ∀ h, moved h ≠ some handle := fun h hmoved => hunused (hinv.live_of_moved hmoved)
  simp only [Function.update_apply] at hh hh'
  split_ifs at hh hh' with heq heq'
  · rw [heq, heq']
  · rw [← hh] at hh'
    exact absurd hh' (hold h')
  · rw [← hh'] at hh
    exact absurd hh (hold h)
  · exact hinv.distinct h h' new hh hh'

section Entry

variable (hnodup : UniqueKeys Listener.handle d.listeners) {l : Listener} (hmem : l ∈ d.listeners)
include hnodup hmem

theorem handle_ne_of_ne {l' : Listener} (hl' : l' ∈ d.listeners) (hne : l' ≠ l) :
    l'.handle ≠ l.handle := fun heq => hne (hnodup.eq_of_key hl' hmem heq)

/-- The bridges after one more connection. -/
theorem Promoting.conns_update (hinv : Promoting api d moved todo now) {next : DataPlane σ}
    (hconns : next.conns.get? = Function.update now.conns.get? l.handle
      (some (Bridge.new (spawnTcp l.target)))) (handle : Handle) :
    (∀ l' ∈ d.listeners, Function.update moved l.handle (some handle) l'.handle ≠ none →
      next.conns.get? l'.handle = some (Bridge.new (spawnTcp l'.target))) ∧
    ∀ h, Function.update moved l.handle (some handle) h = none →
      next.conns.get? h = d.conns.get? h := by
  rw [hconns]
  constructor
  · intro l' hl' hmoved
    by_cases heq : l' = l
    · rw [heq, Function.update_self]
    · have hne := handle_ne_of_ne hnodup hmem hl' heq
      rw [Function.update_of_ne hne] at hmoved ⊢
      exact hinv.bridged l' hl' hmoved
  · intro h hmoved
    have hne : h ≠ l.handle := by
      rintro rfl
      simp at hmoved
    rw [Function.update_of_ne hne] at hmoved ⊢
    exact hinv.others h hmoved

/-- The sockets after one more listener. -/
theorem Promoting.sockets_update (hinv : Promoting api d moved todo now) {next : DataPlane σ}
    {handle : Handle} (hunused : handle ∉ now.sockets.handles)
    (hsockets : next.sockets.live.get? = Function.update now.sockets.live.get? handle
      (some (api.listen l.port api.new))) :
    (∀ l' ∈ d.listeners, ∀ h, Function.update moved l.handle (some handle) l'.handle = some h →
      h ∉ d.sockets.handles ∧
        next.sockets.live.get? h = some (api.listen l'.port api.new)) ∧
    ∀ h ∈ d.sockets.handles, next.sockets.live.get? h = d.sockets.live.get? h := by
  rw [hsockets]
  constructor
  · intro l' hl' h hmoved
    by_cases heq : l' = l
    · rw [heq, Function.update_self, Option.some.injEq] at hmoved
      subst hmoved
      rw [Function.update_self, heq]
      exact ⟨fun hstart => hunused (hinv.live_of_start hstart), rfl⟩
    · rw [Function.update_of_ne (handle_ne_of_ne hnodup hmem hl' heq)] at hmoved
      have hne : h ≠ handle := by
        rintro rfl
        exact hunused (hinv.live_of_moved hmoved)
      rw [Function.update_of_ne hne]
      exact hinv.fresh l' hl' h hmoved
  · intro h hstart
    have hne : h ≠ handle := by
      rintro rfl
      exact hunused (hinv.live_of_start hstart)
    rw [Function.update_of_ne hne]
    exact hinv.kept h hstart

end Entry

/-- One promotion: the entry at the position is the one that was found there, and
the table changes at this entry only. -/
theorem Promoting.step (hinv : Promoting api d moved (p :: todo) now)
    (hnodup : UniqueKeys Listener.handle d.listeners) (hlater : ∀ q ∈ todo, q.1 < p.1)
    {l : Listener} (hl : d.listeners[p.1]? = some l) (hport : p.2 = l.port)
    (hactive : d.Active api l) :
    ∃ next handle, now.promote alloc api p = .ok next ∧
      Promoting api d (Function.update moved l.handle (some handle)) todo next := by
  have hnow : now.listeners[p.1]? = some l := (hinv.places p List.mem_cons_self).trans hl
  obtain ⟨next, rest, handle, hpromote, htake, hlisteners, hbefore, hconns, hunused, hsockets⟩ :=
    promote_spec alloc api hnow
  have hmem := List.mem_of_getElem? hl
  have hplace : ∀ q ∈ todo, d.listeners[q.1]? ≠ some l := by
    intro q hq hat
    have hsame := (List.getElem?_inj (List.getElem?_eq_some_iff.mp hl).1
      (List.Nodup.of_map _ hnodup)).mp (hl.trans hat.symm)
    have hq := hlater q hq
    omega
  have hunmoved : moved l.handle = none := by
    by_contra hmoved
    exact ((hinv.moved_iff l hmem).mp hmoved).2 p List.mem_cons_self hl
  rw [hport] at hlisteners hsockets
  obtain ⟨hbridged, hothers⟩ := hinv.conns_update api hnodup hmem hconns handle
  obtain ⟨hfresh, hkept⟩ := hinv.sockets_update api hnodup hmem hunused hsockets
  refine ⟨next, handle, hpromote, ?_⟩
  exact
    { places := by
        intro q hq
        rw [hbefore q.1 (hlater q hq)]
        exact hinv.places q (List.mem_cons_of_mem _ hq)
      table := hlisteners ▸ perm_renewed hnodup hinv.table hmem hunmoved htake handle
      moved_iff := by
        intro l' hl'
        by_cases heq : l' = l
        · subst heq
          rw [Function.update_self]
          exact iff_of_true (by simp) ⟨hactive, hplace⟩
        · rw [Function.update_of_ne (handle_ne_of_ne hnodup hmem hl' heq),
            hinv.moved_iff l' hl', List.forall_mem_cons, hl]
          simp [Ne.symm heq]
      origin := by
        intro h hmoved
        by_cases heq : h = l.handle
        · exact ⟨l, hmem, heq.symm⟩
        · rw [Function.update_of_ne heq] at hmoved
          exact hinv.origin h hmoved
      bridged := hbridged
      others := hothers
      fresh := hfresh
      distinct := hinv.distinct_update api hunused l.handle
      kept := hkept }

/-- The whole second loop, from any state of it. -/
theorem Promoting.loop (hnodup : UniqueKeys Listener.handle d.listeners)
    (hinv : Promoting api d moved todo now) (hsorted : todo.Pairwise fun p q => q.1 < p.1)
    (htodo : ∀ p ∈ todo, ∃ l, d.listeners[p.1]? = some l ∧ p.2 = l.port ∧ d.Active api l) :
    ∃ next moved, todo.foldlM (promote alloc api) now = .ok next ∧
      Promoting api d moved [] next := by
  have hloop : ∃ next, todo.foldlM (promote alloc api) now = .ok next ∧
      ∃ moved, Promoting api d moved [] next ∧
        ([] : List (Nat × UInt16)).Pairwise (fun p q => q.1 < p.1) ∧
        ∀ p ∈ ([] : List (Nat × UInt16)),
          ∃ l, d.listeners[p.1]? = some l ∧ p.2 = l.port ∧ d.Active api l := by
    refine foldlM_total (fun (rest : List (Nat × UInt16)) (now : DataPlane σ) =>
      ∃ moved, Promoting api d moved rest now ∧ rest.Pairwise (fun p q => q.1 < p.1) ∧
        ∀ p ∈ rest, ∃ l, d.listeners[p.1]? = some l ∧ p.2 = l.port ∧ d.Active api l) ?_
      ⟨moved, hinv, hsorted, htodo⟩
    rintro p rest now ⟨moved, hinv, hsorted, htodo⟩
    obtain ⟨hlater, hrest⟩ := List.pairwise_cons.mp hsorted
    obtain ⟨⟨l, hl, hport, hactive⟩, htail⟩ := List.forall_mem_cons.mp htodo
    obtain ⟨next, handle, hnext, hstep⟩ := hinv.step alloc api hnodup hlater hl hport hactive
    exact ⟨next, hnext, _, hstep, hrest, htail⟩
  obtain ⟨next, hnext, moved, hdone, -⟩ := hloop
  exact ⟨next, moved, hnext, hdone⟩

/-- At the end of the loop, the promoted listeners are the active ones, and all
handles of the table are different. -/
theorem Promoting.finished (hinv : Promoting api d moved [] now)
    (hnodup : UniqueKeys Listener.handle d.listeners)
    (hlive : ∀ l ∈ d.listeners, l.handle ∈ d.sockets.handles) :
    (∀ l ∈ d.listeners, moved l.handle ≠ none ↔ d.Active api l) ∧
      (now.listeners.map Listener.handle).Nodup := by
  constructor
  · intro l hl
    simpa using hinv.moved_iff l hl
  · rw [(hinv.table.map Listener.handle).nodup_iff, List.map_map]
    apply List.Nodup.map_on _ (List.Nodup.of_map _ hnodup)
    intro l hl l' hl' heq
    apply hnodup.eq_of_key hl hl'
    simp only [Function.comp_apply, renew] at heq
    cases hmoved : moved l.handle with
    | none =>
        cases hmoved' : moved l'.handle with
        | none => simpa [hmoved, hmoved'] using heq
        | some new =>
            simp only [hmoved, hmoved', Option.getD_none, Option.getD_some] at heq
            exact absurd (heq ▸ hlive l hl) (hinv.fresh l' hl' new hmoved').1
    | some new =>
        cases hmoved' : moved l'.handle with
        | none =>
            simp only [hmoved, hmoved', Option.getD_none, Option.getD_some] at heq
            exact absurd (heq ▸ hlive l' hl') (hinv.fresh l hl new hmoved).1
        | some new' =>
            simp only [hmoved, hmoved', Option.getD_some] at heq
            exact hinv.distinct _ _ new hmoved (heq ▸ hmoved')

end Step

/-- Every active listener becomes a connection whose task dials the destination of
that listener, with nothing in its channels yet, and is replaced by a new listener
for it. Everything else stays as it is. -/
theorem acceptNew_bridges_own_target (hnodup : (d.listeners.map Listener.handle).Nodup)
    (hdisjoint : ∀ l ∈ d.listeners, l.handle ∉ d.conns.keys)
    (hlive : ∀ l ∈ d.listeners, l.handle ∈ d.sockets.handles) :
    ∃ (next : DataPlane σ) (replacement : Listener → Listener),
      d.acceptNew alloc api = .ok next ∧
      (∀ l ∈ d.listeners, d.Active api l →
        next.conns.get? l.handle = some
          { conn := { toTarget := [], fromTarget := [], task := .connecting l.target }
            pending := [], targetDone := false, ledger := ⟨[], [], [], [], false⟩ }) ∧
      next.listeners.Perm (d.listeners.map replacement) ∧
      (∀ l ∈ d.listeners, ¬d.Active api l → replacement l = l) ∧
      (∀ l ∈ d.listeners, d.Active api l →
        (replacement l).port = l.port ∧ (replacement l).target = l.target ∧
          (replacement l).handle ∉ d.sockets.handles ∧
          next.sockets.get (replacement l).handle = .ok (api.listen l.port api.new)) ∧
      (next.listeners.map Listener.handle).Nodup ∧
      ∀ h, (∀ l ∈ d.listeners, d.Active api l → l.handle ≠ h) →
        next.conns.get? h = d.conns.get? h := by
  obtain ⟨found, hfound⟩ := promotedFrom_of_live api 0 hlive
  have hmem := mem_promotedFrom_iff api hfound
  have hfree : ∀ l ∈ d.listeners, d.conns.get? l.handle = none := by
    intro l hl
    have hnot := mt (d.conns.get?_isSome_iff l.handle).mp (hdisjoint l hl)
    simpa using hnot
  have hstart : Promoting api d (fun _ => none) found.reverse d := by
    refine promoting_start api ?_
    intro l hl hactive
    obtain ⟨i, hi⟩ := List.mem_iff_getElem?.mp hl
    refine ⟨(i, l.port), List.mem_reverse.mpr ((hmem _).mpr ?_), hi⟩
    exact ⟨l, Nat.zero_le i, hi, rfl, hactive, hfree l hl⟩
  have hfoundAt : ∀ p ∈ found.reverse,
      ∃ l, d.listeners[p.1]? = some l ∧ p.2 = l.port ∧ d.Active api l := by
    intro p hp
    obtain ⟨l, -, hl, hport, hactive, -⟩ := (hmem p).mp (List.mem_reverse.mp hp)
    exact ⟨l, hl, hport, hactive⟩
  obtain ⟨next, moved, hnext, hdone⟩ := hstart.loop alloc api hnodup
    (List.pairwise_reverse.mpr (promotedFrom_spec api hfound).1) hfoundAt
  obtain ⟨hmoved, hhandles⟩ := hdone.finished api hnodup hlive
  refine ⟨next, renew moved, bind_eq_ok_iff.mpr ⟨found, hfound, hnext⟩, ?_, hdone.table, ?_, ?_,
    hhandles, ?_⟩
  · intro l hl hactive
    exact hdone.bridged l hl ((hmoved l hl).mpr hactive)
  · intro l hl hidle
    exact renew_of_none (not_not.mp (mt (hmoved l hl).mp hidle))
  · intro l hl hactive
    obtain ⟨new, hnew⟩ := Option.ne_none_iff_exists'.mp ((hmoved l hl).mpr hactive)
    obtain ⟨hunused, hlistens⟩ := hdone.fresh l hl new hnew
    simp only [renew, hnew, Option.getD_some, true_and, SocketSet.get, hlistens]
    exact ⟨hunused, trivial⟩
  · intro h hother
    apply hdone.others
    by_contra hpromoted
    obtain ⟨l, hl, rfl⟩ := hdone.origin h hpromoted
    exact hother l hl ((hmoved l hl).mp hpromoted) rfl

/-- Two listeners, of which the second has a connection. -/
def arriving : DataPlane BufferedSocket :=
  ⟨⟨⟨⟨[(0, ⟨.listen, [], []⟩), (1, ⟨.established, [], []⟩)], by simp [UniqueKeys]⟩, 2⟩,
    .empty⟩,
    [⟨80, "10.0.0.1:8080", 0⟩, ⟨81, "10.0.0.2:8080", 1⟩]⟩

theorem arriving_accepted :
    ∃ next, arriving.acceptNew .firstFree bufferedApi = .ok next ∧
      next.conns.get? 1 = some
        { conn := { toTarget := [], fromTarget := [], task := .connecting "10.0.0.2:8080" }
          pending := [], targetDone := false, ledger := ⟨[], [], [], [], false⟩ } ∧
      ⟨80, "10.0.0.1:8080", 0⟩ ∈ next.listeners := by
  obtain ⟨next, replacement, hnext, hbridged, htable, hidle, -⟩ :=
    acceptNew_bridges_own_target .firstFree bufferedApi (d := arriving) (by decide) (by decide)
      (by decide)
  have hfirst : replacement ⟨80, "10.0.0.1:8080", 0⟩ = ⟨80, "10.0.0.1:8080", 0⟩ := by
    apply hidle _ List.mem_cons_self
    rintro ⟨s, hs, hactive⟩
    cases hs
    cases hactive
  refine ⟨next, hnext, ?_, ?_⟩
  · exact hbridged ⟨81, "10.0.0.2:8080", 1⟩ (by decide) ⟨_, rfl, rfl⟩
  · rw [htable.mem_iff, ← hfirst]
    exact List.mem_map_of_mem List.mem_cons_self

end DataPlane

end Newt.Site
