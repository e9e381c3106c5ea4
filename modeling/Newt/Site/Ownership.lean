import Newt.Proxy.Ownership
import Newt.Site.DataPlane

/-! # Sockets of the site and their owners

Each live socket of a site belongs to one listener or to one connection, through
every sequence of operations. No operation therefore meets a dead handle.
-/

namespace Newt.Site

open Foundation Keyed Stack Proxy

variable {σ : Type} (alloc : Allocator) (api : TcpApi σ)

theorem addListener_spec (sockets : SocketSet σ) (port : UInt16) :
    ∃ next handle, addListener alloc api sockets port = .ok (next, handle) ∧
      next.handles.Perm (handle :: sockets.handles) := by
  have hadded := sockets.add_perm alloc api.new
  obtain ⟨s, hs⟩ := SocketSet.get_of_mem (hadded.mem_iff.mpr List.mem_cons_self)
  refine ⟨_, _, bind_eq_ok_iff.mpr ⟨s, hs, rfl⟩, ?_⟩
  rw [SocketSet.handles_put]
  exact hadded

namespace DataPlane

/-- The sockets are those of the listeners and those of the connections. -/
def Owned (d : DataPlane σ) : Prop := d.toPlane.Owns (d.listeners.map Listener.handle)

variable {d : DataPlane σ}

/-- Ownership in the words of sets. -/
theorem Owned.disjoint_union (howned : d.Owned) :
    (d.listeners.map Listener.handle).Nodup ∧
      (∀ l ∈ d.listeners, l.handle ∉ d.conns.keys) ∧
      ∀ h, h ∈ d.sockets.handles ↔ h ∈ d.listeners.map Listener.handle ∨ h ∈ d.conns.keys := by
  obtain ⟨hlisteners, _, hdisjoint⟩ := List.nodup_append.mp howned.nodup
  refine ⟨hlisteners, ?_, ?_⟩
  · intro l hl hconn
    exact hdisjoint _ (List.mem_map_of_mem hl) _ hconn rfl
  · intro h
    rw [howned.mem_iff, List.mem_append]

/-! ## Listeners come and go -/

theorem Owned.listenFor (howned : d.Owned) (t : Target) :
    ∃ d', d.listenFor alloc api t = .ok d' ∧ d'.Owned := by
  obtain ⟨sockets, handle, hadd, hsockets⟩ := addListener_spec alloc api d.sockets t.listenPort
  refine ⟨_, bind_eq_ok_iff.mpr ⟨_, hadd, rfl⟩, ?_⟩
  unfold Owned Plane.Owns
  rw [List.map_append, List.append_assoc]
  exact (hsockets.trans (howned.cons handle)).trans List.perm_middle.symm

/-- What is left when a listener is taken out of the vector. -/
theorem Owned.take_listener (howned : d.Owned) {l : Listener} {rest : List Listener}
    (htake : d.listeners.Perm (l :: rest)) :
    d.sockets.handles.Perm (l.handle :: (rest.map Listener.handle ++ d.conns.keys)) :=
  howned.trans ((htake.map Listener.handle).append_right d.conns.keys)

theorem removeAt_of_lt {i : Nat} (hi : i < d.listeners.length) :
    ∃ l rest, d.removeAt i = .ok (l, rest) ∧ swapRemove i d.listeners = some (l, rest) := by
  obtain ⟨l, rest, hremove⟩ := swapRemove_of_lt hi
  refine ⟨l, rest, ?_, hremove⟩
  rw [removeAt, hremove]

theorem Owned.dropLoop (howned : d.Owned) (port : UInt16) (fuel : Nat) :
    ∃ d', dropLoop port fuel d = .ok d' ∧ d'.Owned := by
  induction fuel generalizing d with
  | zero => exact ⟨d, rfl, howned⟩
  | succ fuel ih =>
      unfold DataPlane.dropLoop
      split
      · exact ⟨d, rfl, howned⟩
      · next i hi =>
          obtain ⟨l, rest, hat, hremove⟩ :=
            removeAt_of_lt (List.findIdx?_eq_some_iff_getElem.mp hi).1
          have hleft := howned.take_listener (swapRemove_some hremove).2.1
          obtain ⟨sockets, hfree, hsockets⟩ :=
            SocketSet.remove_of_mem (hleft.mem_iff.mpr List.mem_cons_self)
          -- the handle leaves the sockets and the listeners together
          have hnext : Owned { d with sockets := sockets, listeners := rest } :=
            (hsockets.symm.trans hleft).cons_inv
          obtain ⟨d', hd', howned'⟩ := ih hnext
          exact ⟨d', bind_eq_ok_iff.mpr ⟨_, hat, bind_eq_ok_iff.mpr ⟨_, hfree, hd'⟩⟩, howned'⟩

theorem Owned.dropPort (howned : d.Owned) (port : UInt16) :
    ∃ d', d.dropPort port = .ok d' ∧ d'.Owned :=
  howned.dropLoop port d.listeners.length

/-! ## The calls of the control channel -/

/-- A loop whose body keeps ownership and never fails. -/
theorem Owned.loop {α : Type} {body : DataPlane σ → α → Except Fault (DataPlane σ)}
    (hbody : ∀ a d, Owned d → ∃ d', body d a = .ok d' ∧ d'.Owned) (howned : d.Owned)
    (items : List α) : ∃ d', items.foldlM body d = .ok d' ∧ d'.Owned := by
  refine foldlM_total (fun _ => Owned) ?_ howned
  intro a _ d howned
  exact hbody a d howned

theorem Owned.addTargets (howned : d.Owned) (specs : List String) :
    ∃ d', d.addTargets alloc api specs = .ok d' ∧ d'.Owned := by
  refine howned.loop ?_ specs
  intro spec d howned
  unfold addTarget
  split
  · exact ⟨d, rfl, howned⟩
  · split
    · exact ⟨d, rfl, howned⟩
    · exact howned.listenFor alloc api _

theorem Owned.removeTargets (howned : d.Owned) (specs : List String) :
    ∃ d', d.removeTargets specs = .ok d' ∧ d'.Owned := by
  refine howned.loop ?_ specs
  intro spec d howned
  unfold removeTarget
  split
  · exact ⟨d, rfl, howned⟩
  · exact howned.dropPort _

theorem redirect_handle (want : String) (l : Listener) : (redirect want l).handle = l.handle := by
  unfold redirect
  split <;> rfl

theorem Owned.upsertTarget (howned : d.Owned) (t : Target) :
    ∃ d', d.upsertTarget alloc api t = .ok d' ∧ d'.Owned := by
  unfold DataPlane.upsertTarget
  split
  · refine ⟨_, rfl, ?_⟩
    unfold Owned
    rw [map_key_modifyFirst (redirect_handle t.destination)]
    exact howned
  · exact howned.listenFor alloc api t

theorem Owned.reconcileTargets (howned : d.Owned) (specs : List String) :
    ∃ d', d.reconcileTargets alloc api specs = .ok d' ∧ d'.Owned := by
  obtain ⟨kept, hkept, howned⟩ := howned.loop (fun port d howned => howned.dropPort port)
    ((d.listeners.map Listener.port).filter fun port =>
      decide (port ∉ (specs.filterMap Target.parse).map Target.listenPort))
  obtain ⟨d', hd', howned⟩ := howned.loop (fun t d howned => howned.upsertTarget alloc api t)
    (specs.filterMap Target.parse)
  exact ⟨d', bind_eq_ok_iff.mpr ⟨kept, hkept, hd'⟩, howned⟩

/-! ## New connections -/

theorem promotedFrom_of_live (i : Nat) {ls : List Listener}
    (hlive : ∀ l ∈ ls, l.handle ∈ d.sockets.handles) :
    ∃ found, d.promotedFrom api i ls = .ok found := by
  induction ls generalizing i with
  | nil => exact ⟨[], rfl⟩
  | cons l rest ih =>
      obtain ⟨hfirst, hrest⟩ := List.forall_mem_cons.mp hlive
      obtain ⟨s, hs⟩ := SocketSet.get_of_mem hfirst
      obtain ⟨later, hlater⟩ := ih (i + 1) hrest
      exact ⟨_, bind_eq_ok_iff.mpr ⟨s, hs, bind_eq_ok_iff.mpr ⟨later, hlater, rfl⟩⟩⟩

/-- The listeners to promote are found in order, each at its position. -/
theorem promotedFrom_spec {i : Nat} {ls : List Listener} {found : List (Nat × UInt16)}
    (hfound : d.promotedFrom api i ls = .ok found) :
    found.Pairwise (fun p q => p.1 < q.1) ∧
      ∀ p ∈ found, i ≤ p.1 ∧ ∃ l, ls[p.1 - i]? = some l ∧ l.port = p.2 := by
  induction ls generalizing i found with
  | nil =>
      cases hfound
      exact ⟨.nil, fun p hp => by cases hp⟩
  | cons l rest ih =>
      obtain ⟨s, _, hrest⟩ := bind_eq_ok_iff.mp hfound
      obtain ⟨later, hlater, hreturn⟩ := bind_eq_ok_iff.mp hrest
      obtain ⟨hsorted, hplaces⟩ := ih hlater
      have htail : ∀ p ∈ later, i + 1 ≤ p.1 ∧ ∃ l', (l :: rest)[p.1 - i]? = some l' ∧
          l'.port = p.2 := by
        intro p hp
        obtain ⟨hle, l', hl', hport⟩ := hplaces p hp
        refine ⟨hle, l', ?_, hport⟩
        rw [show p.1 - i = p.1 - (i + 1) + 1 by omega, List.getElem?_cons_succ]
        exact hl'
      cases hreturn
      split
      · refine ⟨List.pairwise_cons.mpr ⟨fun p hp => (htail p hp).1, hsorted⟩, ?_⟩
        intro p hp
        rcases List.mem_cons.mp hp with rfl | hp
        · exact ⟨Nat.le_refl _, l, by simp, rfl⟩
        · exact ⟨Nat.le_of_succ_le (htail p hp).1, (htail p hp).2⟩
      · exact ⟨hsorted, fun p hp => ⟨Nat.le_of_succ_le (htail p hp).1, (htail p hp).2⟩⟩

theorem Owned.promote (howned : d.Owned) {found : Nat × UInt16}
    (hi : found.1 < d.listeners.length) :
    ∃ d', d.promote alloc api found = .ok d' ∧ d'.Owned ∧
      d'.listeners.length = d.listeners.length := by
  obtain ⟨l, rest, hat, hremove⟩ := removeAt_of_lt hi
  have htake := (swapRemove_some hremove).2.1
  obtain ⟨sockets, handle, hadd, hsockets⟩ := addListener_spec alloc api d.sockets found.2
  refine ⟨_, bind_eq_ok_iff.mpr ⟨_, hat, bind_eq_ok_iff.mpr ⟨_, hadd, rfl⟩⟩, ?_, ?_⟩
  · -- the old handle moves to the connections, the new one joins the listeners
    have hfresh : l.handle ∉ d.conns.keys :=
      howned.disjoint_union.2.1 l (htake.mem_iff.mpr List.mem_cons_self)
    have hkeys := Assoc.keys_insert_perm hfresh (Bridge.new (spawnTcp l.target))
    unfold Owned Plane.Owns
    rw [List.map_append, List.append_assoc]
    refine (hsockets.trans ((howned.take_listener htake).cons handle)).trans ?_
    refine List.Perm.trans ?_ List.perm_middle.symm
    exact ((hkeys.append_left _).trans List.perm_middle).symm.cons handle
  · rw [List.length_append, List.length_singleton, htake.length_eq, List.length_cons]

theorem Owned.acceptNew (howned : d.Owned) :
    ∃ d', d.acceptNew alloc api = .ok d' ∧ d'.Owned := by
  obtain ⟨found, hfound⟩ := promotedFrom_of_live api 0 fun l hl =>
    (howned.disjoint_union.2.2 l.handle).mpr (.inl (List.mem_map_of_mem hl))
  have hplaces : ∀ p ∈ found.reverse, p.1 < d.listeners.length := by
    intro p hp
    obtain ⟨_, l, hl, _⟩ := (promotedFrom_spec api hfound).2 p (List.mem_reverse.mp hp)
    exact (List.getElem?_eq_some_iff.mp hl).1
  -- a promotion keeps the number of listeners, so all positions stay valid
  have hloop : ∃ d', found.reverse.foldlM (DataPlane.promote alloc api) d = .ok d' ∧
      (d'.Owned ∧ d'.listeners.length = d.listeners.length) ∧
        ∀ p ∈ ([] : List (Nat × UInt16)), p.1 < d.listeners.length := by
    refine foldlM_total (fun (rest : List (Nat × UInt16)) (now : DataPlane σ) =>
      (now.Owned ∧ now.listeners.length = d.listeners.length) ∧
        ∀ p ∈ rest, p.1 < d.listeners.length) ?_ ⟨⟨howned, rfl⟩, hplaces⟩
    intro p rest now hinv
    rcases hinv with ⟨⟨hnow, hlength⟩, hrest⟩
    obtain ⟨next, hnext, hnextOwned, hnextLength⟩ := hnow.promote alloc api
      (hlength.symm ▸ hrest p List.mem_cons_self)
    exact ⟨next, hnext, ⟨hnextOwned, hnextLength.trans hlength⟩,
      fun q hq => hrest q (List.mem_cons_of_mem _ hq)⟩
  obtain ⟨d', hd', ⟨howned', _⟩, _⟩ := hloop
  exact ⟨d', bind_eq_ok_iff.mpr ⟨found, hfound, hd'⟩, howned'⟩

/-! ## Runs -/

theorem Owned.apply (howned : d.Owned) (op : Op σ) :
    ∃ d', d.apply alloc api op = .ok d' ∧ d'.Owned := by
  cases op with
  | addTargets specs => exact howned.addTargets alloc api specs
  | removeTargets specs => exact howned.removeTargets specs
  | reconcileTargets specs => exact howned.reconcileTargets alloc api specs
  | acceptNew => exact howned.acceptNew alloc api
  | shuttle order =>
      obtain ⟨plane, calls, hpass, howns⟩ := Plane.Owns.shuttleAll api howned order
      refine ⟨{ d with toPlane := plane }, ?_, howns⟩
      have hshuttle : d.shuttle api order = .ok ({ d with toPlane := plane }, calls) :=
        bind_eq_ok_iff.mpr ⟨_, hpass, rfl⟩
      rw [DataPlane.apply, hshuttle]
      rfl
  | poll change => exact ⟨_, rfl, Plane.Owns.poll howned change⟩
  | task h event => exact ⟨_, rfl, Plane.Owns.runTask howned h event⟩

theorem owned_empty : Owned (⟨⟨.empty, .empty⟩, []⟩ : DataPlane σ) := List.Perm.refl _

theorem bringUp_owned (specs : List String) :
    ∃ d : DataPlane σ, bringUp alloc api specs = .ok d ∧ d.Owned :=
  owned_empty.loop (fun t _ howned => howned.listenFor alloc api t) _

theorem Owned.run (howned : d.Owned) (ops : List (Op σ)) :
    ∃ d', d.run alloc api ops = .ok d' ∧ d'.Owned :=
  howned.loop (fun op _ howned => howned.apply alloc api op) ops

/-- Whatever happens to the data plane of a site, no operation meets a dead
handle, and the live sockets are at any time the disjoint union of those of the
listeners and those of the connections. -/
theorem run_owned (specs : List String) (ops : List (Op σ)) :
    ∃ d₀ d : DataPlane σ, bringUp alloc api specs = .ok d₀ ∧ d₀.run alloc api ops = .ok d ∧
      (d.listeners.map Listener.handle).Nodup ∧
      (∀ l ∈ d.listeners, l.handle ∉ d.conns.keys) ∧
      ∀ h, h ∈ d.sockets.handles ↔ h ∈ d.listeners.map Listener.handle ∨ h ∈ d.conns.keys := by
  obtain ⟨d₀, hup, hstart⟩ := bringUp_owned alloc api specs
  obtain ⟨d, hrun, howned⟩ := hstart.run alloc api ops
  exact ⟨d₀, d, hup, hrun, howned.disjoint_union⟩

end DataPlane

end Newt.Site
