import Newt.Proxy.Plane

/-! # Who owns a socket

A pass frees a socket together with its bridge, so the sockets stay those of the
connections and those of other owners, and no call meets a dead handle.
-/

namespace Newt.Proxy.Plane

open Foundation Stack

variable {σ : Type} (api : TcpApi σ)

/-- The live sockets are those of `others` and those of the connections, each
with one owner. -/
def Owns (others : List Handle) (plane : Plane σ) : Prop :=
  plane.sockets.handles.Perm (others ++ plane.conns.keys)

variable {others : List Handle} {plane : Plane σ}

theorem Owns.nodup (howns : plane.Owns others) : (others ++ plane.conns.keys).Nodup :=
  howns.nodup_iff.mp plane.sockets.live.keys_nodup

theorem Owns.live (howns : plane.Owns others) {h : Handle} (hconn : h ∈ plane.conns.keys) :
    h ∈ plane.sockets.handles :=
  howns.mem_iff.mpr (List.mem_append_right _ hconn)

theorem Owns.poll (howns : plane.Owns others) (change : Handle → σ → σ) :
    Owns others { plane with sockets := plane.sockets.poll change } := by
  unfold Owns
  rw [SocketSet.handles_poll]
  exact howns

theorem runTask_keys (plane : Plane σ) (h : Handle) (event : TaskEvent) :
    (plane.runTask h event).conns.keys = plane.conns.keys := by
  unfold Plane.runTask
  split
  · rfl
  · split
    · rfl
    · exact Assoc.keys_modify _ _ _

theorem runTask_sockets (plane : Plane σ) (h : Handle) (event : TaskEvent) :
    (plane.runTask h event).sockets = plane.sockets := by
  unfold Plane.runTask
  split
  · rfl
  · split <;> rfl

theorem Owns.runTask (howns : plane.Owns others) (h : Handle) (event : TaskEvent) :
    (plane.runTask h event).Owns others := by
  unfold Owns
  rw [runTask_sockets, runTask_keys]
  exact howns

theorem Owns.reap (howns : plane.Owns others) {h : Handle} (hconn : h ∈ plane.conns.keys) (s : σ) :
    ∃ next, plane.reap api h s = .ok next ∧ next.Owns others ∧
      ∀ k ∈ plane.conns.keys, k ≠ h → k ∈ next.conns.keys := by
  unfold Plane.reap
  split
  · exact ⟨plane, rfl, howns, fun k hk _ => hk⟩
  · obtain ⟨sockets, hremove, hsockets⟩ := SocketSet.remove_of_mem (howns.live hconn)
    have hkeys := Assoc.keys_perm_erase hconn
    rw [hremove]
    refine ⟨_, rfl, ?_, ?_⟩
    · -- the handle leaves both sides
      have hboth : (h :: sockets.handles).Perm (h :: (others ++ (plane.conns.erase h).keys)) :=
        (hsockets.symm.trans howns).trans
          ((hkeys.append_left others).trans List.perm_middle)
      exact hboth.cons_inv
    · intro k hk hne
      exact List.mem_of_ne_of_mem hne (hkeys.mem_iff.mp hk)

theorem Owns.serve (howns : plane.Owns others) {h : Handle} (hconn : h ∈ plane.conns.keys) :
    ∃ next calls, plane.serve api h = .ok (next, calls) ∧ next.Owns others ∧
      ∀ k ∈ plane.conns.keys, k ≠ h → k ∈ next.conns.keys := by
  obtain ⟨s, hs⟩ := SocketSet.get_of_mem (howns.live hconn)
  obtain ⟨b, hb⟩ := Option.isSome_iff_exists.mp ((plane.conns.get?_isSome_iff h).mpr hconn)
  have hserved : Owns others (Plane.mk (plane.sockets.put h (b.service api s).1)
      (plane.conns.modify h fun _ => (b.service api s).2.1)) := by
    unfold Owns
    rw [SocketSet.handles_put, Assoc.keys_modify]
    exact howns
  obtain ⟨next, hreap, hnext, hkeys⟩ := hserved.reap api
    (by rw [Assoc.keys_modify]; exact hconn) (b.service api s).1
  rw [Assoc.keys_modify] at hkeys
  refine ⟨next, if (b.service api s).2.2 then [(h, (b.service api s).2.1)] else [], ?_, hnext,
    hkeys⟩
  simp only [Plane.serve, hs, hb, hreap]
  rfl

/-- A round opens no connection. -/
theorem serve_keys_subset {next : Plane σ} {h : Handle} {calls : List (Handle × Bridge)}
    (hserve : plane.serve api h = .ok (next, calls)) : next.conns.keys ⊆ plane.conns.keys := by
  rcases serve_conns api hserve with ⟨_, _, hnext | hnext⟩ | ⟨s, b, _, _, _, hnext | hnext⟩
  · rw [hnext]
    exact List.Subset.refl _
  · rw [hnext, Assoc.keys_erase]
    exact List.erase_subset
  · rw [hnext, Assoc.keys_modify]
    exact List.Subset.refl _
  · rw [hnext, Assoc.keys_erase, Assoc.keys_modify]
    exact List.erase_subset

theorem shuttle_keys_subset {next : Plane σ} {handles : List Handle}
    {calls : List (Handle × Bridge)} (hshuttle : plane.shuttle api handles = .ok (next, calls)) :
    next.conns.keys ⊆ plane.conns.keys := by
  induction handles generalizing plane calls with
  | nil =>
      cases hshuttle
      exact List.Subset.refl _
  | cons h rest ih =>
      simp only [Plane.shuttle] at hshuttle
      split at hshuttle
      · cases hshuttle
      · next middle made hserve =>
          split at hshuttle
          · cases hshuttle
          · next last more hrest =>
              cases hshuttle
              exact List.Subset.trans (ih hrest) (serve_keys_subset api hserve)

/-- A pass over connections never meets a dead handle. -/
theorem Owns.shuttle (howns : plane.Owns others) {handles : List Handle}
    (hnodup : handles.Nodup) (hconns : ∀ h ∈ handles, h ∈ plane.conns.keys) :
    ∃ next calls, plane.shuttle api handles = .ok (next, calls) ∧ next.Owns others := by
  induction handles generalizing plane with
  | nil => exact ⟨plane, [], rfl, howns⟩
  | cons h rest ih =>
      obtain ⟨hfresh, hrest⟩ := List.nodup_cons.mp hnodup
      obtain ⟨middle, made, hserve, hmiddle, hkeys⟩ :=
        howns.serve api (hconns h List.mem_cons_self)
      obtain ⟨last, more, hshuttle, hlast⟩ := ih hmiddle hrest (by
        intro k hk
        refine hkeys k (hconns k (List.mem_cons_of_mem h hk)) ?_
        intro hsame
        exact hfresh (hsame ▸ hk))
      refine ⟨last, made ++ more, ?_, hlast⟩
      simp only [Plane.shuttle, hserve, hshuttle]

theorem Owns.shuttleAll (howns : plane.Owns others) (order : KeyOrder) :
    ∃ next calls, plane.shuttleAll api order = .ok (next, calls) ∧ next.Owns others := by
  have hperm := order.perm plane.conns.keys
  refine howns.shuttle api (hperm.nodup_iff.mpr plane.conns.keys_nodup) ?_
  intro h hh
  exact hperm.mem_iff.mp hh

end Newt.Proxy.Plane
