import Newt.Site.DataPlane

/-! # The connections of a site in the service loop

Whatever a site does, its sockets and connections run as the service loop and
the tasks of the connections allow.
-/

namespace Newt.Site.DataPlane

open Foundation Keyed Stack Proxy

variable {σ : Type} (alloc : Allocator) (api : TcpApi σ) (discipline : Plane.Discipline σ)

/-- A discipline limits passes and events of tasks only. -/
def Allowed (d : DataPlane σ) : Op σ → Prop
  | .shuttle order => d.toPlane.RoundsAllowed api discipline (order.arrange d.conns.keys)
  | .task h event => ∀ b, d.conns.get? h = some b → discipline.event b event
  | _ => True

/-- The data planes of a site. -/
inductive Reachable : DataPlane σ → Prop
  | bringUp {specs : List String} {d : DataPlane σ} (hup : bringUp alloc api specs = .ok d) :
      Reachable d
  | op {d d' : DataPlane σ} (op : Op σ) (prior : Reachable d)
      (hallowed : d.Allowed api discipline op) (step : d.apply alloc api op = .ok d') :
      Reachable d'

/-- Every operation of a run is allowed. -/
def RunAllowed : DataPlane σ → List (Op σ) → Prop
  | _, [] => True
  | d, op :: rest =>
      d.Allowed api discipline op ∧
        ∀ d', d.apply alloc api op = .ok d' → RunAllowed d' rest

variable {discipline} {d d' : DataPlane σ}

theorem runAllowed_cons {op : Op σ} {rest : List (Op σ)} (hop : d.Allowed api discipline op)
    (hstep : d.apply alloc api op = .ok d') (hrest : d'.RunAllowed alloc api discipline rest) :
    d.RunAllowed alloc api discipline (op :: rest) := by
  refine ⟨hop, ?_⟩
  intro next hnext
  cases hstep.symm.trans hnext
  exact hrest

theorem Reachable.run {ops : List (Op σ)} (hreach : Reachable alloc api discipline d)
    (hallowed : d.RunAllowed alloc api discipline ops) (hrun : d.run alloc api ops = .ok d') :
    Reachable alloc api discipline d' := by
  refine (foldlM_keeps (fun rest (d : DataPlane σ) => Reachable alloc api discipline d ∧
    d.RunAllowed alloc api discipline rest) ?_ ⟨hreach, hallowed⟩ hrun).1
  intro op rest d d' hrun hstep
  rcases hrun with ⟨hreach, hop, hrest⟩
  exact ⟨.op op hreach hop hstep, hrest d' hstep⟩

theorem allowed_any (d : DataPlane σ) (op : Op σ) : d.Allowed api .any op := by
  cases op with
  | shuttle order => exact Plane.roundsAllowed_any api _ _
  | task h event => exact fun _ _ => trivial
  | addTargets | removeTargets | reconcileTargets | acceptNew | poll => trivial

theorem runAllowed_any (d : DataPlane σ) (ops : List (Op σ)) :
    d.RunAllowed alloc api .any ops := by
  induction ops generalizing d with
  | nil => trivial
  | cons op rest ih => exact ⟨allowed_any api d op, fun d' _ => ih d'⟩

theorem listenFor_reachable {t : Target} (hd : Plane.Reachable api discipline d.toPlane)
    (hlisten : d.listenFor alloc api t = .ok d') : Plane.Reachable api discipline d'.toPlane := by
  obtain ⟨⟨sockets, handle⟩, _, hreturn⟩ := bind_eq_ok_iff.mp hlisten
  cases hreturn
  exact .stack sockets hd

theorem dropLoop_reachable {port : UInt16} {fuel : Nat}
    (hd : Plane.Reachable api discipline d.toPlane) (hdrop : dropLoop port fuel d = .ok d') :
    Plane.Reachable api discipline d'.toPlane := by
  induction fuel generalizing d with
  | zero =>
      cases hdrop
      exact hd
  | succ fuel ih =>
      unfold dropLoop at hdrop
      split at hdrop
      · cases hdrop
        exact hd
      · obtain ⟨⟨l, rest⟩, _, hfree⟩ := bind_eq_ok_iff.mp hdrop
        obtain ⟨sockets, _, hloop⟩ := bind_eq_ok_iff.mp hfree
        exact @ih { d with sockets := sockets, listeners := rest } (.stack sockets hd) hloop

theorem upsertTarget_reachable {t : Target} (hd : Plane.Reachable api discipline d.toPlane)
    (hupsert : d.upsertTarget alloc api t = .ok d') :
    Plane.Reachable api discipline d'.toPlane := by
  unfold upsertTarget at hupsert
  split at hupsert
  · cases hupsert
    exact hd
  · exact listenFor_reachable alloc api hd hupsert

theorem promote_reachable {found : Nat × UInt16} (hd : Plane.Reachable api discipline d.toPlane)
    (hpromote : d.promote alloc api found = .ok d') :
    Plane.Reachable api discipline d'.toPlane := by
  obtain ⟨⟨l, rest⟩, _, hadd⟩ := bind_eq_ok_iff.mp hpromote
  obtain ⟨⟨sockets, handle⟩, _, hreturn⟩ := bind_eq_ok_iff.mp hadd
  cases hreturn
  exact .stack sockets (.spawn l.handle (spawnTcp l.target) hd (.inl ⟨l.target, rfl⟩))

/-- A loop whose body stays in the service loop does so as well. -/
theorem loop_reachable {α : Type} {body : DataPlane σ → α → Except Fault (DataPlane σ)}
    (hbody : ∀ a d d', Plane.Reachable api discipline d.toPlane → body d a = .ok d' →
      Plane.Reachable api discipline d'.toPlane) {items : List α}
    (hd : Plane.Reachable api discipline d.toPlane) (hloop : items.foldlM body d = .ok d') :
    Plane.Reachable api discipline d'.toPlane := by
  refine foldlM_keeps (fun _ (d : DataPlane σ) => Plane.Reachable api discipline d.toPlane) ?_ hd
    hloop
  intro a _ d d' hd hstep
  exact hbody a d d' hd hstep

theorem apply_reachable {op : Op σ} (hd : Plane.Reachable api discipline d.toPlane)
    (hallowed : d.Allowed api discipline op) (happly : d.apply alloc api op = .ok d') :
    Plane.Reachable api discipline d'.toPlane := by
  cases op with
  | addTargets specs =>
      refine loop_reachable api ?_ hd happly
      intro spec d d' hd hstep
      unfold addTarget at hstep
      split at hstep
      · cases hstep
        exact hd
      · split at hstep
        · cases hstep
          exact hd
        · exact listenFor_reachable alloc api hd hstep
  | removeTargets specs =>
      refine loop_reachable api ?_ hd happly
      intro spec d d' hd hstep
      unfold removeTarget at hstep
      split at hstep
      · cases hstep
        exact hd
      · exact dropLoop_reachable api hd hstep
  | reconcileTargets specs =>
      obtain ⟨kept, hdrop, hupsert⟩ := bind_eq_ok_iff.mp happly
      have hkept := loop_reachable api (fun _ _ _ hd hstep => dropLoop_reachable api hd hstep) hd
        hdrop
      exact loop_reachable api (fun _ _ _ hd hstep => upsertTarget_reachable alloc api hd hstep)
        hkept hupsert
  | acceptNew =>
      obtain ⟨found, _, hloop⟩ := bind_eq_ok_iff.mp happly
      exact loop_reachable api (fun _ _ _ hd hstep => promote_reachable alloc api hd hstep) hd
        hloop
  | shuttle order =>
      obtain ⟨⟨next, calls⟩, hshuttle, hnext⟩ := bind_eq_ok_iff.mp happly
      obtain ⟨⟨plane, made⟩, hpass, hreturn⟩ := bind_eq_ok_iff.mp hshuttle
      cases hreturn
      cases hnext
      exact (hd.shuttle api hallowed hpass).1
  | poll change =>
      cases happly
      exact .stack _ hd
  | task h event =>
      cases happly
      exact hd.runTask api hallowed

theorem Reachable.toPlane (hreach : Reachable alloc api discipline d) :
    Plane.Reachable api discipline d.toPlane := by
  induction hreach with
  | bringUp hup =>
      exact loop_reachable api (fun _ _ _ hd hstep => listenFor_reachable alloc api hd hstep)
        (.start .empty) hup
  | op op _ hallowed step ih => exact apply_reachable alloc api ih hallowed step

end Newt.Site.DataPlane
