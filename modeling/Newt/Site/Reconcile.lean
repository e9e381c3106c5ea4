import Newt.Site.ListenerTable

/-! # Reconciling the listeners with a full list

`reconcile_targets` turns the listeners into the map of the given targets and
leaves the sockets of the ports that stay alone. With it, the data plane follows
the map from ports to destinations through every run.
-/

namespace Newt.Site.DataPlane

open Foundation Keyed Stack Proxy

variable {σ : Type} (alloc : Allocator) (api : TcpApi σ) {d d' : DataPlane σ}

/-- The first half of a reconciliation leaves the listeners of the given ports. -/
theorem dropPorts_table {specs : List String} (hunique : d.UniquePorts)
    (hdrop : ((d.listeners.map Listener.port).filter fun port =>
      decide (port ∉ ports specs)).foldlM dropPort d = .ok d') :
    d'.UniquePorts ∧ table Listener.port d'.listeners =
      fun port => if port ∈ ports specs then table Listener.port d.listeners port else none := by
  have hfollows : d'.UniquePorts ∧ table Listener.port d'.listeners =
      ((d.listeners.map Listener.port).filter fun port => decide (port ∉ ports specs)).foldl
        (fun m port => Function.update m port none) (table Listener.port d.listeners) := by
    refine foldlM_simulates (fun (d : DataPlane σ) m => d.UniquePorts ∧
      table Listener.port d.listeners = m) ?_ ⟨hunique, rfl⟩ hdrop
    intro port d m d' hread hstep
    rcases hread with ⟨hunique, rfl⟩
    exact dropPort_table hunique hstep
  refine ⟨hfollows.1, ?_⟩
  rw [hfollows.2, foldl_update_none]
  funext port
  by_cases hkeep : port ∈ ports specs
  · simp [hkeep]
  · by_cases hport : port ∈ d.listeners.map Listener.port
    · simp [hkeep, hport]
    · have habsent : table Listener.port d.listeners port = none := by
        refine table_eq_none_iff.mpr ?_
        intro l hl hsame
        exact hport (hsame ▸ List.mem_map_of_mem hl)
      simp [hkeep, habsent]

theorem UniquePorts.reconcileTargets {specs : List String} (hunique : d.UniquePorts)
    (hsync : d.reconcileTargets alloc api specs = .ok d') :
    d'.Reads (PortMap.ofSpecs specs) := by
  obtain ⟨kept, hdrop, hupsert⟩ := bind_eq_ok_iff.mp hsync
  obtain ⟨hkept, htable⟩ := dropPorts_table hunique hdrop
  have hother : ∀ port, port ∉ ports specs → kept.portMap port = none := by
    intro port hport
    rw [portMap_eq_none_iff, htable]
    exact if_neg hport
  rw [← PortMap.foldl_set_eq_ofSpecs hother]
  refine foldlM_simulates Reads ?_ ⟨hkept, rfl⟩ hupsert
  intro t d m d' hreads hstep
  exact hreads.upsertTarget alloc api hstep

/-- The socket of the first listener of a port. -/
def handleMap (d : DataPlane σ) (port : UInt16) : Option Handle :=
  (table Listener.port d.listeners port).map Listener.handle

theorem upsertTarget_handleMap {t : Target} {port : UInt16} {handle : Handle}
    (hupsert : d.upsertTarget alloc api t = .ok d') (hhandle : d.handleMap port = some handle) :
    d'.handleMap port = some handle := by
  unfold DataPlane.upsertTarget at hupsert
  split at hupsert
  · cases hupsert
    unfold handleMap at hhandle ⊢
    rw [table_modifyFirst (redirect_port t.destination), Function.update_apply]
    split
    · next hport =>
        subst hport
        rw [Option.map_map]
        convert hhandle using 2
        funext l
        exact redirect_handle t.destination l
    · exact hhandle
  · obtain ⟨new, hlisteners⟩ := listenFor_eq alloc api hupsert
    unfold handleMap at hhandle ⊢
    obtain ⟨l, hl, hlhandle⟩ := Option.map_eq_some_iff.mp hhandle
    rw [hlisteners, table_append, hl]
    exact congrArg some hlhandle

/-- A reconciliation keeps the socket of every port that stays. -/
theorem reconcileTargets_handleMap {specs : List String} {port : UInt16} {handle : Handle}
    (hunique : d.UniquePorts) (hsync : d.reconcileTargets alloc api specs = .ok d')
    (hport : port ∈ ports specs) (hhandle : d.handleMap port = some handle) :
    d'.handleMap port = some handle := by
  obtain ⟨kept, hdrop, hupsert⟩ := bind_eq_ok_iff.mp hsync
  have hkept : kept.handleMap port = some handle := by
    unfold handleMap at hhandle ⊢
    rw [(dropPorts_table hunique hdrop).2]
    dsimp only
    rw [if_pos hport]
    exact hhandle
  refine foldlM_keeps (fun _ (d : DataPlane σ) => d.handleMap port = some handle) ?_ hkept hupsert
  intro t _ d d' hhandle hstep
  exact upsertTarget_handleMap alloc api hstep hhandle

/-- The ports and sockets of the listeners, without the destinations. -/
def skeleton (d : DataPlane σ) : List (UInt16 × Handle) :=
  d.listeners.map fun l => (l.port, l.handle)

theorem listeners_eq_of_skeleton (hskeleton : d.skeleton = d'.skeleton) (hunique : d.UniquePorts)
    (hunique' : d'.UniquePorts) (hmap : d.portMap = d'.portMap) : d.listeners = d'.listeners := by
  have hlength : d.listeners.length = d'.listeners.length := by
    simpa [skeleton] using congrArg List.length hskeleton
  refine List.ext_getElem hlength ?_
  intro i hi hi'
  have hsame : (d.listeners[i].port, d.listeners[i].handle) =
      (d'.listeners[i].port, d'.listeners[i].handle) := by
    have hget := congrArg (fun l => l[i]?) hskeleton
    simpa [skeleton, hi, hi'] using hget
  obtain ⟨hport, hhandle⟩ := Prod.mk.injEq .. ▸ hsame
  have htable := (table_eq_some_iff hunique).mpr ⟨List.getElem_mem hi, rfl⟩
  have htable' := (table_eq_some_iff hunique').mpr ⟨List.getElem_mem hi', rfl⟩
  have htarget := congrFun hmap d.listeners[i].port
  unfold portMap at htarget
  rw [htable, hport, htable'] at htarget
  cases hl : d.listeners[i]
  cases hl' : d'.listeners[i]
  simp_all

/-- With a listener for the port, only its destination changes. -/
theorem upsertTarget_skeleton {t : Target} (hport : t.listenPort ∈ d.listeners.map Listener.port) :
    ∃ d', d.upsertTarget alloc api t = .ok d' ∧ d'.toPlane = d.toPlane ∧
      d'.skeleton = d.skeleton := by
  unfold DataPlane.upsertTarget
  split
  · refine ⟨_, rfl, rfl, ?_⟩
    refine map_key_modifyFirst ?_ _ _
    intro l
    rw [redirect_port, redirect_handle]
  · next hfound =>
      obtain ⟨l, hl, hlport⟩ := List.mem_map.mp hport
      exact absurd hlport (table_eq_none_iff.mp hfound l hl)

/-- Reconciling twice with the same specifications is reconciling once. -/
theorem reconcileTargets_idempotent {specs : List String} (hunique : d.UniquePorts)
    (hsync : d.reconcileTargets alloc api specs = .ok d') :
    d'.reconcileTargets alloc api specs = .ok d' := by
  obtain ⟨hunique', hmap⟩ := hunique.reconcileTargets alloc api hsync
  have hmem : ∀ port, port ∈ d'.listeners.map Listener.port ↔ port ∈ ports specs := by
    intro port
    rw [← not_iff_not, ← PortMap.ofSpecs_eq_none_iff, ← hmap, portMap_eq_none_iff,
      table_eq_none_iff]
    simp
  have hnone : ((d'.listeners.map Listener.port).filter fun port =>
      decide (port ∉ ports specs)) = [] := by
    refine List.filter_eq_nil_iff.mpr ?_
    intro port hport
    simpa using (hmem port).mp hport
  -- the second half finds a listener for each target
  have hupsert : ∃ last, (targets specs).foldlM (upsertTarget alloc api) d' = .ok last ∧
      (last.toPlane = d'.toPlane ∧ last.skeleton = d'.skeleton) ∧
        ∀ t ∈ ([] : List Target), t.listenPort ∈ ports specs := by
    refine foldlM_total (fun (rest : List Target) (now : DataPlane σ) =>
      (now.toPlane = d'.toPlane ∧ now.skeleton = d'.skeleton) ∧
        ∀ t ∈ rest, t.listenPort ∈ ports specs) ?_
        ⟨⟨rfl, rfl⟩, fun t ht => List.mem_map_of_mem ht⟩
    intro t rest now hnow
    rcases hnow with ⟨⟨hplane, hskeleton⟩, hrest⟩
    have hport : t.listenPort ∈ now.listeners.map Listener.port := by
      have hports := congrArg (List.map Prod.fst) hskeleton
      simp only [skeleton, List.map_map] at hports
      rw [show now.listeners.map Listener.port = d'.listeners.map Listener.port from hports, hmem]
      exact hrest t List.mem_cons_self
    obtain ⟨next, hstep, hnextPlane, hnextSkeleton⟩ := upsertTarget_skeleton alloc api hport
    exact ⟨next, hstep, ⟨hnextPlane.trans hplane, hnextSkeleton.trans hskeleton⟩,
      fun t ht => hrest t (List.mem_cons_of_mem _ ht)⟩
  obtain ⟨last, hloop, ⟨hplane, hskeleton⟩, _⟩ := hupsert
  have hagain : d'.reconcileTargets alloc api specs = .ok last := by
    refine bind_eq_ok_iff.mpr ⟨d', ?_, hloop⟩
    change ((d'.listeners.map Listener.port).filter fun port =>
      decide (port ∉ ports specs)).foldlM dropPort d' = .ok d'
    rw [hnone]
    rfl
  obtain ⟨hlastUnique, hlastMap⟩ := hunique'.reconcileTargets alloc api hagain
  have hlisteners := listeners_eq_of_skeleton hskeleton hlastUnique hunique'
    (hlastMap.trans hmap.symm)
  rw [hagain]
  cases last
  cases d'
  simp_all

/-! ## Runs -/

theorem Reads.apply {m : PortMap} {op : Op σ} (hreads : d.Reads m)
    (happly : d.apply alloc api op = .ok d') : d'.Reads (m.effect op) := by
  cases op with
  | addTargets specs => exact hreads.addTargets alloc api happly
  | removeTargets specs => exact hreads.removeTargets happly
  | reconcileTargets specs => exact hreads.1.reconcileTargets alloc api happly
  | acceptNew => exact hreads.acceptNew alloc api happly
  | shuttle order =>
      obtain ⟨⟨next, calls⟩, hshuttle, hnext⟩ := bind_eq_ok_iff.mp happly
      obtain ⟨⟨plane, made⟩, _, hreturn⟩ := bind_eq_ok_iff.mp hshuttle
      cases hreturn
      cases hnext
      exact hreads
  | poll change =>
      cases happly
      exact hreads
  | task h event =>
      cases happly
      exact hreads

theorem Reads.run {m : PortMap} {ops : List (Op σ)} (hreads : d.Reads m)
    (hrun : d.run alloc api ops = .ok d') : d'.Reads (ops.foldl PortMap.effect m) := by
  refine foldlM_simulates Reads ?_ hreads hrun
  intro op d m d' hreads hstep
  exact hreads.apply alloc api hstep

/-- From one listener per port, every run succeeds, keeps one listener per port,
and follows the map from ports to destinations. A reconciliation keeps the sockets
of the ports that stay, and repeating it changes nothing. -/
theorem run_refines (howned : d.Owned) (hunique : d.UniquePorts) (ops : List (Op σ)) :
    ∃ d', d.run alloc api ops = .ok d' ∧ d'.UniquePorts ∧
      d'.portMap = ops.foldl PortMap.effect d.portMap ∧
      ∀ specs, ∃ synced, d'.reconcileTargets alloc api specs = .ok synced ∧
        (∀ port ∈ ports specs, ∀ handle, d'.handleMap port = some handle →
          synced.handleMap port = some handle) ∧
        synced.reconcileTargets alloc api specs = .ok synced := by
  obtain ⟨d', hrun, howned'⟩ := howned.run alloc api ops
  obtain ⟨hunique', hmap⟩ := Reads.run alloc api ⟨hunique, rfl⟩ hrun
  refine ⟨d', hrun, hunique', hmap, ?_⟩
  intro specs
  obtain ⟨synced, hsync, _⟩ := howned'.reconcileTargets alloc api specs
  refine ⟨synced, hsync, ?_, reconcileTargets_idempotent alloc api hunique' hsync⟩
  intro port hport handle hhandle
  exact reconcileTargets_handleMap alloc api hunique' hsync hport hhandle

/-- A second target, an attempt to redirect the first, and a connection. The two
ports keep their first destinations, and no other port leads anywhere. -/
theorem run_refines_webSite :
    webSite.Owned ∧ webSite.UniquePorts ∧
      ∃ d', webSite.run .firstFree bufferedApi
          [.addTargets ["81:10.0.0.2:443", "80:10.0.0.3:80", "nonsense"],
            .poll fun _ s => { s with state := .established }, .acceptNew] = .ok d' ∧
        d'.UniquePorts ∧ d'.portMap 80 = some "10.0.0.1:8080" ∧
        d'.portMap 81 = some "10.0.0.2:443" ∧
        (∀ port, port ≠ 80 → port ≠ 81 → d'.portMap port = none) ∧
        ∀ specs, ∃ synced, d'.reconcileTargets .firstFree bufferedApi specs = .ok synced ∧
          (∀ port ∈ ports specs, ∀ handle, d'.handleMap port = some handle →
            synced.handleMap port = some handle) ∧
          synced.reconcileTargets .firstFree bufferedApi specs = .ok synced := by
  have howned : webSite.Owned := List.Perm.refl _
  have hunique : webSite.UniquePorts := List.nodup_singleton _
  obtain ⟨d', hrun, hunique', hmap, hsync⟩ :=
    run_refines .firstFree bufferedApi howned hunique
      [.addTargets ["81:10.0.0.2:443", "80:10.0.0.3:80", "nonsense"],
        .poll fun _ s => { s with state := .established }, .acceptNew]
  have hparsed : targets ["81:10.0.0.2:443", "80:10.0.0.3:80", "nonsense"] =
      [⟨81, "10.0.0.2", 443⟩, ⟨80, "10.0.0.3", 80⟩] := by decide
  have hadded : d'.portMap = Function.update webSite.portMap 81 (some "10.0.0.2:443") := by
    rw [hmap]
    change webSite.portMap.add _ = _
    rw [PortMap.add, hparsed]
    rfl
  refine ⟨howned, hunique, d', hrun, hunique', ?_, ?_, ?_, hsync⟩
  · rw [hadded]
    rfl
  · rw [hadded]
    rfl
  · intro port hfirst hsecond
    rw [hadded, Function.update_of_ne hsecond, portMap_eq_none_iff, table_eq_none_iff]
    intro l hl
    rw [List.mem_singleton.mp hl]
    exact hfirst.symm

end Newt.Site.DataPlane
