import Newt.Site.Reconcile

/-! # Installing a full list of targets

A site receives full lists of targets when it connects and with every sync. The
two agree on lists with distinct ports, and only on those: `bring_up` opens a
listener for every specification.
-/

namespace Newt.Site.DataPlane

open Foundation Keyed Stack Proxy

variable {σ : Type} (alloc : Allocator) (api : TcpApi σ)

/-- `bring_up` opens one listener for each target, in order. -/
theorem bringUp_listeners {specs : List String} {d : DataPlane σ}
    (hup : bringUp alloc api specs = .ok d) :
    (d.listeners.map fun l => (l.port, l.target)) =
      (targets specs).map fun t => (t.listenPort, t.destination) := by
  have hkeeps : (d.listeners.map fun l => (l.port, l.target)) ++
      ([] : List Target).map (fun t => (t.listenPort, t.destination)) =
        (targets specs).map fun t => (t.listenPort, t.destination) := by
    refine foldlM_keeps (fun (rest : List Target) (now : DataPlane σ) =>
      (now.listeners.map fun l => (l.port, l.target)) ++
        rest.map (fun t => (t.listenPort, t.destination)) =
          (targets specs).map fun t => (t.listenPort, t.destination)) ?_ rfl hup
    intro t rest now next hnow hstep
    obtain ⟨handle, hlisteners⟩ := listenFor_eq alloc api hstep
    rw [hlisteners, List.map_append, List.append_assoc]
    exact hnow
  simpa using hkeeps

theorem bringUp_ports {specs : List String} {d : DataPlane σ}
    (hup : bringUp alloc api specs = .ok d) : d.listeners.map Listener.port = ports specs := by
  have hpairs := congrArg (List.map Prod.fst) (bringUp_listeners alloc api hup)
  simpa [ports, Function.comp_def] using hpairs

/-- With distinct ports, the listeners of `bring_up` are the map of the targets. -/
theorem bringUp_reads {specs : List String} {d : DataPlane σ} (hdistinct : (ports specs).Nodup)
    (hup : bringUp alloc api specs = .ok d) : d.Reads (PortMap.ofSpecs specs) := by
  have hempty : Reads (⟨⟨.empty, .empty⟩, []⟩ : DataPlane σ) fun _ => none :=
    ⟨List.nodup_nil, rfl⟩
  -- the targets to come have distinct ports, none of which has a listener yet
  have hkeeps : ∃ m, d.Reads m ∧ ([] : List Target).foldl PortMap.set m = PortMap.ofSpecs specs ∧
      (([] : List Target).map Target.listenPort).Nodup ∧
        ∀ t ∈ ([] : List Target), m t.listenPort = none := by
    refine foldlM_keeps (fun (rest : List Target) (now : DataPlane σ) =>
      ∃ m, now.Reads m ∧ rest.foldl PortMap.set m = PortMap.ofSpecs specs ∧
        (rest.map Target.listenPort).Nodup ∧ ∀ t ∈ rest, m t.listenPort = none) ?_
        ⟨fun _ => none, hempty, rfl, hdistinct, fun _ _ => rfl⟩ hup
    intro t rest now next hnow hstep
    rcases hnow with ⟨m, hreads, hend, hnodup, habsent⟩
    obtain ⟨hfresh, hnodup⟩ := List.nodup_cons.mp hnodup
    refine ⟨m.set t, hreads.listenFor alloc api (habsent t List.mem_cons_self) hstep, hend, hnodup,
      ?_⟩
    intro u hu
    have hne : u.listenPort ≠ t.listenPort := by
      intro hsame
      exact hfresh (hsame ▸ List.mem_map_of_mem hu)
    unfold PortMap.set
    rw [Function.update_of_ne hne]
    exact habsent u (List.mem_cons_of_mem _ hu)
  obtain ⟨m, hreads, hend, _⟩ := hkeeps
  rw [← hend]
  exact hreads

/-- The listeners of `bring_up` are one for each port, the same map as after a
sync with the same list, and replaced by every later sync, if and only if the
listen ports of the list are distinct. -/
theorem bringUp_agrees_iff (specs : List String) :
    (∃ d fresh synced : DataPlane σ, bringUp alloc api specs = .ok d ∧
      bringUp alloc api [] = .ok fresh ∧ fresh.reconcileTargets alloc api specs = .ok synced ∧
      d.UniquePorts ∧ d.portMap = synced.portMap ∧
      ∀ later, ∃ d', d.reconcileTargets alloc api later = .ok d' ∧
        d'.UniquePorts ∧ d'.portMap = PortMap.ofSpecs later) ↔ (ports specs).Nodup := by
  constructor
  · intro hagrees
    rcases hagrees with ⟨d, _, _, hup, _, _, hunique, _⟩
    rw [← bringUp_ports alloc api hup]
    exact hunique
  · intro hdistinct
    obtain ⟨d, hup, howned⟩ := bringUp_owned alloc api specs
    obtain ⟨fresh, hfresh, hfreshOwned⟩ := bringUp_owned alloc api []
    obtain ⟨synced, hsync, _⟩ := hfreshOwned.reconcileTargets alloc api specs
    have hreads := bringUp_reads alloc api hdistinct hup
    have hnone : (ports []).Nodup := List.nodup_nil
    have hfreshUnique := (bringUp_reads alloc api hnone hfresh).1
    refine ⟨d, fresh, synced, hup, hfresh, hsync, hreads.1, ?_, ?_⟩
    · rw [hreads.2, (hfreshUnique.reconcileTargets alloc api hsync).2]
    · intro later
      obtain ⟨d', hlater, _⟩ := howned.reconcileTargets alloc api later
      exact ⟨d', hlater, hreads.1.reconcileTargets alloc api hlater⟩

theorem bringUp_agrees_distinct :
    (ports ["80:10.0.0.1:8080", "443:10.0.0.2:8443"]).Nodup ∧
      ∃ d fresh synced : DataPlane BufferedSocket,
        bringUp .firstFree bufferedApi ["80:10.0.0.1:8080", "443:10.0.0.2:8443"] = .ok d ∧
        bringUp .firstFree bufferedApi [] = .ok fresh ∧
        fresh.reconcileTargets .firstFree bufferedApi
          ["80:10.0.0.1:8080", "443:10.0.0.2:8443"] = .ok synced ∧
        d.UniquePorts ∧ d.portMap = synced.portMap ∧
        ∀ later, ∃ d', d.reconcileTargets .firstFree bufferedApi later = .ok d' ∧
          d'.UniquePorts ∧ d'.portMap = PortMap.ofSpecs later := by
  have hdistinct : (ports ["80:10.0.0.1:8080", "443:10.0.0.2:8443"]).Nodup := by decide
  exact ⟨hdistinct, (bringUp_agrees_iff .firstFree bufferedApi _).mpr hdistinct⟩

/-- Two targets for port 80 open two listeners, and a sync redirects only one of
them. The other still leads to a destination that is not in the list. -/
theorem bringUp_duplicate_port :
    ∃ d synced : DataPlane BufferedSocket,
      bringUp .firstFree bufferedApi ["80:10.0.0.1:8080", "80:10.0.0.2:8080"] = .ok d ∧
      ¬ d.UniquePorts ∧
      d.reconcileTargets .firstFree bufferedApi ["80:10.0.0.3:8080"] = .ok synced ∧
      ⟨80, "10.0.0.2:8080", 1⟩ ∈ synced.listeners := by
  refine ⟨_, _, rfl, ?_, rfl, ?_⟩
  · change ¬ ([80, 80] : List UInt16).Nodup
    decide
  · decide

end Newt.Site.DataPlane
