import Newt.Site.DataPlane

/-! # Maps from ports to destinations

What the listeners of a site are for: a finite map from listen ports to
destinations, and the meaning of each operation of the data plane on it.
-/

namespace Newt.Site

open Foundation Keyed

variable {σ : Type}

/-- The targets of the specifications that parse. -/
def targets (specs : List String) : List Target := specs.filterMap Target.parse

def ports (specs : List String) : List UInt16 := (targets specs).map Target.listenPort

/-- Which destination each port leads to. -/
abbrev PortMap := UInt16 → Option String

namespace PortMap

/-- The port of the target leads to its host and port, `host:port`. -/
def set (m : PortMap) (t : Target) : PortMap :=
  Function.update m t.listenPort (some (t.host ++ ":" ++ toString t.targetPort.toNat))

/-- Insert the targets with an absent port, in order. -/
def add (m : PortMap) (specs : List String) : PortMap :=
  (targets specs).foldl (fun m t => if m t.listenPort = none then m.set t else m) m

/-- Delete the ports. -/
def remove (m : PortMap) (specs : List String) : PortMap :=
  fun port => if port ∈ ports specs then none else m port

/-- The map of the targets. A later target of a port replaces an earlier one. -/
def ofSpecs (specs : List String) : PortMap := (targets specs).foldl set fun _ => none

/-- The meaning of an operation on the data plane. -/
def effect (m : PortMap) : DataPlane.Op σ → PortMap
  | .addTargets specs => m.add specs
  | .removeTargets specs => m.remove specs
  | .reconcileTargets specs => ofSpecs specs
  | .acceptNew => m
  | .shuttle _ => m
  | .poll _ => m
  | .task _ _ => m

theorem foldl_set_apply (l : List Target) (m : PortMap) (port : UInt16) :
    l.foldl set m port = (l.foldl set (fun _ => none) port).or (m port) := by
  induction l generalizing m with
  | nil => rfl
  | cons t rest ih =>
      rw [List.foldl_cons, List.foldl_cons, ih (m.set t), ih (set _ t), Option.or_assoc]
      congr 1
      unfold set
      rw [Function.update_apply, Function.update_apply]
      split <;> rfl

theorem foldl_set_eq_none_iff {l : List Target} {m : PortMap} {port : UInt16} :
    l.foldl set m port = none ↔ m port = none ∧ port ∉ l.map Target.listenPort := by
  induction l generalizing m with
  | nil => simp
  | cons t rest ih =>
      rw [List.foldl_cons, ih, List.map_cons, List.mem_cons, not_or, set, Function.update_apply]
      by_cases hport : port = t.listenPort <;> simp [hport]

theorem ofSpecs_eq_none_iff {specs : List String} {port : UInt16} :
    ofSpecs specs port = none ↔ port ∉ ports specs := by
  unfold ofSpecs
  rw [foldl_set_eq_none_iff]
  exact and_iff_right rfl

/-- Setting all targets in a map without other ports gives the map of the targets. -/
theorem foldl_set_eq_ofSpecs {specs : List String} {m : PortMap}
    (hother : ∀ port, port ∉ ports specs → m port = none) :
    (targets specs).foldl set m = ofSpecs specs := by
  funext port
  rw [foldl_set_apply]
  change (ofSpecs specs port).or (m port) = _
  cases hport : ofSpecs specs port with
  | some destination => rfl
  | none => exact hother port (ofSpecs_eq_none_iff.mp hport)

/-- The program skips specifications that do not parse inside its loops. -/
theorem foldl_targets (step : PortMap → Target → PortMap) (m : PortMap) (specs : List String) :
    (targets specs).foldl step m =
      specs.foldl (fun m spec => (Target.parse spec).elim m (step m)) m := by
  unfold targets
  rw [List.foldl_filterMap]
  congr 1
  funext m spec
  cases Target.parse spec <;> rfl

theorem remove_eq_foldl (m : PortMap) (specs : List String) :
    m.remove specs =
      (targets specs).foldl (fun (m : PortMap) t => Function.update m t.listenPort none) m := by
  have herase := foldl_update_none (ports specs) m
  rw [ports, List.foldl_map] at herase
  rw [herase]
  rfl

end PortMap

end Newt.Site
