import Newt.Foundation.Loop
import Newt.Proxy.Ownership

/-! # One connection of many

A connection shares the set of sockets, the map of connections, and the service
loop with all others. What happens to it alone is a much smaller machine: its
socket is polled, a pass services it, and its task runs. A plane obeys this
machine at a handle if the socket and the bridge there change as the machine
says, whatever happens to the rest.
-/

namespace Newt.Proxy

open Foundation Stack

/-- The socket of a connection with its bridge. -/
structure Solo (σ : Type) where
  socket : σ
  bridge : Bridge

namespace Solo

variable {σ : Type} (api : TcpApi σ)

/-- What can happen to one connection. -/
inductive Step (σ : Type) where
  | poll (change : σ → σ)
  | pass
  | task (event : TaskEvent)

/-- Impossible events change nothing. -/
def runTask (c : Solo σ) (event : TaskEvent) : Solo σ :=
  match c.bridge.taskStep event with
  | none => c
  | some b => { c with bridge := b }

/-- A pass over this connection only. Nothing is left of it once its socket is
fully closed. -/
def pass (c : Solo σ) : Option (Solo σ) :=
  let (s, b, _) := c.bridge.service api c.socket
  if api.isOpen s then some ⟨s, b⟩ else none

def step (c : Solo σ) : Step σ → Option (Solo σ)
  | .poll change => some { c with socket := change c.socket }
  | .pass => c.pass api
  | .task event => some (c.runTask event)

def run (c : Solo σ) (steps : List (Step σ)) : Option (Solo σ) := steps.foldlM (step api) c

theorem pass_eq_some_iff {c c' : Solo σ} :
    c.pass api = some c' ↔ api.isOpen (c.bridge.service api c.socket).1 = true ∧
      ⟨(c.bridge.service api c.socket).1, (c.bridge.service api c.socket).2.1⟩ = c' := by
  simp only [pass, Option.ite_none_right_eq_some, Option.some.injEq]

theorem run_append {c c' : Solo σ} {front back : List (Step σ)} :
    c.run api (front ++ back) = some c' ↔
      ∃ middle, c.run api front = some middle ∧ middle.run api back = some c' := by
  rw [run, List.foldlM_append, Option.bind_eq_bind, Option.bind_eq_some_iff]
  rfl

theorem run_single (c : Solo σ) (step : Step σ) : c.run api [step] = c.step api step := by
  simp [run]

end Solo

namespace Plane

variable {σ : Type} (api : TcpApi σ)

/-- The connection behind a handle. -/
structure At (plane : Plane σ) (h : Handle) (c : Solo σ) : Prop where
  socket : plane.sockets.live.get? h = some c.socket
  bridge : plane.conns.get? h = some c.bridge

/-- From `before` to `after`, the connection behind `h` took these steps. -/
def Obeys (h : Handle) (before : Plane σ) (steps : List (Solo.Step σ)) (after : Plane σ) : Prop :=
  ∀ c c', before.At h c → c.run api steps = some c' → after.At h c'

variable {h : Handle} {before middle after plane next : Plane σ} {c c' : Solo σ}

theorem Obeys.trans {first second : List (Solo.Step σ)} (hfirst : Obeys api h before first middle)
    (hsecond : Obeys api h middle second after) : Obeys api h before (first ++ second) after := by
  intro c c' hat hrun
  obtain ⟨d, hd, hrest⟩ := (Solo.run_append api).mp hrun
  exact hsecond d c' (hfirst c d hat hd) hrest

/-- Nothing happened to the connection. -/
def Untouched (h : Handle) (before after : Plane σ) : Prop :=
  ∀ c, before.At h c → after.At h c

theorem untouched_of_eq (hsocket : after.sockets.live.get? h = before.sockets.live.get? h)
    (hbridge : after.conns.get? h = before.conns.get? h) : Untouched h before after :=
  fun _ hat => ⟨hsocket.trans hat.socket, hbridge.trans hat.bridge⟩

theorem Untouched.trans (hfirst : Untouched h before middle) (hsecond : Untouched h middle after) :
    Untouched h before after :=
  fun c hat => hsecond c (hfirst c hat)

theorem Untouched.obeys (huntouched : Untouched h before after) : Obeys api h before [] after := by
  intro c c' hat hrun
  cases hrun
  exact huntouched c hat

/-! ## Polls and tasks -/

theorem poll_obeys (plane : Plane σ) (change : Handle → σ → σ) :
    Obeys api h plane [.poll (change h)] { plane with sockets := plane.sockets.poll change } := by
  intro c c' hat hrun
  rw [Solo.run_single] at hrun
  cases hrun
  refine ⟨?_, hat.bridge⟩
  rw [SocketSet.poll, Assoc.get?_mapValues, hat.socket]
  rfl

theorem runTask_obeys (plane : Plane σ) (event : TaskEvent) :
    Obeys api h plane [.task event] (plane.runTask h event) := by
  intro c c' hat hrun
  rw [Solo.run_single] at hrun
  cases hrun
  cases hstep : c.bridge.taskStep event with
  | none =>
      simp only [Plane.runTask, Solo.runTask, hat.bridge, hstep]
      exact hat
  | some b =>
      simp only [Plane.runTask, Solo.runTask, hat.bridge, hstep]
      refine ⟨hat.socket, ?_⟩
      rw [Assoc.get?_modify, Function.update_self, hat.bridge]
      rfl

theorem runTask_untouched (plane : Plane σ) {k : Handle} (hne : h ≠ k) (event : TaskEvent) :
    Untouched h plane (plane.runTask k event) := by
  refine untouched_of_eq ?_ ?_
  · rw [runTask_sockets]
  · unfold Plane.runTask
    split
    · rfl
    · split
      · rfl
      · rw [Assoc.get?_modify, Function.update_of_ne hne]

/-! ## Passes -/

theorem reap_untouched {k : Handle} (hne : h ≠ k) {s : σ} (hreap : plane.reap api k s = .ok next) :
    Untouched h plane next := by
  unfold reap at hreap
  split at hreap
  · cases hreap
    exact untouched_of_eq rfl rfl
  · split at hreap
    · cases hreap
    · next sockets hremove =>
        cases hreap
        refine untouched_of_eq ?_ ?_
        · rw [SocketSet.remove_live hremove, Function.update_of_ne hne]
        · rw [Assoc.get?_erase, Function.update_of_ne hne]

theorem serve_untouched {k : Handle} {calls : List (Handle × Bridge)} (hne : h ≠ k)
    (hserve : plane.serve api k = .ok (next, calls)) : Untouched h plane next := by
  unfold serve at hserve
  split at hserve
  · cases hserve
  · next s hs =>
      split at hserve
      · obtain ⟨last, hreap, hlast⟩ := bind_eq_ok_iff.mp hserve
        cases hlast
        exact reap_untouched api hne hreap
      · next b hb =>
          obtain ⟨last, hreap, hlast⟩ := bind_eq_ok_iff.mp hserve
          cases hlast
          refine Untouched.trans (untouched_of_eq ?_ ?_) (reap_untouched api hne hreap)
          · rw [SocketSet.put, Assoc.get?_modify, Function.update_of_ne hne]
          · rw [Assoc.get?_modify, Function.update_of_ne hne]

/-- The round of a connection is its pass, and reports its call of `close`. -/
theorem serve_at {calls : List (Handle × Bridge)} (hat : plane.At h c)
    (hserve : plane.serve api h = .ok (next, calls)) :
    (∀ c', c.pass api = some c' → next.At h c') ∧
      ((c.bridge.service api c.socket).2.2 = true →
        (h, (c.bridge.service api c.socket).2.1) ∈ calls) := by
  have hget : plane.sockets.get h = .ok c.socket := by rw [SocketSet.get, hat.socket]
  simp only [serve, hget, hat.bridge] at hserve
  obtain ⟨last, hreap, hlast⟩ := bind_eq_ok_iff.mp hserve
  cases hlast
  constructor
  · intro c' hpass
    obtain ⟨hopen, rfl⟩ := (Solo.pass_eq_some_iff api).mp hpass
    rw [reap, if_pos hopen] at hreap
    cases hreap
    constructor
    · rw [SocketSet.put, Assoc.get?_modify, Function.update_self, hat.socket]
      rfl
    · rw [Assoc.get?_modify, Function.update_self, hat.bridge]
      rfl
  · intro hclosed
    rw [if_pos hclosed]
    exact List.mem_singleton_self _

theorem shuttle_cons {k : Handle} {rest : List Handle} {calls : List (Handle × Bridge)}
    (hshuttle : plane.shuttle api (k :: rest) = .ok (next, calls)) :
    ∃ middle made more, plane.serve api k = .ok (middle, made) ∧
      middle.shuttle api rest = .ok (next, more) ∧ calls = made ++ more := by
  simp only [shuttle] at hshuttle
  split at hshuttle
  · cases hshuttle
  · next middle made hserve =>
      split at hshuttle
      · cases hshuttle
      · next last more hrest =>
          cases hshuttle
          exact ⟨middle, made, more, hserve, hrest, rfl⟩

theorem shuttle_untouched {handles : List Handle} {calls : List (Handle × Bridge)}
    (hnot : h ∉ handles) (hshuttle : plane.shuttle api handles = .ok (next, calls)) :
    Untouched h plane next := by
  induction handles generalizing plane calls with
  | nil =>
      cases hshuttle
      exact untouched_of_eq rfl rfl
  | cons k rest ih =>
      obtain ⟨hne, hlater⟩ := List.ne_and_not_mem_of_not_mem_cons hnot
      obtain ⟨middle, made, more, hserve, hrest, _⟩ := shuttle_cons api hshuttle
      exact (serve_untouched api hne hserve).trans (ih hlater hrest)

/-- A pass over many connections is for each of them a pass over itself. -/
theorem shuttle_at {handles : List Handle} {calls : List (Handle × Bridge)}
    (hnodup : handles.Nodup) (hmem : h ∈ handles) (hat : plane.At h c)
    (hshuttle : plane.shuttle api handles = .ok (next, calls)) :
    (∀ c', c.pass api = some c' → next.At h c') ∧
      ((c.bridge.service api c.socket).2.2 = true →
        (h, (c.bridge.service api c.socket).2.1) ∈ calls) := by
  induction handles generalizing plane calls with
  | nil => cases hmem
  | cons k rest ih =>
      obtain ⟨hfresh, hrestNodup⟩ := List.nodup_cons.mp hnodup
      obtain ⟨middle, made, more, hserve, hrest, rfl⟩ := shuttle_cons api hshuttle
      rcases List.mem_cons.mp hmem with rfl | hlater
      · -- the later rounds leave the connection as its own round left it
        obtain ⟨hround, hclose⟩ := serve_at api hat hserve
        refine ⟨?_, fun hclosed => List.mem_append_left _ (hclose hclosed)⟩
        intro c' hpass
        exact shuttle_untouched api hfresh hrest c' (hround c' hpass)
      · have hne : h ≠ k := by
          rintro rfl
          exact hfresh hlater
        obtain ⟨hround, hclose⟩ := ih hrestNodup hlater (serve_untouched api hne hserve c hat) hrest
        exact ⟨hround, fun hclosed => List.mem_append_right _ (hclose hclosed)⟩

theorem shuttleAll_at {order : KeyOrder} {calls : List (Handle × Bridge)} (hat : plane.At h c)
    (hpass : plane.shuttleAll api order = .ok (next, calls)) :
    (∀ c', c.pass api = some c' → next.At h c') ∧
      ((c.bridge.service api c.socket).2.2 = true →
        (h, (c.bridge.service api c.socket).2.1) ∈ calls) := by
  have hperm := order.perm plane.conns.keys
  refine shuttle_at api (hperm.nodup_iff.mpr plane.conns.keys_nodup) ?_ hat hpass
  rw [hperm.mem_iff, ← Assoc.get?_isSome_iff, hat.bridge]
  rfl

theorem shuttleAll_obeys {order : KeyOrder} {calls : List (Handle × Bridge)}
    (hpass : plane.shuttleAll api order = .ok (next, calls)) : Obeys api h plane [.pass] next := by
  intro c c' hat hrun
  rw [Solo.run_single] at hrun
  exact (shuttleAll_at api hat hpass).1 c' hrun

end Plane

end Newt.Proxy
