import Newt.Olm.Userspace
import Newt.Proxy.HalfClose
import Newt.Proxy.Integrity
import Newt.Site.Connections

/-! # Bridged streams of both roles

What the service loop guarantees for the connections of a site and for those of
a client with the userspace backend.
-/

namespace Newt.Proxy

open Stack Site

variable {σ : Type} (alloc : Allocator) (api : TcpApi σ)

/-- The sockets and connections that one of the two roles reaches. -/
inductive OfRole (discipline : Plane.Discipline σ) : Plane σ → Prop
  | site {d : DataPlane σ} (hreach : DataPlane.Reachable alloc api discipline d) :
      OfRole discipline d.toPlane
  | client {b : Olm.UserspaceBackend σ}
      (hreach : Olm.UserspaceBackend.Reachable alloc api discipline b) :
      OfRole discipline b.toPlane

variable {plane : Plane σ}

theorem OfRole.reachable {discipline : Plane.Discipline σ}
    (hrole : OfRole alloc api discipline plane) : Plane.Reachable api discipline plane := by
  cases hrole with
  | site hreach => exact hreach.toPlane
  | client hreach => exact hreach.toPlane

/-- In both roles, the bytes a socket accepted are the first of the bytes read
from its stream, and a pass calls `close` only when they are all of them and the
task has ended. -/
theorem OfRole.stream_integrity (hrole : OfRole alloc api .any plane) :
    (∀ h b, plane.conns.get? h = some b → b.ledger.accepted <+: b.ledger.read) ∧
      ∀ order next calls, plane.shuttleAll api order = .ok (next, calls) →
        ∀ call ∈ calls, call.2.ledger.accepted = call.2.ledger.read ∧
          call.2.conn.task = .ended := by
  obtain ⟨hfirst, hclose⟩ := hrole.reachable.streams_intact api
  refine ⟨hfirst, ?_⟩
  intro order next calls hpass
  exact hclose _ next calls hpass

/-- A connection whose target answers with two bytes and closes. -/
theorem OfRole.stream_integrity_reply :
    ∃ d : DataPlane BufferedSocket, OfRole .firstFree bufferedApi .any d.toPlane ∧
      (∃ b, d.conns.get? 0 = some b ∧ b.ledger.read = [72, 105]) ∧
      (∀ h b, d.conns.get? h = some b → b.ledger.accepted <+: b.ledger.read) ∧
      ∀ order next calls, d.toPlane.shuttleAll bufferedApi order = .ok (next, calls) →
        ∀ call ∈ calls, call.2.ledger.accepted = call.2.ledger.read ∧
          call.2.conn.task = .ended := by
  have hrun : DataPlane.webSite.run .firstFree bufferedApi
      [.poll fun _ s => { s with state := .established }, .acceptNew, .task 0 .connected,
        .task 0 (.read [72, 105]), .task 0 .send, .task 0 .readEnd, .shuttle .inserted,
        .task 0 .shutdown] = .ok _ := rfl
  have hrole := OfRole.site (DataPlane.Reachable.run _ _ (.bringUp DataPlane.webSite_bringUp)
    (DataPlane.runAllowed_any _ _ _ _) hrun)
  exact ⟨_, hrole, ⟨_, rfl, rfl⟩, hrole.stream_integrity⟩

/-- In both roles: without failing writes, the bytes lost at the shutdown of a
stream are those of the chunks left in the channel. No chunk is left if the end
of a stream is read only when no chunk is queued, and nothing is placed between
the end of the loop of a task and its shutdown. -/
theorem half_close :
    (OfRole alloc api (.drained api) plane → ∀ h b, plane.conns.get? h = some b →
      b.ledger.shut = true → b.ledger.written = b.ledger.placed) ∧
    (OfRole alloc api .writesSucceed plane → ∀ h b, plane.conns.get? h = some b →
      b.ledger.shut = true → (b.ledger.written = b.ledger.placed ↔ b.conn.toTarget = [])) := by
  constructor
  · intro hrole h b hb hshut
    exact hrole.reachable.written_eq_placed api hb hshut
  · intro hrole h b hb hshut
    exact hrole.reachable.written_eq_placed_iff api hb hshut

/-- A request of two bytes is passed on before the target closes its side. -/
def requestServed : List (DataPlane.Op BufferedSocket) :=
  [.poll fun _ s => { s with state := .established, rx := [71, 69] }, .acceptNew,
    .shuttle .inserted, .task 0 .connected, .task 0 .receive, .task 0 (.write 2),
    .task 0 .readEnd, .task 0 .shutdown]

theorem half_close_requestServed :
    ∃ d : DataPlane BufferedSocket, ∃ b,
      OfRole .firstFree bufferedApi (.drained bufferedApi) d.toPlane ∧
      d.conns.get? 0 = some b ∧ b.ledger.shut = true ∧ b.ledger.placed = [71, 69] ∧
      b.ledger.written = b.ledger.placed := by
  have hrun : DataPlane.webSite.run .firstFree bufferedApi requestServed = .ok _ := rfl
  have hallowed : DataPlane.webSite.RunAllowed .firstFree bufferedApi (.drained bufferedApi)
      requestServed := by
    refine DataPlane.runAllowed_cons _ _ trivial rfl ?_
    refine DataPlane.runAllowed_cons _ _ trivial rfl ?_
    refine DataPlane.runAllowed_cons _ _ ⟨?_, fun _ _ _ => trivial⟩ rfl ?_
    · intro s b _ hb hclosing
      cases hb
      cases hclosing
    -- the channel is empty again when the end of the stream is read
    iterate 5
      refine DataPlane.runAllowed_cons _ _ ?_ rfl ?_
      · intro b hb
        cases hb
        exact ⟨by decide, fun _ => by first | rfl | contradiction⟩
    trivial
  have hrole := OfRole.site (DataPlane.Reachable.run _ _ (.bringUp DataPlane.webSite_bringUp)
    hallowed hrun)
  exact ⟨_, _, hrole, rfl, rfl, rfl, (half_close _ _).1 hrole 0 _ rfl rfl⟩

/-- The target closes its side while the request is still in the channel. -/
def requestQueued : List (DataPlane.Op BufferedSocket) :=
  [.poll fun _ s => { s with state := .established, rx := [71, 69] }, .acceptNew,
    .task 0 .connected, .shuttle .inserted, .task 0 .readEnd, .task 0 .shutdown]

/-- The stream is then shut down without a byte written, although no write failed
and the connection was not reaped. -/
theorem half_close_requestQueued :
    ∃ d : DataPlane BufferedSocket, ∃ b,
      OfRole .firstFree bufferedApi .writesSucceed d.toPlane ∧
      d.conns.get? 0 = some b ∧ b.ledger.shut = true ∧ b.ledger.placed = [71, 69] ∧
      b.ledger.written = [] := by
  have hrun : DataPlane.webSite.run .firstFree bufferedApi requestQueued = .ok _ := rfl
  have hevent : ∀ {d : DataPlane BufferedSocket} (event : TaskEvent), event ≠ .writeFailed →
      d.Allowed bufferedApi .writesSucceed (.task 0 event) :=
    fun _ hevent _ _ => hevent
  have hallowed : DataPlane.webSite.RunAllowed .firstFree bufferedApi .writesSucceed
      requestQueued := by
    refine DataPlane.runAllowed_cons _ _ trivial rfl ?_
    refine DataPlane.runAllowed_cons _ _ trivial rfl ?_
    refine DataPlane.runAllowed_cons _ _ (hevent .connected (by decide)) rfl ?_
    refine DataPlane.runAllowed_cons _ _ ⟨fun _ _ _ _ => trivial, fun _ _ _ => trivial⟩ rfl ?_
    refine DataPlane.runAllowed_cons _ _ (hevent .readEnd (by decide)) rfl ?_
    exact DataPlane.runAllowed_cons _ _ (hevent .shutdown (by decide)) rfl trivial
  have hrole := OfRole.site (DataPlane.Reachable.run _ _ (.bringUp DataPlane.webSite_bringUp)
    hallowed hrun)
  exact ⟨_, _, hrole, rfl, rfl, rfl, rfl⟩

end Newt.Proxy
