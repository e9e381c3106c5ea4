import Newt.Proxy.Plane

/-! # Bytes from the target to the tunnel

Every byte read from the stream is accepted by the socket, pending, in the
channel, or in the hands of the task, in this order. The end-of-stream flag is
raised only when the last two places are empty for good.
-/

namespace Newt.Proxy

open Foundation Stack

/-- The chunk that the task has read and not sent yet. -/
def Task.inFlight : Task → Bytes
  | .sending chunk => chunk
  | _ => []

namespace Bridge

/-- No byte from the target is lost, repeated, or out of order. -/
structure Intact (b : Bridge) : Prop where
  read_eq : b.ledger.read =
    b.ledger.accepted ++ (b.pending ++ (b.conn.fromTarget.flatten ++ b.conn.task.inFlight))
  done : b.targetDone = true → b.conn.fromTarget = [] ∧ b.conn.task = .ended

theorem intact_new {conn : Conn} (hconn : conn.Spawned) : (Bridge.new conn).Intact := by
  rcases hconn with ⟨target, rfl⟩ | rfl <;> exact ⟨rfl, fun hdone => by cases hdone⟩

theorem Intact.taskStep {b b' : Bridge} {event : TaskEvent} (hintact : b.Intact)
    (hstep : b.taskStep event = some b') : b'.Intact := by
  have hread := hintact.read_eq
  have hrunning : b.targetDone ≠ true := by
    intro hdone
    rw [taskStep_ended (hintact.done hdone).2] at hstep
    cases hstep
  -- no event touches the flag, so only the bytes have to be accounted for
  cases taskStep_move hstep with
  | connected htask =>
      rw [htask] at hread
      exact ⟨hread, fun hdone => absurd hdone hrunning⟩
  | connectFailed htask =>
      rw [htask] at hread
      exact ⟨hread, fun hdone => absurd hdone hrunning⟩
  | @receive chunk rest htask hqueue =>
      rw [htask] at hread
      refine ⟨?_, fun hdone => absurd hdone hrunning⟩
      by_cases hchunk : chunk = [] <;> simpa [hchunk, Task.inFlight] using hread
  | @write n rest htask hpos hle =>
      rw [htask] at hread
      refine ⟨?_, fun hdone => absurd hdone hrunning⟩
      by_cases hall : n = rest.length <;> simpa [hall, setTask, Task.inFlight] using hread
  | writeFailed htask =>
      rw [htask] at hread
      exact ⟨hread, fun hdone => absurd hdone hrunning⟩
  | @read data htask hdata hle =>
      rw [htask] at hread
      refine ⟨?_, fun hdone => absurd hdone hrunning⟩
      simp [setTask, Task.inFlight, hread]
  | readEnd htask =>
      rw [htask] at hread
      exact ⟨hread, fun hdone => absurd hdone hrunning⟩
  | @send chunk htask hslot =>
      rw [htask] at hread
      refine ⟨?_, fun hdone => absurd hdone hrunning⟩
      simpa [Task.inFlight] using hread
  | shutdown htask =>
      rw [htask] at hread
      exact ⟨hread, fun hdone => absurd hdone hrunning⟩

variable {σ : Type} (api : TcpApi σ)

theorem Intact.pull {s : σ} {b : Bridge} (hintact : b.Intact) : (pull api s b).2.Intact := by
  obtain ⟨chunks, hplaced, _, _⟩ := pull_spec api s b
  rw [hplaced]
  exact ⟨hintact.read_eq, hintact.done⟩

theorem Intact.takeChunk {b : Bridge} (hintact : b.Intact) : b.takeChunk.Intact := by
  have hread := hintact.read_eq
  unfold Bridge.takeChunk
  split
  · next hpending =>
      split
      · next chunk rest hqueue =>
          refine ⟨?_, ?_⟩
          · simpa [hpending, hqueue] using hread
          · intro hdone
            have hempty := (hintact.done hdone).1
            rw [hqueue] at hempty
            cases hempty
      · next hqueue =>
          split
          · next hended => exact ⟨hread, fun _ => ⟨hqueue, hended⟩⟩
          · exact hintact
  · exact hintact

theorem Intact.flush {s : σ} {b : Bridge} (hintact : b.Intact) : (flush api s b).2.Intact := by
  unfold Bridge.flush
  split
  · split
    · exact hintact
    · next sent _ _ =>
        refine ⟨?_, hintact.done⟩
        simp only [List.append_assoc]
        rw [← List.append_assoc (List.take sent b.pending), List.take_append_drop]
        exact hintact.read_eq
  · exact hintact

/-- A round keeps the account, and calls `close` only when all bytes read were
accepted and the task has ended. -/
theorem Intact.service {s : σ} {b : Bridge} (hintact : b.Intact) :
    (b.service api s).2.1.Intact ∧ ((b.service api s).2.2 = true →
      (b.service api s).2.1.ledger.accepted = (b.service api s).2.1.ledger.read ∧
        (b.service api s).2.1.conn.task = .ended) := by
  have hflushed := ((hintact.pull api (s := s)).takeChunk).flush api
    (s := (Bridge.pull api s b).1)
  refine ⟨hflushed, ?_⟩
  intro hclosed
  simp only [Bridge.service, Bridge.halfClose] at hclosed
  split at hclosed
  · next hdone =>
      obtain ⟨hqueue, hended⟩ := hflushed.done hdone.1
      have hread := hflushed.read_eq
      rw [hdone.2.1, hqueue, hended] at hread
      simp only [Task.inFlight, List.flatten_nil, List.append_nil] at hread
      exact ⟨hread.symm, hended⟩
  · cases hclosed

/-- What the socket accepted comes first in the account of what was read. -/
theorem Intact.accepted_isPrefix {b : Bridge} (hintact : b.Intact) :
    b.ledger.accepted <+: b.ledger.read := by
  rw [hintact.read_eq]
  exact List.prefix_append _ _

end Bridge

namespace Plane

variable {σ : Type} (api : TcpApi σ)

theorem Reachable.intact {plane : Plane σ} (hreach : Reachable api .any plane) :
    ∀ h b, plane.conns.get? h = some b → b.Intact := by
  refine hreach.bridges api ?_ ?_ ?_
  · intro conn hconn
    exact Bridge.intact_new hconn
  · intro s b _ hintact
    exact (hintact.service api).1
  · intro b event b' _ hintact hstep
    exact hintact.taskStep hstep

/-- In every run, the bytes a socket accepted are the first of the bytes read
from its stream, and `close` is called only when they are all of them and the
task has ended. -/
theorem Reachable.streams_intact {plane : Plane σ} (hreach : Reachable api .any plane) :
    (∀ h b, plane.conns.get? h = some b → b.ledger.accepted <+: b.ledger.read) ∧
      ∀ handles next calls, plane.shuttle api handles = .ok (next, calls) →
        ∀ call ∈ calls, call.2.ledger.accepted = call.2.ledger.read ∧
          call.2.conn.task = .ended := by
  refine ⟨fun h b hb => (hreach.intact api h b hb).accepted_isPrefix, ?_⟩
  intro handles next calls hshuttle call hcall
  -- each call of `close` belongs to a round, and the round found an intact bridge
  obtain ⟨before, after, h, made, hbefore, hserve, hmade⟩ :=
    (hreach.shuttle api (roundsAllowed_any api plane handles) hshuttle).2 call hcall
  rcases serve_conns api hserve with ⟨_, hnone, _⟩ | ⟨s, b, _, hb, hcalls, _⟩
  · rw [hnone] at hmade
    cases hmade
  · rw [hcalls] at hmade
    split at hmade
    · next hclosed =>
        rw [List.mem_singleton] at hmade
        subst hmade
        exact ((hbefore.intact api h b hb).service api).2 hclosed
    · cases hmade

end Plane

end Newt.Proxy
