import Newt.Proxy.Plane

/-! # Bytes from the tunnel to the target

Every byte placed in the channel is written to the stream, held by the task, or
still in the channel, in this order, as long as no write fails. What the channel
holds when the task leaves its loop is never written, so nothing is lost only if
the loop ends with an empty channel and nothing is placed before the stream is
shut down.
-/

namespace Newt.Proxy

open Foundation Stack

/-- The part of a chunk that the task has still to write. -/
def Task.unwritten : Task → Bytes
  | .writing rest => rest
  | _ => []

/-- The part of a bridge that belongs to the direction towards the target. -/
structure Outbound where
  queue : List Bytes
  task : Task
  placed : Bytes
  written : Bytes
  shut : Bool

/-- Where the bytes placed in the channel are. -/
structure Outbound.Accounted (o : Outbound) : Prop where
  placed_eq : o.placed = o.written ++ (o.task.unwritten ++ o.queue.flatten)
  nonempty : ∀ chunk ∈ o.queue, chunk ≠ []
  shut : o.shut = true → o.task = .ended

/-- The channel is empty once the task has left its loop. -/
structure Outbound.Drained (o : Outbound) : Prop where
  closing : o.task = .closing → o.queue = []
  shut : o.shut = true → o.task = .ended ∧ o.queue = []

/-- When the stream is shut down, the bytes lost are those still in the channel. -/
theorem Outbound.Accounted.written_eq_iff {o : Outbound} (haccounted : o.Accounted)
    (hshut : o.shut = true) : o.written = o.placed ↔ o.queue = [] := by
  rw [haccounted.placed_eq, haccounted.shut hshut]
  simp only [Task.unwritten, List.nil_append, List.self_eq_append_right, List.flatten_eq_nil_iff]
  constructor
  · intro hempty
    refine List.eq_nil_iff_forall_not_mem.mpr ?_
    intro chunk hchunk
    exact haccounted.nonempty chunk hchunk (hempty chunk hchunk)
  · intro hqueue
    simp [hqueue]

namespace Bridge

def outbound (b : Bridge) : Outbound :=
  ⟨b.conn.toTarget, b.conn.task, b.ledger.placed, b.ledger.written, b.ledger.shut⟩

theorem accounted_new {conn : Conn} (hconn : conn.Spawned) :
    (Bridge.new conn).outbound.Accounted := by
  rcases hconn with ⟨target, rfl⟩ | rfl
  all_goals
    refine ⟨rfl, ?_, ?_⟩
    · intro chunk hchunk
      cases hchunk
    · intro hshut
      cases hshut

theorem drained_new {conn : Conn} (hconn : conn.Spawned) :
    (Bridge.new conn).outbound.Drained := by
  rcases hconn with ⟨target, rfl⟩ | rfl
  all_goals
    constructor
    all_goals
      intro hend
      cases hend

/-! ## The task -/

theorem taskStep_accounted {b b' : Bridge} {event : TaskEvent}
    (haccounted : b.outbound.Accounted) (hwrites : event ≠ .writeFailed)
    (hstep : b.taskStep event = some b') : b'.outbound.Accounted := by
  have hplaced : b.ledger.placed =
      b.ledger.written ++ (b.conn.task.unwritten ++ b.conn.toTarget.flatten) :=
    haccounted.placed_eq
  have hopen : b.ledger.shut ≠ true := by
    intro hshut
    rw [taskStep_ended (haccounted.shut hshut)] at hstep
    cases hstep
  cases taskStep_move hstep with
  | connected htask | connectFailed htask | readEnd htask =>
      rw [htask] at hplaced
      exact ⟨hplaced, haccounted.nonempty, fun hshut => absurd hshut hopen⟩
  | @receive chunk rest htask hqueue =>
      have hnonempty : ∀ chunk ∈ b.conn.toTarget, chunk ≠ [] := haccounted.nonempty
      rw [hqueue] at hnonempty
      rw [htask, hqueue] at hplaced
      have hchunk : chunk ≠ [] := hnonempty chunk (List.mem_cons_self)
      refine ⟨?_, fun c hc => hnonempty c (List.mem_cons_of_mem _ hc),
        fun hshut => absurd hshut hopen⟩
      simpa [outbound, hchunk, Task.unwritten] using hplaced
  | @write n rest htask hpos hle =>
      rw [htask] at hplaced
      refine ⟨?_, haccounted.nonempty, fun hshut => absurd hshut hopen⟩
      by_cases hall : n = rest.length
      · simpa [outbound, hall, setTask, Task.unwritten] using hplaced
      · -- the written part of the chunk moves from the task to the stream
        simp only [outbound, setTask, if_neg hall, Task.unwritten]
        rw [List.append_assoc, ← List.append_assoc (rest.take n), List.take_append_drop]
        exact hplaced
  | writeFailed htask => exact absurd rfl hwrites
  | read htask hdata hle =>
      rw [htask] at hplaced
      exact ⟨hplaced, haccounted.nonempty, fun hshut => absurd hshut hopen⟩
  | send htask hslot =>
      rw [htask] at hplaced
      exact ⟨hplaced, haccounted.nonempty, fun hshut => absurd hshut hopen⟩
  | shutdown htask =>
      rw [htask] at hplaced
      exact ⟨hplaced, haccounted.nonempty, fun _ => rfl⟩

theorem taskStep_drained {b b' : Bridge} {event : TaskEvent} (hdrained : b.outbound.Drained)
    (hwrites : event ≠ .writeFailed) (hend : event = .readEnd → b.conn.toTarget = [])
    (hstep : b.taskStep event = some b') : b'.outbound.Drained := by
  have hopen : b.ledger.shut ≠ true := by
    intro hshut
    rw [taskStep_ended (hdrained.shut hshut).1] at hstep
    cases hstep
  cases taskStep_move hstep with
  | connected htask | connectFailed htask | read htask hdata hle | send htask hslot =>
      exact ⟨fun hclosing => (by cases hclosing), fun hshut => absurd hshut hopen⟩
  | receive htask hqueue =>
      refine ⟨fun hclosing => ?_, fun hshut => absurd hshut hopen⟩
      dsimp only [outbound] at hclosing
      split at hclosing <;> cases hclosing
  | write htask hpos hle =>
      refine ⟨fun hclosing => ?_, fun hshut => absurd hshut hopen⟩
      dsimp only [outbound, setTask] at hclosing
      split at hclosing <;> cases hclosing
  | writeFailed htask => exact absurd rfl hwrites
  | readEnd htask => exact ⟨fun _ => hend rfl, fun hshut => absurd hshut hopen⟩
  | shutdown htask =>
      exact ⟨fun hclosing => (by cases hclosing), fun _ => ⟨rfl, hdrained.closing htask⟩⟩

/-! ## A round -/

variable {σ : Type} (api : TcpApi σ)

theorem takeChunk_outbound (b : Bridge) : b.takeChunk.outbound = b.outbound := by
  unfold takeChunk
  split
  · split
    · rfl
    · split <;> rfl
  · rfl

theorem flush_outbound (s : σ) (b : Bridge) : (flush api s b).2.outbound = b.outbound := by
  unfold flush
  split
  · split <;> rfl
  · rfl

/-- A round changes the direction towards the target only by what it places. -/
theorem service_outbound (s : σ) (b : Bridge) :
    (b.service api s).2.1.outbound = (pull api s b).2.outbound := by
  change (flush api (pull api s b).1 (pull api s b).2.takeChunk).2.outbound = _
  rw [flush_outbound, takeChunk_outbound]

theorem service_accounted {s : σ} {b : Bridge} (haccounted : b.outbound.Accounted) :
    (b.service api s).2.1.outbound.Accounted := by
  obtain ⟨chunks, hplaced, hnonempty, _⟩ := pull_spec api s b
  rw [service_outbound, hplaced]
  refine ⟨?_, ?_, haccounted.shut⟩
  · have hbefore := haccounted.placed_eq
    simp only [outbound, placeAll, List.flatten_append] at hbefore ⊢
    rw [hbefore]
    simp only [List.append_assoc]
  · intro chunk hchunk
    rcases List.mem_append.mp hchunk with hold | hnew
    · exact haccounted.nonempty chunk hold
    · exact hnonempty chunk hnew

theorem service_drained {s : σ} {b : Bridge} (hdrained : b.outbound.Drained)
    (hround : b.conn.task = .closing → api.canRecv s = false) :
    (b.service api s).2.1.outbound.Drained := by
  obtain ⟨chunks, hplaced, _, hnone⟩ := pull_spec api s b
  rw [service_outbound, hplaced]
  constructor
  · intro hclosing
    change b.conn.toTarget ++ chunks = []
    rw [hnone (.inr (hround hclosing)), List.append_nil]
    exact hdrained.closing hclosing
  · intro hshut
    obtain ⟨hended, hqueue⟩ := hdrained.shut hshut
    refine ⟨hended, ?_⟩
    change b.conn.toTarget ++ chunks = []
    rw [hnone (.inl hended), List.append_nil]
    exact hqueue

end Bridge

namespace Plane

variable {σ : Type} (api : TcpApi σ)

/-- No write to a stream fails. -/
def Discipline.writesSucceed : Discipline σ := ⟨fun _ _ => True, fun _ event => event ≠ .writeFailed⟩

/-- No write to a stream fails, a task reads the end of its stream only when no
chunk is queued for it, and no bytes wait in the socket of a connection that is
serviced between the end of the loop of its task and the shutdown. -/
def Discipline.drained : Discipline σ where
  round s b := b.conn.task = .closing → api.canRecv s = false
  event b event := event ≠ .writeFailed ∧ (event = .readEnd → b.conn.toTarget = [])

theorem Reachable.accounted {plane : Plane σ} (hreach : Reachable api .writesSucceed plane) :
    ∀ h b, plane.conns.get? h = some b → b.outbound.Accounted := by
  refine hreach.bridges api ?_ ?_ ?_
  · intro conn hconn
    exact Bridge.accounted_new hconn
  · intro s b _ haccounted
    exact Bridge.service_accounted api haccounted
  · intro b event b' hwrites haccounted hstep
    exact Bridge.taskStep_accounted haccounted hwrites hstep

theorem Reachable.drained {plane : Plane σ} (hreach : Reachable api (.drained api) plane) :
    ∀ h b, plane.conns.get? h = some b → b.outbound.Drained := by
  refine hreach.bridges api ?_ ?_ ?_
  · intro conn hconn
    exact Bridge.drained_new hconn
  · intro s b hround hdrained
    exact Bridge.service_drained api hdrained hround
  · intro b event b' hevent hdrained hstep
    exact Bridge.taskStep_drained hdrained hevent.1 hevent.2 hstep

/-- Without failing writes, the bytes written before the shutdown are all that
were placed if and only if no chunk is left in the channel. -/
theorem Reachable.written_eq_placed_iff {plane : Plane σ}
    (hreach : Reachable api .writesSucceed plane) {h : Handle} {b : Bridge}
    (hb : plane.conns.get? h = some b) (hshut : b.ledger.shut = true) :
    b.ledger.written = b.ledger.placed ↔ b.conn.toTarget = [] :=
  (hreach.accounted api h b hb).written_eq_iff hshut

theorem Reachable.written_eq_placed {plane : Plane σ}
    (hreach : Reachable api (.drained api) plane) {h : Handle} {b : Bridge}
    (hb : plane.conns.get? h = some b) (hshut : b.ledger.shut = true) :
    b.ledger.written = b.ledger.placed := by
  have hwrites : Reachable api .writesSucceed plane := by
    refine Reachable.mono api (fun _ _ _ => trivial) ?_ hreach
    intro b event hevent
    exact hevent.1
  exact (hwrites.written_eq_placed_iff api hb hshut).mpr ((hreach.drained api h b hb).shut hshut).2

end Plane

end Newt.Proxy
