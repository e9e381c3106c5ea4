import Newt.Proxy.Roles

/-! # Backpressure

Neither side of a bridge runs ahead of the other without a bound. A pass takes
bytes from the socket only into a free slot of the channel to the target, and the
task reads from its stream only after the chunk before found a slot. So what was
read from the stream and not accepted by the socket is pending, in sixteen slots,
or in the hands of the task, and each of these holds one read buffer at most. In
the other direction, the socket hands out at most its receive buffer for a slot.
-/

namespace Newt.Proxy

open Foundation Stack Site

/-- The bytes of the chunk at hand that are not written. A task that has left its
loop may have dropped a whole chunk in a failed write. -/
def Task.held (cap : Nat) : Task → Nat
  | .writing rest => rest.length
  | .closing => cap
  | .ended => cap
  | _ => 0

theorem flatten_length_le {chunks : List Bytes} {cap : Nat}
    (hchunks : ∀ chunk ∈ chunks, chunk.length ≤ cap) :
    chunks.flatten.length ≤ chunks.length * cap := by
  induction chunks with
  | nil => exact Nat.zero_le _
  | cons chunk rest ih =>
      obtain ⟨hchunk, hrest⟩ := List.forall_mem_cons.mp hchunks
      have hlater := ih hrest
      rw [List.flatten_cons, List.length_append, List.length_cons, Nat.add_one_mul]
      omega

namespace Bridge

/-- What each place of a bridge holds at most, where the chunks of the socket have
`cap` bytes at most. -/
structure Bounded (cap : Nat) (b : Bridge) : Prop where
  toTarget_slots : b.conn.toTarget.length ≤ channelSlots
  toTarget_chunks : ∀ chunk ∈ b.conn.toTarget, chunk.length ≤ cap
  held : b.conn.task.held cap ≤ cap
  placed_le : b.ledger.placed.length ≤
    b.ledger.written.length + b.conn.task.held cap + b.conn.toTarget.flatten.length
  fromTarget_slots : b.conn.fromTarget.length ≤ channelSlots
  fromTarget_chunks : ∀ chunk ∈ b.conn.fromTarget, chunk.length ≤ readBuf
  sending : b.conn.task.inFlight.length ≤ readBuf
  pending : b.pending.length ≤ readBuf

variable {cap : Nat}

theorem bounded_new {conn : Conn} (hconn : conn.Spawned) : (Bridge.new conn).Bounded cap := by
  rcases hconn with ⟨target, rfl⟩ | rfl
  all_goals
    constructor <;> simp [Bridge.new, spawnTcp, bridgeStream, Task.held, Task.inFlight]

/-! ## The task -/

/-- An event that only moves the task on. -/
theorem Bounded.setTask {b : Bridge} (hbounded : b.Bounded cap) {task : Task}
    (hheld : task.held cap ≤ cap) (hmore : b.conn.task.held cap ≤ task.held cap)
    (hsending : task.inFlight = []) : (b.setTask task).Bounded cap where
  toTarget_slots := hbounded.toTarget_slots
  toTarget_chunks := hbounded.toTarget_chunks
  held := hheld
  placed_le := by
    have hplaced := hbounded.placed_le
    simp only [Bridge.setTask]
    omega
  fromTarget_slots := hbounded.fromTarget_slots
  fromTarget_chunks := hbounded.fromTarget_chunks
  sending := by simp [Bridge.setTask, hsending]
  pending := hbounded.pending

theorem Bounded.taskStep {b b' : Bridge} {event : TaskEvent} (hbounded : b.Bounded cap)
    (hstep : b.taskStep event = some b') : b'.Bounded cap := by
  have hplaced := hbounded.placed_le
  have hheld := hbounded.held
  cases taskStep_move hstep with
  | connected htask | connectFailed htask | readEnd htask =>
      refine hbounded.setTask ?_ ?_ rfl <;> simp [htask, Task.held]
  | writeFailed htask => exact hbounded.setTask (Nat.le_refl cap) hheld rfl
  | @receive chunk rest htask hqueue =>
      have hslots := hbounded.toTarget_slots
      have hchunks := hbounded.toTarget_chunks
      rw [hqueue] at hslots hchunks hplaced
      rw [htask] at hplaced
      obtain ⟨hchunk, hrest⟩ := List.forall_mem_cons.mp hchunks
      have htaken : (if chunk = [] then Task.selecting else .writing chunk).held cap =
          chunk.length := by
        by_cases hempty : chunk = [] <;> simp [hempty, Task.held]
      refine ⟨Nat.le_of_succ_le hslots, hrest, ?_, ?_, hbounded.fromTarget_slots,
        hbounded.fromTarget_chunks, ?_, hbounded.pending⟩
      · rw [htaken]
        exact hchunk
      · simp only [Task.held, List.flatten_cons, List.length_append] at hplaced
        simp only [htaken]
        omega
      · by_cases hempty : chunk = [] <;> simp [hempty, Task.inFlight]
  | @write n rest htask hpos hle =>
      rw [htask, Task.held] at hheld hplaced
      -- the task keeps what it did not write
      have hleft : (if n = rest.length then Task.selecting else .writing (rest.drop n)).held cap =
          rest.length - n := by
        by_cases hall : n = rest.length <;> simp [hall, Task.held]
      refine ⟨hbounded.toTarget_slots, hbounded.toTarget_chunks, ?_, ?_, hbounded.fromTarget_slots,
        hbounded.fromTarget_chunks, ?_, hbounded.pending⟩
      · simp only [Bridge.setTask, hleft]
        omega
      · simp only [Bridge.setTask, hleft, List.length_append, List.length_take]
        omega
      · by_cases hall : n = rest.length <;> simp [hall, Bridge.setTask, Task.inFlight]
  | @read data htask hdata hle =>
      rw [htask] at hplaced
      exact ⟨hbounded.toTarget_slots, hbounded.toTarget_chunks, Nat.zero_le cap, hplaced,
        hbounded.fromTarget_slots, hbounded.fromTarget_chunks, hle, hbounded.pending⟩
  | @send chunk htask hslot =>
      have hsending := hbounded.sending
      rw [htask] at hplaced hsending
      refine ⟨hbounded.toTarget_slots, hbounded.toTarget_chunks, Nat.zero_le cap, hplaced, ?_, ?_,
        Nat.zero_le readBuf, hbounded.pending⟩
      · rw [List.length_append]
        exact hslot
      · intro c hc
        rcases List.mem_append.mp hc with hold | hnew
        · exact hbounded.fromTarget_chunks c hold
        · rw [List.mem_singleton.mp hnew]
          exact hsending
  | shutdown htask =>
      rw [htask] at hplaced
      exact ⟨hbounded.toTarget_slots, hbounded.toTarget_chunks, Nat.le_refl cap, hplaced,
        hbounded.fromTarget_slots, hbounded.fromTarget_chunks, Nat.zero_le readBuf,
        hbounded.pending⟩

/-! ## A round -/

variable {σ : Type} (api : TcpApi σ)

section Pull

variable (hcap : ∀ s chunk s', api.recv s = some (chunk, s') → chunk.length ≤ cap)

include hcap

theorem pullLoop_bounded (free : Nat) (s : σ) (b : Bridge) :
    ∃ chunks : List Bytes, (pullLoop api free s b).2 = b.placeAll chunks ∧
      chunks.length ≤ free ∧ ∀ chunk ∈ chunks, chunk.length ≤ cap := by
  induction free generalizing s b with
  | zero => exact ⟨[], b.placeAll_nil.symm, Nat.le_refl 0, by simp⟩
  | succ free ih =>
      unfold pullLoop
      split
      · split
        · exact ⟨[], b.placeAll_nil.symm, Nat.zero_le _, by simp⟩
        · next chunk s' hrecv =>
            split
            · exact ⟨[], b.placeAll_nil.symm, Nat.zero_le _, by simp⟩
            · obtain ⟨chunks, hplaced, hcount, hchunks⟩ := ih s' (b.place chunk)
              refine ⟨chunk :: chunks, ?_, Nat.succ_le_succ hcount, ?_⟩
              · rw [hplaced, placeAll_place]
              · exact List.forall_mem_cons.mpr ⟨hcap s chunk s' hrecv, hchunks⟩
      · exact ⟨[], b.placeAll_nil.symm, Nat.zero_le _, by simp⟩

/-- A pass fills free slots only. -/
theorem Bounded.pull {b : Bridge} (hbounded : b.Bounded cap) (s : σ) :
    (pull api s b).2.Bounded cap := by
  unfold Bridge.pull
  split
  · exact hbounded
  · obtain ⟨chunks, hplaced, hcount, hchunks⟩ :=
      pullLoop_bounded api hcap (channelSlots - b.conn.toTarget.length) s b
    have hslots := hbounded.toTarget_slots
    have hbefore := hbounded.placed_le
    rw [hplaced]
    refine ⟨?_, ?_, hbounded.held, ?_, hbounded.fromTarget_slots, hbounded.fromTarget_chunks,
      hbounded.sending, hbounded.pending⟩
    · simp only [placeAll, List.length_append]
      omega
    · intro chunk hchunk
      rcases List.mem_append.mp hchunk with hold | hnew
      · exact hbounded.toTarget_chunks chunk hold
      · exact hchunks chunk hnew
    · simp only [placeAll, List.length_append, List.flatten_append]
      omega

end Pull

theorem Bounded.takeChunk {b : Bridge} (hbounded : b.Bounded cap) : b.takeChunk.Bounded cap := by
  unfold Bridge.takeChunk
  split
  · split
    · next chunk rest hqueue =>
        have hslots := hbounded.fromTarget_slots
        have hchunks := hbounded.fromTarget_chunks
        rw [hqueue] at hslots hchunks
        obtain ⟨hchunk, hrest⟩ := List.forall_mem_cons.mp hchunks
        exact ⟨hbounded.toTarget_slots, hbounded.toTarget_chunks, hbounded.held,
          hbounded.placed_le, Nat.le_of_succ_le hslots, hrest, hbounded.sending, hchunk⟩
    · split
      · exact ⟨hbounded.toTarget_slots, hbounded.toTarget_chunks, hbounded.held,
          hbounded.placed_le, hbounded.fromTarget_slots, hbounded.fromTarget_chunks,
          hbounded.sending, hbounded.pending⟩
      · exact hbounded
  · exact hbounded

theorem Bounded.flush {b : Bridge} (hbounded : b.Bounded cap) (s : σ) :
    (flush api s b).2.Bounded cap := by
  unfold Bridge.flush
  split
  · split
    · exact hbounded
    · next sent _ _ =>
        refine ⟨hbounded.toTarget_slots, hbounded.toTarget_chunks, hbounded.held,
          hbounded.placed_le, hbounded.fromTarget_slots, hbounded.fromTarget_chunks,
          hbounded.sending, ?_⟩
        rw [List.length_drop]
        exact Nat.le_trans (Nat.sub_le _ _) hbounded.pending
  · exact hbounded

/-! ## What the bounds add up to -/

/-- The bytes placed in the channel and not written. -/
theorem Bounded.placed_bound {b : Bridge} (hbounded : b.Bounded cap) :
    b.ledger.placed.length ≤ b.ledger.written.length + (channelSlots + 1) * cap := by
  have hqueue := flatten_length_le hbounded.toTarget_chunks
  have hslots := Nat.mul_le_mul_right cap hbounded.toTarget_slots
  have hheld := hbounded.held
  have hplaced := hbounded.placed_le
  rw [Nat.add_mul]
  omega

/-- The bytes read from the stream and not accepted by the socket. -/
theorem Bounded.read_bound {b : Bridge} (hbounded : b.Bounded cap) (hintact : b.Intact) :
    b.ledger.read.length ≤ b.ledger.accepted.length + (channelSlots + 2) * readBuf := by
  have hqueue := flatten_length_le hbounded.fromTarget_chunks
  have hslots := Nat.mul_le_mul_right readBuf hbounded.fromTarget_slots
  have hsending := hbounded.sending
  have hpending := hbounded.pending
  rw [hintact.read_eq, Nat.add_mul]
  simp only [List.length_append]
  omega

end Bridge

variable {σ : Type} (alloc : Allocator) (api : TcpApi σ) {plane : Plane σ} {cap : Nat}

theorem Plane.Reachable.bounded
    (hcap : ∀ s chunk s', api.recv s = some (chunk, s') → chunk.length ≤ cap)
    (hreach : Plane.Reachable api .any plane) :
    ∀ h b, plane.conns.get? h = some b → b.Bounded cap := by
  refine hreach.bridges api ?_ ?_ ?_
  · intro conn hconn
    exact Bridge.bounded_new hconn
  · intro s b _ hbounded
    exact (hbounded.pull api hcap s).takeChunk.flush api _
  · intro b event b' _ hbounded hstep
    exact hbounded.taskStep hstep

/-- In both roles, a connection whose socket hands out chunks of at most `cap`
bytes keeps at most eighteen read buffers of bytes from its stream, and at most
seventeen chunks of bytes for it, whatever the two sides do. -/
theorem OfRole.backpressure
    (hcap : ∀ s chunk s', api.recv s = some (chunk, s') → chunk.length ≤ cap)
    (hrole : OfRole alloc api .any plane) {h : Handle} {b : Bridge}
    (hb : plane.conns.get? h = some b) :
    b.ledger.read.length ≤ b.ledger.accepted.length + 18 * readBuf ∧
      b.ledger.placed.length ≤ b.ledger.written.length + 17 * cap := by
  have hbounded := hrole.reachable.bounded api hcap h b hb
  exact ⟨hbounded.read_bound (hrole.reachable.intact api h b hb), hbounded.placed_bound⟩

/-- A socket that hands out at most a receive buffer of a site at once. -/
def slicedApi : TcpApi BufferedSocket where
  __ := bufferedApi
  recv s :=
    if s.state = .established ∨ s.state = .finWait then
      some (s.rx.take 4096, { s with rx := s.rx.drop 4096 })
    else none

theorem slicedApi_recv (s : BufferedSocket) (chunk : Bytes) (s' : BufferedSocket)
    (hrecv : slicedApi.recv s = some (chunk, s')) : chunk.length ≤ 4096 := by
  simp only [slicedApi] at hrecv
  split at hrecv
  · cases hrecv
    rw [List.length_take]
    exact Nat.min_le_left _ _
  · cases hrecv

/-- A request is queued for the target, and the task holds a greeting for the
client. -/
def greeting : Bridge :=
  ⟨⟨[[71, 69]], [], .sending [72, 105]⟩, [], false, ⟨[72, 105], [], [71, 69], [], false⟩⟩

theorem OfRole.backpressure_greeting :
    ∃ d : DataPlane BufferedSocket, OfRole .firstFree slicedApi .any d.toPlane ∧
      d.conns.get? 0 = some greeting ∧
      greeting.ledger.read.length ≤ greeting.ledger.accepted.length + 18 * readBuf ∧
      greeting.ledger.placed.length ≤ greeting.ledger.written.length + 17 * 4096 := by
  have hup : DataPlane.bringUp .firstFree slicedApi ["80:10.0.0.1:8080"] =
      .ok DataPlane.webSite := rfl
  have hrun : DataPlane.webSite.run .firstFree slicedApi
      [.poll fun _ s => { s with state := .established, rx := [71, 69] }, .acceptNew,
        .task 0 .connected, .task 0 (.read [72, 105]), .shuttle .inserted] = .ok _ := rfl
  have hrole := OfRole.site (DataPlane.Reachable.run _ _ (.bringUp hup)
    (DataPlane.runAllowed_any _ _ _ _) hrun)
  exact ⟨_, hrole, rfl, hrole.backpressure _ _ slicedApi_recv (h := 0) rfl⟩

end Newt.Proxy
