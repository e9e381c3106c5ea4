import Newt.Stack.SocketSet

/-! # Bridged connections

A bridge joins a socket of the stack to a real TCP stream. The stream belongs to
a task of its own, and two bounded channels connect the task with the loop that
services the sockets. `spawn_tcp` and `bridge_stream` run the same task, which
starts with a dial in the first and with an open stream in the second.

A bridge carries a ledger of the bytes that passed its ends. Nothing in the
program reads it.
-/

namespace Newt.Proxy

open Foundation Stack

abbrev Bytes := List UInt8

/-- Slots of each channel. -/
def channelSlots : Nat := 16

/-- The length of the read buffer of a task. -/
def readBuf : Nat := 8192

/-- Where the task of a connection is. -/
inductive Task where
  /-- Dialling the target. -/
  | connecting (target : String)
  /-- Waiting for a chunk to write or for bytes to read. -/
  | selecting
  /-- Inside `write_all`, with this much still to write. -/
  | writing (rest : Bytes)
  /-- Waiting for a slot to send the chunk it read. -/
  | sending (chunk : Bytes)
  /-- Past the loop, before the end of `shutdown`. The channels are still open. -/
  | closing
  | ended
  deriving DecidableEq, Repr

/-- The bytes that passed the ends of a bridge so far. -/
structure Ledger where
  /-- Read from the stream. -/
  read : Bytes
  /-- Accepted by the socket. -/
  accepted : Bytes
  /-- Taken from the socket and placed in the channel to the target. -/
  placed : Bytes
  /-- Written to the stream. -/
  written : Bytes
  /-- The stream was shut down. -/
  shut : Bool
  deriving DecidableEq, Repr

/-- The two channels of a connection and the task at their other ends. -/
structure Conn where
  toTarget : List Bytes
  fromTarget : List Bytes
  task : Task
  deriving DecidableEq, Repr

/-- `pending` holds at most one chunk that did not fit in the socket yet. -/
structure Bridge where
  conn : Conn
  pending : Bytes
  targetDone : Bool
  ledger : Ledger
  deriving DecidableEq, Repr

def spawnTcp (target : String) : Conn := ⟨[], [], .connecting target⟩

def bridgeStream : Conn := ⟨[], [], .selecting⟩

/-- The connections that a bridge starts with. -/
def Conn.Spawned (conn : Conn) : Prop := (∃ target, conn = spawnTcp target) ∨ conn = bridgeStream

def Bridge.new (conn : Conn) : Bridge := ⟨conn, [], false, ⟨[], [], [], [], false⟩⟩

/-! ## The task -/

/-- What can happen to the task while its bridge exists. -/
inductive TaskEvent where
  | connected
  | connectFailed
  /-- `select!` takes the next chunk for the stream. -/
  | receive
  /-- The stream takes some bytes of the chunk. -/
  | write (n : Nat)
  | writeFailed
  /-- `select!` takes bytes from the stream. -/
  | read (data : Bytes)
  /-- The end of the stream, or an error. -/
  | readEnd
  /-- A slot is free for the chunk that was read. -/
  | send
  | shutdown
  deriving DecidableEq, Repr

namespace Bridge

def setTask (b : Bridge) (task : Task) : Bridge := { b with conn := { b.conn with task := task } }

/-- The bridge after an event of its task, if the event is possible. -/
def taskStep (b : Bridge) : TaskEvent → Option Bridge
  | .connected =>
      match b.conn.task with
      | .connecting _ => some (b.setTask .selecting)
      | _ => none
  | .connectFailed =>
      match b.conn.task with
      | .connecting _ => some (b.setTask .ended)
      | _ => none
  | .receive =>
      match b.conn.task, b.conn.toTarget with
      | .selecting, chunk :: rest =>
          -- `write_all` of an empty chunk returns at once
          some { b with conn :=
            { b.conn with toTarget := rest, task := if chunk = [] then .selecting else .writing chunk } }
      | _, _ => none
  | .write n =>
      match b.conn.task with
      | .writing rest =>
          if 0 < n ∧ n ≤ rest.length then
            some { b.setTask (if n = rest.length then .selecting else .writing (rest.drop n)) with
              ledger := { b.ledger with written := b.ledger.written ++ rest.take n } }
          else none
      | _ => none
  | .writeFailed =>
      match b.conn.task with
      | .writing _ => some (b.setTask .closing)
      | _ => none
  | .read data =>
      match b.conn.task with
      | .selecting =>
          if data ≠ [] ∧ data.length ≤ readBuf then
            some { b.setTask (.sending data) with
              ledger := { b.ledger with read := b.ledger.read ++ data } }
          else none
      | _ => none
  | .readEnd =>
      match b.conn.task with
      | .selecting => some (b.setTask .closing)
      | _ => none
  | .send =>
      match b.conn.task with
      | .sending chunk =>
          if b.conn.fromTarget.length < channelSlots then
            some { b with conn :=
              { b.conn with fromTarget := b.conn.fromTarget ++ [chunk], task := .selecting } }
          else none
      | _ => none
  | .shutdown =>
      match b.conn.task with
      | .closing => some { b.setTask .ended with ledger := { b.ledger with shut := true } }
      | _ => none

/-- The possible events of a task with their effects. -/
inductive Move (b : Bridge) : TaskEvent → Bridge → Prop
  | connected {target : String} (htask : b.conn.task = .connecting target) :
      Move b .connected (b.setTask .selecting)
  | connectFailed {target : String} (htask : b.conn.task = .connecting target) :
      Move b .connectFailed (b.setTask .ended)
  | receive {chunk : Bytes} {rest : List Bytes} (htask : b.conn.task = .selecting)
      (hqueue : b.conn.toTarget = chunk :: rest) :
      Move b .receive { b with conn :=
        { b.conn with toTarget := rest, task := if chunk = [] then .selecting else .writing chunk } }
  | write {n : Nat} {rest : Bytes} (htask : b.conn.task = .writing rest) (hpos : 0 < n)
      (hle : n ≤ rest.length) :
      Move b (.write n)
        { b.setTask (if n = rest.length then .selecting else .writing (rest.drop n)) with
          ledger := { b.ledger with written := b.ledger.written ++ rest.take n } }
  | writeFailed {rest : Bytes} (htask : b.conn.task = .writing rest) :
      Move b .writeFailed (b.setTask .closing)
  | read {data : Bytes} (htask : b.conn.task = .selecting) (hdata : data ≠ [])
      (hle : data.length ≤ readBuf) :
      Move b (.read data)
        { b.setTask (.sending data) with
          ledger := { b.ledger with read := b.ledger.read ++ data } }
  | readEnd (htask : b.conn.task = .selecting) : Move b .readEnd (b.setTask .closing)
  | send {chunk : Bytes} (htask : b.conn.task = .sending chunk)
      (hslot : b.conn.fromTarget.length < channelSlots) :
      Move b .send { b with conn :=
        { b.conn with fromTarget := b.conn.fromTarget ++ [chunk], task := .selecting } }
  | shutdown (htask : b.conn.task = .closing) :
      Move b .shutdown { b.setTask .ended with ledger := { b.ledger with shut := true } }

theorem taskStep_move {b b' : Bridge} {event : TaskEvent} (hstep : b.taskStep event = some b') :
    Move b event b' := by
  cases event with
  | connected | connectFailed | writeFailed | readEnd | shutdown =>
      simp only [taskStep] at hstep
      split at hstep
      · next htask =>
          cases hstep
          constructor
          exact htask
      · cases hstep
  | receive =>
      simp only [taskStep] at hstep
      split at hstep
      · next htask hqueue =>
          cases hstep
          exact .receive htask hqueue
      · cases hstep
  | write n =>
      simp only [taskStep] at hstep
      split at hstep
      · next htask =>
          split at hstep
          · next hn =>
              cases hstep
              exact .write htask hn.1 hn.2
          · cases hstep
      · cases hstep
  | read data =>
      simp only [taskStep] at hstep
      split at hstep
      · next htask =>
          split at hstep
          · next hdata =>
              cases hstep
              exact .read htask hdata.1 hdata.2
          · cases hstep
      · cases hstep
  | send =>
      simp only [taskStep] at hstep
      split at hstep
      · next htask =>
          split at hstep
          · next hslot =>
              cases hstep
              exact .send htask hslot
          · cases hstep
      · cases hstep

/-- Nothing happens to a task that has ended. -/
theorem taskStep_ended {b : Bridge} (hended : b.conn.task = .ended) (event : TaskEvent) :
    b.taskStep event = none := by
  cases event <;> simp [taskStep, hended]

/-! ## One pass of the loop over a connection -/

variable {σ : Type} (api : TcpApi σ)

def place (b : Bridge) (chunk : Bytes) : Bridge :=
  { b with
    conn := { b.conn with toTarget := b.conn.toTarget ++ [chunk] }
    ledger := { b.ledger with placed := b.ledger.placed ++ chunk } }

/-- Move chunks from the socket to the channel, as long as one of `free` slots
is left and the socket has bytes. -/
def pullLoop : Nat → σ → Bridge → σ × Bridge
  | 0, s, b => (s, b)
  | free + 1, s, b =>
      if api.canRecv s then
        match api.recv s with
        | none => (s, b)
        | some (chunk, s) => if chunk = [] then (s, b) else pullLoop free s (b.place chunk)
      else (s, b)

/-- Nothing is taken from the socket when the channel is full or closed. -/
def pull (s : σ) (b : Bridge) : σ × Bridge :=
  -- the receiving end of the channel goes with the task
  if b.conn.task = .ended then (s, b)
  else pullLoop api (channelSlots - b.conn.toTarget.length) s b

/-- Take the next chunk from the task, once the previous one is flushed. A
closed channel without chunks means that the target is done. -/
def takeChunk (b : Bridge) : Bridge :=
  if b.pending = [] then
    match b.conn.fromTarget with
    | chunk :: rest =>
        { b with pending := chunk, conn := { b.conn with fromTarget := rest } }
    | [] => if b.conn.task = .ended then { b with targetDone := true } else b
  else b

/-- Offer the pending bytes to the socket and keep the rest. -/
def flush (s : σ) (b : Bridge) : σ × Bridge :=
  if b.pending ≠ [] ∧ api.canSend s then
    match api.sendSlice b.pending s with
    | none => (s, b)
    | some (sent, s) =>
        (s, { b with
          pending := b.pending.drop sent
          ledger := { b.ledger with accepted := b.ledger.accepted ++ b.pending.take sent } })
  else (s, b)

/-- Close the socket once the target is done and everything is flushed. The
result says whether `close` was called. -/
def halfClose (s : σ) (b : Bridge) : σ × Bool :=
  if b.targetDone ∧ b.pending = [] ∧ api.isOpen s then (api.close s, true) else (s, false)

/-- All of a pass over one connection but the reaping. -/
def service (s : σ) (b : Bridge) : σ × Bridge × Bool :=
  let (s, b) := pull api s b
  let b := takeChunk b
  let (s, b) := flush api s b
  let (s, closed) := halfClose api s b
  (s, b, closed)

/-! ## What a pass does to the direction towards the target -/

/-- The bridge with more chunks placed in the channel. -/
def placeAll (b : Bridge) (chunks : List Bytes) : Bridge :=
  { b with
    conn := { b.conn with toTarget := b.conn.toTarget ++ chunks }
    ledger := { b.ledger with placed := b.ledger.placed ++ chunks.flatten } }

theorem placeAll_nil (b : Bridge) : b.placeAll [] = b := by
  simp [placeAll]

theorem placeAll_place (b : Bridge) (chunk : Bytes) (chunks : List Bytes) :
    (b.place chunk).placeAll chunks = b.placeAll (chunk :: chunks) := by
  simp [placeAll, place]

theorem pullLoop_spec (free : Nat) (s : σ) (b : Bridge) :
    ∃ chunks : List Bytes, (pullLoop api free s b).2 = b.placeAll chunks ∧
      (∀ chunk ∈ chunks, chunk ≠ []) ∧ (api.canRecv s = false → chunks = []) := by
  induction free generalizing s b with
  | zero => exact ⟨[], b.placeAll_nil.symm, by simp, fun _ => rfl⟩
  | succ free ih =>
      unfold pullLoop
      split
      · next hrecv =>
          split
          · exact ⟨[], b.placeAll_nil.symm, by simp, fun _ => rfl⟩
          · next chunk s' _ =>
              split
              · exact ⟨[], b.placeAll_nil.symm, by simp, fun _ => rfl⟩
              · next hchunk =>
                  obtain ⟨chunks, hplaced, hnonempty, _⟩ := ih s' (b.place chunk)
                  refine ⟨chunk :: chunks, ?_, ?_, ?_⟩
                  · rw [hplaced, placeAll_place]
                  · simpa [hchunk] using hnonempty
                  · intro hnone
                    rw [hrecv] at hnone
                    cases hnone
      · exact ⟨[], b.placeAll_nil.symm, by simp, fun _ => rfl⟩

/-- A pass places chunks that are not empty, and none when the task has ended or
the socket has no bytes. -/
theorem pull_spec (s : σ) (b : Bridge) :
    ∃ chunks : List Bytes, (pull api s b).2 = b.placeAll chunks ∧
      (∀ chunk ∈ chunks, chunk ≠ []) ∧
      (b.conn.task = .ended ∨ api.canRecv s = false → chunks = []) := by
  unfold pull
  split
  · exact ⟨[], b.placeAll_nil.symm, by simp, fun _ => rfl⟩
  · next hrunning =>
      obtain ⟨chunks, hplaced, hnonempty, hnone⟩ := pullLoop_spec api
        (channelSlots - b.conn.toTarget.length) s b
      refine ⟨chunks, hplaced, hnonempty, ?_⟩
      intro hcase
      rcases hcase with hended | hempty
      · exact absurd hended hrunning
      · exact hnone hempty

end Bridge

end Newt.Proxy
