import Newt.Proxy.HalfClose

/-! # A bridge whose peer answers late

The task of a bridge together with the buffers of its TCP stream and the peer at
the other end. One task serves both directions and awaits `write_all` inside its
`select!`, so while a write is blocked it does not read. A peer that stops
reading until its own output is consumed can then bring everything to a halt.
-/

namespace Newt.Proxy

open Foundation Stack

/-- Bytes in a buffer of the kernel. -/
structure Buffer (capacity : Nat) where
  bytes : Bytes
  fits : bytes.length ≤ capacity
  deriving DecidableEq, Repr

namespace Buffer

variable {capacity : Nat}

def empty : Buffer capacity := ⟨[], Nat.zero_le _⟩

/-- Append bytes if there is room for all of them. -/
def push (buffer : Buffer capacity) (data : Bytes) : Option (Buffer capacity) :=
  if hroom : buffer.bytes.length + data.length ≤ capacity then
    some ⟨buffer.bytes ++ data, by rwa [List.length_append]⟩
  else none

/-- Remove bytes that are at the front. -/
def pop (buffer : Buffer capacity) (data : Bytes) : Option (Buffer capacity) :=
  if data ≠ [] ∧ data <+: buffer.bytes then
    some ⟨buffer.bytes.drop data.length,
      Nat.le_trans (List.length_drop ▸ Nat.sub_le _ _) buffer.fits⟩
  else none

theorem push_eq_none {buffer : Buffer capacity} (hfull : buffer.bytes.length = capacity)
    {data : Bytes} (hdata : data ≠ []) : buffer.push data = none := by
  have hlength := List.length_pos_of_ne_nil hdata
  exact dif_neg (by omega)

end Buffer

/-- The sizes of the two buffers of a stream. -/
structure Capacity where
  send : Nat
  recv : Nat

/-- A TCP stream between a task and its peer. Bytes that arrived stay readable
after a reset. -/
structure Stream (cap : Capacity) where
  /-- Written by the task, and not read by the peer. -/
  sendBuf : Buffer cap.send
  /-- Sent by the peer, and not read by the task. -/
  recvBuf : Buffer cap.recv
  /-- The peer sends no more. -/
  finished : Bool
  reset : Bool
  deriving DecidableEq, Repr

/-- What a peer does at its end of a stream. -/
inductive PeerEvent where
  | take (data : Bytes)
  | give (data : Bytes)
  | finish
  | reset
  deriving DecidableEq, Repr

/-- A peer decides which of its events may happen next. -/
abbrev Peer (π : Type) := π → PeerEvent → Option π

namespace Stream

variable {cap : Capacity}

def opened : Stream cap := ⟨.empty, .empty, false, false⟩

/-- The stream after an event of the peer, if the stream allows it. -/
def peerStep (st : Stream cap) : PeerEvent → Option (Stream cap)
  | .take data => (st.sendBuf.pop data).map fun buffer => { st with sendBuf := buffer }
  | .give data =>
      if data ≠ [] ∧ st.finished = false ∧ st.reset = false then
        (st.recvBuf.push data).map fun buffer => { st with recvBuf := buffer }
      else none
  | .finish => some { st with finished := true }
  | .reset => some { st with reset := true }

/-- The stream after an event of the task, if the stream allows it. -/
def taskStep (st : Stream cap) (task : Task) : TaskEvent → Option (Stream cap)
  | .connected | .connectFailed => none
  | .write n =>
      (st.sendBuf.push (task.unwritten.take n)).map fun buffer => { st with sendBuf := buffer }
  | .writeFailed => if st.reset then some st else none
  | .read data => (st.recvBuf.pop data).map fun buffer => { st with recvBuf := buffer }
  | .readEnd => if st.recvBuf.bytes = [] ∧ st.finished ∨ st.reset then some st else none
  | .receive | .send | .shutdown => some st

end Stream

/-- A bridge between the socket of a tunnel connection and a peer. There is no
stream before the target is dialled. -/
structure Link (cap : Capacity) (σ π : Type) where
  socket : σ
  bridge : Bridge
  stream : Option (Stream cap)
  peer : π

inductive LinkEvent (σ : Type) where
  | task (event : TaskEvent)
  | peer (event : PeerEvent)
  /-- The loop services the connection. -/
  | service
  /-- The stack changes the socket. -/
  | socket (s : σ)

namespace Link

variable {cap : Capacity} {σ π : Type}

/-- The stream after an event of the task. A dial that succeeds opens it. -/
def streamAfter (link : Link cap σ π) (event : TaskEvent) : Option (Option (Stream cap)) :=
  match link.stream with
  | some st => (st.taskStep link.bridge.conn.task event).map some
  | none =>
      match event with
      | .connected => some (some .opened)
      | .connectFailed => some none
      | _ => none

variable (api : TcpApi σ) (peer : Peer π)

def step (link : Link cap σ π) : LinkEvent σ → Option (Link cap σ π)
  | .task event =>
      match link.bridge.taskStep event, link.streamAfter event with
      | some b, some stream => some { link with bridge := b, stream := stream }
      | _, _ => none
  | .peer event =>
      match link.stream with
      | none => none
      | some st =>
          match st.peerStep event, peer link.peer event with
          | some st, some p => some { link with stream := some st, peer := p }
          | _, _ => none
  | .service =>
      let (s, b, _) := link.bridge.service api link.socket
      some { link with socket := s, bridge := b }
  | .socket s => some { link with socket := s }

/-- The states of a bridge that dials its target or starts with an accepted
stream. -/
inductive Reachable : Link cap σ π → Prop
  | dial (s : σ) (target : String) (p : π) : Reachable ⟨s, .new (spawnTcp target), none, p⟩
  | accept (s : σ) (p : π) : Reachable ⟨s, .new bridgeStream, some .opened, p⟩
  | step {link next : Link cap σ π} (event : LinkEvent σ) (prior : Reachable link)
      (hstep : link.step api peer event = some next) : Reachable next

/-- The next step of the bytes from the stream is possible: the task reads, or it
hands over what it has read. -/
def Forwards (link : Link cap σ π) : Prop :=
  (∃ data next, link.step api peer (.task (.read data)) = some next) ∨
    ∃ next, link.step api peer (.task .send) = some next

/-- Nothing but the socket can change any more. -/
def Stuck (link : Link cap σ π) : Prop :=
  ∀ event next, link.step api peer event = some next →
    next.bridge = link.bridge ∧ next.stream = link.stream ∧ next.peer = link.peer

variable {api peer} {link next : Link cap σ π}

/-! ## When the bytes from the stream move -/

theorem step_task (api : TcpApi σ) (peer : Peer π) {event : TaskEvent} {b : Bridge}
    {stream : Option (Stream cap)} (hb : link.bridge.taskStep event = some b)
    (hstream : link.streamAfter event = some stream) :
    link.step api peer (.task event) = some { link with bridge := b, stream := stream } := by
  simp only [step, hb, hstream]

theorem step_task_eq_some {event : TaskEvent}
    (hstep : link.step api peer (.task event) = some next) :
    ∃ b stream, link.bridge.taskStep event = some b ∧ link.streamAfter event = some stream ∧
      next = { link with bridge := b, stream := stream } := by
  simp only [step] at hstep
  split at hstep
  · next b stream hb hstream =>
      cases hstep
      exact ⟨b, stream, hb, hstream, rfl⟩
  · cases hstep

theorem step_peer_eq_some {event : PeerEvent}
    (hstep : link.step api peer (.peer event) = some next) :
    ∃ st after p, link.stream = some st ∧ st.peerStep event = some after ∧
      peer link.peer event = some p ∧ next = { link with stream := some after, peer := p } := by
  simp only [step] at hstep
  split at hstep
  · cases hstep
  · next st hst =>
      split at hstep
      · next after p hafter hp =>
          cases hstep
          exact ⟨st, after, p, hst, hafter, hp, rfl⟩
      · cases hstep

theorem step_service (link : Link cap σ π) :
    link.step api peer .service = some { link with
      socket := (link.bridge.service api link.socket).1
      bridge := (link.bridge.service api link.socket).2.1 } := rfl

theorem service_task (s : σ) (b : Bridge) : (b.service api s).2.1.conn.task = b.conn.task := by
  obtain ⟨chunks, hplaced, _⟩ := Bridge.pull_spec api s b
  have hround := congrArg Outbound.task (Bridge.service_outbound api s b)
  rw [hplaced] at hround
  exact hround

theorem taskStep_not_connecting {b b' : Bridge} {event : TaskEvent}
    (hstep : b.taskStep event = some b') (target : String) :
    b'.conn.task ≠ .connecting target := by
  intro hdialling
  cases Bridge.taskStep_move hstep <;> dsimp only [Bridge.setTask] at hdialling <;>
    first | cases hdialling | (split at hdialling <;> cases hdialling)

/-- A task that has a stream is past its dial. -/
theorem Reachable.not_connecting (hreach : Reachable api peer link) (hstream : link.stream ≠ none)
    (target : String) : link.bridge.conn.task ≠ .connecting target := by
  induction hreach with
  | dial s target p => exact absurd rfl hstream
  | accept s p =>
      intro hdialling
      cases hdialling
  | @step link next event _ hstep ih =>
      cases event with
      | task event =>
          obtain ⟨b, stream, hb, _, rfl⟩ := step_task_eq_some hstep
          exact taskStep_not_connecting hb target
      | peer event =>
          obtain ⟨st, _, _, hst, _, _, rfl⟩ := step_peer_eq_some hstep
          exact ih (by rw [hst]; exact Option.some_ne_none st)
      | service =>
          rw [step_service, Option.some_inj] at hstep
          subst hstep
          rw [service_task]
          exact ih hstream
      | socket s =>
          cases hstep
          exact ih hstream

/-- The bytes from the stream move while the task waits in its `select!` or for
a slot. -/
def Serving (link : Link cap σ π) : Prop :=
  link.bridge.conn.task = .selecting ∨ ∃ chunk, link.bridge.conn.task = .sending chunk

theorem Forwards.serving (hforwards : link.Forwards api peer) : link.Serving := by
  rcases hforwards with ⟨data, next, hstep⟩ | ⟨next, hstep⟩
  · obtain ⟨_, _, hread, _⟩ := step_task_eq_some hstep
    cases Bridge.taskStep_move hread with
    | read htask => exact .inl htask
  · obtain ⟨_, _, hsend, _⟩ := step_task_eq_some hstep
    cases Bridge.taskStep_move hsend with
    | send htask => exact .inr ⟨_, htask⟩

theorem not_stuck_of_task {event : TaskEvent}
    (hstep : link.step api peer (.task event) = some next)
    (hchanged : next.bridge.conn.task ≠ link.bridge.conn.task) : ¬ link.Stuck api peer := by
  intro hstuck
  apply hchanged
  rw [(hstuck _ next hstep).1]

theorem Serving.forwards (hserving : link.Serving) {st : Stream cap}
    (hstream : link.stream = some st) (hreadable : st.recvBuf.bytes ≠ [])
    (hslot : link.bridge.conn.fromTarget.length < channelSlots) :
    link.Forwards api peer ∧ ¬ link.Stuck api peer := by
  rcases hserving with htask | ⟨chunk, htask⟩
  · let data := st.recvBuf.bytes.take readBuf
    have hdata : data ≠ [] := by
      simp only [data, readBuf]
      simpa using hreadable
    have hread : link.bridge.taskStep (.read data) =
        some { link.bridge.setTask (.sending data) with
          ledger := { link.bridge.ledger with read := link.bridge.ledger.read ++ data } } := by
      simp only [Bridge.taskStep, htask]
      exact if_pos ⟨hdata, List.length_take_le _ _⟩
    obtain ⟨stream, hafter⟩ : ∃ stream, link.streamAfter (.read data) = some stream := by
      simp only [streamAfter, hstream, Stream.taskStep, Buffer.pop]
      rw [if_pos ⟨hdata, List.take_prefix _ _⟩]
      exact ⟨_, rfl⟩
    have hstep := step_task api peer hread hafter
    refine ⟨.inl ⟨data, _, hstep⟩, not_stuck_of_task hstep ?_⟩
    rw [htask]
    exact Task.noConfusion
  · have hsend : link.bridge.taskStep .send = some { link.bridge with conn :=
        { link.bridge.conn with
          fromTarget := link.bridge.conn.fromTarget ++ [chunk], task := .selecting } } := by
      simp only [Bridge.taskStep, htask]
      exact if_pos hslot
    have hafter : link.streamAfter .send = some (some st) := by
      simp only [streamAfter, hstream, Stream.taskStep, Option.map_some]
    have hstep := step_task api peer hsend hafter
    refine ⟨.inr ⟨_, hstep⟩, not_stuck_of_task hstep ?_⟩
    rw [htask]
    exact Task.noConfusion

theorem serving_iff (hpast : ∀ target, link.bridge.conn.task ≠ .connecting target) :
    link.Serving ↔ (∀ rest, link.bridge.conn.task ≠ .writing rest) ∧
      link.bridge.conn.task ≠ .closing ∧ link.bridge.conn.task ≠ .ended := by
  simp only [Serving]
  cases htask : link.bridge.conn.task with
  | connecting target => exact absurd htask (hpast target)
  | selecting | writing rest | sending chunk | closing | ended => simp

/-- Bytes are readable from the stream and the channel has a free slot. Their
next step is possible exactly when the task is not inside `write_all` and has not
left its loop, and then the bridge is not stuck. -/
theorem Reachable.forwards_iff (hreach : Reachable api peer link) {st : Stream cap}
    (hstream : link.stream = some st) (hreadable : st.recvBuf.bytes ≠ [])
    (hslot : link.bridge.conn.fromTarget.length < channelSlots) :
    (link.Forwards api peer ↔ (∀ rest, link.bridge.conn.task ≠ .writing rest) ∧
        link.bridge.conn.task ≠ .closing ∧ link.bridge.conn.task ≠ .ended) ∧
      (link.Forwards api peer → ¬ link.Stuck api peer) := by
  have hpast := hreach.not_connecting (by rw [hstream]; exact Option.some_ne_none st)
  have hserves : link.Serving → link.Forwards api peer ∧ ¬ link.Stuck api peer :=
    fun hserving => hserving.forwards hstream hreadable hslot
  rw [← serving_iff hpast]
  exact ⟨⟨Forwards.serving, fun hserving => (hserves hserving).1⟩,
    fun hforwards => (hserves hforwards.serving).2⟩

/-- A peer that may do anything. -/
def anyPeer : Peer Unit := fun _ _ => some ()

/-- The states of a run of events. -/
theorem Reachable.run {events : List (LinkEvent σ)} (hreach : Reachable api peer link)
    (hrun : events.foldlM (Link.step api peer) link = some next) : Reachable api peer next := by
  induction events generalizing link with
  | nil =>
      cases hrun
      exact hreach
  | cons event rest ih =>
      rw [List.foldlM_cons] at hrun
      obtain ⟨middle, hstep, hrest⟩ := Option.bind_eq_some_iff.mp hrun
      exact ih (.step event hreach hstep) hrest

/-- An accepted stream on which one byte arrived. -/
def arrived : Link ⟨1, 1⟩ BufferedSocket Unit :=
  ⟨bufferedApi.new, .new bridgeStream, some ⟨.empty, ⟨[1], by decide⟩, false, false⟩, ()⟩

theorem arrived_forwards :
    arrived.Forwards bufferedApi anyPeer ∧ ¬ arrived.Stuck bufferedApi anyPeer := by
  have hstep : step bufferedApi anyPeer ⟨bufferedApi.new, .new bridgeStream, some .opened, ()⟩
      (.peer (.give [1])) = some arrived := rfl
  have hreach : Reachable bufferedApi anyPeer arrived := .step _ (.accept _ _) hstep
  obtain ⟨hiff, hmoves⟩ := hreach.forwards_iff rfl (List.cons_ne_nil _ _) (by decide)
  have hforwards := hiff.mpr ⟨fun _ => Task.noConfusion, Task.noConfusion, Task.noConfusion⟩
  exact ⟨hforwards, hmoves hforwards⟩

/-! ## A peer that echoes -/

/-- An echo server: it takes bytes only when it has given back all it took. -/
def echo : Peer Bytes
  | held, .take data => if held = [] then some data else none
  | held, .give data => if data <+: held then some (held.drop data.length) else none
  | _, _ => none

theorem service_full {s : σ} {b : Bridge} {rest : Bytes} (htask : b.conn.task = .writing rest)
    (hfull : b.conn.toTarget.length = channelSlots) (hempty : b.conn.fromTarget = [])
    (hpending : b.pending = []) (hopen : b.targetDone = false) :
    b.service api s = (s, b, false) := by
  have hpull : Bridge.pull api s b = (s, b) := by
    simp [Bridge.pull, htask, hfull, Bridge.pullLoop]
  have htake : b.takeChunk = b := by simp [Bridge.takeChunk, hpending, hempty, htask]
  have hflush : Bridge.flush api s b = (s, b) := by simp [Bridge.flush, hpending]
  simp [Bridge.service, hpull, htake, hflush, Bridge.halfClose, hopen]

/-- A task inside `write_all` does nothing while the send buffer is full. -/
theorem task_blocked {st : Stream cap} {rest : Bytes}
    (htask : link.bridge.conn.task = .writing rest) (hstream : link.stream = some st)
    (hsend : st.sendBuf.bytes.length = cap.send) (hreset : st.reset = false) (event : TaskEvent) :
    link.step api peer (.task event) ≠ some next := by
  intro hstep
  obtain ⟨b, stream, hb, hafter, _⟩ := step_task_eq_some hstep
  cases Bridge.taskStep_move hb with
  | connected hother | connectFailed hother | receive hother | read hother | readEnd hother
  | send hother | shutdown hother =>
      rw [htask] at hother
      cases hother
  | @write n left hwriting hpos hle =>
      rw [htask] at hwriting
      cases hwriting
      have hsome : rest.take n ≠ [] := by
        intro hnone
        have hlength := congrArg List.length hnone
        simp only [List.length_take, List.length_nil] at hlength
        omega
      simp [streamAfter, hstream, Stream.taskStep, htask, Task.unwritten,
        Buffer.push_eq_none hsend hsome] at hafter
  | writeFailed => simp [streamAfter, hstream, Stream.taskStep, hreset] at hafter

/-- An echo server that holds bytes does nothing while the receive buffer is full. -/
theorem echo_blocked {link next : Link cap σ Bytes} {st : Stream cap}
    (hstream : link.stream = some st) (hrecv : st.recvBuf.bytes.length = cap.recv)
    (hheld : link.peer ≠ []) (event : PeerEvent) :
    link.step api echo (.peer event) ≠ some next := by
  intro hstep
  obtain ⟨before, after, p, hbefore, hafter, hp, _⟩ := step_peer_eq_some hstep
  rw [hstream] at hbefore
  cases hbefore
  cases event with
  | take data => simp [echo, hheld] at hp
  | give data =>
      simp only [Stream.peerStep] at hafter
      split at hafter
      · next hgive =>
          rw [Buffer.push_eq_none hrecv hgive.1] at hafter
          cases hafter
      · cases hafter
  | finish | reset => cases hp

/-- Both buffers of the stream and the channel towards it are full, and the echo
server holds bytes: then nothing moves. -/
theorem stuck_of_full {link : Link cap σ Bytes} {st : Stream cap} {rest : Bytes}
    (htask : link.bridge.conn.task = .writing rest)
    (hfull : link.bridge.conn.toTarget.length = channelSlots)
    (hempty : link.bridge.conn.fromTarget = []) (hpending : link.bridge.pending = [])
    (hopen : link.bridge.targetDone = false) (hstream : link.stream = some st)
    (hsend : st.sendBuf.bytes.length = cap.send) (hrecv : st.recvBuf.bytes.length = cap.recv)
    (hreset : st.reset = false) (hheld : link.peer ≠ []) : link.Stuck api echo := by
  intro event next hstep
  cases event with
  | task event => exact absurd hstep (task_blocked htask hstream hsend hreset event)
  | peer event => exact absurd hstep (echo_blocked hstream hrecv hheld event)
  | service =>
      rw [step_service, Option.some_inj] at hstep
      subst hstep
      rw [service_full htask hfull hempty hpending hopen]
      exact ⟨rfl, rfl, rfl⟩
  | socket s =>
      cases hstep
      exact ⟨rfl, rfl, rfl⟩

/-- A connected socket that received `rx`. -/
def talking (rx : Bytes) : BufferedSocket := ⟨.established, rx, []⟩

/-- Seven bytes for the target arrive, then sixteen chunks. The echo server gives
back two bytes and takes two more before it blocks. -/
def overload : List (LinkEvent BufferedSocket) :=
  [.socket (talking [1, 2, 3, 4, 5, 6, 7]), .service, .task .receive, .task (.write 2),
    .peer (.take [1, 2]), .peer (.give [1, 2]), .task (.write 2), .peer (.take [3, 4]),
    .task (.write 2)] ++ (List.replicate channelSlots [.socket (talking [8]), .service]).flatten

/-- The state after `overload`. -/
def halted : Link ⟨2, 2⟩ BufferedSocket Bytes where
  socket := talking []
  bridge :=
    { conn := ⟨List.replicate channelSlots [8], [], .writing [7]⟩
      pending := []
      targetDone := false
      ledger := ⟨[], [], [1, 2, 3, 4, 5, 6, 7] ++ List.replicate channelSlots 8,
        [1, 2, 3, 4, 5, 6], false⟩ }
  stream := some ⟨⟨[5, 6], by decide⟩, ⟨[1, 2], by decide⟩, false, false⟩
  peer := [3, 4]

set_option maxRecDepth 2000 in
/-- An echo server under load halts the bridge. Two bytes are readable and the
channel for them is empty, but the task is inside `write_all` and nothing can
move any more. -/
theorem echo_halts :
    Reachable bufferedApi echo halted ∧
      (∃ st, halted.stream = some st ∧ st.recvBuf.bytes = [1, 2]) ∧
      halted.bridge.conn.fromTarget.length < channelSlots ∧
      halted.bridge.conn.toTarget.length = channelSlots ∧
      ¬ halted.Forwards bufferedApi echo ∧ halted.Stuck bufferedApi echo := by
  refine ⟨?_, ⟨_, rfl, rfl⟩, by decide, by decide, ?_, ?_⟩
  · have hrun : overload.foldlM (step bufferedApi echo)
        ⟨talking [], .new bridgeStream, some .opened, []⟩ = some halted := rfl
    exact Reachable.run (.accept _ _) hrun
  · intro hforwards
    rcases hforwards.serving with htask | ⟨chunk, htask⟩
    · cases htask
    · cases htask
  · exact stuck_of_full rfl rfl rfl rfl rfl rfl rfl rfl rfl (List.cons_ne_nil _ _)

end Link

end Newt.Proxy
