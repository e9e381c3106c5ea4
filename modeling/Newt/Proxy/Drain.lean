import Newt.Proxy.Isolation

/-! # A finished target is drained

Nothing more comes from a target whose task has ended, but what it sent may still
wait in the channel and beside the socket. A pass over a socket with room hands it
at least one byte of that, and calls `close` when nothing is left. So a client that
keeps acknowledging gets everything the target sent, and then the end of the
stream, after at most as many passes as there are bytes.
-/

namespace Newt.Proxy

open Foundation Stack

namespace Bridge

/-- The bytes that wait for the socket of a connection whose task has ended. -/
def waiting (b : Bridge) : Nat := b.pending.length + b.conn.fromTarget.flatten.length

/-- No chunk on its way from the target is empty. -/
structure Solid (b : Bridge) : Prop where
  queued : ∀ chunk ∈ b.conn.fromTarget, chunk ≠ []
  sending : ∀ chunk, b.conn.task = .sending chunk → chunk ≠ []

theorem solid_new {conn : Conn} (hconn : conn.Spawned) : (Bridge.new conn).Solid := by
  rcases hconn with ⟨target, rfl⟩ | rfl
  all_goals
    constructor
    · intro chunk hchunk
      cases hchunk
    · intro chunk hsending
      cases hsending

theorem Solid.taskStep {b b' : Bridge} {event : TaskEvent} (hsolid : b.Solid)
    (hstep : b.taskStep event = some b') : b'.Solid := by
  cases taskStep_move hstep with
  | connected | connectFailed | writeFailed | readEnd | shutdown =>
      refine ⟨hsolid.queued, ?_⟩
      intro chunk hsending
      cases hsending
  | receive =>
      refine ⟨hsolid.queued, ?_⟩
      intro chunk hsending
      dsimp only at hsending
      split at hsending <;> cases hsending
  | write =>
      refine ⟨hsolid.queued, ?_⟩
      intro chunk hsending
      dsimp only [setTask] at hsending
      split at hsending <;> cases hsending
  | read htask hdata hle =>
      refine ⟨hsolid.queued, ?_⟩
      intro chunk hsending
      cases hsending
      exact hdata
  | @send sent htask hslot =>
      constructor
      · intro chunk hchunk
        rcases List.mem_append.mp hchunk with hold | hnew
        · exact hsolid.queued chunk hold
        · rw [List.mem_singleton.mp hnew]
          exact hsolid.sending sent htask
      · intro chunk hsending
        cases hsending

theorem Solid.takeChunk {b : Bridge} (hsolid : b.Solid) : b.takeChunk.Solid := by
  unfold Bridge.takeChunk
  split
  · split
    · next chunk rest hqueue =>
        refine ⟨?_, hsolid.sending⟩
        intro later hlater
        exact hsolid.queued later (hqueue ▸ List.mem_cons_of_mem _ hlater)
    · split
      · exact ⟨hsolid.queued, hsolid.sending⟩
      · exact hsolid
  · exact hsolid

variable {σ : Type} (api : TcpApi σ)

theorem Solid.flush {b : Bridge} (hsolid : b.Solid) (s : σ) : (flush api s b).2.Solid := by
  unfold Bridge.flush
  split
  · split
    · exact hsolid
    · exact ⟨hsolid.queued, hsolid.sending⟩
  · exact hsolid

theorem Solid.service {b : Bridge} (hsolid : b.Solid) (s : σ) :
    (b.service api s).2.1.Solid := by
  obtain ⟨chunks, hplaced, _⟩ := pull_spec api s b
  have hpulled : (pull api s b).2.Solid := by
    rw [hplaced]
    exact ⟨hsolid.queued, hsolid.sending⟩
  exact hpulled.takeChunk.flush api _

/-- The socket is open, and takes at least one byte of whatever it is offered. -/
structure Accepts (s : σ) : Prop where
  isOpen : api.isOpen s = true
  canSend : api.canSend s = true
  takes : ∀ data, data ≠ [] →
    ∃ n s', api.sendSlice data s = some (n, s') ∧ 0 < n ∧ api.isOpen s' = true

/-- Taking a chunk loses nothing, and finds out that there is none. -/
theorem takeChunk_ended {b : Bridge} (hsolid : b.Solid) (hended : b.conn.task = .ended) :
    b.takeChunk.waiting = b.waiting ∧ b.takeChunk.conn.task = .ended ∧
      (b.takeChunk.pending = [] → b.takeChunk.targetDone = true) := by
  unfold takeChunk
  split
  · next hpending =>
      split
      · next chunk rest hqueue =>
          refine ⟨?_, hended, ?_⟩
          · simp [waiting, hpending, hqueue]
          · intro hempty
            exact absurd hempty (hsolid.queued chunk (hqueue ▸ List.mem_cons_self))
      · exact ⟨rfl, hended, fun _ => rfl⟩
  · next hpending => exact ⟨rfl, hended, fun hempty => absurd hempty hpending⟩

/-- A pass over a socket with room ends the stream or hands over some bytes. -/
theorem service_drains {s : σ} {b : Bridge} (hsolid : b.Solid) (hended : b.conn.task = .ended)
    (haccepts : Accepts api s) :
    (b.service api s).2.2 = true ∨ (api.isOpen (b.service api s).1 = true ∧
      (b.service api s).2.1.conn.task = .ended ∧
        (b.service api s).2.1.waiting < b.waiting) := by
  obtain ⟨hwaiting, htask, hdone⟩ := takeChunk_ended hsolid hended
  have hservice : b.service api s = ((halfClose api (flush api s b.takeChunk).1
      (flush api s b.takeChunk).2).1, (flush api s b.takeChunk).2,
        (halfClose api (flush api s b.takeChunk).1 (flush api s b.takeChunk).2).2) := by
    simp only [service, pull, if_pos hended]
  rw [hservice]
  by_cases hpending : b.takeChunk.pending = []
  · left
    have hflush : flush api s b.takeChunk = (s, b.takeChunk) := by simp [flush, hpending]
    simp only [hflush, halfClose]
    rw [if_pos ⟨hdone hpending, hpending, haccepts.isOpen⟩]
  · -- some of the pending bytes move, and the socket stays open
    obtain ⟨n, s', hsend, hpos, hopen⟩ := haccepts.takes b.takeChunk.pending hpending
    have hflush : flush api s b.takeChunk = (s', { b.takeChunk with
        pending := b.takeChunk.pending.drop n
        ledger := { b.takeChunk.ledger with
          accepted := b.takeChunk.ledger.accepted ++ b.takeChunk.pending.take n } }) := by
      rw [flush, if_pos ⟨hpending, haccepts.canSend⟩]
      simp only [hsend]
    rw [hflush]
    have hlength := List.length_pos_iff.mpr hpending
    unfold halfClose
    split
    · exact .inl rfl
    · refine .inr ⟨hopen, htask, ?_⟩
      rw [← hwaiting]
      simp only [waiting, List.length_drop]
      omega

end Bridge

variable {σ : Type} (alloc : Allocator) (api : TcpApi σ)

theorem Plane.Reachable.solid {plane : Plane σ} (hreach : Plane.Reachable api .any plane) :
    ∀ h b, plane.conns.get? h = some b → b.Solid := by
  refine hreach.bridges api ?_ ?_ ?_
  · intro conn hconn
    exact Bridge.solid_new hconn
  · intro s b _ hsolid
    exact hsolid.service api s
  · intro b event b' _ hsolid hstep
    exact hsolid.taskStep hstep

/-- A step that is a pass. -/
def Solo.Step.isPass : Solo.Step σ → Bool
  | .pass => true
  | _ => false

/-- All that happens to a connection but a pass leaves the bridge of an ended task. -/
theorem Solo.step_ended {c : Solo σ} {step : Solo.Step σ} (hended : c.bridge.conn.task = .ended)
    (hpass : step.isPass = false) : ∃ s, c.step api step = some ⟨s, c.bridge⟩ := by
  cases step with
  | poll change => exact ⟨change c.socket, rfl⟩
  | pass => cases hpass
  | task event =>
      refine ⟨c.socket, ?_⟩
      simp only [Solo.step, Solo.runTask, Bridge.taskStep_ended hended]

namespace Host

variable {api} (host : Host api)

/-- The calls of `close` of a run, in order. -/
def closes (d : host.State) : List host.Op → List (Handle × Bridge)
  | [] => []
  | op :: rest =>
      host.calls d op ++
        match host.apply d op with
        | .error _ => []
        | .ok next => closes next rest

variable {host} {d d' : host.State} {h : Handle} {op : host.Op} {rest : List host.Op}

theorem closes_cons {next : host.State} (hnext : host.apply d op = .ok next) :
    host.closes d (op :: rest) = host.calls d op ++ host.closes next rest := by
  rw [closes, hnext]

/-- As long as `close` has not been called for `h`, every pass finds its socket
with room. -/
def KeepsAccepting (h : Handle) (d : host.State) (ops : List host.Op) : Prop :=
  ∀ front op rest middle s, ops = front ++ op :: rest → host.own h op = some .pass →
    host.run d front = .ok middle → (∀ call ∈ host.closes d front, call.1 ≠ h) →
      (host.plane middle).sockets.live.get? h = some s → Bridge.Accepts api s

theorem KeepsAccepting.tail {next : host.State} (haccepting : KeepsAccepting h d (op :: rest))
    (hnext : host.apply d op = .ok next) (hopen : ∀ call ∈ host.calls d op, call.1 ≠ h) :
    KeepsAccepting h next rest := by
  intro front later behind middle s hsplit hpass hrun hcalls hsocket
  refine haccepting (op :: front) later behind middle s (by rw [hsplit]; rfl) hpass ?_ ?_ hsocket
  · rw [run, List.foldlM_cons]
    exact bind_eq_ok_iff.mpr ⟨next, hnext, hrun⟩
  · intro call hcall
    rw [closes_cons hnext] at hcall
    rcases List.mem_append.mp hcall with hnow | hlater
    · exact hopen call hnow
    · exact hcalls call hlater

/-- The passes that an operation adds to those of the rest of a run. -/
theorem countP_own (h : Handle) (op : host.Op) (rest : List host.Op) :
    ((op :: rest).filterMap (host.own h)).countP Solo.Step.isPass =
      (host.own h op).toList.countP Solo.Step.isPass +
        (rest.filterMap (host.own h)).countP Solo.Step.isPass := by
  rw [filterMap_own, List.countP_append]

/-- One operation that does not close the socket: the bytes that wait become fewer
by at least the number of its passes. -/
theorem step_drains {c : Solo σ} {next : host.State} (hreach : host.Reachable d)
    (hat : (host.plane d).At h c) (hended : c.bridge.conn.task = .ended)
    (hnext : host.apply d op = .ok next) (haccepting : KeepsAccepting h d (op :: rest))
    (hopen : ∀ call ∈ host.calls d op, call.1 ≠ h) :
    ∃ c', (host.plane next).At h c' ∧ c'.bridge.conn.task = .ended ∧
      c'.bridge.waiting + (host.own h op).toList.countP Solo.Step.isPass ≤ c.bridge.waiting := by
  have hobeys := host.step_obeys (h := h) hreach hnext
  cases hown : host.own h op with
  | none =>
      rw [hown] at hobeys
      exact ⟨c, hobeys c c hat rfl, hended, Nat.le_refl _⟩
  | some step =>
      rw [hown, Option.toList_some] at hobeys
      cases hpass : step.isPass with
      | false =>
          obtain ⟨s, hstep⟩ := Solo.step_ended api hended hpass
          refine ⟨⟨s, c.bridge⟩, hobeys c _ hat ?_, hended, ?_⟩
          · rw [Solo.run_single, hstep]
          · simp [hpass]
      | true =>
          cases step with
          | pass =>
              have haccepts := haccepting [] op rest d c.socket rfl hown rfl (fun call hcall => by
                cases hcall) hat.socket
              have hsolid := (host.plane_reachable hreach).solid api h c.bridge hat.bridge
              rcases Bridge.service_drains api hsolid hended haccepts with hclosed | hmoved
              · exact absurd rfl (hopen _ (Host.calls_of_closed hown hnext hat hclosed))
              · obtain ⟨hisOpen, htask, hless⟩ := hmoved
                have hstep := (Solo.pass_eq_some_iff api).mpr ⟨hisOpen, rfl⟩
                exact ⟨_, hobeys c _ hat ((Solo.run_single api c .pass).trans hstep), htask, hless⟩
          | poll | task => cases hpass

/-- More passes than there are bytes. -/
theorem drained {c : Solo σ} {ops : List host.Op} (hreach : host.Reachable d)
    (hat : (host.plane d).At h c) (hended : c.bridge.conn.task = .ended)
    (hrun : host.run d ops = .ok d') (haccepting : KeepsAccepting h d ops)
    (hpasses : c.bridge.waiting < (ops.filterMap (host.own h)).countP Solo.Step.isPass) :
    ∃ call ∈ host.closes d ops, call.1 = h ∧ call.2.ledger.accepted = call.2.ledger.read := by
  induction ops generalizing d c with
  | nil => cases hpasses
  | cons op rest ih =>
      obtain ⟨next, hnext, hrest⟩ := run_cons hrun
      rw [closes_cons hnext]
      by_cases hopen : ∀ call ∈ host.calls d op, call.1 ≠ h
      · obtain ⟨c', hat', hended', hless⟩ := step_drains hreach hat hended hnext haccepting hopen
        rw [countP_own] at hpasses
        obtain ⟨call, hcall, hclosed⟩ := ih (host.step_reachable hreach hnext) hat' hended' hrest
          (haccepting.tail hnext hopen) (by omega)
        exact ⟨call, List.mem_append_right _ hcall, hclosed⟩
      · -- the call that this operation makes is the one
        obtain ⟨call, hclosed⟩ := not_forall.mp hopen
        obtain ⟨hcall, hsame⟩ := Classical.not_imp.mp hclosed
        exact ⟨call, List.mem_append_left _ hcall, not_not.mp hsame,
          Host.calls_delivered hreach hcall⟩

end Host

/-- In both roles and through every run: once the task of a connection has ended
and while its socket keeps accepting, `close` is called within as many passes as
there are bytes waiting, and one more, and by then the socket has accepted every
byte that the target sent. -/
theorem Role.target_drained (role : Role) {d d' : (role.host alloc api).State}
    {ops : List (role.host alloc api).Op} {h : Handle} {c : Solo σ}
    (hreach : (role.host alloc api).Reachable d)
    (hat : ((role.host alloc api).plane d).At h c) (hended : c.bridge.conn.task = .ended)
    (hrun : (role.host alloc api).run d ops = .ok d')
    (haccepting : Host.KeepsAccepting h d ops)
    (hpasses : c.bridge.waiting <
      (ops.filterMap ((role.host alloc api).own h)).countP Solo.Step.isPass) :
    ∃ call ∈ (role.host alloc api).closes d ops,
      call.1 = h ∧ call.2.ledger.accepted = call.2.ledger.read :=
  Host.drained hreach hat hended hrun haccepting hpasses

theorem bufferedApi_accepts {s : BufferedSocket} (hstate : s.state = .established) :
    Bridge.Accepts bufferedApi s where
  isOpen := by simp [bufferedApi, hstate]
  canSend := by simp [bufferedApi, hstate]
  takes := by
    intro data hdata
    refine ⟨data.length, { s with tx := s.tx ++ data }, if_pos hstate, ?_, ?_⟩
    · exact List.length_pos_iff.mpr hdata
    · simp [bufferedApi, hstate]

/-- The target of the connection sent one byte and closed its side. -/
def finishedSite : Site.DataPlane BufferedSocket :=
  { acceptedSite with
    conns := ⟨[(0, ⟨⟨[], [[72]], .ended⟩, [], false, ⟨[72], [], [], [], true⟩⟩)],
      List.nodup_singleton _⟩ }

theorem Role.target_drained_finishedSite :
    ∃ call ∈ (Role.site.host .firstFree bufferedApi).closes finishedSite
        [.shuttle .inserted, .shuttle .inserted],
      call.1 = 0 ∧ call.2.ledger.accepted = call.2.ledger.read := by
  have hstart : acceptedSite.run .firstFree bufferedApi
      [.task 0 .connected, .task 0 (.read [72]), .task 0 .send, .task 0 .readEnd,
        .task 0 .shutdown] = .ok finishedSite := rfl
  have hreach := Site.DataPlane.Reachable.run _ _ acceptedSite_reachable
    (Site.DataPlane.runAllowed_any _ _ _ _) hstart
  have hat : finishedSite.toPlane.At 0 ⟨⟨.established, [], []⟩,
      ⟨⟨[], [[72]], .ended⟩, [], false, ⟨[72], [], [], [], true⟩⟩⟩ := ⟨rfl, rfl⟩
  have hrun : (Role.site.host .firstFree bufferedApi).run finishedSite
      [.shuttle .inserted, .shuttle .inserted] = .ok _ := rfl
  refine Role.target_drained .firstFree bufferedApi .site hreach hat rfl hrun ?_ (by decide)
  -- both passes find an established socket
  intro front op rest middle s hsplit _ hmiddle _ hsocket
  rcases front with _ | ⟨first, _ | ⟨second, front⟩⟩
  · cases hmiddle
    cases hsocket
    exact bufferedApi_accepts rfl
  · cases hsplit
    cases hmiddle
    cases hsocket
    exact bufferedApi_accepts rfl
  · have hlength : 2 = (first :: second :: (front ++ op :: rest)).length :=
      congrArg List.length hsplit
    simp only [List.length_cons, List.length_append] at hlength
    omega

end Newt.Proxy
