import Newt.Site.Session

/-! # The control part of a session

A session without its data plane: only whether a tunnel is up is left of it. The
control part takes a turn that cannot fail, with the notes of a turn in which
nothing does. Every turn of a session follows it until the session ends.
-/

namespace Newt.Site

open Foundation Stack Proxy Newt.Core

structure Control where
  sm : Sm
  up : Bool
  configVersion : Option Int
  pingTicks : Nat

/-- Whether a tunnel is up after an action. -/
def upAfter (up : Bool) : Action → Bool
  | .bringUp _ => true
  | .teardown => false
  | .send _ | .stop => up

/-- The notes of an action. -/
def execNotes (up : Bool) : Action → List Note
  | .bringUp wg => [.executed (.bringUp wg) up, .broughtUp]
  | act => [.executed act up]

/-- The notes of actions in order. -/
def execAllNotes : Bool → List Action → List Note
  | _, [] => []
  | up, act :: rest => execNotes up act ++ execAllNotes (upAfter up act) rest

namespace Control

def perform (c : Control) (ev : Event) : Control × List Note :=
  let (sm, acts) := c.sm.step ev
  ({ c with sm := sm, up := acts.foldl upAfter c.up }, execAllNotes c.up acts)

def performMessage (c : Control) : Option Event → Control × List Note
  | none => (c, [])
  | some ev => c.perform ev

def learnVersion (c : Control) (version : Option Int) : Control :=
  if version.isSome then { c with configVersion := version } else c

/-- The updates of the targets among the messages. -/
def isUpdate : Topic → Bool
  | .tcpAdd | .tcpRemove | .sync => true
  | _ => false

/-- The topic of a message that updates the targets. -/
def updateTopic {Json : Type} (msg : WsMessage Json) : Option Topic :=
  (Topic.ofText msg.typ).filter isUpdate

variable {Json σ : Type}

/-- What a message does to the control part. -/
def receive (serde : Serde Json) (c : Control) (msg : WsMessage Json) : Control × List Note :=
  let c := c.learnVersion msg.configVersion
  match updateTopic msg with
  | some topic => (c, [.update topic msg.configVersion c.up])
  | none => c.performMessage (toEvent serde (Topic.ofText msg.typ) msg.data)

def beat (c : Control) : Control × List Note :=
  if c.pingTicks + 1 < 10 then ({ c with pingTicks := c.pingTicks + 1 }, [])
  else ({ c with pingTicks := 0 }, [.heartbeat c.configVersion])

def turn (serde : Serde Json) (c : Control) : Input Json σ → Control × List Note
  | .recv (.ok (some msg)) _ => c.receive serde msg
  | .tick _ _ _ _ =>
      let (c, notes) := c.perform (.tick 1000)
      let (c, more) := c.beat
      (c, notes ++ more)
  | .recv _ _ | .drive _ _ | .dropped _ | .task _ _ => (c, [])

theorem turn_tick (serde : Serde Json) (c : Control) (w : Nat → Surroundings)
    (ping holepunch : Except Ending Unit) (heartbeat : Except IoError Unit) :
    c.turn serde (.tick w ping holepunch heartbeat : Input Json σ) =
      ((c.perform (.tick 1000)).1.beat.1,
        (c.perform (.tick 1000)).2 ++ (c.perform (.tick 1000)).1.beat.2) := rfl

end Control

namespace Session

variable {Json σ : Type} (cfg : SiteRun Json) (alloc : Allocator) (api : TcpApi σ)

def control (s : Session σ) : Control := ⟨s.sm, s.data.isSome, s.configVersion, s.pingTicks⟩

theorem exec_records (w : Surroundings) (data : Option (DataPlane σ)) (act : Action) :
    (exec cfg alloc api w data act).Records (execNotes data.isSome act) fun next =>
      next.isSome = upAfter data.isSome act := by
  cases act with
  | send msg =>
      exact Traced.records_tell_bind (Traced.records_lift_bind fun _ _ => Traced.records_pure rfl)
  | bringUp wg =>
      refine Traced.records_tell_bind (Traced.records_lift_bind fun d _ => ?_)
      exact Traced.records_tell_bind (Traced.records_pure rfl)
  | teardown => exact Traced.records_tell_bind (Traced.records_pure rfl)
  | stop => exact Traced.records_tell_bind Traced.records_error

theorem execAll_records (w : Nat → Surroundings) (k : Nat) (data : Option (DataPlane σ))
    (acts : List Action) :
    (execAll cfg alloc api w k data acts).Records (execAllNotes data.isSome acts) fun next =>
      next.isSome = acts.foldl upAfter data.isSome := by
  induction acts generalizing k data with
  | nil => exact Traced.records_pure rfl
  | cons act rest ih =>
      refine (exec_records cfg alloc api (w k) data act).bind ?_
      intro next hnext
      have hrest := ih (k + 1) next
      rw [hnext] at hrest
      exact hrest

theorem perform_records (w : Nat → Surroundings) (s : Session σ) (ev : Event) :
    (perform cfg alloc api w s ev).Records (s.control.perform ev).2 fun next =>
      next.control = (s.control.perform ev).1 := by
  have hrecords := (execAll_records cfg alloc api w 0 s.data (s.sm.step ev).2).bind
    (f := fun data => pure { s with sm := (s.sm.step ev).1, data := data })
    (P := fun next => next.control = (s.control.perform ev).1)
    fun data hdata => Traced.records_pure (by simp [control, Control.perform, hdata])
  rw [List.append_nil] at hrecords
  exact hrecords

theorem updateTargets_records (s : Session σ) (topic : Topic) (version : Option Int)
    (change : DataPlane σ → Except Fault (DataPlane σ)) :
    (s.updateTargets topic version change).Records [.update topic version s.data.isSome]
      fun next => next.control = s.control := by
  refine Traced.records_tell_bind ?_
  cases hdata : s.data with
  | none => exact Traced.records_pure rfl
  | some d =>
      refine Traced.records_lift_bind fun changed _ => Traced.records_pure ?_
      simp [control, hdata]

theorem control_learnVersion (s : Session σ) (version : Option Int) :
    (s.learnVersion version).control = s.control.learnVersion version := by
  cases version <;> rfl

theorem performMessage_records (w : Nat → Surroundings) (s : Session σ) (ev : Option Event) :
    (performMessage cfg alloc api w s ev).Records (s.control.performMessage ev).2 fun next =>
      next.control = (s.control.performMessage ev).1 := by
  cases ev with
  | none => exact Traced.records_pure rfl
  | some ev => exact perform_records cfg alloc api w s ev

theorem receive_records (w : Nat → Surroundings) (s : Session σ) (msg : WsMessage Json) :
    (receive cfg alloc api w s msg).Records (s.control.receive cfg.serde msg).2 fun next =>
      next.control = (s.control.receive cfg.serde msg).1 := by
  simp only [receive, Control.receive, Control.updateTopic, ← control_learnVersion]
  generalize s.learnVersion msg.configVersion = s
  have hevent (topic : Option Topic) :=
    performMessage_records cfg alloc api w s (toEvent cfg.serde topic msg.data)
  cases htopic : Topic.ofText msg.typ with
  | none => exact hevent none
  | some topic =>
      cases topic with
      | tcpAdd => exact updateTargets_records s _ _ _
      | tcpRemove => exact updateTargets_records s _ _ _
      | sync => exact updateTargets_records s _ _ _
      | pingRequest | pingExitNodes | ping | wgRegister | wgConnect | wgReconnect | wgTerminate =>
          exact hevent _

theorem beat_records (s : Session σ) (heartbeat : Except IoError Unit) :
    (s.beat heartbeat).Records s.control.beat.2 fun next => next.control = s.control.beat.1 := by
  by_cases hticks : s.pingTicks + 1 < 10
  · simp only [beat, Control.beat, control, hticks, if_true]
    exact Traced.records_pure rfl
  · simp only [beat, Control.beat, control, hticks, if_false]
    exact Traced.records_lift_bind fun _ _ => Traced.records_tell_bind (Traced.records_pure rfl)

/-- Every turn of a session follows the control part. -/
theorem turn_records (s : Session σ) (input : Input Json σ) :
    (turn cfg alloc api s input).Records (s.control.turn cfg.serde input).2 fun next =>
      next.control = (s.control.turn cfg.serde input).1 := by
  cases input with
  | recv msg w =>
      match msg with
      | .error e => exact Traced.records_error
      | .ok none => exact Traced.records_error
      | .ok (some msg) => exact receive_records cfg alloc api w s msg
  | tick w ping holepunch heartbeat =>
      rw [Control.turn_tick]
      refine (perform_records cfg alloc api w s (.tick 1000)).bind ?_
      intro next hnext
      refine Traced.records_lift_bind fun _ _ => ?_
      rw [← hnext]
      exact beat_records next heartbeat
  | drive change order =>
      simp only [turn]
      cases hdata : s.data with
      | none => exact Traced.records_pure rfl
      | some d =>
          refine Traced.records_lift_bind fun change _ => Traced.records_lift_bind fun d' _ => ?_
          exact Traced.records_pure (by simp [control, Control.turn, hdata])
  | dropped change => exact Traced.records_pure (by simp [control, Control.turn])
  | task h event => exact Traced.records_pure (by simp [control, Control.turn])

/-- A monitor allows the notes of a session exactly when it allows those of every
turn, provided that it allows the opening. -/
theorem session_accepts_iff {τ : Type} (m : Monitor Note τ) (t : τ) (w : Nat → Surroundings)
    (hopening : m.Accepts t (perform cfg alloc api w (fresh cfg : Session σ) .wsConnected).notes)
    (inputs : List (Input Json σ)) :
    m.Accepts t (session cfg alloc api w inputs).notes ↔
      ∀ front input rest s, inputs = front ++ input :: rest →
        (session cfg alloc api w front).result = .ok s →
          m.Accepts (m.after t (session cfg alloc api w front).notes)
            (turn cfg alloc api s input).notes := by
  simp only [session]
  rcases hcase : (perform cfg alloc api w (fresh cfg : Session σ) .wsConnected).result with e | s
  · simp only [Traced.bind_of_error _ hcase]
    refine ⟨?_, fun _ => hopening⟩
    intro _ front input rest s _ hend
    cases hend
  · simp only [Traced.bind_of_ok _ hcase, Monitor.accepts_append, Monitor.after_append]
    rw [Monitor.accepts_foldlM_iff]
    exact ⟨fun haccepts => haccepts.2, fun hturns => ⟨hopening, hturns⟩⟩

end Session

end Newt.Site
