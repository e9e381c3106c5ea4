import Mathlib.Tactic.SplitIfs

/-! # The connection state machine

The control messages of a site and the state machine that answers them. The
machine does nothing itself: a step returns the actions to carry out.
-/

namespace Newt.Core

/-- The control-channel envelope around a payload. -/
structure WsMessage (δ : Type) where
  typ : String
  data : δ
  configVersion : Option Int

inductive Topic where
  | pingRequest
  | pingExitNodes
  | ping
  | wgRegister
  | wgConnect
  | wgReconnect
  | wgTerminate
  | tcpAdd
  | tcpRemove
  | sync
  deriving DecidableEq, Repr

def Topic.text : Topic → String
  | .pingRequest => "newt/ping/request"
  | .pingExitNodes => "newt/ping/exitNodes"
  | .ping => "newt/ping"
  | .wgRegister => "newt/wg/register"
  | .wgConnect => "newt/wg/connect"
  | .wgReconnect => "newt/wg/reconnect"
  | .wgTerminate => "newt/wg/terminate"
  | .tcpAdd => "newt/tcp/add"
  | .tcpRemove => "newt/tcp/remove"
  | .sync => "newt/sync"

def Topic.all : List Topic :=
  [.pingRequest, .pingExitNodes, .ping, .wgRegister, .wgConnect, .wgReconnect, .wgTerminate,
    .tcpAdd, .tcpRemove, .sync]

def Topic.ofText (typ : String) : Option Topic := Topic.all.find? fun topic => topic.text == typ

structure ExitNode where
  id : Int
  name : String
  endpoint : String
  weight : Float
  wasPreviouslyConnected : Bool

structure PingResult where
  exitNodeId : Int
  latencyMs : Float
  weight : Float
  error : String
  name : String
  endpoint : String
  wasPreviouslyConnected : Bool

/-- The tunnel configuration of `newt/wg/connect`, with its TCP targets. -/
structure WgData where
  endpoint : String
  publicKey : String
  serverIp : String
  tunnelIp : String
  relayPort : UInt16
  tcp : List String

/-- The payloads a site sends. -/
inductive Body where
  | pingRequest (noCloud : Bool) (chainId : String)
  | register (publicKey : String) (pingResults : List PingResult) (newtVersion chainId : String)
  | empty

inductive State where
  | disconnected
  | requestingExitNodes
  | registering
  | connected
  | stopped
  deriving DecidableEq, Repr

inductive Event where
  | wsConnected
  | exitNodes (nodes : List ExitNode)
  | wgConnect (wg : WgData)
  | reconnect
  | terminate
  /-- Periodic tick with the milliseconds since the last one. -/
  | tick (elapsed : Nat)

inductive Action where
  | send (msg : WsMessage Body)
  | bringUp (wg : WgData)
  | teardown
  /-- Stop the client entirely. -/
  | stop

structure Sm where
  state : State
  publicKeyB64 : String
  newtVersion : String
  noCloud : Bool
  pendingChainId : String
  resendDueMs : Nat

def pingResendMs : Nat := 3000

def registerResendMs : Nat := 2000

namespace Sm

def new (publicKeyB64 newtVersion : String) (noCloud : Bool) : Sm :=
  ⟨.disconnected, publicKeyB64, newtVersion, noCloud, "", 0⟩

def pingRequestMsg (sm : Sm) : WsMessage Body :=
  ⟨Topic.pingRequest.text, .pingRequest sm.noCloud sm.pendingChainId, none⟩

def registerMsg (sm : Sm) (results : List PingResult) : WsMessage Body :=
  ⟨Topic.wgRegister.text,
    .register sm.publicKeyB64 results sm.newtVersion sm.pendingChainId, none⟩

/-- The teardown of a running tunnel. -/
def teardown (sm : Sm) : List Action := if sm.state = .connected then [.teardown] else []

def step (sm : Sm) : Event → Sm × List Action
  | .wsConnected =>
      let sm := { sm with state := .requestingExitNodes, resendDueMs := pingResendMs }
      (sm, [.send sm.pingRequestMsg])
  | .exitNodes nodes =>
      if sm.state ≠ .requestingExitNodes then (sm, [])
      else
        match nodes with
        | [] => (sm, [])
        | node :: _ =>
            -- the first node is taken as it comes, no latency is measured
            let results := [⟨node.id, 0.0, node.weight, "", node.name, node.endpoint,
              node.wasPreviouslyConnected⟩]
            let sm := { sm with state := .registering, resendDueMs := registerResendMs }
            (sm, [.send (sm.registerMsg results)])
  | .wgConnect wg =>
      ({ sm with state := .connected, resendDueMs := 0 }, sm.teardown ++ [.bringUp wg])
  | .reconnect =>
      let next := { sm with state := .requestingExitNodes, resendDueMs := pingResendMs }
      (next, sm.teardown ++ [.send next.pingRequestMsg])
  | .terminate => ({ sm with state := .stopped }, [.teardown, .stop])
  | .tick elapsed =>
      if sm.resendDueMs = 0 then (sm, [])
      else if sm.resendDueMs ≤ elapsed then
        match sm.state with
        | .requestingExitNodes =>
            let sm := { sm with resendDueMs := pingResendMs }
            (sm, [.send sm.pingRequestMsg])
        | .registering =>
            let sm := { sm with resendDueMs := registerResendMs }
            (sm, [.send (sm.registerMsg [])])
        | _ => (sm, [])
      else ({ sm with resendDueMs := sm.resendDueMs - elapsed }, [])

/-- The state after a sequence of events. -/
def run (sm : Sm) (events : List Event) : Sm := events.foldl (fun sm ev => (sm.step ev).1) sm

end Sm

/-- The actions that talk to the server or start a tunnel. -/
def Action.reachesOut : Action → Bool
  | .send _ | .bringUp _ => true
  | .teardown | .stop => false

/-- The events that a step follows whatever the state is. -/
def Event.restarts : Event → Bool
  | .wsConnected | .wgConnect _ | .reconnect => true
  | .exitNodes _ | .terminate | .tick _ => false

namespace Sm

theorem step_exitNodes (sm : Sm) (nodes : List ExitNode) :
    (∀ act ∈ (sm.step (.exitNodes nodes)).2, ∃ msg, act = .send msg) ∧
      ((sm.step (.exitNodes nodes)).1.state = .connected ↔ sm.state = .connected) := by
  by_cases hstate : sm.state = .requestingExitNodes
  · cases nodes <;> simp [step, hstate]
  · simp [step, hstate]

theorem step_tick (sm : Sm) (elapsed : Nat) :
    (∀ act ∈ (sm.step (.tick elapsed)).2, ∃ msg, act = .send msg) ∧
      (sm.step (.tick elapsed)).1.state = sm.state := by
  by_cases hdue : sm.resendDueMs = 0
  · simp [step, hdue]
  by_cases helapsed : sm.resendDueMs ≤ elapsed
  · cases hstate : sm.state <;> simp [step, hdue, helapsed, hstate]
  · simp [step, hdue, helapsed]

/-- Only a termination stops the client. -/
theorem stop_mem_step_iff (sm : Sm) (ev : Event) :
    .stop ∈ (sm.step ev).2 ↔ ev = .terminate := by
  cases ev with
  | wsConnected => simp [step]
  | exitNodes nodes =>
      have hsends := (sm.step_exitNodes nodes).1 .stop
      simpa using hsends
  | wgConnect wg => by_cases hstate : sm.state = .connected <;> simp [step, teardown, hstate]
  | reconnect => by_cases hstate : sm.state = .connected <;> simp [step, teardown, hstate]
  | terminate => simp [step]
  | tick elapsed =>
      have hsends := (sm.step_tick elapsed).1 .stop
      simpa using hsends

/-- A step from `Stopped` that stays there and stays silent. -/
def RestsOn (sm : Sm) (ev : Event) : Prop :=
  (sm.step ev).1.state = .stopped ∧ ∀ act ∈ (sm.step ev).2, act.reachesOut = false

/-- Once a termination is handled, every later step leaves the machine stopped
and neither sends nor brings up a tunnel. -/
def TerminateFinal (sm : Sm) (events : List Event) : Prop :=
  ∀ before middle ev after, events = before ++ .terminate :: (middle ++ ev :: after) →
    (sm.run (before ++ .terminate :: middle)).RestsOn ev

/-- A stopped machine rests exactly on the events that it does not follow in
every state. -/
theorem restsOn_iff {sm : Sm} (hstopped : sm.state = .stopped) (ev : Event) :
    sm.RestsOn ev ↔ ev.restarts = false := by
  cases ev with
  | wsConnected => simp [RestsOn, step, Event.restarts]
  | exitNodes nodes => simp [RestsOn, step, hstopped, Event.restarts]
  | wgConnect wg => simp [RestsOn, step, Event.restarts]
  | reconnect => simp [RestsOn, step, Event.restarts]
  | terminate => simp [RestsOn, step, Event.restarts, Action.reachesOut]
  | tick elapsed =>
      simp only [RestsOn, step, Event.restarts, hstopped]
      split_ifs <;> simp [hstopped]

theorem run_append (sm : Sm) (front rest : List Event) :
    sm.run (front ++ rest) = (sm.run front).run rest := List.foldl_append

/-- A stopped machine rests on a sequence exactly when it rests on each event. -/
theorem restsOn_all_iff {sm : Sm} (hstopped : sm.state = .stopped) (events : List Event) :
    (∀ middle ev after, events = middle ++ ev :: after → (sm.run middle).RestsOn ev) ↔
      ∀ ev ∈ events, ev.restarts = false := by
  induction events generalizing sm with
  | nil => simp
  | cons ev events ih =>
      constructor
      · intro hall
        have hrests : sm.RestsOn ev := hall [] ev events rfl
        have hlater := (ih hrests.1).mp fun middle later after hsplit =>
          hall (ev :: middle) later after (by rw [hsplit, List.cons_append])
        exact List.forall_mem_cons.mpr ⟨(restsOn_iff hstopped ev).mp hrests, hlater⟩
      · intro hrests middle later after hsplit
        obtain ⟨hfirst, hrest⟩ := List.forall_mem_cons.mp hrests
        have hstep := (restsOn_iff hstopped ev).mpr hfirst
        cases middle with
        | nil =>
            obtain ⟨rfl, rfl⟩ := List.cons.inj hsplit
            exact hstep
        | cons first middle =>
            obtain ⟨rfl, rfl⟩ := List.cons.inj hsplit
            exact (ih hstep.1).mpr hrest middle later after rfl

/-- A termination is final exactly when no connection event follows it. -/
theorem terminateFinal_iff (sm : Sm) (events : List Event) :
    sm.TerminateFinal events ↔
      ∀ before after, events = before ++ .terminate :: after →
        ∀ ev ∈ after, ev.restarts = false := by
  have hstopped (before : List Event) : ((sm.run before).run [.terminate]).state = .stopped := rfl
  have hsplit (before middle : List Event) : sm.run (before ++ .terminate :: middle) =
      ((sm.run before).run [.terminate]).run middle := by
    rw [← run_append, ← run_append, List.singleton_append]
  constructor
  · intro hfinal before after hevents
    refine (restsOn_all_iff (hstopped before) after).mp ?_
    intro middle ev rest hafter
    rw [← hsplit]
    exact hfinal before middle ev rest (by rw [hevents, hafter])
  · intro hrests before middle ev after hevents
    rw [hsplit]
    exact (restsOn_all_iff (hstopped before) _).mpr (hrests before _ hevents) middle ev after rfl

end Sm

end Newt.Core
