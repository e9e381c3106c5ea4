import Newt.Core.StateMachine
import Newt.Foundation.Countdown

/-! # Retransmission of the connection requests

While an answer is awaited, the machine repeats its request. The field
`resendDueMs` is the countdown to the next repetition, and its value 0 stands for
no repetition at all. Both waiting states run it as a reloading countdown.
-/

namespace Newt.Core

open Foundation

/-- The milliseconds that pass with an event. -/
def Event.elapsed : Event → Nat
  | .tick elapsed => elapsed
  | _ => 0

/-- A tick, or exit nodes that `keeps` lets pass. -/
def Event.Idle (keeps : List ExitNode → Prop) : Event → Prop
  | .tick _ => True
  | .exitNodes nodes => keeps nodes
  | _ => False

/-- The message of an action, if it is one of the topic. -/
def Action.message (topic : Topic) : Action → Option (WsMessage Body)
  | .send msg => if msg.typ = topic.text then some msg else none
  | _ => none

namespace Sm

/-- The state after one event. -/
abbrev next (sm : Sm) (ev : Event) : Sm := (sm.step ev).1

/-- The messages of a topic that a step sends. -/
def sent (topic : Topic) (sm : Sm) (ev : Event) : List (WsMessage Body) :=
  (sm.step ev).2.filterMap (Action.message topic)

/-- The messages of a topic that a sequence of events sends. -/
def sentIn (topic : Topic) : Sm → List Event → List (WsMessage Body)
  | _, [] => []
  | sm, ev :: rest => sm.sent topic ev ++ sentIn topic (sm.next ev) rest

/-! ## The countdown of the two waiting states -/

/-- How long a state waits before it repeats its request. -/
def resendMs : State → Nat
  | .requestingExitNodes => pingResendMs
  | _ => registerResendMs

/-- The topic of the request that a waiting state repeats. -/
def requestTopic : State → Topic
  | .requestingExitNodes => .pingRequest
  | _ => .wgRegister

/-- The request that a waiting state repeats. -/
def repeated (sm : Sm) : WsMessage Body :=
  match sm.state with
  | .requestingExitNodes => sm.pingRequestMsg
  | _ => sm.registerMsg []

/-- The machine awaits an answer in `state`, with the countdown armed. -/
def Awaits (state : State) (sm : Sm) : Prop := sm.state = state ∧ 0 < sm.resendDueMs

/-- The exit nodes that a waiting state ignores. -/
def Ignores : State → List ExitNode → Prop
  | .requestingExitNodes, nodes => nodes = []
  | _, _ => True

/-- The first exit node makes the machine register, with a full countdown. -/
theorem step_firstNode {sm : Sm} (hrequesting : sm.state = .requestingExitNodes)
    (node : ExitNode) (nodes : List ExitNode) :
    ∃ result, sm.step (.exitNodes (node :: nodes)) =
      ({ sm with state := .registering, resendDueMs := registerResendMs },
        [.send (sm.registerMsg [result])]) := by
  simp [step, hrequesting, registerMsg]

variable {state : State} (hstate : state = .requestingExitNodes ∨ state = .registering)
include hstate

theorem step_idle {sm : Sm} {ev : Event} (hawaits : sm.Awaits state)
    (hidle : ev.Idle (Ignores state)) :
    sm.step ev =
      if sm.resendDueMs ≤ ev.elapsed then
        ({ sm with resendDueMs := resendMs state }, [.send sm.repeated])
      else ({ sm with resendDueMs := sm.resendDueMs - ev.elapsed }, []) := by
  obtain ⟨hin, hdue⟩ := hawaits
  have hne := Nat.ne_of_gt hdue
  cases ev with
  | tick elapsed =>
      obtain rfl | rfl := hstate <;>
        simp [step, hin, hne, Event.elapsed, resendMs, repeated, registerMsg, pingRequestMsg]
  | exitNodes nodes =>
      have hignored : sm.step (.exitNodes nodes) = (sm, []) := by
        obtain rfl | rfl := hstate
        · obtain rfl : nodes = [] := hidle
          simp [step]
        · simp [step, hin]
      have hearly : ¬sm.resendDueMs ≤ (Event.exitNodes nodes).elapsed := Nat.not_le_of_gt hdue
      rw [hignored, if_neg hearly]
      rfl
  | _ => exact hidle.elim

theorem sent_idle {sm : Sm} {ev : Event} (hawaits : sm.Awaits state)
    (hidle : ev.Idle (Ignores state)) :
    sm.sent (requestTopic state) ev =
      if sm.resendDueMs ≤ ev.elapsed then [sm.repeated] else [] := by
  have htyp : sm.repeated.typ = (requestTopic state).text := by
    obtain rfl | rfl := hstate <;> simp [repeated, hawaits.1, requestTopic, pingRequestMsg,
      registerMsg]
  rw [sent, step_idle hstate hawaits hidle]
  split <;> simp [Action.message, htyp]

theorem resendMs_pos : 0 < resendMs state := by
  obtain rfl | rfl := hstate <;> decide

/-- A waiting state runs `resendDueMs` as a countdown that the repetitions reload. -/
def countdown : Countdown next Event.elapsed (resendMs state) where
  Active := Awaits state
  Waits := Event.Idle (Ignores state)
  remaining := resendDueMs
  Fires sm ev := sm.sent (requestTopic state) ev ≠ []
  remaining_pos _ hawaits := hawaits.2
  step_active sm ev hawaits hidle := by
    rw [next, step_idle hstate hawaits hidle]
    split
    · exact ⟨hawaits.1, resendMs_pos hstate⟩
    · next hearly => exact ⟨hawaits.1, Nat.sub_pos_of_lt (Nat.lt_of_not_le hearly)⟩
  fires_iff sm ev hawaits hidle := by simp [sent_idle hstate hawaits hidle]
  remaining_fire sm ev hawaits hidle hfires := by
    have hdue : sm.resendDueMs ≤ ev.elapsed := by
      simpa [sent_idle hstate hawaits hidle] using hfires
    rw [next, step_idle hstate hawaits hidle, if_pos hdue]
  remaining_wait sm ev hawaits hidle hsilent := by
    have hearly : ¬sm.resendDueMs ≤ ev.elapsed := by
      simpa [sent_idle hstate hawaits hidle] using hsilent
    rw [next, step_idle hstate hawaits hidle, if_neg hearly]

omit hstate

/-! ## The schedule -/

/-- Among the events, `topic` is sent again exactly at the ticks that bring the
time since it was last sent to `interval`. -/
def ResentEvery (topic : Topic) (interval : Nat) (sm : Sm) (events : List Event) : Prop :=
  ∀ front last quiet ev after, events = front ++ last :: (quiet ++ ev :: after) →
    (sm.run front).sent topic last ≠ [] →
    (∀ before between rest, quiet = before ++ between :: rest →
      (sm.run (front ++ last :: before)).sent topic between = []) →
    ((sm.run (front ++ last :: quiet)).sent topic ev ≠ [] ↔
      (∃ elapsed, ev = .tick elapsed) ∧ interval ≤ ((quiet ++ [ev]).map Event.elapsed).sum)

/-- The countdown is armed after the first event and stays so. -/
def StaysArmed (sm : Sm) (first : Event) (events : List Event) : Prop :=
  ∀ before after, events = before ++ after → (sm.run (first :: before)).resendDueMs ≠ 0

section Schedule

variable {sm : Sm} {first : Event} {events : List Event}

include hstate in
theorem staysArmed_of_idle (hfirst : (sm.next first).Awaits state)
    (hidle : ∀ ev ∈ events, ev.Idle (Ignores state)) : sm.StaysArmed first events := by
  intro before after hsplit
  have hbefore : ∀ ev ∈ before, ev.Idle (Ignores state) := fun ev hev =>
    hidle ev (by rw [hsplit]; exact List.mem_append_left _ hev)
  have hawaits : (before.foldl next (sm.next first)).Awaits state :=
    (countdown hstate).active_foldl hfirst hbefore
  exact Nat.ne_of_gt hawaits.2

include hstate in
/-- From a send on, while nothing is sent, the next send is due at the interval. -/
theorem sent_after_quiet_iff {quiet : List Event} {ev : Event} (hawaits : sm.Awaits state)
    (hloaded : sm.resendDueMs = resendMs state)
    (hquietIdle : ∀ ev ∈ quiet, ev.Idle (Ignores state)) (hidle : ev.Idle (Ignores state))
    (hquiet : ∀ before between rest, quiet = before ++ between :: rest →
      (sm.run before).sent (requestTopic state) between = []) :
    (sm.run quiet).sent (requestTopic state) ev ≠ [] ↔
      (∃ elapsed, ev = .tick elapsed) ∧
        resendMs state ≤ ((quiet ++ [ev]).map Event.elapsed).sum := by
  have hsilent : (countdown hstate).Quiet sm quiet := fun before between rest hsplit hsends =>
    hsends (hquiet before between rest hsplit)
  have hfires : (sm.run quiet).sent (requestTopic state) ev ≠ [] ↔
      sm.resendDueMs ≤ ((quiet ++ [ev]).map Event.elapsed).sum :=
    (countdown hstate).fires_foldl_iff hawaits hquietIdle hsilent hidle
  rw [hfires, hloaded]
  refine ⟨fun hdue => ⟨?_, hdue⟩, And.right⟩
  cases ev with
  | tick elapsed => exact ⟨elapsed, rfl⟩
  | _ =>
      -- no time passes, so what is due now was due in the quiet sequence already
      have hshort : (quiet.map Event.elapsed).sum < sm.resendDueMs :=
        ((countdown hstate).quiet_iff hawaits hquietIdle).mp hsilent
      simp only [List.map_append, List.sum_append, List.map_cons, List.map_nil, List.sum_cons,
        List.sum_nil, Event.elapsed] at hdue
      omega

include hstate in
/-- A waiting state entered with a full countdown keeps to the schedule. -/
theorem resentEvery_of_idle (hfirst : (sm.next first).Awaits state)
    (hloaded : (sm.next first).resendDueMs = resendMs state)
    (hidle : ∀ ev ∈ events, ev.Idle (Ignores state)) :
    sm.ResentEvery (requestTopic state) (resendMs state) (first :: events) := by
  intro front last quiet ev after hsplit hsent hquiet
  have hpast (before : List Event) :
      sm.run (front ++ last :: before) = ((sm.run front).next last).run before := by
    rw [run_append]
    rfl
  rw [hpast]
  -- the time is counted from the entry, or from a repetition that reloaded the countdown
  have hfull : ((sm.run front).next last).Awaits state ∧
      ((sm.run front).next last).resendDueMs = resendMs state ∧
      ∀ ev' ∈ quiet ++ ev :: after, ev'.Idle (Ignores state) := by
    cases front with
    | nil =>
        obtain ⟨rfl, rfl⟩ := List.cons.inj hsplit
        exact ⟨hfirst, hloaded, hidle⟩
    | cons entry front =>
        obtain ⟨rfl, rfl⟩ := List.cons.inj hsplit
        obtain ⟨hfront, hrest⟩ := List.forall_mem_append.mp hidle
        obtain ⟨hlast, hlater⟩ := List.forall_mem_cons.mp hrest
        have hactive : (front.foldl next (sm.next first)).Awaits state :=
          (countdown hstate).active_foldl hfirst hfront
        exact ⟨(countdown hstate).step_active _ _ hactive hlast,
          (countdown hstate).remaining_fire _ _ hactive hlast hsent, hlater⟩
  obtain ⟨hawaits, hdue, hlater⟩ := hfull
  obtain ⟨hquietIdle, hrest⟩ := List.forall_mem_append.mp hlater
  refine sent_after_quiet_iff hstate hawaits hdue hquietIdle
    (List.forall_mem_cons.mp hrest).1 ?_
  intro before between rest hquietSplit
  rw [← hpast]
  exact hquiet before between rest hquietSplit

end Schedule

/-- Both requests are repeated on schedule for as long as their answers are
awaited: the ping request after a connection, the registration after exit nodes. -/
theorem requests_resent_on_schedule (sm : Sm) :
    (∀ first events, first = .wsConnected ∨ first = .reconnect →
      (∀ ev ∈ events, (∃ elapsed, ev = .tick elapsed) ∨ ev = .exitNodes []) →
        sm.sent .pingRequest first = [sm.pingRequestMsg] ∧
          sm.ResentEvery .pingRequest pingResendMs (first :: events) ∧
          sm.StaysArmed first events) ∧
      ∀ node nodes events, sm.state = .requestingExitNodes →
        (∀ ev ∈ events, (∃ elapsed, ev = .tick elapsed) ∨ ∃ nodes, ev = .exitNodes nodes) →
          (∃ msg, sm.sent .wgRegister (.exitNodes (node :: nodes)) = [msg]) ∧
            sm.ResentEvery .wgRegister registerResendMs (.exitNodes (node :: nodes) :: events) ∧
            sm.StaysArmed (.exitNodes (node :: nodes)) events := by
  constructor
  · intro first events hfirst hevents
    have hidle : ∀ ev ∈ events, ev.Idle (Ignores .requestingExitNodes) := by
      intro ev hev
      obtain ⟨elapsed, rfl⟩ | rfl := hevents ev hev
      · trivial
      · rfl
    have hawaits : (sm.next first).Awaits .requestingExitNodes := by
      obtain rfl | rfl := hfirst <;> exact ⟨rfl, (by decide : 0 < pingResendMs)⟩
    have hloaded : (sm.next first).resendDueMs = pingResendMs := by
      obtain rfl | rfl := hfirst <;> rfl
    refine ⟨?_, resentEvery_of_idle (.inl rfl) hawaits hloaded hidle,
      staysArmed_of_idle (.inl rfl) hawaits hidle⟩
    obtain rfl | rfl := hfirst
    · rfl
    · have hreconnect : (sm.step .reconnect).2 = sm.teardown ++ [.send sm.pingRequestMsg] := rfl
      rw [sent, hreconnect, List.filterMap_append, teardown]
      split <;> rfl
  · intro node nodes events hrequesting hevents
    have hidle : ∀ ev ∈ events, ev.Idle (Ignores .registering) := by
      intro ev hev
      obtain ⟨elapsed, rfl⟩ | ⟨nodes, rfl⟩ := hevents ev hev
      · trivial
      · trivial
    obtain ⟨result, hstep⟩ := step_firstNode hrequesting node nodes
    have hawaits : (sm.next (.exitNodes (node :: nodes))).Awaits .registering := by
      rw [next, hstep]
      exact ⟨rfl, (by decide : 0 < registerResendMs)⟩
    have hloaded : (sm.next (.exitNodes (node :: nodes))).resendDueMs = registerResendMs := by
      rw [next, hstep]
    refine ⟨⟨sm.registerMsg [result], ?_⟩, resentEvery_of_idle (.inr rfl) hawaits hloaded hidle,
      staysArmed_of_idle (.inr rfl) hawaits hidle⟩
    rw [sent, hstep]
    rfl

/-- A fresh site that connects, ticks twice and then learns an exit node. -/
theorem fresh_requests_resent :
    ((new "PUBKEY" "rust-0.1.0" false).sent .pingRequest .wsConnected =
        [(new "PUBKEY" "rust-0.1.0" false).pingRequestMsg] ∧
      (new "PUBKEY" "rust-0.1.0" false).ResentEvery .pingRequest pingResendMs
        [.wsConnected, .tick 1000, .exitNodes [], .tick 2000] ∧
      (new "PUBKEY" "rust-0.1.0" false).StaysArmed .wsConnected
        [.tick 1000, .exitNodes [], .tick 2000]) ∧
    ((∃ msg, ((new "PUBKEY" "rust-0.1.0" false).run [.wsConnected]).sent .wgRegister
        (.exitNodes [⟨7, "", "e:1", 1.0, false⟩]) = [msg]) ∧
      ((new "PUBKEY" "rust-0.1.0" false).run [.wsConnected]).ResentEvery .wgRegister
        registerResendMs [.exitNodes [⟨7, "", "e:1", 1.0, false⟩], .tick 500, .tick 2500] ∧
      ((new "PUBKEY" "rust-0.1.0" false).run [.wsConnected]).StaysArmed
        (.exitNodes [⟨7, "", "e:1", 1.0, false⟩]) [.tick 500, .tick 2500]) :=
  ⟨(requests_resent_on_schedule _).1 .wsConnected [.tick 1000, .exitNodes [], .tick 2000]
      (.inl rfl) (by simp),
    (requests_resent_on_schedule _).2 _ _ [.tick 500, .tick 2500] rfl (by simp)⟩

/-! ## The registrations of one stay -/

section Registering

variable {sm : Sm} {events : List Event}

/-- A stay in `Registering`: the first event enters the state, no later one leaves
it. -/
def RegisterStay (sm : Sm) (stay : List Event) : Prop :=
  sm.state ≠ .registering ∧ stay ≠ [] ∧
    ∀ before after, stay = before ++ after → before ≠ [] → (sm.run before).state = .registering

/-- The registrations that each stay of a run sends are all the same message. -/
def RegistersRepeat (sm : Sm) (events : List Event) : Prop :=
  ∀ front stay after, events = front ++ (stay ++ after) → (sm.run front).RegisterStay stay →
    ∀ a ∈ (sm.run front).sentIn .wgRegister stay,
      ∀ b ∈ (sm.run front).sentIn .wgRegister stay, a = b

/-- `Registering` is entered from `RequestingExitNodes` with a first exit node, and
left by everything but ticks and exit nodes. -/
theorem next_registering_iff (sm : Sm) (ev : Event) :
    (sm.next ev).state = .registering ↔
      (sm.state = .registering ∧ ev.Idle (Ignores .registering)) ∨
        (sm.state = .requestingExitNodes ∧ ∃ node nodes, ev = .exitNodes (node :: nodes)) := by
  cases ev with
  | tick elapsed => simp [next, (sm.step_tick elapsed).2, Event.Idle]
  | exitNodes nodes =>
      by_cases hrequesting : sm.state = .requestingExitNodes
      · cases nodes <;> simp [next, step, hrequesting, Event.Idle]
      · simp [next, step, hrequesting, Event.Idle, Ignores]
  | _ => simp [next, step, Event.Idle]

/-- The events after the first of a stay are ticks and exit nodes. -/
theorem idle_of_stays (hregistering : sm.state = .registering)
    (hstays : ∀ before after, events = before ++ after → (sm.run before).state = .registering) :
    ∀ ev ∈ events, ev.Idle (Ignores .registering) := by
  induction events generalizing sm with
  | nil => simp
  | cons ev events ih =>
      have hnext : (sm.next ev).state = .registering := hstays [ev] events rfl
      have hidle : ev.Idle (Ignores .registering) := by
        obtain ⟨-, hidle⟩ | ⟨hrequesting, -⟩ := (sm.next_registering_iff ev).mp hnext
        · exact hidle
        · rw [hregistering] at hrequesting
          cases hrequesting
      refine List.forall_mem_cons.mpr ⟨hidle, ih hnext ?_⟩
      intro before after hsplit
      exact hstays (ev :: before) after (by rw [hsplit, List.cons_append])

theorem sentIn_eq_nil_iff_quiet (sm : Sm) (events : List Event) :
    sm.sentIn .wgRegister events = [] ↔
      (countdown (.inr rfl : State.registering = _ ∨ _)).Quiet sm events := by
  induction events generalizing sm with
  | nil => simp [sentIn, Countdown.Quiet]
  | cons ev events ih =>
      rw [Countdown.quiet_cons_iff, sentIn, List.append_eq_nil_iff, ih]
      exact and_congr_left fun _ => Classical.not_not.symm

/-- While it registers, the machine sends no other registration than the repeated
one. -/
theorem eq_registerMsg_of_mem_sentIn (hawaits : sm.Awaits .registering)
    (hidle : ∀ ev ∈ events, ev.Idle (Ignores .registering)) :
    ∀ msg ∈ sm.sentIn .wgRegister events, msg = sm.registerMsg [] := by
  induction events generalizing sm with
  | nil => simp [sentIn]
  | cons ev events ih =>
      obtain ⟨hev, hrest⟩ := List.forall_mem_cons.mp hidle
      have hactive := (countdown (.inr rfl)).step_active sm ev hawaits hev
      have hsame : (sm.next ev).registerMsg [] = sm.registerMsg [] := by
        rw [next, step_idle (.inr rfl) hawaits hev]
        split <;> rfl
      have hsent : sm.sent .wgRegister ev =
          if sm.resendDueMs ≤ ev.elapsed then [sm.repeated] else [] :=
        sent_idle (.inr rfl) hawaits hev
      have hrepeated : sm.repeated = sm.registerMsg [] := by simp [repeated, hawaits.1]
      refine List.forall_mem_append.mpr ⟨?_, hsame ▸ ih hactive hrest⟩
      intro msg hmsg
      rw [hsent, hrepeated] at hmsg
      split at hmsg
      · exact List.mem_singleton.mp hmsg
      · cases hmsg

/-- The registrations of a stay are all the same exactly when the stay ends before
the first of them is repeated, since the repetitions carry no ping results. -/
theorem registers_eq_iff {stay : List Event} (hstay : sm.RegisterStay stay) :
    (∀ a ∈ sm.sentIn .wgRegister stay, ∀ b ∈ sm.sentIn .wgRegister stay, a = b) ↔
      (stay.map Event.elapsed).sum < registerResendMs := by
  obtain ⟨hout, hne, hstays⟩ := hstay
  obtain ⟨first, later, rfl⟩ := List.exists_cons_of_ne_nil hne
  have henter : (sm.next first).state = .registering := hstays [first] later rfl (by simp)
  obtain ⟨hin, -⟩ | ⟨hrequesting, node, nodes, rfl⟩ := (sm.next_registering_iff first).mp henter
  · exact absurd hin hout
  have hidle : ∀ ev ∈ later, ev.Idle (Ignores .registering) := by
    refine idle_of_stays henter ?_
    intro before after hsplit
    exact hstays (_ :: before) after (by rw [hsplit, List.cons_append]) (by simp)
  obtain ⟨result, hstep⟩ := step_firstNode hrequesting node nodes
  have hfirst : sm.sent .wgRegister (.exitNodes (node :: nodes)) = [sm.registerMsg [result]] := by
    rw [sent, hstep]
    rfl
  have hawaits : (sm.next (.exitNodes (node :: nodes))).Awaits .registering := by
    rw [next, hstep]
    exact ⟨rfl, (by decide : 0 < registerResendMs)⟩
  have hrepeats := eq_registerMsg_of_mem_sentIn hawaits hidle
  have hquiet : (sm.next (.exitNodes (node :: nodes))).sentIn .wgRegister later = [] ↔
      (later.map Event.elapsed).sum < registerResendMs := by
    rw [sentIn_eq_nil_iff_quiet, Countdown.quiet_iff _ hawaits hidle]
    simp only [countdown, next, hstep]
  have htime : ((Event.exitNodes (node :: nodes) :: later).map Event.elapsed).sum =
      (later.map Event.elapsed).sum := Nat.zero_add _
  rw [htime, ← hquiet, sentIn, hfirst]
  constructor
  · intro hequal
    -- a repetition in the stay would be without the ping results of the first message
    apply List.eq_nil_iff_forall_not_mem.mpr
    intro msg hmsg
    have hsame := hequal _ (List.mem_append_left _ (List.mem_singleton.mpr rfl)) msg
      (List.mem_append_right _ hmsg)
    rw [hrepeats msg hmsg] at hsame
    simp [registerMsg] at hsame
  · intro hnone
    simp [hnone]

/-- The registrations of every stay repeat exactly when no stay lasts as long as
the countdown. -/
theorem registersRepeat_iff (sm : Sm) (events : List Event) :
    sm.RegistersRepeat events ↔
      ∀ front stay after, events = front ++ (stay ++ after) → (sm.run front).RegisterStay stay →
        (stay.map Event.elapsed).sum < registerResendMs := by
  constructor
  · intro hrepeat front stay after hsplit hstay
    exact (registers_eq_iff hstay).mp (hrepeat front stay after hsplit hstay)
  · intro hshort front stay after hsplit hstay
    exact (registers_eq_iff hstay).mpr (hshort front stay after hsplit hstay)

/-- An exit node and a tick of two seconds: the second registration has no ping
results. -/
theorem register_resent_without_results :
    ¬(new "PUBKEY" "rust-0.1.0" false).RegistersRepeat
      [.wsConnected, .exitNodes [⟨7, "", "e:1", 1.0, false⟩], .tick 2000] := by
  intro hrepeat
  have hstay : ((new "PUBKEY" "rust-0.1.0" false).run [.wsConnected]).RegisterStay
      [.exitNodes [⟨7, "", "e:1", 1.0, false⟩], .tick 2000] := by
    refine ⟨by decide, by simp, ?_⟩
    intro before after hsplit hne
    obtain ⟨first, before, rfl⟩ := List.exists_cons_of_ne_nil hne
    obtain ⟨rfl, hlater⟩ := List.cons.inj hsplit
    cases before with
    | nil => rfl
    | cons second before =>
        obtain ⟨rfl, hnil⟩ := List.cons.inj hlater
        obtain rfl := (List.append_eq_nil_iff.mp hnil.symm).1
        rfl
  have hsame := hrepeat [.wsConnected] _ [] rfl hstay _ List.mem_cons_self _
    (List.mem_cons_of_mem _ List.mem_cons_self)
  obtain ⟨-, hdata, -⟩ := WsMessage.mk.inj hsame
  obtain ⟨-, hresults, -⟩ := Body.register.inj hdata
  cases hresults

end Registering

end Sm

end Newt.Core
