import Newt.Site.Control

/-! # The state machine and the data plane

The state machine never asks whether a data plane exists, and the session never
asks the state machine. That both agree is an invariant of whole sessions: while
the loop waits, a data plane exists exactly in the state `Connected`. A monitor
that watches bring-ups and teardowns carries the invariant through the trace.
-/

namespace Newt.Site

open Foundation Stack Proxy Newt.Core

/-- Watches a list of actions, and allows a bring-up only while no tunnel is up. -/
def actionMonitor : Monitor Action Bool where
  next := upAfter
  allows up act := ∀ wg, act = .bringUp wg → up = false

/-- Whether a data plane exists, read off the trace of a session. A note has to
agree with it, and a bring-up is allowed only while there is none. -/
def planeMonitor : Monitor Note Bool where
  next up n :=
    match n with
    | .broughtUp => true
    | .executed .teardown _ => false
    | _ => up
  allows up n :=
    match n with
    | .executed act existed => existed = up ∧ actionMonitor.allows up act
    | _ => True

theorem actionMonitor_sends {acts : List Action} (hsends : ∀ act ∈ acts, ∃ msg, act = .send msg)
    (up : Bool) : actionMonitor.Accepts up acts ∧ actionMonitor.after up acts = up := by
  induction acts with
  | nil => exact ⟨trivial, rfl⟩
  | cons act rest ih =>
      obtain ⟨⟨msg, rfl⟩, hrest⟩ := List.forall_mem_cons.mp hsends
      obtain ⟨haccepts, hafter⟩ := ih hrest
      exact ⟨⟨(fun _ hact => nomatch hact), haccepts⟩, hafter⟩

/-- What every step of the state machine keeps. The channel opens only once, when
no tunnel is up. -/
theorem step_agrees {sm : Sm} {up : Bool} (hagree : up = true ↔ sm.state = .connected) (ev : Event)
    (hopen : ev = .wsConnected → up = false) :
    actionMonitor.Accepts up (sm.step ev).2 ∧
      (actionMonitor.after up (sm.step ev).2 = true ↔ (sm.step ev).1.state = .connected) := by
  cases ev with
  | wsConnected =>
      simp [Sm.step, actionMonitor, upAfter, hopen rfl]
  | exitNodes nodes =>
      obtain ⟨hsends, hstate⟩ := sm.step_exitNodes nodes
      obtain ⟨haccepts, hafter⟩ := actionMonitor_sends hsends up
      exact ⟨haccepts, by rw [hafter, hstate, hagree]⟩
  | wgConnect wg =>
      -- a running tunnel is torn down first
      by_cases hstate : sm.state = .connected
      · simp [Sm.step, Sm.teardown, hstate, actionMonitor, upAfter]
      · have hdown : up = false := by simpa [hstate] using hagree
        simp [Sm.step, Sm.teardown, hstate, actionMonitor, upAfter, hdown]
  | reconnect =>
      by_cases hstate : sm.state = .connected
      · simp [Sm.step, Sm.teardown, hstate, actionMonitor, upAfter]
      · have hdown : up = false := by simpa [hstate] using hagree
        simp [Sm.step, Sm.teardown, hstate, actionMonitor, upAfter, hdown]
  | terminate => simp [Sm.step, actionMonitor, upAfter]
  | tick elapsed =>
      obtain ⟨hsends, hstate⟩ := sm.step_tick elapsed
      obtain ⟨haccepts, hafter⟩ := actionMonitor_sends hsends up
      exact ⟨haccepts, by rw [hafter, hstate, hagree]⟩

theorem toEvent_ne_wsConnected {Json : Type} {serde : Serde Json} {topic : Option Topic}
    {data : Json} {ev : Event} (hevent : toEvent serde topic data = some ev) :
    ev ≠ .wsConnected := by
  rintro rfl
  simp only [toEvent] at hevent
  split at hevent <;> simp at hevent

/-- The notes of actions that the one monitor allows are allowed by the other. -/
theorem planeMonitor_execAllNotes {up : Bool} {acts : List Action}
    (haccepts : actionMonitor.Accepts up acts) :
    planeMonitor.Accepts up (execAllNotes up acts) ∧
      planeMonitor.after up (execAllNotes up acts) = acts.foldl upAfter up := by
  induction acts generalizing up with
  | nil => exact ⟨trivial, rfl⟩
  | cons act rest ih =>
      obtain ⟨hact, hrest⟩ := haccepts
      obtain ⟨hnotes, hafter⟩ := ih hrest
      have hfirst : planeMonitor.Accepts up (execNotes up act) ∧
          planeMonitor.after up (execNotes up act) = upAfter up act := by
        cases act with
        | bringUp wg => exact ⟨⟨⟨rfl, hact⟩, trivial, trivial⟩, rfl⟩
        | send msg => exact ⟨⟨⟨rfl, hact⟩, trivial⟩, rfl⟩
        | teardown => exact ⟨⟨⟨rfl, hact⟩, trivial⟩, rfl⟩
        | stop => exact ⟨⟨⟨rfl, hact⟩, trivial⟩, rfl⟩
      rw [execAllNotes, Monitor.accepts_append, Monitor.after_append, hfirst.2]
      exact ⟨⟨hfirst.1, hnotes⟩, hafter⟩

namespace Control

/-- A tunnel is up exactly in the state `Connected`. -/
def Agrees (c : Control) : Prop := c.up = true ↔ c.sm.state = .connected

/-- The monitor allows the notes on the way to `next`, and both agree again. -/
def Keeps (c : Control) (next : Control × List Note) : Prop :=
  planeMonitor.Accepts c.up next.2 ∧ planeMonitor.after c.up next.2 = next.1.up ∧ next.1.Agrees

theorem perform_keeps {c : Control} (hagrees : c.Agrees) (ev : Event)
    (hopen : ev = .wsConnected → c.up = false) : c.Keeps (c.perform ev) := by
  obtain ⟨haccepts, hstate⟩ := step_agrees hagrees ev hopen
  obtain ⟨hnotes, hafter⟩ := planeMonitor_execAllNotes haccepts
  exact ⟨hnotes, hafter, hstate⟩

variable {Json σ : Type} (serde : Serde Json)

theorem learnVersion_agrees {c : Control} (hagrees : c.Agrees) (version : Option Int) :
    (c.learnVersion version).Agrees := by
  cases version <;> exact hagrees

theorem receive_keeps {c : Control} (hagrees : c.Agrees) (msg : WsMessage Json) :
    c.Keeps (c.receive serde msg) := by
  have hlearned := learnVersion_agrees hagrees msg.configVersion
  have hup : (c.learnVersion msg.configVersion).up = c.up := by
    cases h : msg.configVersion <;> rfl
  simp only [Keeps, receive, ← hup]
  cases htopic : updateTopic msg with
  | some topic => exact ⟨⟨trivial, trivial⟩, rfl, hlearned⟩
  | none =>
      cases hevent : toEvent serde (Topic.ofText msg.typ) msg.data with
      | none => exact ⟨trivial, rfl, hlearned⟩
      | some ev =>
          refine perform_keeps hlearned ev ?_
          intro hopen
          exact absurd hopen (toEvent_ne_wsConnected hevent)

theorem beat_keeps {c : Control} (hagrees : c.Agrees) : c.Keeps c.beat := by
  by_cases hticks : c.pingTicks + 1 < 10
  · simp only [Keeps, beat, hticks, if_true]
    exact ⟨trivial, rfl, hagrees⟩
  · simp only [Keeps, beat, hticks, if_false]
    exact ⟨⟨trivial, trivial⟩, rfl, hagrees⟩

/-- What every turn of the session loop keeps. -/
theorem turn_keeps {c : Control} (hagrees : c.Agrees) (input : Input Json σ) :
    c.Keeps (c.turn serde input) := by
  have hquiet : c.Keeps (c, []) := ⟨trivial, rfl, hagrees⟩
  cases input with
  | recv msg w =>
      match msg with
      | .error e => exact hquiet
      | .ok none => exact hquiet
      | .ok (some msg) => exact receive_keeps serde hagrees msg
  | tick w ping holepunch heartbeat =>
      obtain ⟨hnotes, hafter, hnext⟩ := perform_keeps hagrees (.tick 1000) (by simp)
      obtain ⟨hmore, hlast, hagrees⟩ := beat_keeps hnext
      rw [turn_tick, Keeps, Monitor.accepts_append, Monitor.after_append, hafter]
      exact ⟨⟨hnotes, hmore⟩, hlast, hagrees⟩
  | drive change order => exact hquiet
  | dropped change => exact hquiet
  | task h event => exact hquiet

end Control

namespace Session

variable {Json σ : Type} (cfg : SiteRun Json) (alloc : Allocator) (api : TcpApi σ)

/-- The monitor knows whether there is a data plane, and so does the state
machine. -/
def Watched (up : Bool) (s : Session σ) : Prop := up = s.data.isSome ∧ s.control.Agrees

theorem follows_of_keeps {s : Session σ} {x : Traced Note Ending (Session σ)}
    {next : Control × List Note} (hx : x.Records next.2 fun last => last.control = next.1)
    (hkeeps : s.control.Keeps next) : planeMonitor.Follows s.data.isSome x Watched := by
  obtain ⟨hnotes, hafter, hagrees⟩ := hkeeps
  refine Monitor.follows_of_records hx hnotes ?_
  intro last hlast
  rw [← hlast] at hafter hagrees
  exact ⟨hafter, hagrees⟩

theorem session_follows (w : Nat → Surroundings) (inputs : List (Input Json σ)) :
    planeMonitor.Follows false (session cfg alloc api w inputs) Watched := by
  have hfresh : (fresh cfg : Session σ).control.Agrees := by
    simp [Control.Agrees, control, fresh, Sm.new]
  have hopened := follows_of_keeps
    (perform_records cfg alloc api w (fresh cfg : Session σ) .wsConnected)
    (Control.perform_keeps hfresh .wsConnected fun _ => rfl)
  refine hopened.bind ?_
  intro up s hwatched
  refine Monitor.follows_foldlM (fun _ => Watched) ?_ [] inputs hwatched
  rintro _ input up s ⟨rfl, hagrees⟩
  exact follows_of_keeps (turn_records cfg alloc api s input)
    (Control.turn_keeps cfg.serde hagrees input)

end Session

/-- Without a teardown a tunnel stays up. -/
theorem planeMonitor_after_up {notes : List Note}
    (hkeeps : ∀ existed, .executed .teardown existed ∉ notes) :
    planeMonitor.after true notes = true := by
  induction notes with
  | nil => rfl
  | cons n rest ih =>
      have hfirst : planeMonitor.next true n = true := by
        cases n with
        | executed act existed =>
            cases act with
            | teardown => exact absurd List.mem_cons_self (hkeeps existed)
            | send msg => rfl
            | bringUp wg => rfl
            | stop => rfl
        | broughtUp => rfl
        | update topic version applied => rfl
        | heartbeat version => rfl
      rw [Monitor.after_cons, hfirst]
      exact ih fun existed hexisted => hkeeps existed (List.mem_cons_of_mem n hexisted)

/-- While the session waits, a data plane exists exactly in the state
`Connected`. A bring-up never replaces a data plane: a teardown lies between. -/
theorem session_plane_agrees {Json σ : Type} (cfg : SiteRun Json) (alloc : Allocator)
    (api : TcpApi σ) (w : Nat → Surroundings) (inputs : List (Input Json σ)) :
    (∀ s, (Session.session cfg alloc api w inputs).result = .ok s →
      (s.data.isSome ↔ s.sm.state = .connected)) ∧
    (∀ wg existed, .executed (.bringUp wg) existed ∈ (Session.session cfg alloc api w inputs).notes →
      existed = false) ∧
    ∀ before middle after wg existed,
      (Session.session cfg alloc api w inputs).notes =
        before ++ .broughtUp :: (middle ++ .executed (.bringUp wg) existed :: after) →
      ∃ existing, .executed .teardown existing ∈ middle := by
  obtain ⟨haccepts, hagrees⟩ := Session.session_follows cfg alloc api w inputs
  have hallows := (planeMonitor.accepts_iff_allows _ _).mp haccepts
  refine ⟨?_, ?_, ?_⟩
  · intro s hs
    exact (hagrees s hs).2
  · intro wg existed hmem
    obtain ⟨front, rest, hsplit⟩ := List.append_of_mem hmem
    obtain ⟨hexisted, hdown⟩ := hallows front _ rest hsplit
    exact hexisted.trans (hdown wg rfl)
  · intro before middle after wg existed hsplit
    by_contra hkept
    have hup : planeMonitor.after true middle = true :=
      planeMonitor_after_up fun existing hmem => hkept ⟨existing, hmem⟩
    have hbring := hallows (before ++ .broughtUp :: middle) (.executed (.bringUp wg) existed) after
      (by rw [hsplit, List.append_assoc, List.cons_append])
    have hdown : planeMonitor.after false (before ++ .broughtUp :: middle) = false :=
      hbring.2 wg rfl
    rw [Monitor.after_append, Monitor.after_cons] at hdown
    exact Bool.noConfusion (hup.symm.trans hdown)

/-- A tunnel that comes up, goes down, and comes up again. -/
def upAndDown : List (Input WgData BufferedSocket) :=
  [arrival .wgConnect none, arrival .wgReconnect none, arrival .wgConnect none]

theorem session_plane_agrees_upAndDown :
    ∃ s, (Session.session plainSite .firstFree bufferedApi (fun _ => quiet) upAndDown).result =
        .ok s ∧ s.sm.state = .connected ∧ s.data.isSome := by
  have hagrees := session_plane_agrees plainSite .firstFree bufferedApi (fun _ => quiet) upAndDown
  exact ⟨_, rfl, rfl, (hagrees.1 _ rfl).mpr rfl⟩

end Newt.Site
