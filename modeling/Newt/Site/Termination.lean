import Newt.Site.Control

/-! # Termination by the server

A termination tells the client to stop entirely. The state machine forgets it on
the next connection event, and the reconnect loop of `tunnel.rs` takes it for one
more session that failed. A termination is final exactly when nothing comes after
it.
-/

namespace Newt.Site

open Foundation Stack Proxy Newt.Core

/-- One round of the reconnect loop: what the token request, the connection, and
the session meet. -/
structure Attempt (Json σ : Type) where
  token : Except IoError Unit
  connect : Except IoError Unit
  w : Nat → Surroundings
  inputs : List (Input Json σ)

/-- The endings after which the loop opens another session. A panic ends the
process. -/
def Ending.reconnects : Ending → Bool
  | .closed | .failed _ => true
  | .panicked _ => false

/-- What the process does: it opens sessions, and each of them leaves its trace. -/
inductive RunNote where
  | opened
  | session (n : Note)

section

variable {Json σ : Type} (cfg : SiteRun Json) (alloc : Allocator) (api : TcpApi σ)

namespace Attempt

def session (a : Attempt Json σ) : Traced Note Ending (Session σ) := do
  .lift (io a.token)
  .lift (io a.connect)
  Session.session cfg alloc api a.w a.inputs

def notes (a : Attempt Json σ) : List RunNote :=
  .opened :: (a.session cfg alloc api).notes.map .session

/-- The session ended, and the process did not. -/
def Over (a : Attempt Json σ) : Prop :=
  ∃ ending, (a.session cfg alloc api).result = .error ending ∧ ending.reconnects

end Attempt

/-- A run of `tunnel::run` up to some time: the rounds that are over, and the
current one. -/
structure Run where
  earlier : List (Attempt Json σ)
  current : Attempt Json σ
  ended : ∀ a ∈ earlier, a.Over cfg alloc api

namespace Run

variable {cfg alloc api}

def notes (r : Run cfg alloc api) : List RunNote :=
  (r.earlier ++ [r.current]).flatMap (Attempt.notes cfg alloc api)

/-- After a stop no further session is opened. -/
def StopFinal (r : Run cfg alloc api) : Prop :=
  ∀ before after, r.notes = before ++ .opened :: after →
    ∀ existed, .session (.executed .stop existed) ∉ before

end Run

end

/-- A message that tells the client to terminate. -/
def Input.Terminates {Json σ : Type} (input : Input Json σ) : Prop :=
  ∃ msg w, input = .recv (.ok (some msg)) w ∧ Topic.ofText msg.typ = some .wgTerminate

theorem toEvent_terminate {Json : Type} {serde : Serde Json} {topic : Option Topic} {data : Json}
    (hevent : toEvent serde topic data = some .terminate) : topic = some .wgTerminate := by
  simp only [toEvent] at hevent
  split at hevent <;> simp at hevent
  rfl

theorem mem_of_executed_mem {act : Action} {existed up : Bool} {acts : List Action}
    (hmem : .executed act existed ∈ execAllNotes up acts) : act ∈ acts := by
  induction acts generalizing up with
  | nil => cases hmem
  | cons first rest ih =>
      rcases List.mem_append.mp hmem with hfirst | hrest
      · cases first <;> simp_all [execNotes]
      · exact List.mem_cons_of_mem first (ih hrest)

namespace Control

theorem perform_stop {c : Control} {ev : Event} {existed : Bool}
    (hmem : .executed .stop existed ∈ (c.perform ev).2) : ev = .terminate :=
  (c.sm.stop_mem_step_iff ev).mp (mem_of_executed_mem hmem)

/-- Only a termination makes the control part stop. -/
theorem turn_stop {Json σ : Type} {serde : Serde Json} {c : Control} {input : Input Json σ}
    {existed : Bool} (hmem : .executed .stop existed ∈ (c.turn serde input).2) :
    input.Terminates := by
  cases input with
  | recv msg w =>
      match msg with
      | .error e => cases hmem
      | .ok none => cases hmem
      | .ok (some msg) =>
          refine ⟨msg, w, rfl, ?_⟩
          simp only [turn, receive] at hmem
          cases htopic : updateTopic msg with
          | some topic => simp [htopic] at hmem
          | none =>
              rw [htopic] at hmem
              cases hevent : toEvent serde (Topic.ofText msg.typ) msg.data with
              | none => simp [hevent, performMessage] at hmem
              | some ev =>
                  rw [hevent] at hmem
                  obtain rfl := perform_stop hmem
                  exact toEvent_terminate hevent
  | tick w ping holepunch heartbeat =>
      rw [turn_tick] at hmem
      rcases List.mem_append.mp hmem with hperform | hbeat
      · cases perform_stop hperform
      · simp only [beat] at hbeat
        split at hbeat <;> simp at hbeat
  | drive change order => cases hmem
  | dropped change => cases hmem
  | task h event => cases hmem

end Control

section

variable {Json σ : Type} (cfg : SiteRun Json) (alloc : Allocator) (api : TcpApi σ)

/-- Refuses a stop. -/
def noStop : Monitor Note Unit := .pointwise fun n => ∀ existed, n ≠ .executed .stop existed

theorem noStop_accepts_iff (t : Unit) (notes : List Note) :
    noStop.Accepts t notes ↔ ∀ existed, .executed .stop existed ∉ notes := by
  rw [noStop, Monitor.pointwise_accepts_iff]
  constructor
  · intro hall existed hmem
    exact hall _ hmem existed rfl
  · rintro hnone n hmem existed rfl
    exact hnone existed hmem

namespace Session

/-- A turn stops the client exactly on a termination. -/
theorem turn_noStop_iff (t : Unit) (s : Session σ) (input : Input Json σ) :
    noStop.Accepts t (turn cfg alloc api s input).notes ↔ ¬ input.Terminates := by
  rw [noStop_accepts_iff]
  constructor
  · rintro hnone ⟨msg, w, rfl, htopic⟩
    refine hnone false ?_
    simp only [turn, receive, htopic]
    exact List.mem_cons_of_mem _ List.mem_cons_self
  · intro hcontinues existed hmem
    exact hcontinues (Control.turn_stop ((turn_records cfg alloc api s input).1.subset hmem))

/-- A session stops the client exactly when it gets to a termination. -/
theorem session_stops_iff (w : Nat → Surroundings) (inputs : List (Input Json σ)) :
    (∃ existed, .executed .stop existed ∈ (session cfg alloc api w inputs).notes) ↔
      ∃ front input rest s, inputs = front ++ input :: rest ∧ input.Terminates ∧
        (session cfg alloc api w front).result = .ok s := by
  have hopening : noStop.Accepts ()
      (perform cfg alloc api w (fresh cfg : Session σ) .wsConnected).notes := by
    rw [noStop_accepts_iff]
    intro existed hmem
    have hrecords := perform_records cfg alloc api w (fresh cfg : Session σ) .wsConnected
    cases Control.perform_stop (hrecords.1.subset hmem)
  have hturns := session_accepts_iff cfg alloc api noStop () w hopening inputs
  simp only [turn_noStop_iff] at hturns
  rw [noStop_accepts_iff] at hturns
  rw [← not_iff_not]
  push Not
  rw [hturns]
  constructor
  · intro hnone front input rest s hinputs hterminates hresult
    exact hnone front input rest s hinputs hresult hterminates
  · intro hnone front input rest s hinputs hresult hterminates
    exact hnone front input rest s hinputs hterminates hresult

end Session

namespace Attempt

/-- The session of the attempt gets to a termination. -/
def Terminated (a : Attempt Json σ) : Prop :=
  ∃ front input rest s, a.inputs = front ++ input :: rest ∧ input.Terminates ∧
    (({ a with inputs := front } : Attempt Json σ).session cfg alloc api).result = .ok s

theorem stops_iff (a : Attempt Json σ) :
    (∃ existed, .session (.executed .stop existed) ∈ a.notes cfg alloc api) ↔
      a.Terminated cfg alloc api := by
  have hnotes (existed : Bool) : .session (.executed .stop existed) ∈ a.notes cfg alloc api ↔
      .executed .stop existed ∈ (a.session cfg alloc api).notes := by
    simp [notes]
  simp only [hnotes, Terminated, session]
  rcases htoken : a.token with e | ⟨⟩
  · simp [io, Except.mapError, Traced.lift]
  rcases hconnect : a.connect with e | ⟨⟩
  · simp [io, Except.mapError, Traced.lift]
  exact Session.session_stops_iff cfg alloc api a.w a.inputs

end Attempt

/-- Knows whether a stop was noted, and refuses a session after one. -/
def stopMonitor : Monitor RunNote Bool where
  next stopped n :=
    match n with
    | .session (.executed .stop _) => true
    | _ => stopped
  allows stopped n :=
    match n with
    | .opened => stopped = false
    | .session _ => True

theorem stopMonitor_after (stopped : Bool) (notes : List RunNote) :
    stopMonitor.after stopped notes = false ↔
      stopped = false ∧ ∀ existed, .session (.executed .stop existed) ∉ notes := by
  induction notes generalizing stopped with
  | nil => simp
  | cons n rest ih =>
      rw [Monitor.after_cons, ih]
      have hnext : stopMonitor.next stopped n = false ↔
          stopped = false ∧ ∀ existed, .session (.executed .stop existed) ≠ n := by
        cases n with
        | opened => simp [stopMonitor]
        | session n =>
            cases n with
            | executed act existed => cases act <;> simp [stopMonitor]
            | broughtUp => simp [stopMonitor]
            | update topic version applied => simp [stopMonitor]
            | heartbeat version => simp [stopMonitor]
      simp only [hnext, List.mem_cons, not_or, forall_and, and_assoc]

theorem stopMonitor_accepts_session (stopped : Bool) (notes : List Note) :
    stopMonitor.Accepts stopped (notes.map .session) := by
  induction notes generalizing stopped with
  | nil => trivial
  | cons n rest ih => exact ⟨trivial, ih _⟩

theorem stopMonitor_accepts_attempt (stopped : Bool) (a : Attempt Json σ) :
    stopMonitor.Accepts stopped (a.notes cfg alloc api) ↔ stopped = false :=
  ⟨fun haccepts => haccepts.1, fun hrunning => ⟨hrunning, stopMonitor_accepts_session _ _⟩⟩

theorem stopMonitor_accepts_iff (stopped : Bool) (earlier : List (Attempt Json σ))
    (current : Attempt Json σ) :
    stopMonitor.Accepts stopped ((earlier ++ [current]).flatMap (Attempt.notes cfg alloc api)) ↔
      stopped = false ∧ ∀ a ∈ earlier, ¬ a.Terminated cfg alloc api := by
  induction earlier generalizing stopped with
  | nil => simp [stopMonitor_accepts_attempt]
  | cons a earlier ih =>
      rw [List.cons_append, List.flatMap_cons, Monitor.accepts_append, ih,
        stopMonitor_accepts_attempt, stopMonitor_after, List.forall_mem_cons,
        ← Attempt.stops_iff, not_exists]
      exact ⟨fun h => ⟨h.1, h.2.1.2, h.2.2⟩, fun h => ⟨h.1, ⟨h.1, h.2.1⟩, h.2.2⟩⟩

theorem Run.stopFinal_iff (r : Run cfg alloc api) :
    r.StopFinal ↔ ∀ a ∈ r.earlier, ¬ a.Terminated cfg alloc api := by
  have haccepts := stopMonitor_accepts_iff cfg alloc api false r.earlier r.current
  rw [Monitor.accepts_iff_allows] at haccepts
  simp only [true_and] at haccepts
  rw [← haccepts]
  constructor
  · intro hfinal before n after hnotes
    cases n with
    | opened => exact (stopMonitor_after false before).mpr ⟨rfl, hfinal before after hnotes⟩
    | session n => trivial
  · intro hallows before after hnotes
    exact ((stopMonitor_after false before).mp (hallows before .opened after hnotes)).2

end

/-- A termination is final for the state machine exactly when no connection event
follows it, and for the process exactly when no session before the current one
got to a termination. -/
theorem terminate_final_iff {Json σ : Type} (cfg : SiteRun Json) (alloc : Allocator)
    (api : TcpApi σ) :
    (∀ (sm : Sm) (events : List Event), sm.TerminateFinal events ↔
      ∀ before after, events = before ++ .terminate :: after →
        ∀ ev ∈ after, ev.restarts = false) ∧
    ∀ r : Run cfg alloc api, r.StopFinal ↔ ∀ a ∈ r.earlier, ¬ a.Terminated cfg alloc api :=
  ⟨Sm.terminateFinal_iff, Run.stopFinal_iff cfg alloc api⟩

/-- A round that the server ends with a termination. -/
def terminatedRound : Attempt WgData BufferedSocket :=
  ⟨.ok (), .ok (), fun _ => quiet, [arrival .wgTerminate none]⟩

/-- The loop opens a session after a terminated one. -/
def restarted : Run plainSite .firstFree bufferedApi where
  earlier := [terminatedRound]
  current := terminatedRound
  ended := by
    intro a ha
    obtain rfl := List.mem_singleton.mp ha
    exact ⟨_, rfl, rfl⟩

/-- A tunnel configuration that is still in flight brings a stopped machine up
again, and a terminated client opens another session. -/
theorem terminate_not_final :
    (∃ wg, ¬ (Sm.new "" "" false).TerminateFinal [.terminate, .wgConnect wg]) ∧
      ¬ restarted.StopFinal := by
  constructor
  · refine ⟨⟨"host:51820", "key", "10.0.0.1", "10.0.0.2", 0, []⟩, ?_⟩
    intro hfinal
    have hrests := hfinal [] [] _ [] rfl
    exact absurd hrests.1 (by decide)
  · intro hfinal
    refine (Run.stopFinal_iff _ _ _ restarted).mp hfinal terminatedRound List.mem_cons_self ?_
    exact ⟨[], arrival .wgTerminate none, [], _, rfl, ⟨_, _, rfl, by decide⟩, rfl⟩

end Newt.Site
