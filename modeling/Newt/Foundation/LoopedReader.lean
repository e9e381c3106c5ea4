import Newt.Foundation.ReadProgram

/-! # Cancellable calls over a stream of read items

A looped reader reads items from a stream with one fixed read program and
folds each item into the locals of the running call until the call returns.
The caller starts a new call after every result, and may also drop a pending
call and start afresh. A dropped call takes its locals and the symbols of its
unfinished read with it.

`serve` is the service without drops. The run law compares every schedule of
arrivals, polls, and drops with it.
-/

namespace Foundation

open ReadProgram

/-- What a call does after an item: read another one, or return. -/
inductive Verdict (σ ρ : Type) where
  | again (locals : σ)
  | returned (result : ρ)

/-- A call reads items with `body`, starting from the locals `start`. Handling
an item may emit effects `ω`. After a result with `stops` no call follows. -/
structure LoopedReader (β ε α σ ρ ω : Type) where
  body : ReadProgram β ε α
  opening : Suspended β ε α
  opening_eq : body.settle = .waiting opening
  start : σ
  onItem : σ → α → Verdict σ ρ × List ω
  onFail : ε → ρ
  stops : ρ → Bool

namespace LoopedReader

variable {β ε α σ ρ ω : Type}

/-- A pending call: its locals and its place in the current item. -/
structure Call (β ε α σ : Type) where
  locals : σ
  reading : Suspended β ε α

/-- A call after one more symbol. -/
inductive Progress (β ε α σ ρ : Type) where
  | pending (call : Call β ε α σ)
  | returned (result : ρ)

/-- The record of a stretch of service: results, effects, and the call left
pending. The call is absent after a result that stops the service. -/
structure Served (β ε α σ ρ ω : Type) where
  results : List ρ
  effects : List ω
  last : Option (Call β ε α σ)

/-- Put earlier results and effects in front of a record. -/
def Served.after (results : List ρ) (effects : List ω) (served : Served β ε α σ ρ ω) :
    Served β ε α σ ρ ω :=
  ⟨results ++ served.results, effects ++ served.effects, served.last⟩

@[simp] theorem Served.after_nil (served : Served β ε α σ ρ ω) :
    served.after [] [] = served := rfl

@[simp] theorem Served.after_after (r₁ r₂ : List ρ) (e₁ e₂ : List ω)
    (served : Served β ε α σ ρ ω) :
    (served.after r₂ e₂).after r₁ e₁ = served.after (r₁ ++ r₂) (e₁ ++ e₂) := by
  simp [Served.after]

variable (reader : LoopedReader β ε α σ ρ ω)

/-- The call as it stands right after its start. -/
def fresh : Call β ε α σ := ⟨reader.start, reader.opening⟩

/-- Hand one symbol to a pending call. -/
def push (call : Call β ε α σ) (symbol : β) : Progress β ε α σ ρ × List ω :=
  match call.reading.push symbol with
  | .waiting reading => (.pending { call with reading := reading }, [])
  | .failed error => (.returned (reader.onFail error), [])
  | .returned item =>
      match reader.onItem call.locals item with
      | (.again locals, effects) => (.pending ⟨locals, reader.opening⟩, effects)
      | (.returned result, effects) => (.returned result, effects)

/-- Uninterrupted service: each call runs to its result, and the next call
starts on the symbols after it. -/
def serve : Call β ε α σ → List β → Served β ε α σ ρ ω
  | call, [] => ⟨[], [], some call⟩
  | call, symbol :: rest =>
      match reader.push call symbol with
      | (.pending call', effects) => (serve call' rest).after [] effects
      | (.returned result, effects) =>
          if reader.stops result then ⟨[result], effects, none⟩
          else (serve reader.fresh rest).after [result] effects

/-- One poll of a pending call: it takes symbols from the buffer until it
returns or the buffer is empty. -/
def poll : Call β ε α σ → List β → Progress β ε α σ ρ × List β × List ω
  | call, [] => (.pending call, [], [])
  | call, symbol :: rest =>
      match reader.push call symbol with
      | (.pending call', effects) =>
          let next := poll call' rest
          (next.1, next.2.1, effects ++ next.2.2)
      | (.returned result, effects) => (.returned result, rest, effects)

/-- What can happen to a session. -/
inductive Event (β : Type) where
  | arrive (symbols : List β)
  | poll
  | cancel

/-- A session: the pending call, the symbols that arrived and were not read,
and what the completed calls produced. -/
structure Session (β ε α σ ρ ω : Type) where
  call : Call β ε α σ
  unread : List β
  results : List ρ
  effects : List ω
  stopped : Bool

/-- A session before its first event. -/
def initial : Session β ε α σ ρ ω := ⟨reader.fresh, [], [], [], false⟩

/-- One event of a session. A stopped session only collects arrivals. -/
def step (session : Session β ε α σ ρ ω) : Event β → Session β ε α σ ρ ω
  | .arrive symbols => { session with unread := session.unread ++ symbols }
  | .poll =>
      if session.stopped then session else
        match reader.poll session.call session.unread with
        | (.pending call, unread, effects) =>
            { session with call := call, unread := unread, effects := session.effects ++ effects }
        | (.returned result, unread, effects) =>
            { call := reader.fresh, unread := unread, results := session.results ++ [result],
              effects := session.effects ++ effects, stopped := reader.stops result }
  | .cancel => if session.stopped then session else { session with call := reader.fresh }

def runFrom (session : Session β ε α σ ρ ω) (schedule : List (Event β)) :
    Session β ε α σ ρ ω :=
  schedule.foldl reader.step session

def run (schedule : List (Event β)) : Session β ε α σ ρ ω :=
  reader.runFrom reader.initial schedule

/-- All symbols that arrive in a schedule, in order. -/
def arrivals (schedule : List (Event β)) : List β :=
  schedule.flatMap fun
    | .arrive symbols => symbols
    | _ => []

/-- Two pending calls that produce the same results and effects on every
continuation of the stream. -/
def Interchangeable (first second : Call β ε α σ) : Prop :=
  ∀ symbols, (reader.serve first symbols).results = (reader.serve second symbols).results ∧
    (reader.serve first symbols).effects = (reader.serve second symbols).effects

theorem serve_append (call : Call β ε α σ) (first second : List β) :
    reader.serve call (first ++ second) =
      match (reader.serve call first).last with
      | none => reader.serve call first
      | some call' => (reader.serve call' second).after
          (reader.serve call first).results (reader.serve call first).effects := by
  induction first generalizing call with
  | nil => simp [serve]
  | cons symbol rest ih =>
      simp only [List.cons_append, serve]
      cases hpush : reader.push call symbol with
      | mk progress effects =>
          cases progress with
          | pending call' =>
              simp only [ih call', Served.after]
              cases hlast : (reader.serve call' rest).last <;> simp [hlast]
          | returned result =>
              by_cases hstop : reader.stops result = true
              · simp [hstop]
              · simp only [hstop, Bool.false_eq_true, if_false, ih reader.fresh, Served.after]
                cases hlast : (reader.serve reader.fresh rest).last <;> simp [hlast]

/-- The service of the symbols after an item that was handled. -/
def resume (rest : List β) : Verdict σ ρ × List ω → Served β ε α σ ρ ω
  | (.again locals, effects) => (reader.serve ⟨locals, reader.opening⟩ rest).after [] effects
  | (.returned result, effects) =>
      if reader.stops result then ⟨[result], effects, none⟩
      else (reader.serve reader.fresh rest).after [result] effects

/-- A call whose current item is complete in the stream handles this item first. -/
theorem serve_item {call : Call β ε α σ} {stream rest : List β} {item : α}
    (hitem : (Status.waiting call.reading).consume stream = (.returned item, rest)) :
    reader.serve call stream = reader.resume rest (reader.onItem call.locals item) := by
  induction stream generalizing call with
  | nil => cases hitem
  | cons symbol tail ih =>
      rw [consume_waiting_cons] at hitem
      rw [serve, push]
      cases hpush : call.reading.push symbol with
      | failed error =>
          rw [hpush, consume_failed] at hitem
          cases hitem
      | waiting reading =>
          rw [hpush] at hitem
          exact @ih ⟨call.locals, reading⟩ hitem
      | returned found =>
          rw [hpush, consume_returned] at hitem
          cases hitem
          dsimp only
          cases hverdict : reader.onItem call.locals item with
          | mk verdict effects =>
              cases verdict with
              | again locals => rfl
              | returned result => rfl

/-- A call at the start of an item that the stream starts with. -/
theorem serve_accepted {input : List β} {item : α} (haccepts : reader.body.Accepts input item)
    (locals : σ) (rest : List β) :
    reader.serve ⟨locals, reader.opening⟩ (input ++ rest) =
      reader.resume rest (reader.onItem locals item) := by
  apply serve_item
  rw [← reader.opening_eq]
  exact haccepts rest

/-- A call whose current item cannot be read returns the failure. -/
theorem serve_failure {call : Call β ε α σ} {stream rest : List β} {error : ε}
    (hfail : (Status.waiting call.reading).consume stream = (.failed error, rest)) :
    reader.serve call stream = reader.resume rest (.returned (reader.onFail error), []) := by
  induction stream generalizing call with
  | nil => cases hfail
  | cons symbol tail ih =>
      rw [consume_waiting_cons] at hfail
      rw [serve, push]
      cases hpush : call.reading.push symbol with
      | failed found =>
          rw [hpush, consume_failed] at hfail
          cases hfail
          rfl
      | waiting reading =>
          rw [hpush] at hfail
          exact @ih ⟨call.locals, reading⟩ hfail
      | returned item =>
          rw [hpush, consume_returned] at hfail
          cases hfail

/-- Serving a buffer from a call is one poll, followed by serving what the
poll left. -/
theorem serve_eq_poll (call : Call β ε α σ) (buffer : List β) :
    reader.serve call buffer =
      match reader.poll call buffer with
      | (.pending call', _, effects) => ⟨[], effects, some call'⟩
      | (.returned result, rest, effects) =>
          if reader.stops result then ⟨[result], effects, none⟩
          else (reader.serve reader.fresh rest).after [result] effects := by
  induction buffer generalizing call with
  | nil => rfl
  | cons symbol rest ih =>
      simp only [serve, poll]
      cases hpush : reader.push call symbol with
      | mk progress effects =>
          cases progress with
          | returned result => rfl
          | pending call' =>
              simp only [ih call']
              cases hpoll : reader.poll call' rest with
              | mk progress' remaining =>
                  cases progress' with
                  | pending call'' => simp [Served.after]
                  | returned result =>
                      by_cases hstop : reader.stops result = true <;>
                        simp [hstop, Served.after]

/-- A poll that stays pending has emptied the buffer. -/
theorem poll_pending_rest {call call' : Call β ε α σ} {buffer rest : List β} {effects : List ω}
    (hpoll : reader.poll call buffer = (.pending call', rest, effects)) : rest = [] := by
  induction buffer generalizing call effects with
  | nil =>
      simp only [poll, Prod.mk.injEq] at hpoll
      exact hpoll.2.1.symm
  | cons symbol tail ih =>
      simp only [poll] at hpoll
      cases hpush : reader.push call symbol with
      | mk progress emitted =>
          cases progress with
          | pending next =>
              simp only [hpush, Prod.mk.injEq] at hpoll
              exact ih (Prod.ext hpoll.1 (Prod.ext hpoll.2.1 rfl))
          | returned result => simp [hpush] at hpoll

/-- The results and effects of a session once `later` has arrived and every
call has been served without drops. -/
def outlook (session : Session β ε α σ ρ ω) (later : List β) : List ρ × List ω :=
  if session.stopped then (session.results, session.effects)
  else
    let owed := reader.serve session.call (session.unread ++ later)
    (session.results ++ owed.results, session.effects ++ owed.effects)

theorem outlook_initial (later : List β) :
    reader.outlook reader.initial later =
      ((reader.serve reader.fresh later).results, (reader.serve reader.fresh later).effects) := by
  simp [outlook, initial]

theorem outlook_arrive (session : Session β ε α σ ρ ω) (symbols later : List β) :
    reader.outlook (reader.step session (.arrive symbols)) later =
      reader.outlook session (symbols ++ later) := by
  simp [outlook, step]

/-- A poll moves service from owed to produced and changes nothing else. -/
theorem outlook_poll (session : Session β ε α σ ρ ω) (later : List β) :
    reader.outlook (reader.step session .poll) later = reader.outlook session later := by
  by_cases hstopped : session.stopped = true
  · simp [step, hstopped]
  · have howed := reader.serve_append session.call session.unread later
    rw [reader.serve_eq_poll session.call session.unread] at howed
    simp only [step, hstopped, Bool.false_eq_true, if_false]
    cases hpoll : reader.poll session.call session.unread with
    | mk progress remaining =>
        cases progress with
        | pending call' =>
            have hrest := reader.poll_pending_rest hpoll
            simp only [hpoll] at howed
            simp [outlook, hstopped, howed, hrest, Served.after]
        | returned result =>
            simp only [hpoll] at howed
            by_cases hstop : reader.stops result = true
            · simp only [hstop, if_true] at howed
              simp [outlook, hstopped, howed, hstop]
            · -- the service goes on with a fresh call on what the poll left unread
              simp only [hstop, Bool.false_eq_true, if_false, Served.after] at howed
              have hnext := reader.serve_append reader.fresh remaining.1 later
              cases hlast : (reader.serve reader.fresh remaining.1).last with
              | none =>
                  simp only [hlast] at howed hnext
                  simp [outlook, hstopped, howed, hnext, hstop]
              | some call' =>
                  simp only [hlast] at howed hnext
                  simp [outlook, hstopped, howed, hnext, hstop, Served.after]

/-- A drop is invisible when the dropped call could be exchanged for a fresh
one. -/
theorem outlook_cancel (session : Session β ε α σ ρ ω) (later : List β)
    (hsame : session.stopped = false → reader.Interchangeable session.call reader.fresh) :
    reader.outlook (reader.step session .cancel) later = reader.outlook session later := by
  by_cases hstopped : session.stopped = true
  · simp [step, hstopped]
  · simp only [Bool.not_eq_true] at hstopped
    obtain ⟨hresults, heffects⟩ := hsame hstopped (session.unread ++ later)
    simp [step, outlook, hstopped, hresults, heffects]

/-- Every drop of the schedule hits a call that `calm` allows to be dropped. -/
def CancelsOnly (calm : Call β ε α σ → Prop) :
    Session β ε α σ ρ ω → List (Event β) → Prop
  | _, [] => True
  | session, event :: rest =>
      (match event with
        | .cancel => session.stopped = false → calm session.call
        | _ => True) ∧ CancelsOnly calm (reader.step session event) rest

/-- When every dropped call could be exchanged for a fresh one, a schedule
changes the outlook of a session only by its arrivals. -/
theorem outlook_runFrom (calm : Call β ε α σ → Prop)
    (hcalm : ∀ call, calm call → reader.Interchangeable call reader.fresh)
    (session : Session β ε α σ ρ ω) (schedule : List (Event β))
    (hcancels : reader.CancelsOnly calm session schedule) (later : List β) :
    reader.outlook (reader.runFrom session schedule) later =
      reader.outlook session (arrivals schedule ++ later) := by
  induction schedule generalizing session with
  | nil => simp [runFrom, arrivals]
  | cons event rest ih =>
      obtain ⟨hevent, hrest⟩ := hcancels
      have htail := ih (reader.step session event) hrest
      simp only [runFrom, List.foldl_cons] at htail ⊢
      rw [htail]
      cases event with
      | arrive symbols =>
          rw [outlook_arrive]
          simp [arrivals]
      | poll =>
          rw [outlook_poll]
          simp [arrivals]
      | cancel =>
          rw [outlook_cancel reader session _ (fun hrunning => hcalm _ (hevent hrunning))]
          simp [arrivals]

/-- The completed calls of a schedule returned what uninterrupted calls return
on everything that arrived: a prefix of it at any time, and all of it once the
arrived symbols are read or the service has stopped. -/
def ReturnsExactly (schedule : List (Event β)) : Prop :=
  (reader.run schedule).results <+: (reader.serve reader.fresh (arrivals schedule)).results ∧
    ((reader.run schedule).stopped = true ∨ (reader.run schedule).unread = [] →
      (reader.run schedule).results = (reader.serve reader.fresh (arrivals schedule)).results)

/-- **Run law.** Dropping only calls that a fresh call could replace, a
session returns exactly the results of uninterrupted service. -/
theorem returnsExactly_of_cancelsOnly (calm : Call β ε α σ → Prop)
    (hcalm : ∀ call, calm call → reader.Interchangeable call reader.fresh)
    (schedule : List (Event β)) (hcancels : reader.CancelsOnly calm reader.initial schedule) :
    reader.ReturnsExactly schedule := by
  -- the outlook with nothing more to come is what the schedule still owes
  have houtlook := reader.outlook_runFrom calm hcalm reader.initial schedule hcancels []
  rw [outlook_initial, List.append_nil] at houtlook
  have hresults : (reader.outlook (reader.run schedule) []).1 =
      (reader.serve reader.fresh (arrivals schedule)).results := congrArg Prod.fst houtlook
  refine ⟨?_, ?_⟩
  · rw [← hresults]
    simp only [outlook]
    split
    · exact List.prefix_rfl
    · exact List.prefix_append _ _
  · intro hquiet
    rw [← hresults]
    rcases hquiet with hstopped | hread
    · simp [outlook, hstopped]
    · simp [outlook, hread, serve]

end LoopedReader

end Foundation
