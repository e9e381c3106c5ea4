import Newt.Proxy.Bridge

/-! # The service loop over all connections

The sockets of a stack and the bridges of its connections, which the site and
the userspace client service in the same way.
-/

namespace Newt.Proxy

open Foundation Stack

structure Plane (σ : Type) where
  sockets : SocketSet σ
  conns : Assoc Handle Bridge

namespace Plane

variable {σ : Type} (api : TcpApi σ)

/-- Free a socket that is fully closed, together with its bridge. -/
def reap (plane : Plane σ) (h : Handle) (s : σ) : Except Fault (Plane σ) :=
  if api.isOpen s then .ok plane
  else
    match plane.sockets.remove h with
    | .error e => .error e
    | .ok sockets => .ok ⟨sockets, plane.conns.erase h⟩

/-- One round of the service loop. The bridge at each call of `close` is part of
the result. A handle without a bridge is only checked for reaping. -/
def serve (plane : Plane σ) (h : Handle) : Except Fault (Plane σ × List (Handle × Bridge)) :=
  match plane.sockets.get h with
  | .error e => .error e
  | .ok s =>
      match plane.conns.get? h with
      | none => (plane.reap api h s).map fun plane => (plane, [])
      | some b =>
          let (s, b, closed) := b.service api s
          let served : Plane σ := ⟨plane.sockets.put h s, plane.conns.modify h fun _ => b⟩
          (served.reap api h s).map fun plane => (plane, if closed then [(h, b)] else [])

/-- Service the connections in the order of `handles`, a snapshot of the keys. -/
def shuttle (plane : Plane σ) : List Handle → Except Fault (Plane σ × List (Handle × Bridge))
  | [] => .ok (plane, [])
  | h :: rest =>
      match plane.serve api h with
      | .error e => .error e
      | .ok (plane, calls) =>
          match shuttle plane rest with
          | .error e => .error e
          | .ok (plane, more) => .ok (plane, calls ++ more)

/-- An order in which a hash map may yield its keys. -/
structure KeyOrder where
  arrange : List Handle → List Handle
  perm : ∀ keys, (arrange keys).Perm keys

def KeyOrder.inserted : KeyOrder := ⟨id, fun _ => .refl _⟩

/-- A pass over all connections. -/
def shuttleAll (order : KeyOrder) (plane : Plane σ) :
    Except Fault (Plane σ × List (Handle × Bridge)) :=
  plane.shuttle api (order.arrange plane.conns.keys)

/-- An event of the task of a connection. Impossible events change nothing. -/
def runTask (plane : Plane σ) (h : Handle) (event : TaskEvent) : Plane σ :=
  match plane.conns.get? h with
  | none => plane
  | some b =>
      match b.taskStep event with
      | none => plane
      | some b' => { plane with conns := plane.conns.modify h fun _ => b' }

/-- What a run may do beyond what the program forces: in which states a round
may service a connection, and which events of a task may happen. -/
structure Discipline (σ : Type) where
  round : σ → Bridge → Prop
  event : Bridge → TaskEvent → Prop

/-- Every run. -/
def Discipline.any : Discipline σ := ⟨fun _ _ => True, fun _ _ => True⟩

/-- The planes of a run. Connections are opened by dialling a target or with an
accepted stream, the loop services them, their tasks run, and everything else is
a change of the sockets. -/
inductive Reachable (discipline : Discipline σ) : Plane σ → Prop
  | start (sockets : SocketSet σ) : Reachable discipline ⟨sockets, .empty⟩
  | stack {plane : Plane σ} (sockets : SocketSet σ) (prior : Reachable discipline plane) :
      Reachable discipline { plane with sockets := sockets }
  | spawn {plane : Plane σ} (h : Handle) (conn : Conn) (prior : Reachable discipline plane)
      (hconn : conn.Spawned) :
      Reachable discipline { plane with conns := plane.conns.insert h (Bridge.new conn) }
  | serve {plane next : Plane σ} {h : Handle} {calls : List (Handle × Bridge)}
      (prior : Reachable discipline plane)
      (hround : ∀ s b, plane.sockets.get h = .ok s → plane.conns.get? h = some b →
        discipline.round s b)
      (step : plane.serve api h = .ok (next, calls)) : Reachable discipline next
  | task {plane : Plane σ} {h : Handle} {b b' : Bridge} (event : TaskEvent)
      (prior : Reachable discipline plane) (hbridge : plane.conns.get? h = some b)
      (hevent : discipline.event b event) (step : b.taskStep event = some b') :
      Reachable discipline { plane with conns := plane.conns.modify h fun _ => b' }

theorem Reachable.mono {strict lax : Discipline σ}
    (hround : ∀ s b, strict.round s b → lax.round s b)
    (hevent : ∀ b event, strict.event b event → lax.event b event) {plane : Plane σ}
    (hreach : Reachable api strict plane) : Reachable api lax plane := by
  induction hreach with
  | start sockets => exact .start sockets
  | stack sockets _ ih => exact .stack sockets ih
  | spawn h conn _ hconn ih => exact .spawn h conn ih hconn
  | serve _ hallowed step ih =>
      exact .serve ih (fun s b hs hb => hround s b (hallowed s b hs hb)) step
  | task event _ hbridge hallowed step ih =>
      exact .task event ih hbridge (hevent _ event hallowed) step

/-- Every round of a pass is allowed. -/
def RoundsAllowed (discipline : Discipline σ) : Plane σ → List Handle → Prop
  | _, [] => True
  | plane, h :: rest =>
      (∀ s b, plane.sockets.get h = .ok s → plane.conns.get? h = some b → discipline.round s b) ∧
        ∀ next calls, plane.serve api h = .ok (next, calls) → RoundsAllowed discipline next rest

theorem roundsAllowed_any (plane : Plane σ) (handles : List Handle) :
    plane.RoundsAllowed api .any handles := by
  induction handles generalizing plane with
  | nil => trivial
  | cons h rest ih => exact ⟨fun _ _ _ _ => trivial, fun next _ _ => ih next⟩

theorem Reachable.runTask {discipline : Discipline σ} {plane : Plane σ} {h : Handle}
    {event : TaskEvent} (hreach : Reachable api discipline plane)
    (hallowed : ∀ b, plane.conns.get? h = some b → discipline.event b event) :
    Reachable api discipline (plane.runTask h event) := by
  unfold Plane.runTask
  split
  · exact hreach
  · next b hb =>
      split
      · exact hreach
      · next b' hstep => exact .task event hreach hb (hallowed b hb) hstep

/-! ## What a round does -/

/-- A round services the bridge of the handle, and drops it if the socket is
closed. -/
theorem serve_conns {plane next : Plane σ} {h : Handle} {calls : List (Handle × Bridge)}
    (hserve : plane.serve api h = .ok (next, calls)) :
    (plane.conns.get? h = none ∧ calls = [] ∧
        (next.conns = plane.conns ∨ next.conns = plane.conns.erase h)) ∨
      ∃ s b, plane.sockets.get h = .ok s ∧ plane.conns.get? h = some b ∧
        calls = (if (b.service api s).2.2 then [(h, (b.service api s).2.1)] else []) ∧
        (next.conns = plane.conns.modify h (fun _ => (b.service api s).2.1) ∨
          next.conns = (plane.conns.modify h fun _ => (b.service api s).2.1).erase h) := by
  have hreap : ∀ {served last : Plane σ} {s : σ}, served.reap api h s = .ok last →
      last.conns = served.conns ∨ last.conns = served.conns.erase h := by
    intro served last s hlast
    unfold reap at hlast
    split at hlast
    · cases hlast
      exact .inl rfl
    · split at hlast
      · cases hlast
      · cases hlast
        exact .inr rfl
  unfold serve at hserve
  split at hserve
  · cases hserve
  · next s hs =>
      split at hserve
      · next hnone =>
          left
          cases hlast : plane.reap api h s with
          | error e =>
              rw [hlast] at hserve
              cases hserve
          | ok last =>
              rw [hlast] at hserve
              cases hserve
              exact ⟨hnone, rfl, hreap hlast⟩
      · next b hb =>
          right
          dsimp only at hserve
          refine ⟨s, b, hs, hb, ?_⟩
          cases hlast : (Plane.mk (plane.sockets.put h (b.service api s).1)
              (plane.conns.modify h fun _ => (b.service api s).2.1)).reap api h
                (b.service api s).1 with
          | error e =>
              rw [hlast] at hserve
              cases hserve
          | ok last =>
              rw [hlast] at hserve
              cases hserve
              exact ⟨rfl, hreap hlast⟩

/-- A property of bridges that holds at the start and that servicing and the
events of the task keep holds of all bridges of a run. -/
theorem Reachable.bridges {discipline : Discipline σ} {inv : Bridge → Prop}
    (hnew : ∀ conn : Conn, conn.Spawned → inv (Bridge.new conn))
    (hservice : ∀ s b, discipline.round s b → inv b → inv (b.service api s).2.1)
    (htask : ∀ b event b', discipline.event b event → inv b → b.taskStep event = some b' → inv b')
    {plane : Plane σ} (hreach : Reachable api discipline plane) :
    ∀ h b, plane.conns.get? h = some b → inv b := by
  induction hreach with
  | start sockets =>
      intro h b hb
      cases hb
  | stack sockets _ ih => exact ih
  | @spawn plane opened conn _ hconn ih =>
      refine Assoc.forall_of_update (plane.conns.get?_insert opened _) ih ?_
      rintro _ ⟨⟩
      exact hnew conn hconn
  | @serve plane next served calls _ hround step ih =>
      have hmodify : ∀ s b, plane.sockets.get served = .ok s → plane.conns.get? served = some b →
          ∀ h b', (plane.conns.modify served fun _ => (b.service api s).2.1).get? h = some b' →
            inv b' := by
        intro s b hs hb
        refine Assoc.forall_of_update (plane.conns.get?_modify served _) ih ?_
        rw [hb]
        rintro _ ⟨⟩
        exact hservice s b (hround s b hs hb) (ih served b hb)
      have herase : ∀ (conns : Assoc Handle Bridge), (∀ h b, conns.get? h = some b → inv b) →
          ∀ h b, (conns.erase served).get? h = some b → inv b := by
        intro conns hconns
        refine Assoc.forall_of_update (conns.get?_erase served) hconns ?_
        intro b hb
        cases hb
      rcases serve_conns api step with ⟨_, _, hnext | hnext⟩ | ⟨s, b, hs, hb, _, hnext | hnext⟩
      · rw [hnext]
        exact ih
      · rw [hnext]
        exact herase _ ih
      · rw [hnext]
        exact hmodify s b hs hb
      · rw [hnext]
        exact herase _ (hmodify s b hs hb)
  | @task plane ran b b' event _ hbridge hevent step ih =>
      refine Assoc.forall_of_update (plane.conns.get?_modify ran _) ih ?_
      rw [hbridge]
      rintro _ ⟨⟩
      exact htask b event b' hevent (ih ran b hbridge) step

/-- Each call of `close` in a pass is a call in one of its rounds, and the plane
after a pass is one of the run. -/
theorem Reachable.shuttle {discipline : Discipline σ} {plane next : Plane σ}
    {handles : List Handle} {calls : List (Handle × Bridge)}
    (hreach : Reachable api discipline plane)
    (hrounds : plane.RoundsAllowed api discipline handles)
    (hshuttle : plane.shuttle api handles = .ok (next, calls)) :
    Reachable api discipline next ∧ ∀ call ∈ calls, ∃ before after : Plane σ, ∃ h made,
      Reachable api discipline before ∧ before.serve api h = .ok (after, made) ∧
        call ∈ made := by
  induction handles generalizing plane calls with
  | nil =>
      cases hshuttle
      exact ⟨hreach, fun call hcall => by cases hcall⟩
  | cons h rest ih =>
      simp only [Plane.shuttle] at hshuttle
      split at hshuttle
      · cases hshuttle
      · next middle made hserve =>
          split at hshuttle
          · cases hshuttle
          · next last more hrest =>
              cases hshuttle
              have hmiddle : Reachable api discipline middle := .serve hreach hrounds.1 hserve
              obtain ⟨hlast, hmore⟩ := ih hmiddle (hrounds.2 middle made hserve) hrest
              refine ⟨hlast, ?_⟩
              intro call hcall
              rcases List.mem_append.mp hcall with hmade | hlater
              · exact ⟨plane, middle, h, made, hreach, hserve, hmade⟩
              · exact hmore call hlater

end Plane

end Newt.Proxy
