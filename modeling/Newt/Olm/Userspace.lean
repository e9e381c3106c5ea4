import Newt.Core.Addr
import Newt.Foundation.Loop
import Newt.Proxy.Plane

/-! # The userspace backend of a client

Local listeners accept connections of applications, and each one becomes a
connection that the stack originates. The service loop is that of a site.
-/

namespace Newt.Olm

open Foundation Stack Proxy

/-- A configured forward. -/
structure Forward where
  listenPort : UInt16
  destHost : String
  destPort : UInt16
  deriving DecidableEq, Repr

/-- A bound local listener leads to this destination. -/
structure ForwardListener where
  dest : IpAddr
  destPort : UInt16
  deriving DecidableEq, Repr

structure UserspaceBackend (σ : Type) extends Plane σ where
  forwards : List ForwardListener
  nextPort : UInt16

/-- What the stack makes of a call of `connect` with a destination and a local
port on a socket, unless it refuses. -/
abbrev Connect (σ : Type) := IpAddr × UInt16 → UInt16 → σ → Option σ

namespace UserspaceBackend

variable {σ : Type} (alloc : Allocator) (api : TcpApi σ)

/-- `bind` is the outcome of binding a local port. -/
def bindForward (bind : UInt16 → Except IoError Unit) (f : Forward) :
    Except IoError ForwardListener :=
  match IpAddr.parse f.destHost.toList with
  | none => .error ("forward dest must be an IP address: " ++ f.destHost)
  | some dest => do
      bind f.listenPort
      return ⟨dest, f.destPort⟩

def new (bind : UInt16 → Except IoError Unit) (forwards : List Forward) :
    Except IoError (UserspaceBackend σ) := do
  let fl ← forwards.mapM (bindForward bind)
  return ⟨⟨.empty, .empty⟩, fl, 20000⟩

def allocPort (b : UserspaceBackend σ) : UInt16 × UserspaceBackend σ :=
  (b.nextPort, { b with nextPort := if b.nextPort ≥ 60000 then 20000 else b.nextPort + 1 })

/-- Originate a connection for an accepted stream. The stream is dropped if the
stack refuses. -/
def openOutgoing (connect : Connect σ) (b : UserspaceBackend σ) (dest : IpAddr)
    (destPort : UInt16) : Except Fault (UserspaceBackend σ) := do
  let (localPort, b) := b.allocPort
  let (sockets, handle) := b.sockets.add alloc api.new
  let s ← sockets.get handle
  match connect (dest, destPort) localPort s with
  -- a refused socket is freed at once, its port number is not reused
  | none => do
      let sockets ← sockets.remove handle
      return { b with sockets := sockets }
  | some s =>
      return { b with
        sockets := sockets.put handle s
        conns := b.conns.insert handle (Bridge.new bridgeStream) }

def shuttle (order : Plane.KeyOrder) (b : UserspaceBackend σ) :
    Except Fault (UserspaceBackend σ × List (Handle × Bridge)) := do
  let (plane, calls) ← b.toPlane.shuttleAll api order
  return ({ b with toPlane := plane }, calls)

/-- What can happen to a backend: a local listener accepts a stream, the stack is
polled, the loop makes a pass, and the tasks run. -/
inductive Op (σ : Type) where
  | accept (index : Nat) (connect : Connect σ)
  | poll (change : Handle → σ → σ)
  | shuttle (order : Plane.KeyOrder)
  | task (h : Handle) (event : TaskEvent)

def apply (b : UserspaceBackend σ) : Op σ → Except Fault (UserspaceBackend σ)
  | .accept index connect =>
      match b.forwards[index]? with
      | none => .ok b
      | some f => b.openOutgoing alloc api connect f.dest f.destPort
  | .poll change => .ok { b with sockets := b.sockets.poll change }
  | .shuttle order => (b.shuttle api order).map Prod.fst
  | .task h event => .ok { b with toPlane := b.toPlane.runTask h event }

/-- `next_accept` yields at most one stream. -/
def openNext (b : UserspaceBackend σ) :
    Option (Nat × Connect σ) → Except Fault (UserspaceBackend σ)
  | none => .ok b
  | some (index, connect) => b.apply alloc api (.accept index connect)

def drive (b : UserspaceBackend σ) (accepted : Option (Nat × Connect σ))
    (change : Handle → σ → σ) (order : Plane.KeyOrder) : Except Fault (UserspaceBackend σ) := do
  let b ← b.openNext alloc api accepted
  let b ← b.apply alloc api (.poll change)
  b.apply alloc api (.shuttle order)

/-! ## Runs -/

variable (discipline : Plane.Discipline σ)

/-- A discipline limits passes and events of tasks only. -/
def Allowed (b : UserspaceBackend σ) : Op σ → Prop
  | .shuttle order => b.toPlane.RoundsAllowed api discipline (order.arrange b.conns.keys)
  | .task h event => ∀ bridge, b.conns.get? h = some bridge → discipline.event bridge event
  | _ => True

/-- The backends of a client. The steps of `drive` are steps of their own, so
tasks may also run between them. -/
inductive Reachable : UserspaceBackend σ → Prop
  | new {bind : UInt16 → Except IoError Unit} {forwards : List Forward} {b : UserspaceBackend σ}
      (hnew : new bind forwards = .ok b) : Reachable b
  | op {b b' : UserspaceBackend σ} (op : Op σ) (prior : Reachable b)
      (hallowed : b.Allowed api discipline op) (step : b.apply alloc api op = .ok b') :
      Reachable b'

variable {discipline} {b b' : UserspaceBackend σ}

theorem allowed_any (b : UserspaceBackend σ) (op : Op σ) : b.Allowed api .any op := by
  cases op with
  | shuttle order => exact Plane.roundsAllowed_any api _ _
  | task h event => exact fun _ _ => trivial
  | accept | poll => trivial

theorem openOutgoing_reachable {connect : Connect σ} {dest : IpAddr} {destPort : UInt16}
    (hb : Plane.Reachable api discipline b.toPlane)
    (hopen : b.openOutgoing alloc api connect dest destPort = .ok b') :
    Plane.Reachable api discipline b'.toPlane := by
  obtain ⟨s, _, hconnect⟩ := bind_eq_ok_iff.mp hopen
  split at hconnect
  · obtain ⟨sockets, _, hreturn⟩ := bind_eq_ok_iff.mp hconnect
    cases hreturn
    exact .stack sockets hb
  · cases hconnect
    exact .stack _ (.spawn _ bridgeStream hb (.inr rfl))

theorem Reachable.toPlane (hreach : Reachable alloc api discipline b) :
    Plane.Reachable api discipline b.toPlane := by
  induction hreach with
  | new hnew =>
      obtain ⟨fl, _, hreturn⟩ := bind_eq_ok_iff.mp hnew
      cases hreturn
      exact .start .empty
  | @op b b' op _ hallowed step ih =>
      cases op with
      | accept index connect =>
          simp only [apply] at step
          split at step
          · cases step
            exact ih
          · exact openOutgoing_reachable alloc api ih step
      | poll change =>
          cases step
          exact .stack _ ih
      | shuttle order =>
          obtain ⟨⟨next, calls⟩, hshuttle, hnext⟩ := bind_eq_ok_iff.mp step
          obtain ⟨⟨plane, made⟩, hpass, hreturn⟩ := bind_eq_ok_iff.mp hshuttle
          cases hreturn
          cases hnext
          exact (ih.shuttle api hallowed hpass).1
      | task h event =>
          cases step
          exact ih.runTask api hallowed

theorem Reachable.drive {accepted : Option (Nat × Connect σ)} {change : Handle → σ → σ}
    {order : Plane.KeyOrder} (hreach : Reachable alloc api .any b)
    (hdrive : b.drive alloc api accepted change order = .ok b') :
    Reachable alloc api .any b' := by
  obtain ⟨opened, hopened, hrest⟩ := bind_eq_ok_iff.mp hdrive
  obtain ⟨polled, hpolled, hpass⟩ := bind_eq_ok_iff.mp hrest
  have hreach : Reachable alloc api .any opened := by
    cases accepted with
    | none =>
        cases hopened
        exact hreach
    | some stream => exact .op (.accept stream.1 stream.2) hreach trivial hopened
  exact .op (.shuttle order) (.op (.poll change) hreach trivial hpolled)
    (Plane.roundsAllowed_any api _ _) hpass

end UserspaceBackend

end Newt.Olm
