import Newt.Core.Target
import Newt.Foundation.Loop
import Newt.Proxy.Plane

/-! # The data plane of a site

The sockets, listeners, and connections of a connected site, with all operations
on them. An operation fails only where the program would panic.
-/

namespace Newt.Site

open Foundation Keyed Stack Proxy

structure Listener where
  port : UInt16
  target : String
  handle : Handle
  deriving DecidableEq, Repr

structure DataPlane (σ : Type) extends Plane σ where
  listeners : List Listener

variable {σ : Type} (alloc : Allocator) (api : TcpApi σ)

/-- A new socket that listens on `port`. The outcome of `listen` is ignored. -/
def addListener (sockets : SocketSet σ) (port : UInt16) : Except Fault (SocketSet σ × Handle) := do
  let (sockets, handle) := sockets.add alloc api.new
  let s ← sockets.get handle
  return (sockets.put handle (api.listen port s), handle)

namespace DataPlane

/-- Add a listener for a target. -/
def listenFor (d : DataPlane σ) (t : Target) : Except Fault (DataPlane σ) := do
  let (sockets, handle) ← addListener alloc api d.sockets t.listenPort
  return { d with
    sockets := sockets
    listeners := d.listeners ++ [⟨t.listenPort, t.destination, handle⟩] }

/-- The stack and the listeners that `bring_up` creates. The steps of `bring_up`
that can fail otherwise leave no data plane behind. -/
def bringUp (specs : List String) : Except Fault (DataPlane σ) :=
  (specs.filterMap Target.parse).foldlM (listenFor alloc api) ⟨⟨.empty, .empty⟩, []⟩

def addTarget (d : DataPlane σ) (spec : String) : Except Fault (DataPlane σ) :=
  match Target.parse spec with
  | none => .ok d
  | some t =>
      if d.listeners.any fun l => l.port == t.listenPort then .ok d
      else d.listenFor alloc api t

def addTargets (d : DataPlane σ) (specs : List String) : Except Fault (DataPlane σ) :=
  specs.foldlM (addTarget alloc api) d

/-- `swap_remove` on the listeners. -/
def removeAt (d : DataPlane σ) (i : Nat) : Except Fault (Listener × List Listener) :=
  match swapRemove i d.listeners with
  | none => .error (.outOfBounds i)
  | some removed => .ok removed

/-- Remove listeners of a port as long as one is found. -/
def dropLoop (port : UInt16) : Nat → DataPlane σ → Except Fault (DataPlane σ)
  | 0, d => .ok d
  | fuel + 1, d =>
      match d.listeners.findIdx? fun l => l.port == port with
      | none => .ok d
      | some i => do
          let (l, listeners) ← d.removeAt i
          let sockets ← d.sockets.remove l.handle
          dropLoop port fuel { d with sockets := sockets, listeners := listeners }

/-- Each round removes a listener, so there are at most as many as listeners. -/
def dropPort (d : DataPlane σ) (port : UInt16) : Except Fault (DataPlane σ) :=
  dropLoop port d.listeners.length d

def removeTarget (d : DataPlane σ) (spec : String) : Except Fault (DataPlane σ) :=
  match Target.parse spec with
  | none => .ok d
  | some t => d.dropPort t.listenPort

def removeTargets (d : DataPlane σ) (specs : List String) : Except Fault (DataPlane σ) :=
  specs.foldlM removeTarget d

/-- The listener with the destination `want`. -/
def redirect (want : String) (l : Listener) : Listener :=
  if l.target ≠ want then { l with target := want } else l

/-- Redirect the listener of the port, or add one. -/
def upsertTarget (d : DataPlane σ) (t : Target) : Except Fault (DataPlane σ) :=
  match d.listeners.find? fun l => decide (l.port = t.listenPort) with
  | some _ =>
      let listeners :=
        modifyFirst (fun l => decide (l.port = t.listenPort)) (redirect t.destination) d.listeners
      .ok { d with listeners := listeners }
  | none => d.listenFor alloc api t

def reconcileTargets (d : DataPlane σ) (specs : List String) : Except Fault (DataPlane σ) := do
  let desired := specs.filterMap Target.parse
  let keep := desired.map Target.listenPort
  -- a port with several listeners occurs as often among the ports to drop
  let dropPorts := (d.listeners.map Listener.port).filter fun port => decide (port ∉ keep)
  let d ← dropPorts.foldlM dropPort d
  desired.foldlM (upsertTarget alloc api) d

/-- The positions and ports of the listeners with a new connection. -/
def promotedFrom (d : DataPlane σ) : Nat → List Listener → Except Fault (List (Nat × UInt16))
  | _, [] => .ok []
  | i, l :: rest => do
      let s ← d.sockets.get l.handle
      let later ← promotedFrom d (i + 1) rest
      return if api.isActive s ∧ d.conns.get? l.handle = none then (i, l.port) :: later else later

/-- The socket of the listener becomes that of a connection, and a new listener
takes its place. -/
def promote (d : DataPlane σ) (found : Nat × UInt16) : Except Fault (DataPlane σ) := do
  let (l, listeners) ← d.removeAt found.1
  -- the dial to the target starts before the new listener exists
  let conns := d.conns.insert l.handle (Bridge.new (spawnTcp l.target))
  let (sockets, handle) ← addListener alloc api d.sockets found.2
  return ⟨⟨sockets, conns⟩, listeners ++ [⟨found.2, l.target, handle⟩]⟩

/-- Promote from the back, so that the positions before stay valid. -/
def acceptNew (d : DataPlane σ) : Except Fault (DataPlane σ) := do
  let promoted ← d.promotedFrom api 0 d.listeners
  promoted.reverse.foldlM (promote alloc api) d

def shuttle (order : Plane.KeyOrder) (d : DataPlane σ) :
    Except Fault (DataPlane σ × List (Handle × Bridge)) := do
  let (plane, calls) ← d.toPlane.shuttleAll api order
  return ({ d with toPlane := plane }, calls)

/-- What can happen to a data plane: the calls of the control channel, the steps
of the loop, what the stack does to the sockets, and what the tasks do. -/
inductive Op (σ : Type) where
  | addTargets (specs : List String)
  | removeTargets (specs : List String)
  | reconcileTargets (specs : List String)
  | acceptNew
  | shuttle (order : Plane.KeyOrder)
  | poll (change : Handle → σ → σ)
  | task (h : Handle) (event : TaskEvent)

def apply (d : DataPlane σ) : Op σ → Except Fault (DataPlane σ)
  | .addTargets specs => d.addTargets alloc api specs
  | .removeTargets specs => d.removeTargets specs
  | .reconcileTargets specs => d.reconcileTargets alloc api specs
  | .acceptNew => d.acceptNew alloc api
  | .shuttle order => (d.shuttle api order).map Prod.fst
  | .poll change => .ok { d with sockets := d.sockets.poll change }
  | .task h event => .ok { d with toPlane := d.toPlane.runTask h event }

def run (d : DataPlane σ) (ops : List (Op σ)) : Except Fault (DataPlane σ) :=
  ops.foldlM (apply alloc api) d

/-- A site that listens for one target. -/
def webSite : DataPlane BufferedSocket :=
  ⟨⟨⟨⟨[(0, ⟨.listen, [], []⟩)], List.nodup_singleton _⟩, 1⟩, .empty⟩, [⟨80, "10.0.0.1:8080", 0⟩]⟩

theorem webSite_bringUp : bringUp .firstFree bufferedApi ["80:10.0.0.1:8080"] = .ok webSite := rfl

end DataPlane

end Newt.Site
