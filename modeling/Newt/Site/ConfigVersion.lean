import Newt.Site.Lifecycle

/-! # The echoed configuration version

A session echoes the version of the last message in its heartbeats, so that the
server can tell whether an update got lost. The version is taken over before the
update is applied, and an update without a data plane is dropped. The ledger of a
version reads off the trace what became of the last update with that version. A
reading of the messages alone tells which heartbeats hide a lost update.
-/

namespace Newt.Site

open Foundation Stack Proxy Newt.Core

/-- What became of the last update with some version: there was none, it is in the
current listener table, it is in no table, or a later full list took its place. -/
inductive Standing where
  | unset
  | applied
  | lost
  | superseded
  deriving DecidableEq, Repr

namespace Standing

/-- A full list arrives. -/
def supersede : Standing → Standing
  | .unset => .unset
  | .applied | .lost | .superseded => .superseded

/-- The listener table is dropped. -/
def tearDown : Standing → Standing
  | .applied => .lost
  | st => st

/-- An update arrives, and a listener table takes it or not. -/
def onUpdate (v : Int) (topic : Topic) (version : Option Int) (taken : Bool) (st : Standing) :
    Standing :=
  if version = some v then if taken then .applied else .lost
  else if topic = .sync ∧ taken then st.supersede
  else st

end Standing

/-- Follows the last update with the version `v` through the trace. A heartbeat with
this version must not hide that the update is lost. -/
def ledger (v : Int) : Monitor Note Standing where
  next st n :=
    match n with
    | .update topic version applied => st.onUpdate v topic version applied
    | .broughtUp => st.supersede
    | .executed .teardown _ => st.tearDown
    | _ => st
  allows st n := n = .heartbeat (some v) → st ≠ .lost

/-- What the messages of a session tell: whether a tunnel should be up, the version
of the last message with one, and the standing of each version. -/
structure Reading where
  up : Bool
  held : Option Int
  standing : Int → Standing

namespace Reading

def start : Reading := ⟨false, none, fun _ => .unset⟩

def onEvent (r : Reading) : Option Event → Reading
  | some (.wgConnect _) => { r with up := true, standing := fun v => (r.standing v).supersede }
  | some .reconnect | some .terminate =>
      { r with up := false, standing := fun v => (r.standing v).tearDown }
  | _ => r

variable {Json σ : Type} (serde : Serde Json)

def onMessage (r : Reading) (msg : WsMessage Json) : Reading :=
  let r := { r with held := msg.configVersion.or r.held }
  match Control.updateTopic msg with
  | some topic =>
      let standing v := (r.standing v).onUpdate v topic msg.configVersion r.up
      { r with standing := standing }
  | none => r.onEvent (toEvent serde (Topic.ofText msg.typ) msg.data)

def next (r : Reading) : Input Json σ → Reading
  | .recv (.ok (some msg)) _ => r.onMessage serde msg
  | _ => r

end Reading

namespace Control

variable {Json σ : Type} (serde : Serde Json)

end Control

namespace Session

variable {Json σ : Type} (cfg : SiteRun Json) (alloc : Allocator) (api : TcpApi σ)

variable (w : Nat → Surroundings) (inputs : List (Input Json σ))

end Session

end Newt.Site
