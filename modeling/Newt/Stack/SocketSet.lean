import Newt.Foundation.Assoc

/-! # Sets of TCP sockets

The part of the network stack that the data planes rely on: a set of sockets
behind handles, and the calls on one socket. A handle stays valid until its
socket is removed, and may be handed out again afterwards. Everything inside a
socket is left open.
-/

namespace Newt.Stack

open Foundation

abbrev Handle := Nat

/-- How handles are chosen. The choice may depend on the number of sockets added
so far and is never a live handle. -/
structure Allocator where
  pick : Nat → List Handle → Handle
  fresh : ∀ ticket live, pick ticket live ∉ live

/-- The calls on one socket. `recv` hands out all bytes at the front of the
receive buffer, and `sendSlice` accepts some of the offered bytes. Both return
nothing when the state of the socket does not allow the call. -/
structure TcpApi (σ : Type) where
  new : σ
  listen : UInt16 → σ → σ
  isActive : σ → Bool
  isOpen : σ → Bool
  canRecv : σ → Bool
  recv : σ → Option (List UInt8 × σ)
  canSend : σ → Bool
  sendSlice : List UInt8 → σ → Option (Nat × σ)
  sendSlice_le : ∀ {data s n s'}, sendSlice data s = some (n, s') → n ≤ data.length
  close : σ → σ

/-- The live sockets behind their handles, and the number of sockets added. -/
structure SocketSet (σ : Type) where
  live : Assoc Handle σ
  ticket : Nat

/-- The panics of a data plane: a call with a handle that is not live, and a
position outside a vector. -/
inductive Fault where
  | deadHandle (h : Handle)
  | outOfBounds (index : Nat)
  deriving DecidableEq, Repr

namespace SocketSet

variable {σ : Type}

def empty : SocketSet σ := ⟨.empty, 0⟩

def handles (set : SocketSet σ) : List Handle := set.live.keys

/-- Store a socket behind a handle that is not live. -/
def add (alloc : Allocator) (set : SocketSet σ) (s : σ) : SocketSet σ × Handle :=
  let h := alloc.pick set.ticket set.handles
  (⟨set.live.insert h s, set.ticket + 1⟩, h)

/-- Access the socket behind a handle. -/
def get (set : SocketSet σ) (h : Handle) : Except Fault σ :=
  match set.live.get? h with
  | none => .error (.deadHandle h)
  | some s => .ok s

/-- Store a new state of the socket behind a handle. -/
def put (set : SocketSet σ) (h : Handle) (s : σ) : SocketSet σ :=
  { set with live := set.live.modify h fun _ => s }

def remove (set : SocketSet σ) (h : Handle) : Except Fault (SocketSet σ) :=
  match set.live.get? h with
  | none => .error (.deadHandle h)
  | some _ => .ok { set with live := set.live.erase h }

/-- Any change of the states of the sockets, as a poll of the stack makes. -/
def poll (set : SocketSet σ) (f : Handle → σ → σ) : SocketSet σ :=
  { set with live := set.live.mapValues f }

/-! ## Live handles -/

/-- The sockets of a set after one more was added behind a new handle. -/
theorem add_perm (alloc : Allocator) (set : SocketSet σ) (s : σ) :
    (set.add alloc s).1.handles.Perm ((set.add alloc s).2 :: set.handles) :=
  Assoc.keys_insert_perm (alloc.fresh _ _) s

@[simp]
theorem handles_put (set : SocketSet σ) (h : Handle) (s : σ) : (set.put h s).handles = set.handles :=
  set.live.keys_modify h _

@[simp]
theorem handles_poll (set : SocketSet σ) (f : Handle → σ → σ) :
    (set.poll f).handles = set.handles :=
  set.live.keys_mapValues f

theorem get_of_mem {set : SocketSet σ} {h : Handle} (hlive : h ∈ set.handles) :
    ∃ s, set.get h = .ok s := by
  obtain ⟨s, hs⟩ := Option.isSome_iff_exists.mp ((set.live.get?_isSome_iff h).mpr hlive)
  exact ⟨s, by rw [get, hs]⟩

theorem remove_of_mem {set : SocketSet σ} {h : Handle} (hlive : h ∈ set.handles) :
    ∃ next, set.remove h = .ok next ∧ set.handles.Perm (h :: next.handles) := by
  obtain ⟨s, hs⟩ := Option.isSome_iff_exists.mp ((set.live.get?_isSome_iff h).mpr hlive)
  refine ⟨{ set with live := set.live.erase h }, ?_, Assoc.keys_perm_erase hlive⟩
  rw [remove, hs]

theorem remove_live {set next : SocketSet σ} {h : Handle} (hremove : set.remove h = .ok next) :
    next.live.get? = Function.update set.live.get? h none := by
  unfold remove at hremove
  split at hremove
  · cases hremove
  · cases hremove
    rw [Assoc.get?_erase]

end SocketSet

namespace Allocator

/-- The first free slot, as the stack chooses. -/
def firstFree : Allocator where
  pick _ live := ((List.range (live.length + 1)).find? fun h => decide (h ∉ live)).getD 0
  fresh := by
    intro ticket live
    cases hfound : (List.range (live.length + 1)).find? fun h => decide (h ∉ live) with
    | some h => simpa using List.find?_some hfound
    | none =>
        -- all of the first slots would be live, which is one more than there are
        have hall : List.range (live.length + 1) ⊆ live := by
          intro h hh
          simpa using List.find?_eq_none.mp hfound h hh
        have hlength := (List.subperm_of_subset List.nodup_range hall).length_le
        rw [List.length_range] at hlength
        omega

end Allocator

/-! ## A socket with unbounded buffers -/

inductive TcpState where
  | closed
  | listen
  | established
  | finWait
  deriving DecidableEq, Repr

/-- A socket that accepts all bytes it is offered. -/
structure BufferedSocket where
  state : TcpState
  rx : List UInt8
  tx : List UInt8
  deriving DecidableEq, Repr

/-- The calls on such a socket. Both buffers are usable once a peer is connected. -/
def bufferedApi : TcpApi BufferedSocket where
  new := ⟨.closed, [], []⟩
  listen port s := if port = 0 then s else { s with state := .listen }
  isActive s := decide (s.state = .established ∨ s.state = .finWait)
  isOpen s := decide (s.state ≠ .closed)
  canRecv s := decide (s.rx ≠ [])
  recv s := if s.state = .established ∨ s.state = .finWait then some (s.rx, { s with rx := [] }) else none
  canSend s := decide (s.state = .established)
  sendSlice data s :=
    if s.state = .established then some (data.length, { s with tx := s.tx ++ data }) else none
  sendSlice_le := by
    intro data s n s' hsend
    split at hsend
    · cases hsend
      exact Nat.le_refl _
    · cases hsend
  close s := { s with state := .finWait }

end Newt.Stack
