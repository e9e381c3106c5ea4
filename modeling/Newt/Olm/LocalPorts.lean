import Newt.Olm.Userspace
import Newt.Proxy.Ownership

/-! # Local ports of tunnelled connections

The userspace backend hands out local ports from a counter that wraps around and
does not look at the connections. A record beside the backend keeps the port of
each connection and its number in the sequence of all ports handed out. Two live
connections have the same port exactly when their numbers differ by a multiple of
the length of the range.
-/

namespace Newt.Olm

open Foundation Stack Proxy

namespace UserspaceBackend

variable {σ : Type} (alloc : Allocator) (api : TcpApi σ)

/-! ## What an operation does to the connections -/

section Operations

variable {b : UserspaceBackend σ} (howns : b.toPlane.Owns [])

theorem get_added (sockets : SocketSet σ) (s : σ) :
    (sockets.add alloc s).1.get (sockets.add alloc s).2 = .ok s := by
  simp only [SocketSet.get, SocketSet.add, Assoc.get?_insert, Function.update_self]

include howns

/-- A connection that the stack takes is opened behind a new handle. -/
theorem openOutgoing_opens {connect : Connect σ} {dest : IpAddr} {destPort : UInt16}
    (htaken : (connect (dest, destPort) b.nextPort api.new).isSome = true) :
    ∃ next, b.openOutgoing alloc api connect dest destPort = .ok next ∧ next.toPlane.Owns [] ∧
      next.nextPort = b.allocPort.2.nextPort ∧ next.forwards = b.forwards ∧
      (b.sockets.add alloc api.new).2 ∉ b.conns.keys ∧
      next.conns.keys.Perm ((b.sockets.add alloc api.new).2 :: b.conns.keys) := by
  obtain ⟨s, hs⟩ := Option.isSome_iff_exists.mp htaken
  have hfresh : (b.sockets.add alloc api.new).2 ∉ b.conns.keys := fun hconn =>
    alloc.fresh _ _ (howns.live hconn)
  have hkeys := Assoc.keys_insert_perm hfresh (Bridge.new bridgeStream)
  refine ⟨{ b.allocPort.2 with
      sockets := (b.sockets.add alloc api.new).1.put (b.sockets.add alloc api.new).2 s
      conns := b.conns.insert (b.sockets.add alloc api.new).2 (Bridge.new bridgeStream) },
    bind_eq_ok_iff.mpr ⟨api.new, get_added alloc b.sockets api.new, ?_⟩, ?_, rfl, rfl, hfresh,
    hkeys⟩
  · simp only [allocPort, hs]
    rfl
  · unfold Plane.Owns
    rw [SocketSet.handles_put]
    exact ((b.sockets.add_perm alloc api.new).trans (howns.cons _)).trans hkeys.symm

/-- A connection that the stack refuses leaves nothing behind but the counter. -/
theorem openOutgoing_refused {connect : Connect σ} {dest : IpAddr} {destPort : UInt16}
    (hrefused : ¬(connect (dest, destPort) b.nextPort api.new).isSome = true) :
    ∃ next, b.openOutgoing alloc api connect dest destPort = .ok next ∧ next.toPlane.Owns [] ∧
      next.nextPort = b.allocPort.2.nextPort ∧ next.conns = b.conns := by
  have hadded := b.sockets.add_perm alloc api.new
  obtain ⟨sockets, hremove, hleft⟩ :=
    SocketSet.remove_of_mem (hadded.mem_iff.mpr List.mem_cons_self)
  refine ⟨{ b.allocPort.2 with sockets := sockets },
    bind_eq_ok_iff.mpr ⟨api.new, get_added alloc b.sockets api.new, ?_⟩, ?_, rfl, rfl⟩
  · have hnone : connect (dest, destPort) b.nextPort api.new = none := by simpa using hrefused
    simp only [allocPort, hnone]
    exact bind_eq_ok_iff.mpr ⟨sockets, hremove, rfl⟩
  · exact (hleft.symm.trans hadded).cons_inv.trans howns

/-- Polls, passes and tasks open no connection and hand out no port. -/
theorem apply_serves {op : Op σ} (hserves : ∀ index connect, op ≠ .accept index connect) :
    ∃ next, b.apply alloc api op = .ok next ∧ next.toPlane.Owns [] ∧
      next.nextPort = b.nextPort ∧ next.conns.keys ⊆ b.conns.keys := by
  cases op with
  | accept index connect => exact absurd rfl (hserves index connect)
  | poll change => exact ⟨_, rfl, Plane.Owns.poll howns change, rfl, List.Subset.refl _⟩
  | shuttle order =>
      obtain ⟨plane, calls, hpass, hplane⟩ := howns.shuttleAll api order
      have hshuttle : b.shuttle api order = .ok ({ b with toPlane := plane }, calls) :=
        bind_eq_ok_iff.mpr ⟨_, hpass, rfl⟩
      refine ⟨{ b with toPlane := plane }, ?_, hplane, rfl, Plane.shuttle_keys_subset api hpass⟩
      rw [apply, hshuttle]
      rfl
  | task h event =>
      refine ⟨_, rfl, Plane.Owns.runTask howns h event, rfl, ?_⟩
      rw [Plane.runTask_keys]
      exact List.Subset.refl _

end Operations

/-- What is on record about a connection: its local port, and how many ports had
been handed out before. -/
structure Opened where
  localPort : UInt16
  serial : Nat
  deriving DecidableEq, Repr

/-- A backend with the record of its ports, which is no part of the program. -/
structure Tracked (σ : Type) where
  backend : UserspaceBackend σ
  issued : Nat
  opened : Handle → Option Opened

/-- An operation hands out a port, and the stack takes it. -/
def Opens (b : UserspaceBackend σ) : Op σ → Prop
  | .accept index connect => ∃ f, b.forwards[index]? = some f ∧
      (connect (f.dest, f.destPort) b.nextPort api.new).isSome = true
  | _ => False

namespace Tracked

def start (b : UserspaceBackend σ) : Tracked σ := ⟨b, 0, fun _ => none⟩

/-- The record after an operation that leads to `next`. -/
def record (t : Tracked σ) (next : UserspaceBackend σ) : Op σ → Tracked σ
  | .accept index _ =>
      match t.backend.forwards[index]? with
      | none => { t with backend := next }
      | some _ =>
          let handle := (t.backend.sockets.add alloc api.new).2
          ⟨next, t.issued + 1,
            if handle ∈ next.conns.keys then
              Function.update t.opened handle (some ⟨t.backend.nextPort, t.issued⟩)
            else t.opened⟩
  | _ => { t with backend := next }

def apply (t : Tracked σ) (op : Op σ) : Except Fault (Tracked σ) :=
  (t.backend.apply alloc api op).map fun next => t.record alloc api next op

theorem record_backend (t : Tracked σ) (next : UserspaceBackend σ) (op : Op σ) :
    (t.record alloc api next op).backend = next := by
  cases op with
  | accept index connect =>
      simp only [record]
      split <;> rfl
  | _ => rfl

/-- The record does not change what the backend does. -/
theorem apply_backend (t : Tracked σ) (op : Op σ) :
    (t.apply alloc api op).map backend = t.backend.apply alloc api op := by
  rw [apply]
  cases t.backend.apply alloc api op with
  | error e => rfl
  | ok next => simp [Except.map, record_backend]

/-- The local port of the connection behind a handle. -/
def localPort (t : Tracked σ) (h : Handle) : Option UInt16 := (t.opened h).map Opened.localPort

/-- The sockets are those of the connections, the next port to hand out is in the
range, as are those of the connections, and no two connections share one. -/
structure Separate (t : Tracked σ) : Prop where
  sockets : ∀ h, h ∈ t.backend.sockets.handles ↔ h ∈ t.backend.conns.keys
  next : 20000 ≤ t.backend.nextPort ∧ t.backend.nextPort ≤ 60000
  range : ∀ h ∈ t.backend.conns.keys, ∃ port, t.localPort h = some port ∧
    20000 ≤ port ∧ port ≤ 60000
  distinct : ∀ h ∈ t.backend.conns.keys, ∀ h' ∈ t.backend.conns.keys,
    t.localPort h = t.localPort h' → h = h'

/-- No live connection is older by a multiple of the number of ports. -/
def NoneStale (t : Tracked σ) : Prop :=
  ∀ h ∈ t.backend.conns.keys, ∀ o, t.opened h = some o → ¬40001 ∣ t.issued - o.serial

/-- A property of all states of a run. The run does not fail. -/
def Along (P : Tracked σ → Prop) : Tracked σ → List (Op σ) → Prop
  | t, [] => P t
  | t, op :: rest => P t ∧ ∃ next, t.apply alloc api op = .ok next ∧ Along P next rest

/-- Whenever a run opens a connection, none is older by a multiple of the number of
ports. -/
def OpensInTime : Tracked σ → List (Op σ) → Prop
  | _, [] => True
  | t, op :: rest => (t.backend.Opens api op → t.NoneStale) ∧
      ∀ next, t.apply alloc api op = .ok next → OpensInTime next rest

/-! ## The record of a run -/

section Steps

variable {t : Tracked σ} (howns : t.backend.toPlane.Owns [])
include howns

/-- An operation that opens a connection records its port and its number. -/
theorem apply_opens {op : Op σ} (hopens : t.backend.Opens api op) :
    ∃ next handle, t.apply alloc api op = .ok next ∧ next.backend.toPlane.Owns [] ∧
      next.backend.nextPort = t.backend.allocPort.2.nextPort ∧
      next.backend.forwards = t.backend.forwards ∧ next.issued = t.issued + 1 ∧
      handle ∉ t.backend.conns.keys ∧
      next.backend.conns.keys.Perm (handle :: t.backend.conns.keys) ∧
      next.opened = Function.update t.opened handle
        (some ⟨t.backend.nextPort, t.issued⟩) := by
  cases op with
  | accept index connect =>
      obtain ⟨f, hf, htaken⟩ := hopens
      obtain ⟨next, hnext, hplane, hport, hforwards, hfresh, hkeys⟩ :=
        openOutgoing_opens alloc api howns htaken
      have happly : t.backend.apply alloc api (.accept index connect) = .ok next := by
        simp only [UserspaceBackend.apply, hf, hnext]
      refine ⟨t.record alloc api next (.accept index connect),
        (t.backend.sockets.add alloc api.new).2, by rw [apply, happly]; rfl, ?_⟩
      have hmem := hkeys.mem_iff.mpr List.mem_cons_self
      simp only [record, hf, hmem, if_true]
      exact ⟨hplane, hport, hforwards, trivial, hfresh, hkeys, trivial⟩
  | _ => exact hopens.elim

/-- Every other operation leaves the record of the connections as it is. -/
theorem apply_keeps {op : Op σ} (hkeeps : ¬t.backend.Opens api op) :
    ∃ next, t.apply alloc api op = .ok next ∧ next.backend.toPlane.Owns [] ∧
      ((next.backend.nextPort = t.backend.nextPort ∧ next.issued = t.issued) ∨
        (next.backend.nextPort = t.backend.allocPort.2.nextPort ∧ next.issued = t.issued + 1)) ∧
      next.backend.conns.keys ⊆ t.backend.conns.keys ∧ next.opened = t.opened := by
  by_cases hserves : ∀ index connect, op ≠ .accept index connect
  · obtain ⟨next, hnext, hplane, hport, hkeys⟩ := apply_serves alloc api howns hserves
    refine ⟨t.record alloc api next op, by rw [apply, hnext]; rfl, ?_⟩
    cases op with
    | accept index connect => exact absurd rfl (hserves index connect)
    | _ => exact ⟨hplane, .inl ⟨hport, rfl⟩, hkeys, rfl⟩
  · simp only [ne_eq, not_forall, not_not] at hserves
    obtain ⟨index, connect, rfl⟩ := hserves
    cases hf : t.backend.forwards[index]? with
    | none =>
        refine ⟨{ t with backend := t.backend }, ?_, howns, .inl ⟨rfl, rfl⟩,
          List.Subset.refl _, rfl⟩
        simp [apply, UserspaceBackend.apply, record, hf, Except.map]
    | some f =>
        -- the port is used up, but the socket is freed at once
        obtain ⟨next, hnext, hplane, hport, hconns⟩ := openOutgoing_refused alloc api howns
          (fun htaken => hkeeps ⟨f, hf, htaken⟩)
        have happly : t.backend.apply alloc api (.accept index connect) = .ok next := by
          simp only [UserspaceBackend.apply, hf, hnext]
        have hfresh : (t.backend.sockets.add alloc api.new).2 ∉ next.conns.keys := by
          rw [hconns]
          exact fun hconn => alloc.fresh _ _ (howns.live hconn)
        refine ⟨t.record alloc api next (.accept index connect), by rw [apply, happly]; rfl, ?_⟩
        simp only [record, hf, hfresh, if_false]
        exact ⟨hplane, .inr ⟨hport, trivial⟩, hconns ▸ List.Subset.refl _, trivial⟩

end Steps

/-- What holds of the record at all times: the counter and the ports are determined
by the numbers. -/
structure Sound (t : Tracked σ) : Prop where
  owns : t.backend.toPlane.Owns []
  counter : t.backend.nextPort.toNat = 20000 + t.issued % 40001
  recorded : ∀ h ∈ t.backend.conns.keys, ∃ o, t.opened h = some o ∧ o.serial < t.issued ∧
    o.localPort.toNat = 20000 + o.serial % 40001

theorem allocPort_toNat {b : UserspaceBackend σ} {n : Nat}
    (hport : b.nextPort.toNat = 20000 + n % 40001) :
    b.allocPort.2.nextPort.toNat = 20000 + (n + 1) % 40001 := by
  simp only [allocPort, ge_iff_le, UInt16.le_iff_toNat_le]
  split
  · next hlast =>
      simp only [UInt16.reduceToNat] at hlast ⊢
      omega
  · next hlast =>
      simp only [UInt16.reduceToNat, UInt16.toNat_add] at hlast ⊢
      omega

theorem sound_start {bind : UInt16 → Except IoError Unit} {forwards : List Forward}
    {b : UserspaceBackend σ} (hnew : new bind forwards = .ok b) : (start b).Sound := by
  obtain ⟨fl, -, hreturn⟩ := bind_eq_ok_iff.mp hnew
  cases hreturn
  exact ⟨List.Perm.refl _, rfl, fun h hh => by cases hh⟩

section Runs

variable {t next : Tracked σ} {op : Op σ}

theorem Sound.apply (hsound : t.Sound) (op : Op σ) :
    ∃ next, t.apply alloc api op = .ok next ∧ next.Sound := by
  by_cases hopens : t.backend.Opens api op
  · obtain ⟨next, handle, hnext, howns, hport, -, hissued, -, hkeys, hopened⟩ :=
      apply_opens alloc api hsound.owns hopens
    refine ⟨next, hnext, howns, ?_, ?_⟩
    · rw [hport, hissued]
      exact allocPort_toNat hsound.counter
    · intro h hh
      rw [hopened, hissued]
      by_cases hself : h = handle
      · rw [hself, Function.update_self]
        exact ⟨_, rfl, Nat.lt_succ_self _, hsound.counter⟩
      · rw [Function.update_of_ne hself]
        have hold := (List.mem_cons.mp (hkeys.mem_iff.mp hh)).resolve_left hself
        obtain ⟨o, ho, hserial, hvalue⟩ := hsound.recorded h hold
        exact ⟨o, ho, Nat.lt_succ_of_lt hserial, hvalue⟩
  · obtain ⟨next, hnext, howns, hcounter, hkeys, hopened⟩ :=
      apply_keeps alloc api hsound.owns hopens
    have hissued : t.issued ≤ next.issued := by omega
    refine ⟨next, hnext, howns, ?_, ?_⟩
    · obtain ⟨hport, hsame⟩ | ⟨hport, hmore⟩ := hcounter
      · rw [hport, hsame]
        exact hsound.counter
      · rw [hport, hmore]
        exact allocPort_toNat hsound.counter
    · intro h hh
      obtain ⟨o, ho, hserial, hvalue⟩ := hsound.recorded h (hkeys hh)
      exact ⟨o, hopened ▸ ho, Nat.lt_of_lt_of_le hserial hissued, hvalue⟩

/-- Only the last part of `Separate` can fail. -/
theorem Sound.separate_iff (hsound : t.Sound) :
    t.Separate ↔ ∀ h ∈ t.backend.conns.keys, ∀ h' ∈ t.backend.conns.keys,
      t.localPort h = t.localPort h' → h = h' := by
  have hrange (port : UInt16) (n : Nat) (hport : port.toNat = 20000 + n % 40001) :
      20000 ≤ port ∧ port ≤ 60000 := by
    simp only [UInt16.le_iff_toNat_le, UInt16.reduceToNat]
    omega
  refine ⟨Separate.distinct, fun hdistinct => ⟨?_, hrange _ _ hsound.counter, ?_, hdistinct⟩⟩
  · intro h
    exact hsound.owns.mem_iff
  · intro h hh
    obtain ⟨o, ho, -, hvalue⟩ := hsound.recorded h hh
    exact ⟨o.localPort, by rw [localPort, ho]; rfl, hrange _ _ hvalue⟩

/-- A live connection has the port that is handed out next exactly when it is older
by a multiple of the number of ports. -/
theorem Sound.localPort_eq_next_iff (hsound : t.Sound) {h : Handle}
    (hh : h ∈ t.backend.conns.keys) :
    t.localPort h = some t.backend.nextPort ↔
      ∃ o, t.opened h = some o ∧ 40001 ∣ t.issued - o.serial := by
  obtain ⟨o, ho, hserial, hvalue⟩ := hsound.recorded h hh
  have hcounter := hsound.counter
  simp only [localPort, ho, Option.map_some, Option.some.injEq, exists_eq_left',
    ← UInt16.toNat_inj]
  omega

/-- A connection that is opened keeps the ports apart exactly when none is older by a
multiple of the number of ports. -/
theorem Sound.separate_opens_iff (hsound : t.Sound) (hseparate : t.Separate)
    (hopens : t.backend.Opens api op) (hnext : t.apply alloc api op = .ok next)
    (hnextSound : next.Sound) : next.Separate ↔ t.NoneStale := by
  obtain ⟨_, handle, hstep, -, -, -, -, hfresh, hkeys, hopened⟩ :=
    apply_opens alloc api hsound.owns hopens
  cases hnext.symm.trans hstep
  have hmem (h : Handle) : h ∈ next.backend.conns.keys ↔
      h = handle ∨ h ∈ t.backend.conns.keys := by rw [hkeys.mem_iff, List.mem_cons]
  have hnew : next.localPort handle = some t.backend.nextPort := by
    rw [localPort, hopened, Function.update_self]
    rfl
  have hold : ∀ h ∈ t.backend.conns.keys, next.localPort h = t.localPort h := by
    intro h hh
    have hne : h ≠ handle := fun heq => hfresh (heq ▸ hh)
    rw [localPort, localPort, hopened, Function.update_of_ne hne]
  rw [hnextSound.separate_iff]
  constructor
  · intro hdistinct h hh o ho hstale
    have hclash : next.localPort handle = next.localPort h := by
      rw [hnew, hold h hh]
      exact ((hsound.localPort_eq_next_iff hh).mpr ⟨o, ho, hstale⟩).symm
    have heq := hdistinct handle ((hmem handle).mpr (.inl rfl)) h ((hmem h).mpr (.inr hh)) hclash
    exact hfresh (heq ▸ hh)
  · intro hnone
    -- no old connection has the port of the new one
    have hapart : ∀ h ∈ t.backend.conns.keys, next.localPort h ≠ next.localPort handle := by
      intro h hh hclash
      rw [hold h hh, hnew] at hclash
      obtain ⟨o, ho, hstale⟩ := (hsound.localPort_eq_next_iff hh).mp hclash
      exact hnone h hh o ho hstale
    intro h hh h' hh' hclash
    rcases (hmem h).mp hh with rfl | hh
    · rcases (hmem h').mp hh' with rfl | hh'
      · rfl
      · exact absurd hclash.symm (hapart h' hh')
    · rcases (hmem h').mp hh' with rfl | hh'
      · exact absurd hclash (hapart h hh)
      · rw [hold h hh, hold h' hh'] at hclash
        exact hseparate.distinct h hh h' hh' hclash

theorem Sound.separate_keeps (hsound : t.Sound) (hseparate : t.Separate)
    (hkeeps : ¬t.backend.Opens api op) (hnext : t.apply alloc api op = .ok next)
    (hnextSound : next.Sound) : next.Separate := by
  obtain ⟨_, hstep, -, -, hkeys, hopened⟩ := apply_keeps alloc api hsound.owns hkeeps
  cases hnext.symm.trans hstep
  rw [hnextSound.separate_iff]
  intro h hh h' hh' hclash
  simp only [localPort, hopened] at hclash
  exact hseparate.distinct h (hkeys hh) h' (hkeys hh') hclash

theorem Along.head {P : Tracked σ → Prop} {ops : List (Op σ)} (hrun : t.Along alloc api P ops) :
    P t := by
  cases ops with
  | nil => exact hrun
  | cons op rest => exact hrun.1

/-- The ports of a run are kept apart exactly when every connection is opened in
time. -/
theorem Sound.along_iff (hsound : t.Sound) (hseparate : t.Separate) (ops : List (Op σ)) :
    t.Along alloc api Separate ops ↔ t.OpensInTime alloc api ops := by
  induction ops generalizing t with
  | nil => exact iff_of_true hseparate trivial
  | cons op rest ih =>
      obtain ⟨next, hnext, hnextSound⟩ := hsound.apply alloc api op
      constructor
      · rintro ⟨-, other, hother, hrest⟩
        cases hother.symm.trans hnext
        have hnextSeparate := hrest.head
        refine ⟨fun hopens => (hsound.separate_opens_iff alloc api hseparate hopens hnext
          hnextSound).mp hnextSeparate, ?_⟩
        intro other hother
        cases hother.symm.trans hnext
        exact (ih hnextSound hnextSeparate).mp hrest
      · rintro ⟨hintime, hrest⟩
        have hnextSeparate : next.Separate := by
          by_cases hopens : t.backend.Opens api op
          · exact (hsound.separate_opens_iff alloc api hseparate hopens hnext hnextSound).mpr
              (hintime hopens)
          · exact hsound.separate_keeps alloc api hseparate hopens hnext hnextSound
        exact ⟨hseparate, next, hnext, (ih hnextSound hnextSeparate).mpr (hrest next hnext)⟩

/-- A local application connects to the first forward, and the stack takes it. -/
def accept : Op σ := .accept 0 fun _ _ s => some s

theorem opens_accept {b : UserspaceBackend σ} (hforward : b.forwards ≠ []) :
    b.Opens api accept := by
  obtain ⟨f, rest, hf⟩ := List.exists_cons_of_ne_nil hforward
  exact ⟨f, by rw [hf]; rfl, rfl⟩

/-- A connection that stays open while others are opened becomes stale when the
counter has come round. -/
theorem Sound.not_stale_of_opensInTime (hsound : t.Sound) (hforward : t.backend.forwards ≠ [])
    {h : Handle} (hh : h ∈ t.backend.conns.keys) {o : Opened} (ho : t.opened h = some o) {n : Nat}
    (hintime : t.OpensInTime alloc api (List.replicate (n + 1) accept)) :
    ¬40001 ∣ t.issued + n - o.serial := by
  induction n generalizing t with
  | zero => exact hintime.1 (opens_accept api hforward) h hh o ho
  | succ n ih =>
      obtain ⟨next, handle, hnext, -, -, hforwards, hissued, hfresh, hkeys, hopened⟩ :=
        apply_opens alloc api hsound.owns (opens_accept api hforward)
      obtain ⟨_, hnext', hnextSound⟩ := hsound.apply alloc api accept
      cases hnext.symm.trans hnext'
      have hkept : h ≠ handle := fun heq => hfresh (heq ▸ hh)
      have hlater := ih hnextSound (hforwards ▸ hforward)
        (hkeys.mem_iff.mpr (List.mem_cons_of_mem _ hh))
        (by rw [hopened, Function.update_of_ne hkept]; exact ho) (hintime.2 next hnext)
      rwa [hissued, Nat.add_assoc, Nat.add_comm 1 n] at hlater

end Runs

/-- The ports of the live connections of a backend are kept apart in all states of a
run exactly when no connection is opened while another one is older by a multiple of
the number of ports. -/
theorem ports_separate_iff {bind : UInt16 → Except IoError Unit} {forwards : List Forward}
    {b : UserspaceBackend σ} (hnew : new bind forwards = .ok b) (ops : List (Op σ)) :
    (start b).Along alloc api Separate ops ↔ (start b).OpensInTime alloc api ops := by
  have hsound := sound_start hnew
  refine hsound.along_iff alloc api (hsound.separate_iff.mpr ?_) ops
  obtain ⟨fl, -, hreturn⟩ := bind_eq_ok_iff.mp hnew
  cases hreturn
  intro h hh
  cases hh

/-- A backend with one forward. -/
def oneForward : UserspaceBackend BufferedSocket :=
  ⟨⟨.empty, .empty⟩, [⟨.v4 #v[10, 0, 0, 7], 80⟩], 20000⟩

theorem oneForward_new :
    new (fun _ => .ok ()) [⟨8080, "10.0.0.7", 80⟩] = .ok oneForward := rfl

/-- Two connections are open at the same time, with different ports. -/
theorem oneForward_separate :
    (start oneForward).Along .firstFree bufferedApi Separate [accept, accept] := by
  refine (ports_separate_iff .firstFree bufferedApi oneForward_new [accept, accept]).mpr ⟨?_, ?_⟩
  · intro _ h hh
    cases hh
  · intro next hnext
    have hsound := sound_start oneForward_new
    obtain ⟨other, handle, hother, -, -, -, hissued, -, hkeys, hopened⟩ :=
      apply_opens .firstFree bufferedApi hsound.owns (opens_accept _ (List.cons_ne_nil _ _))
    cases hnext.symm.trans hother
    refine ⟨fun _ h hh o ho => ?_, fun _ _ => trivial⟩
    -- the first connection is the only one, and it is one number older
    have hfirst : h = handle := List.mem_singleton.mp (hkeys.mem_iff.mp hh)
    rw [hfirst, hopened, Function.update_self] at ho
    cases ho
    rw [hissued]
    decide

/-- The first connection stays open while the counter hands out all other ports. The
next connection then gets the same port. -/
theorem ports_collide :
    ¬(start oneForward).Along .firstFree bufferedApi Separate (List.replicate 40002 accept) := by
  intro hseparate
  have hsound := sound_start oneForward_new
  have hintime := (hsound.along_iff .firstFree bufferedApi hseparate.head _).mp hseparate
  obtain ⟨next, handle, hnext, -, -, hforwards, hissued, -, hkeys, hopened⟩ :=
    apply_opens .firstFree bufferedApi hsound.owns (opens_accept _ (List.cons_ne_nil _ _))
  obtain ⟨_, hnext', hnextSound⟩ := hsound.apply .firstFree bufferedApi accept
  cases hnext.symm.trans hnext'
  have hstale := hnextSound.not_stale_of_opensInTime .firstFree bufferedApi (n := 40000)
    (hforwards ▸ List.cons_ne_nil _ _) (hkeys.mem_iff.mpr List.mem_cons_self)
    (by rw [hopened, Function.update_self]) (hintime.2 next hnext)
  rw [hissued] at hstale
  exact hstale (by decide)

end Tracked

end UserspaceBackend

end Newt.Olm
