import Newt.Olm.Message
import Newt.Olm.Userspace

/-! # Backends of the client

A userspace backend holds a listener for each forward, a kernel backend holds a
TUN device, and both are acquired when the backend is created. The answers of the
operating system are parameters, apart from one rule: a listen port or a device
name that this process still holds cannot be acquired again.
-/

namespace Newt.Olm

open Foundation Proxy

/-- How the client exposes remote resources to the host. -/
inductive AccessMode where
  | kernel
  | userspace
  deriving DecidableEq, Repr

/-- The part of the configuration that a backend is created from. -/
structure ClientRun where
  access : AccessMode
  interface : String
  forwards : List Forward
  socksPort : Option UInt16
  deriving DecidableEq, Repr

/-- Calls that may fail for reasons that have nothing to do with an old backend. -/
inductive SystemCall where
  | bind (port : UInt16)
  | openTun
  | setIff
  | setNonblocking
  | registerFd
  | openNetlink
  | setMtu
  | addAddr
  | linkUp
  deriving DecidableEq, Repr

/-- The answers of the operating system while one message is handled. -/
structure Host where
  linux : Bool
  call : SystemCall → Except IoError Unit
  ifIndex : String → Except IoError UInt32
  /-- The name that the kernel makes of a pattern. -/
  assigned : List UInt8 → List UInt8
  routeAdded : Nat → Cidr → Bool

/-- An open TUN device with the name that the kernel gave it. -/
structure Tun where
  ifrName : List UInt8
  deriving DecidableEq, Repr

/-- The bytes of the name are read as characters one by one. -/
def Tun.name (tun : Tun) : String := String.ofList (tun.ifrName.map fun b => Char.ofNat b.toNat)

/-- The name that reaches the kernel: at most 15 bytes, up to the first zero. -/
def ifrName (name : String) : List UInt8 := (name.toUTF8.toList.take 15).takeWhile (· ≠ 0)

/-- The kernel chooses a free name for an empty name or one with a percent sign. -/
def isPattern (name : List UInt8) : Bool := name.isEmpty || name.contains '%'.toUInt8

structure KernelBackend where
  tun : Tun
  ifindex : UInt32
  address : IpAddr
  routes : List Cidr
  deriving DecidableEq, Repr

inductive Backend (σ : Type) where
  | userspace (address : IpAddr) (ports : List UInt16) (b : UserspaceBackend σ)
  | kernel (b : KernelBackend)

namespace Host

variable (host : Host)

/-- Bind a local port while the ports in `held` have listeners. The system takes
any free port for 0, from a range that is not configured. -/
def bind (held : List UInt16) (port : UInt16) : Except IoError Unit := do
  host.call (.bind port)
  if port ≠ 0 ∧ port ∈ held then throw "Address already in use"

/-- The loop of `UserspaceBackend::new`. Listeners of earlier forwards are live. -/
def bindForwards : List UInt16 → List Forward → Except IoError (List ForwardListener)
  | _, [] => return []
  | held, f :: rest => do
      let l ← UserspaceBackend.bindForward (host.bind held) f
      let ls ← bindForwards (f.listenPort :: held) rest
      return l :: ls

/-- The name of the device that a request for a name creates. -/
def device (name : List UInt8) : List UInt8 := if isPattern name then host.assigned name else name

/-- `TUNSETIFF` while the devices in `held` are attached. -/
def setIff (held : List (List UInt8)) (name : List UInt8) : Except IoError (List UInt8) := do
  host.call .setIff
  if isPattern name = false ∧ name ∈ held then throw "Device or resource busy"
  else return host.device name

def openTun (held : List (List UInt8)) (name : String) : Except IoError Tun := do
  host.call .openTun
  let real ← host.setIff held (ifrName name)
  host.call .setNonblocking
  host.call .registerFd
  return ⟨real⟩

/-- `KernelBackend::new`. The device carries the address of the client. -/
def newKernel (held : List (List UInt8)) (interface : String) (tunnelIp : IpAddr) :
    Except IoError KernelBackend := do
  let tun ← host.openTun held interface
  let ifindex ← host.ifIndex tun.name
  host.call .openNetlink
  host.call .setMtu
  host.call .addAddr
  host.call .linkUp
  return ⟨tun, ifindex, tunnelIp, []⟩

end Host

namespace Backend

variable {σ : Type}

/-- The listen ports that a backend holds, if there is one. -/
def heldPorts : Option (Backend σ) → List UInt16
  | some (.userspace _ ports _) => ports
  | some (.kernel _) | none => []

/-- The devices that a backend holds, if there is one. -/
def heldDevices : Option (Backend σ) → List (List UInt8)
  | some (.kernel b) => [b.tun.ifrName]
  | some (.userspace ..) | none => []

/-- Create a backend while another one may still be there. -/
def new (host : Host) (cfg : ClientRun) (old : Option (Backend σ)) (tunnelIp : IpAddr) :
    Except IoError (Backend σ) :=
  match cfg.access with
  | .userspace =>
      if cfg.socksPort.isSome then
        .error "OLM_SOCKS_PORT is reserved and not yet implemented; use OLM_FORWARDS"
      else do
        let fl ← host.bindForwards (heldPorts old) cfg.forwards
        return .userspace tunnelIp (cfg.forwards.map Forward.listenPort)
          ⟨⟨.empty, .empty⟩, fl, 20000⟩
  | .kernel =>
      if host.linux then do
        let b ← host.newKernel (heldDevices old) cfg.interface tunnelIp
        return .kernel b
      else
        .error ("kernel TUN access mode is only supported on Linux; " ++
          "set OLM_ACCESS_MODE=userspace")

/-- Program routes. A route that cannot be added is logged and skipped. -/
def addRoutes (added : Cidr → Bool) (cidrs : List Cidr) : Backend σ → Backend σ
  | .userspace address ports b => .userspace address ports b
  | .kernel b => .kernel { b with routes := b.routes ++ cidrs.filter added }

end Backend

/-! ## When a backend can be created -/

namespace ClientRun

/-- The listen ports that the system does not choose itself. -/
def fixedPorts (forwards : List Forward) : List UInt16 :=
  (forwards.map Forward.listenPort).filter (· ≠ 0)

/-- A forward whose destination is an address and whose port may be bound. -/
def Serves (host : Host) (f : Forward) : Prop :=
  (IpAddr.parse f.destHost.toList).isSome = true ∧ host.call (.bind f.listenPort) = .ok ()

/-- The calls of a kernel backend in order. -/
def kernelCalls : List SystemCall :=
  [.openTun, .setIff, .setNonblocking, .registerFd, .openNetlink, .setMtu, .addAddr, .linkUp]

/-- The configuration and the system allow a backend as long as this process holds
nothing. -/
def Ready (host : Host) (cfg : ClientRun) : Prop :=
  match cfg.access with
  | .userspace =>
      cfg.socksPort = none ∧ (∀ f ∈ cfg.forwards, Serves host f) ∧ (fixedPorts cfg.forwards).Nodup
  | .kernel =>
      host.linux = true ∧ (∀ call ∈ kernelCalls, host.call call = .ok ()) ∧
        ∃ i, host.ifIndex (Tun.name ⟨host.device (ifrName cfg.interface)⟩) = .ok i

/-- The old backend holds no configured port and not the configured device. -/
def Unheld {σ : Type} (cfg : ClientRun) (old : Option (Backend σ)) : Prop :=
  match cfg.access with
  | .userspace => ∀ p ∈ fixedPorts cfg.forwards, p ∉ Backend.heldPorts old
  | .kernel => isPattern (ifrName cfg.interface) = false →
      ifrName cfg.interface ∉ Backend.heldDevices old

/-- The configuration names a port or a device that has one holder at a time. -/
def Exclusive (cfg : ClientRun) : Prop :=
  match cfg.access with
  | .userspace => fixedPorts cfg.forwards ≠ []
  | .kernel => isPattern (ifrName cfg.interface) = false

end ClientRun

namespace Host

variable (host : Host)

theorem bind_ok_iff (held : List UInt16) (port : UInt16) :
    host.bind held port = .ok () ↔
      host.call (.bind port) = .ok () ∧ (port ≠ 0 → port ∉ held) := by
  simp only [bind, bind_unit_eq_ok_iff, ite_throw_eq_ok_iff, pure_eq_ok_iff, not_and, and_true]

theorem bindForward_ok_iff {bind : UInt16 → Except IoError Unit} (f : Forward) :
    (∃ l, UserspaceBackend.bindForward bind f = .ok l) ↔
      (IpAddr.parse f.destHost.toList).isSome = true ∧ bind f.listenPort = .ok () := by
  unfold UserspaceBackend.bindForward
  cases IpAddr.parse f.destHost.toList with
  | none => simp
  | some dest => simp only [bind_unit_eq_ok_iff, pure_eq_ok_iff, exists_and_left, exists_eq',
      and_true, Option.isSome_some, true_and]

/-- Binding in order succeeds if the fixed ports are free and differ. -/
theorem bindForwards_ok_iff (held : List UInt16) (forwards : List Forward) :
    (∃ fl, host.bindForwards held forwards = .ok fl) ↔
      (∀ f ∈ forwards, ClientRun.Serves host f) ∧ (ClientRun.fixedPorts forwards).Nodup ∧
        ∀ p ∈ ClientRun.fixedPorts forwards, p ∉ held := by
  induction forwards generalizing held with
  | nil => simp [bindForwards, ClientRun.fixedPorts, pure_eq_ok_iff]
  | cons f rest ih =>
      have hcons : (∃ fl, host.bindForwards held (f :: rest) = .ok fl) ↔
          (∃ l, UserspaceBackend.bindForward (host.bind held) f = .ok l) ∧
            ∃ ls, host.bindForwards (f.listenPort :: held) rest = .ok ls := by
        simp only [bindForwards, bind_eq_ok_iff, pure_eq_ok_iff]
        constructor
        · rintro ⟨_, l, hl, ls, hls, _⟩
          exact ⟨⟨l, hl⟩, ls, hls⟩
        · rintro ⟨⟨l, hl⟩, ls, hls⟩
          exact ⟨l :: ls, l, hl, ls, hls, rfl⟩
      rw [hcons, bindForward_ok_iff, bind_ok_iff, ih]
      by_cases hport : f.listenPort = 0
      · -- a port that the system chooses is in nobody's way
        have hfixed : ClientRun.fixedPorts (f :: rest) = ClientRun.fixedPorts rest := by
          simp [ClientRun.fixedPorts, hport]
        have hother : ∀ p ∈ ClientRun.fixedPorts rest, p ≠ f.listenPort := by
          intro p hp
          rw [hport]
          simpa using (List.mem_filter.mp hp).2
        simp only [hfixed, ClientRun.Serves, List.mem_cons, not_or]
        grind
      · have hfixed : ClientRun.fixedPorts (f :: rest) =
            f.listenPort :: ClientRun.fixedPorts rest := by
          simp [ClientRun.fixedPorts, hport]
        simp only [hfixed, ClientRun.Serves, List.mem_cons, not_or,
          List.nodup_cons]
        grind

/-- Only whether the fixed ports are held matters. -/
theorem bindForwards_congr {held other : List UInt16} {forwards : List Forward}
    (hsame : ∀ p ∈ ClientRun.fixedPorts forwards, p ∈ held ↔ p ∈ other) :
    host.bindForwards held forwards = host.bindForwards other forwards := by
  induction forwards generalizing held other with
  | nil => rfl
  | cons f rest ih =>
      have hbind : host.bind held f.listenPort = host.bind other f.listenPort := by
        by_cases hport : f.listenPort = 0
        · simp [bind, hport]
        · have hmem : f.listenPort ∈ ClientRun.fixedPorts (f :: rest) := by
            simp [ClientRun.fixedPorts, hport]
          simp only [bind, hsame f.listenPort hmem]
      have hrest : ∀ p ∈ ClientRun.fixedPorts rest,
          p ∈ f.listenPort :: held ↔ p ∈ f.listenPort :: other := by
        intro p hp
        have hmem : p ∈ ClientRun.fixedPorts (f :: rest) :=
          List.mem_filter.mpr ⟨List.mem_cons_of_mem _ (List.mem_filter.mp hp).1,
            (List.mem_filter.mp hp).2⟩
        simp only [List.mem_cons, hsame p hmem]
      simp only [bindForwards, UserspaceBackend.bindForward, hbind, ih hrest]

/-- The listeners are those of a backend whose ports are all free. -/
theorem bindForwards_listeners {held : List UInt16} {forwards : List Forward}
    {fl : List ForwardListener} (hbind : host.bindForwards held forwards = .ok fl) :
    forwards.mapM (UserspaceBackend.bindForward fun _ => .ok ()) = .ok fl := by
  induction forwards generalizing held fl with
  | nil => exact hbind
  | cons f rest ih =>
      obtain ⟨l, hl, hrest⟩ := bind_eq_ok_iff.mp hbind
      obtain ⟨ls, hls, hreturn⟩ := bind_eq_ok_iff.mp hrest
      have hlistener : UserspaceBackend.bindForward (fun _ => .ok ()) f = .ok l := by
        unfold UserspaceBackend.bindForward at hl ⊢
        cases hdest : IpAddr.parse f.destHost.toList with
        | none => simp [hdest] at hl
        | some dest =>
            simp only [hdest, bind_unit_eq_ok_iff] at hl ⊢
            exact ⟨trivial, hl.2⟩
      rw [List.mapM_cons]
      exact bind_eq_ok_iff.mpr ⟨l, hlistener, bind_eq_ok_iff.mpr ⟨ls, ih hls, hreturn⟩⟩

theorem setIff_ok_iff (held : List (List UInt8)) (name real : List UInt8) :
    host.setIff held name = .ok real ↔
      host.call .setIff = .ok () ∧ (isPattern name = false → name ∉ held) ∧
        host.device name = real := by
  simp only [setIff, bind_unit_eq_ok_iff, ite_throw_eq_ok_iff, pure_eq_ok_iff, not_and]

theorem newKernel_ok_iff (held : List (List UInt8)) (interface : String) (tunnelIp : IpAddr)
    (b : KernelBackend) :
    host.newKernel held interface tunnelIp = .ok b ↔
      (∀ call ∈ ClientRun.kernelCalls, host.call call = .ok ()) ∧
        (isPattern (ifrName interface) = false → ifrName interface ∉ held) ∧
        ∃ i, host.ifIndex (Tun.name ⟨host.device (ifrName interface)⟩) = .ok i ∧
          ⟨⟨host.device (ifrName interface)⟩, i, tunnelIp, []⟩ = b := by
  simp only [newKernel, openTun, bind_eq_ok_iff, pure_eq_ok_iff, setIff_ok_iff,
    ClientRun.kernelCalls, List.forall_mem_cons]
  grind

end Host

namespace Backend

variable {σ : Type} (host : Host) (cfg : ClientRun)

/-- What a new backend is, and what had to succeed for it. -/
theorem new_eq_ok_iff {old : Option (Backend σ)} {tunnelIp : IpAddr} {b : Backend σ} :
    new host cfg old tunnelIp = .ok b ↔
      (cfg.access = .userspace ∧ cfg.socksPort = none ∧
        ∃ fl, host.bindForwards (heldPorts old) cfg.forwards = .ok fl ∧
          .userspace tunnelIp (cfg.forwards.map Forward.listenPort)
            ⟨⟨.empty, .empty⟩, fl, 20000⟩ = b) ∨
      (cfg.access = .kernel ∧ host.linux = true ∧
        ∃ k, host.newKernel (heldDevices old) cfg.interface tunnelIp = .ok k ∧ .kernel k = b) := by
  unfold new
  cases cfg.access with
  | userspace =>
      cases cfg.socksPort with
      | some port => simp
      | none =>
          simp only [Option.isSome_none, Bool.false_eq_true, if_false, bind_eq_ok_iff,
            pure_eq_ok_iff]
          simp
  | kernel =>
      by_cases hlinux : host.linux = true
      · simp only [hlinux, if_true, bind_eq_ok_iff, pure_eq_ok_iff]
        simp
      · simp [hlinux]

/-- A userspace backend starts as `UserspaceBackend.new` makes it. -/
theorem new_userspace {old : Option (Backend σ)} {tunnelIp address : IpAddr}
    {ports : List UInt16} {b : UserspaceBackend σ}
    (hnew : new host cfg old tunnelIp = .ok (.userspace address ports b)) :
    UserspaceBackend.new (fun _ => .ok ()) cfg.forwards = .ok b := by
  rcases (new_eq_ok_iff host cfg).mp hnew with ⟨_, _, fl, hfl, hb⟩ | ⟨_, _, k, _, hb⟩
  · cases hb
    exact bind_eq_ok_iff.mpr ⟨fl, host.bindForwards_listeners hfl, rfl⟩
  · cases hb

/-- A backend can be created beside an old one exactly if it can be created at all
and the old one does not hold what it needs. -/
theorem new_ok_iff (old : Option (Backend σ)) (tunnelIp : IpAddr) :
    (∃ b, new host cfg old tunnelIp = .ok b) ↔ cfg.Ready host ∧ cfg.Unheld old := by
  simp only [new_eq_ok_iff, ClientRun.Ready, ClientRun.Unheld]
  cases cfg.access with
  | userspace =>
      have hbind := host.bindForwards_ok_iff (heldPorts old) cfg.forwards
      constructor
      · rintro ⟨_, ⟨_, hsocks, fl, hfl, _⟩ | ⟨hkernel, _⟩⟩
        · obtain ⟨hserves, hdiffer, hfree⟩ := hbind.mp ⟨fl, hfl⟩
          exact ⟨⟨hsocks, hserves, hdiffer⟩, hfree⟩
        · cases hkernel
      · rintro ⟨⟨hsocks, hserves, hdiffer⟩, hfree⟩
        obtain ⟨fl, hfl⟩ := hbind.mpr ⟨hserves, hdiffer, hfree⟩
        exact ⟨_, .inl ⟨rfl, hsocks, fl, hfl, rfl⟩⟩
  | kernel =>
      simp only [host.newKernel_ok_iff]
      constructor
      · rintro ⟨_, ⟨huserspace, _⟩ | ⟨_, hlinux, _, ⟨hcalls, hfree, i, hi, _⟩, _⟩⟩
        · cases huserspace
        · exact ⟨⟨hlinux, hcalls, i, hi⟩, hfree⟩
      · rintro ⟨⟨hlinux, hcalls, i, hi⟩, hfree⟩
        exact ⟨_, .inr ⟨trivial, hlinux, _, ⟨hcalls, hfree, i, hi, rfl⟩, rfl⟩⟩

/-- The old backend leaves no trace in the new one. -/
theorem new_eq_of_unheld {old : Option (Backend σ)} (hunheld : cfg.Unheld old)
    (tunnelIp : IpAddr) : new host cfg old tunnelIp = new host cfg none tunnelIp := by
  unfold ClientRun.Unheld at hunheld
  unfold new
  cases haccess : cfg.access with
  | userspace =>
      simp only [haccess] at hunheld
      have hsame : host.bindForwards (heldPorts old) cfg.forwards =
          host.bindForwards (heldPorts (none : Option (Backend σ))) cfg.forwards := by
        refine host.bindForwards_congr fun p hp => ?_
        exact iff_of_false (hunheld p hp) List.not_mem_nil
      simp only [hsame]
  | kernel =>
      simp only [haccess] at hunheld
      have hfree : ¬ (isPattern (ifrName cfg.interface) = false ∧
          ifrName cfg.interface ∈ heldDevices old) := fun ⟨hname, hheld⟩ => hunheld hname hheld
      have hsame : host.setIff (heldDevices old) (ifrName cfg.interface) =
          host.setIff (heldDevices (none : Option (Backend σ))) (ifrName cfg.interface) := by
        have hnone : ifrName cfg.interface ∉ heldDevices (none : Option (Backend σ)) :=
          List.not_mem_nil
        simp only [Host.setIff, hfree, hnone, and_false, if_false]
      simp only [Host.newKernel, Host.openTun, hsame]

/-- A backend stands in the way of the next one exactly if the configuration names
something exclusive. -/
theorem unheld_new_iff {old : Option (Backend σ)} {tunnelIp : IpAddr} {b : Backend σ}
    (hnew : new host cfg old tunnelIp = .ok b) (added : Cidr → Bool) (cidrs : List Cidr) :
    cfg.Unheld (some (b.addRoutes added cidrs)) ↔ ¬ cfg.Exclusive := by
  unfold ClientRun.Unheld ClientRun.Exclusive
  rcases (new_eq_ok_iff host cfg).mp hnew with ⟨haccess, _, fl, _, rfl⟩ | ⟨haccess, _, k, hk, rfl⟩
  · simp only [haccess, addRoutes, heldPorts, ne_eq, not_not]
    constructor
    · intro hfree
      refine List.eq_nil_iff_forall_not_mem.mpr fun p hp => ?_
      exact hfree p hp (List.mem_of_mem_filter hp)
    · intro hnone p hp
      rw [hnone] at hp
      cases hp
  · obtain ⟨_, _, i, _, rfl⟩ := (host.newKernel_ok_iff ..).mp hk
    simp only [haccess, addRoutes, heldDevices, List.mem_singleton, Host.device]
    cases isPattern (ifrName cfg.interface) <;> simp

end Backend

end Newt.Olm
