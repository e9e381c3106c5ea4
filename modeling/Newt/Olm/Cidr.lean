import Newt.Core.Addr

/-! # Routed destination ranges -/

namespace Newt.Olm

open Text

structure Cidr where
  net : IpAddr
  prefixLen : UInt8
  deriving DecidableEq, Repr

/-- Compare the first `prefixLen` bits of two byte arrays. -/
def bitsMatch {n : Nat} (a b : Vector UInt8 n) (prefixLen : UInt8) : Bool :=
  let full := (prefixLen / 8).toNat
  if a.toList.take full ≠ b.toList.take full then false
  else
    let rem := prefixLen % 8
    if rem = 0 then true
    else
      let mask := 0xff <<< (8 - rem)
      (a.toList.getD full 0 &&& mask) == (b.toList.getD full 0 &&& mask)

namespace Cidr

/-- Parse `10.0.0.0/24` or a bare address, which stands for a host route. -/
def parse (text : String) : Option Cidr :=
  let s := trim text.toList
  let parts : Option (List Char × Option UInt8) :=
    match splitOnce '/' s with
    | some (a, p) => (parseU8 p).map fun p => (a, some p)
    | none => some (s, none)
  match parts with
  | none => none
  | some (addr, prefixLen) =>
      match IpAddr.parse addr with
      | none => none
      | some net =>
          let max := if net.isIpv4 then 32 else 128
          let prefixLen := prefixLen.getD max
          if max < prefixLen then none else some ⟨net, prefixLen⟩

/-- Does this range contain `ip`? -/
def contains (c : Cidr) (ip : IpAddr) : Bool :=
  match c.net, ip with
  | .v4 n, .v4 a => bitsMatch n a c.prefixLen
  | .v6 n, .v6 a => bitsMatch n a c.prefixLen
  | _, _ => false

example : (parse " 10.0.0.0/24 ").map (·.contains (.v4 #v[10, 0, 0, 5])) = some true := by decide
example : (parse "192.168.0.0/20").map (·.contains (.v4 #v[192, 168, 16, 1])) = some false := by
  decide

end Cidr

/-- `same_cidr`: both the prefix and the network agree. -/
def sameCidr (a b : Cidr) : Bool := a.prefixLen == b.prefixLen && a.net == b.net

theorem sameCidr_iff (a b : Cidr) : sameCidr a b = true ↔ a = b := by
  cases a
  cases b
  simp [sameCidr, and_comm]

end Newt.Olm
