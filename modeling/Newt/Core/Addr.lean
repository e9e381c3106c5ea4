import Newt.Core.Text

/-! # Internet addresses

Addresses as the octet arrays of `std::net`, and its parser for their text.
Each reader takes the remaining characters and returns a value with the rest, or
nothing, in which case the characters count as unread.
-/

namespace Newt

abbrev Ipv4Addr := Vector UInt8 4

abbrev Ipv6Addr := Vector UInt8 16

inductive IpAddr where
  | v4 (octets : Ipv4Addr)
  | v6 (octets : Ipv6Addr)
  deriving DecidableEq, Repr

namespace IpAddr

def isIpv4 : IpAddr → Bool
  | .v4 _ => true
  | .v6 _ => false

end IpAddr

namespace AddrParser

open Text

/-- The digits at the start of the input as values, with the rest. -/
def takeDigits (radix : Nat) : List Char → List Nat × List Char
  | [] => ([], [])
  | c :: rest =>
      match toDigit radix c with
      | some d =>
          let (ds, after) := takeDigits radix rest
          (d :: ds, after)
      | none => ([], c :: rest)

/-- A number of at most `maxDigits` digits and at most `max`. -/
def readNumber (radix maxDigits max : Nat) (allowZeroPrefix : Bool) (s : List Char) :
    Option (Nat × List Char) :=
  let (ds, rest) := takeDigits radix s
  let value := ds.foldl (fun acc d => radix * acc + d) 0
  if ds = [] ∨ maxDigits < ds.length then none
  else if !allowZeroPrefix ∧ s.head? = some '0' ∧ 1 < ds.length then none
  else if max < value then none
  else some (value, rest)

/-- A value that follows a separator, unless it is the first. -/
def readSeparator {α : Type} (sep : Char) (index : Nat)
    (inner : List Char → Option (α × List Char)) (s : List Char) : Option (α × List Char) :=
  if index = 0 then inner s else (stripChar sep s).bind inner

/-- The remaining octets of an IPv4 address, from number `index` on. Octal
numbers are not allowed. -/
def readOctets : Nat → Nat → List Char → Option (List UInt8 × List Char)
  | 0, _, s => some ([], s)
  | left + 1, index, s =>
      match readSeparator '.' index (readNumber 10 3 255 false) s with
      | none => none
      | some (octet, rest) =>
          (readOctets left (index + 1) rest).map fun (octets, rest) =>
            (UInt8.ofNat octet :: octets, rest)

def readIpv4Octets : List Char → Option (List UInt8 × List Char) := readOctets 4 0

/-- Up to `left` groups of 16 bits, as octets in network order, and whether an
embedded IPv4 address ended them. There have to be two groups left for one. -/
def readGroups : Nat → Nat → List Char → List UInt8 × Bool × List Char
  | 0, _, s => ([], false, s)
  | left + 1, index, s =>
      let ipv4 := if 0 < left then readSeparator ':' index readIpv4Octets s else none
      match ipv4 with
      | some (octets, rest) => (octets, true, rest)
      | none =>
          match readSeparator ':' index (readNumber 16 4 65535 true) s with
          | none => ([], false, s)
          | some (group, rest) =>
              let (octets, hasIpv4, rest) := readGroups left (index + 1) rest
              (UInt8.ofNat (group / 256) :: UInt8.ofNat group :: octets, hasIpv4, rest)

/-- The octets of an IPv6 address. `::` stands for at least one group of zeros,
and an IPv4 part is not allowed before it. -/
def readIpv6Octets (s : List Char) : Option (List UInt8 × List Char) :=
  let (head, headIpv4, rest) := readGroups 8 0 s
  if head.length = 16 then some (head, rest)
  else if headIpv4 then none
  else
    match (stripChar ':' rest).bind (stripChar ':') with
    | none => none
    | some rest =>
        let (tail, _, rest) := readGroups (8 - (head.length / 2 + 1)) 0 rest
        some (head ++ List.replicate (16 - head.length - tail.length) 0 ++ tail, rest)

end AddrParser

namespace IpAddr

/-- `IpAddr::from_str`. The whole text has to be an address. -/
def parse (s : List Char) : Option IpAddr :=
  match AddrParser.readIpv4Octets s with
  | some (octets, rest) =>
      if rest = [] then some (.v4 (Vector.ofFn fun i => octets.getD i 0)) else none
  | none =>
      match AddrParser.readIpv6Octets s with
      | some (octets, rest) =>
          if rest = [] then some (.v6 (Vector.ofFn fun i => octets.getD i 0)) else none
      | none => none

example : parse "10.0.0.7".toList = some (.v4 #v[10, 0, 0, 7]) := by decide
example : parse "10.0.0.07".toList = none := by decide
example : parse "fd00::1:10.0.0.7".toList =
    some (.v6 #v[0xfd, 0, 0, 0, 0, 0, 0, 0, 0, 0, 0, 1, 10, 0, 0, 7]) := by decide

end IpAddr

/-- A UDP or TCP endpoint. -/
structure SocketAddr where
  ip : IpAddr
  port : UInt16
  deriving DecidableEq, Repr

/-- A WireGuard endpoint in the documentation range. -/
def SocketAddr.documentation : SocketAddr := ⟨.v4 #v[192, 0, 2, 1], 51820⟩

end Newt
