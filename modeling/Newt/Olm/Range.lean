import Newt.Foundation.Bytes
import Newt.Olm.Table
import Newt.Stack.SocketSet

/-! # The ranges that CIDRs denote

An address is a number of 32 or 128 bits, and a CIDR is the block of the
addresses that share its leading bits. The same block has as many CIDRs as it has
addresses, but only one without address bits beyond the prefix.
-/

namespace Newt

open Foundation

namespace IpAddr

def octets : IpAddr → List UInt8
  | .v4 octets => octets.toList
  | .v6 octets => octets.toList

/-- The number of bits of the address. -/
def width (ip : IpAddr) : Nat := 8 * ip.octets.length

@[simp]
theorem width_v4 (octets : Ipv4Addr) : (v4 octets).width = 32 := by simp [width, IpAddr.octets]

@[simp]
theorem width_v6 (octets : Ipv6Addr) : (v6 octets).width = 128 := by simp [width, IpAddr.octets]

theorem width_eq (ip : IpAddr) : ip.width = if ip.isIpv4 then 32 else 128 := by
  cases ip <;> simp [isIpv4]

def value (ip : IpAddr) : Nat := beNat ip.octets

/-- The bits of the address, the most significant one first. -/
def bit (ip : IpAddr) (k : Nat) : Bool := ip.value.testBit (ip.width - 1 - k)

theorem value_lt (ip : IpAddr) : ip.value < 2 ^ ip.width := by
  rw [width, Nat.pow_mul]
  exact beNat_lt ip.octets

theorem octets_length_eq {a b : IpAddr} (hfamily : a.isIpv4 = b.isIpv4) :
    a.octets.length = b.octets.length := by
  cases a <;> cases b <;> simp_all [octets, isIpv4]

/-- An address is its family and its number. -/
theorem eq_of_value {a b : IpAddr} (hfamily : a.isIpv4 = b.isIpv4) (hvalue : a.value = b.value) :
    a = b := by
  have hoctets := (beNat_inj (octets_length_eq hfamily)).mp hvalue
  cases a with
  | v4 a =>
      cases b with
      | v4 b => rw [Vector.toList_inj.mp hoctets]
      | v6 b => cases hfamily
  | v6 a =>
      cases b with
      | v4 b => cases hfamily
      | v6 b => rw [Vector.toList_inj.mp hoctets]

/-- Every number of the width is an address. -/
theorem exists_value (ip : IpAddr) {value : Nat} (hvalue : value < 2 ^ ip.width) :
    ∃ other : IpAddr, other.isIpv4 = ip.isIpv4 ∧ other.value = value := by
  have hsame (n : Nat) (hn : value < 2 ^ (8 * n)) : beNat (beBytes n value) = value := by
    rw [beNat_beBytes]
    exact Nat.mod_eq_of_lt (by rwa [Nat.pow_mul] at hn)
  cases ip with
  | v4 octets =>
      refine ⟨.v4 ⟨(beBytes 4 value).toArray, by simp⟩, rfl, hsame 4 ?_⟩
      simpa using hvalue
  | v6 octets =>
      refine ⟨.v6 ⟨(beBytes 16 value).toArray, by simp⟩, rfl, hsame 16 ?_⟩
      simpa using hvalue

end IpAddr

namespace Olm

/-- A prefix that ends inside of a byte compares the bytes before it and the leading
bits of that byte. -/
theorem bitsMatch_partial_iff {n : Nat} (a b : Vector UInt8 n) {prefixLen : UInt8}
    (hinside : prefixLen % 8 ≠ 0) :
    bitsMatch a b prefixLen = true ↔
      a.toList.take (prefixLen / 8).toNat = b.toList.take (prefixLen / 8).toNat ∧
        (a.toList.getD (prefixLen / 8).toNat 0).toNat / 2 ^ (8 - (prefixLen % 8).toNat) =
          (b.toList.getD (prefixLen / 8).toNat 0).toNat / 2 ^ (8 - (prefixLen % 8).toNat) := by
  have hpos : 0 < prefixLen % 8 := UInt8.pos_iff_ne_zero.mpr hinside
  rw [← and_mask_eq_iff _ _ hpos (UInt8.mod_lt _ (by decide))]
  simp only [bitsMatch, hinside, if_false]
  split
  · next hne => exact iff_of_false Bool.false_ne_true fun hbits => hne hbits.1
  · next heq =>
      rw [beq_iff_eq]
      exact ⟨fun hmasked => ⟨not_not.mp heq, hmasked⟩, And.right⟩

theorem bitsMatch_iff {n : Nat} (a b : Vector UInt8 n) (prefixLen : UInt8) :
    bitsMatch a b prefixLen = true ↔
      leadingBits prefixLen.toNat a.toList = leadingBits prefixLen.toNat b.toList := by
  have hsplit : prefixLen.toNat = 8 * (prefixLen / 8).toNat + (prefixLen % 8).toNat := by
    rw [UInt8.toNat_div, UInt8.toNat_mod]
    exact (Nat.div_add_mod _ _).symm
  have hrem : (prefixLen % 8).toNat ≤ 8 := Nat.le_of_lt (UInt8.mod_lt prefixLen (by decide))
  rw [hsplit]
  by_cases hwhole : prefixLen % 8 = 0
  · have hbytes : bitsMatch a b prefixLen = true ↔
        a.toList.take (prefixLen / 8).toNat = b.toList.take (prefixLen / 8).toNat := by
      simp [bitsMatch, hwhole]
    rw [hbytes, hwhole, UInt8.toNat_zero, Nat.add_zero, leadingBits_bytes, leadingBits_bytes,
      beNat_inj (by simp)]
  rw [bitsMatch_partial_iff a b hwhole]
  by_cases hfull : (prefixLen / 8).toNat < n
  · rw [leadingBits_eq_iff hrem (by simp) (by simpa using hfull)]
  · -- the prefix covers all bytes
    have hall (v : Vector UInt8 n) : v.toList.length ≤ (prefixLen / 8).toNat := by
      simpa using hfull
    have hzero (v : Vector UInt8 n) :
        8 * v.toList.length - (8 * (prefixLen / 8).toNat + (prefixLen % 8).toNat) = 0 := by
      have hv := hall v
      omega
    have hnext (v : Vector UInt8 n) : v.toList.getD (prefixLen / 8).toNat 0 = 0 := by
      rw [List.getD_eq_getElem?_getD, List.getElem?_eq_none (hall v)]
      rfl
    rw [leadingBits, leadingBits, hzero, hzero, hnext, hnext, List.take_of_length_le (hall a),
      List.take_of_length_le (hall b), Nat.pow_zero, Nat.div_one, Nat.div_one,
      beNat_inj (by simp)]
    exact and_iff_left rfl

/-- `bytes[..full]` -/
def sliceTo (bytes : List UInt8) (full : Nat) : Except Stack.Fault (List UInt8) :=
  if full ≤ bytes.length then .ok (bytes.take full) else .error (.outOfBounds full)

/-- `bytes[index]` -/
def byteAt (bytes : List UInt8) (index : Nat) : Except Stack.Fault UInt8 :=
  if index < bytes.length then .ok (bytes.getD index 0) else .error (.outOfBounds index)

/-- `bits_match` with the bounds checks of its slices. -/
def bitsMatchChecked (a b : List UInt8) (prefixLen : UInt8) : Except Stack.Fault Bool := do
  let full := (prefixLen / 8).toNat
  let frontA ← sliceTo a full
  let frontB ← sliceTo b full
  if frontA ≠ frontB then .ok false
  else
    let rem := prefixLen % 8
    if rem = 0 then .ok true
    else
      let mask := 0xff <<< (8 - rem)
      let nextA ← byteAt a full
      let nextB ← byteAt b full
      .ok ((nextA &&& mask) == (nextB &&& mask))

/-- No index is out of bounds: when the prefix ends inside a byte, that byte exists. -/
theorem bitsMatchChecked_eq {n : Nat} (a b : Vector UInt8 n) {prefixLen : UInt8}
    (hlen : prefixLen.toNat ≤ 8 * n) :
    bitsMatchChecked a.toList b.toList prefixLen = .ok (bitsMatch a b prefixLen) := by
  have hfull : (prefixLen / 8).toNat = prefixLen.toNat / 8 := UInt8.toNat_div _ _
  have hslice (v : Vector UInt8 n) : sliceTo v.toList (prefixLen / 8).toNat =
      .ok (v.toList.take (prefixLen / 8).toNat) := by
    rw [sliceTo, if_pos]
    simp only [Vector.length_toList]
    omega
  simp only [bitsMatchChecked, bitsMatch, hslice, bind, Except.bind]
  split_ifs with hfront hwhole
  · rfl
  · rfl
  · have hrem : prefixLen.toNat % 8 ≠ 0 := fun hzero =>
      hwhole (UInt8.toNat_inj.mp ((UInt8.toNat_mod _ _).trans hzero))
    have hbyte (v : Vector UInt8 n) : byteAt v.toList (prefixLen / 8).toNat =
        .ok (v.toList.getD (prefixLen / 8).toNat 0) := by
      rw [byteAt, if_pos]
      simp only [Vector.length_toList]
      omega
    simp only [hbyte]

namespace Cidr

/-- Network address and prefix length, for the routes of the system. -/
def parts (c : Cidr) : IpAddr × UInt8 := (c.net, c.prefixLen)

/-- The size of the block, as a power of two. -/
def hostBits (c : Cidr) : Nat := c.net.width - c.prefixLen.toNat

/-- The address is of the same family and has the same leading bits. -/
def Covers (c : Cidr) (ip : IpAddr) : Prop :=
  c.net.isIpv4 = ip.isIpv4 ∧ c.net.value / 2 ^ c.hostBits = ip.value / 2 ^ c.hostBits

theorem contains_iff (c : Cidr) (ip : IpAddr) : c.contains ip = true ↔ c.Covers ip := by
  obtain ⟨net, prefixLen⟩ := c
  cases net with
  | v4 net =>
      cases ip with
      | v4 ip =>
          simp [contains, bitsMatch_iff, Covers, IpAddr.isIpv4, leadingBits, hostBits,
            IpAddr.width, IpAddr.value, IpAddr.octets]
      | v6 ip => simp [contains, Covers, IpAddr.isIpv4]
  | v6 net =>
      cases ip with
      | v4 ip => simp [contains, Covers, IpAddr.isIpv4]
      | v6 ip =>
          simp [contains, bitsMatch_iff, Covers, IpAddr.isIpv4, leadingBits, hostBits,
            IpAddr.width, IpAddr.value, IpAddr.octets]

/-! ## Ranges and their CIDRs -/

theorem prefixLen_le {text : String} {c : Cidr} (hparse : parse text = some c) :
    c.prefixLen.toNat ≤ c.net.width := by
  simp only [parse] at hparse
  split at hparse
  · cases hparse
  · split at hparse
    · cases hparse
    · next net _ =>
        cases net with
        | v4 octets =>
            simp only [IpAddr.isIpv4, if_true] at hparse
            split at hparse
            · cases hparse
            · next hmax =>
                cases hparse
                simpa using UInt8.le_iff_toNat_le.mp (UInt8.not_lt.mp hmax)
        | v6 octets =>
            simp only [IpAddr.isIpv4, Bool.false_eq_true, if_false] at hparse
            split at hparse
            · cases hparse
            · next hmax =>
                cases hparse
                simpa using UInt8.le_iff_toNat_le.mp (UInt8.not_lt.mp hmax)

/-- `contains` with the bounds checks of its slices. -/
def containsChecked (c : Cidr) (ip : IpAddr) : Except Stack.Fault Bool :=
  match c.net, ip with
  | .v4 n, .v4 a => bitsMatchChecked n.toList a.toList c.prefixLen
  | .v6 n, .v6 a => bitsMatchChecked n.toList a.toList c.prefixLen
  | _, _ => .ok false

theorem containsChecked_eq {c : Cidr} (hlen : c.prefixLen.toNat ≤ c.net.width) (ip : IpAddr) :
    c.containsChecked ip = .ok (c.contains ip) := by
  obtain ⟨net, prefixLen⟩ := c
  cases net with
  | v4 net =>
      cases ip with
      | v4 ip => exact bitsMatchChecked_eq net ip (by simpa using hlen)
      | v6 ip => rfl
  | v6 net =>
      cases ip with
      | v4 ip => rfl
      | v6 ip => exact bitsMatchChecked_eq net ip (by simpa using hlen)

/-- A parsed CIDR contains the addresses of its family whose numbers agree with its
own beyond the host bits, and the test stays inside both byte arrays. -/
theorem parsed_contains_iff {text : String} {c : Cidr} (hparse : parse text = some c)
    (ip : IpAddr) :
    c.prefixLen.toNat ≤ (if c.net.isIpv4 then 32 else 128) ∧
      c.containsChecked ip = .ok (c.contains ip) ∧
      (c.contains ip = true ↔ c.net.isIpv4 = ip.isIpv4 ∧
        c.net.value / 2 ^ ((if c.net.isIpv4 then 32 else 128) - c.prefixLen.toNat) =
          ip.value / 2 ^ ((if c.net.isIpv4 then 32 else 128) - c.prefixLen.toNat)) := by
  have hlen := prefixLen_le hparse
  rw [← IpAddr.width_eq]
  exact ⟨hlen, containsChecked_eq hlen ip, contains_iff c ip⟩

theorem parsed_contains_twenty_bits :
    parse "192.168.0.0/20" = some ⟨.v4 #v[192, 168, 0, 0], 20⟩ ∧
      Cidr.contains ⟨.v4 #v[192, 168, 0, 0], 20⟩ (.v4 #v[192, 168, 15, 1]) = true := by
  have hparse : parse "192.168.0.0/20" = some ⟨.v4 #v[192, 168, 0, 0], 20⟩ := by decide
  exact ⟨hparse, (parsed_contains_iff hparse (.v4 #v[192, 168, 15, 1])).2.2.mpr (by decide)⟩

/-- Both denote the same set of addresses. -/
def SameRange (c d : Cidr) : Prop := ∀ ip, c.contains ip = d.contains ip

theorem SameRange.symm {c d : Cidr} (h : c.SameRange d) : d.SameRange c := fun ip => (h ip).symm

theorem SameRange.covers_iff {c d : Cidr} (h : c.SameRange d) (ip : IpAddr) :
    c.Covers ip ↔ d.Covers ip := by
  rw [← contains_iff, ← contains_iff, h ip]

theorem covers_net (c : Cidr) : c.Covers c.net := ⟨rfl, rfl⟩

/-- A block reaches beyond the first of the smaller blocks that it consists of. -/
theorem exists_two_blocks {a b w v : Nat} (hsize : b < a) (hwidth : a ≤ w) (hv : v < 2 ^ w) :
    ∃ first second, first < 2 ^ w ∧ second < 2 ^ w ∧ first / 2 ^ a = v / 2 ^ a ∧
      second / 2 ^ a = v / 2 ^ a ∧ first / 2 ^ b ≠ second / 2 ^ b := by
  have hpos (k : Nat) : 0 < 2 ^ k := Nat.pow_pos (by decide)
  have hsmall : 2 ^ b < 2 ^ a := Nat.pow_lt_pow_right (by decide) hsize
  have hblock : 2 ^ a * (v / 2 ^ a + 1) ≤ 2 ^ w := by
    rw [← Nat.add_sub_cancel' hwidth, Nat.pow_add]
    apply Nat.mul_le_mul_left
    apply Nat.div_lt_of_lt_mul
    rwa [← Nat.pow_add, Nat.add_sub_cancel' hwidth]
  rw [Nat.mul_add, Nat.mul_one] at hblock
  have hlarge := hpos a
  refine ⟨2 ^ a * (v / 2 ^ a), 2 ^ a * (v / 2 ^ a) + 2 ^ b, by omega, by omega,
    Nat.mul_div_cancel_left _ (hpos a), ?_, ?_⟩
  · rw [Nat.mul_add_div (hpos a), Nat.div_eq_of_lt hsmall, Nat.add_zero]
  · rw [Nat.add_div_right _ (hpos b)]
    omega

theorem SameRange.hostBits_le {c d : Cidr} (h : c.SameRange d) : c.hostBits ≤ d.hostBits := by
  apply Nat.le_of_not_lt
  intro hsmaller
  -- two addresses of the range of `c` that `d` cannot both cover
  obtain ⟨first, second, hfirst, hsecond, hcfirst, hcsecond, hne⟩ :=
    exists_two_blocks hsmaller (Nat.sub_le _ _) c.net.value_lt
  obtain ⟨a, hafamily, rfl⟩ := c.net.exists_value hfirst
  obtain ⟨b, hbfamily, rfl⟩ := c.net.exists_value hsecond
  have hda := (h.covers_iff a).mp ⟨hafamily.symm, hcfirst.symm⟩
  have hdb := (h.covers_iff b).mp ⟨hbfamily.symm, hcsecond.symm⟩
  exact hne (hda.2.symm.trans hdb.2)

/-- CIDRs of the same range have the same prefix and agree on its bits. -/
theorem SameRange.agree {c d : Cidr} (h : c.SameRange d) (hc : c.prefixLen.toNat ≤ c.net.width)
    (hd : d.prefixLen.toNat ≤ d.net.width) :
    c.net.isIpv4 = d.net.isIpv4 ∧ c.prefixLen = d.prefixLen ∧
      c.net.value / 2 ^ c.hostBits = d.net.value / 2 ^ c.hostBits := by
  have hcovers : c.Covers d.net := (h.covers_iff d.net).mpr d.covers_net
  have hwidth : c.net.width = d.net.width :=
    congrArg (8 * ·) (IpAddr.octets_length_eq hcovers.1)
  have hsize : c.hostBits = d.hostBits := Nat.le_antisymm h.hostBits_le h.symm.hostBits_le
  refine ⟨hcovers.1, UInt8.toNat_inj.mp ?_, hcovers.2⟩
  simp only [hostBits] at hsize
  omega

/-- The address has no bits beyond the prefix. -/
theorem clear_iff_dvd {c : Cidr} (hc : c.prefixLen.toNat ≤ c.net.width) :
    (∀ k, c.prefixLen.toNat ≤ k → k < c.net.width → c.net.bit k = false) ↔
      2 ^ c.hostBits ∣ c.net.value := by
  rw [Nat.dvd_iff_mod_eq_zero]
  constructor
  · intro hclear
    apply Nat.eq_of_testBit_eq
    intro i
    rw [Nat.testBit_mod_two_pow, Nat.zero_testBit]
    by_cases hi : i < c.hostBits
    · have hbit := hclear (c.net.width - 1 - i) (by simp only [hostBits] at hi; omega)
        (by simp only [hostBits] at hi; omega)
      rw [IpAddr.bit, show c.net.width - 1 - (c.net.width - 1 - i) = i by
        simp only [hostBits] at hi
        omega] at hbit
      simp [hbit]
    · simp [hi]
  · intro hzero k hk hwidth
    have hbit := congrArg (Nat.testBit · (c.net.width - 1 - k)) hzero
    simp only [Nat.testBit_mod_two_pow, Nat.zero_testBit, Bool.and_eq_false_iff,
      decide_eq_false_iff_not, hostBits] at hbit
    exact hbit.resolve_left (by omega)

/-- Of the CIDRs of a range, only one has an address without bits beyond the
prefix. -/
theorem SameRange.eq {c d : Cidr} (h : c.SameRange d) (hc : c.prefixLen.toNat ≤ c.net.width)
    (hd : d.prefixLen.toNat ≤ d.net.width) (hcclear : 2 ^ c.hostBits ∣ c.net.value)
    (hdclear : 2 ^ d.hostBits ∣ d.net.value) : c = d := by
  obtain ⟨hfamily, hlen, hvalue⟩ := h.agree hc hd
  have hsize : c.hostBits = d.hostBits := Nat.le_antisymm h.hostBits_le h.symm.hostBits_le
  rw [← hsize] at hdclear
  have hnet : c.net = d.net := by
    apply IpAddr.eq_of_value hfamily
    rw [← Nat.div_mul_cancel hcclear, hvalue, Nat.div_mul_cancel hdclear]
  cases c
  cases d
  cases hnet
  cases hlen
  rfl

end Cidr

/-- The removed CIDRs are gone from the site's peer, and no others have come. -/
theorem Router.mem_removeCidrs {router : Router} (hunique : router.UniqueSites) {siteId : Int}
    {drop : List Cidr} {p : Peer} (hp : p ∈ (router.removeCidrs siteId drop).peers)
    (hsite : p.siteId = siteId) {c : Cidr} (hc : c ∈ p.cidrs) :
    c ∉ drop ∧ ∃ q ∈ router.peers, c ∈ q.cidrs := by
  subst hsite
  have hnext : (router.removeCidrs p.siteId drop).UniqueSites :=
    modifyPeer_unique hunique p.siteId fun _ => rfl
  have hafter := table_of_mem hnext hp
  rw [removeCidrs_table] at hafter
  simp only [Change.apply, Change.site, Function.update_self, Change.entry, table,
    Option.map_eq_some_iff] at hafter
  obtain ⟨old, ⟨q, hq, rfl⟩, hentry⟩ := hafter
  have hmem : c ∈ p.entry.cidrs := List.mem_toFinset.mpr hc
  rw [← hentry] at hmem
  obtain ⟨hold, hdrop⟩ := Finset.mem_sdiff.mp hmem
  exact ⟨fun hin => hdrop (List.mem_toFinset.mpr hin),
    q, (Keyed.mem_of_table hq).1, List.mem_toFinset.mp hold⟩

/-- CIDRs are compared, removed and sent to the kernel as ranges: equal ones are
those of the same range, a removal leaves none of a dropped range, and no route has
address bits beyond its prefix. -/
structure ComparedAsRanges (cidrs : List Cidr) : Prop where
  same : ∀ c ∈ cidrs, ∀ d ∈ cidrs, sameCidr c d = true ↔ c.SameRange d
  removed : ∀ router : Router, router.UniqueSites → (∀ p ∈ router.peers, p.cidrs ⊆ cidrs) →
    ∀ siteId drop, drop ⊆ cidrs → ∀ p ∈ (router.removeCidrs siteId drop).peers,
      p.siteId = siteId → ∀ c ∈ p.cidrs, ∀ d ∈ drop, ¬c.SameRange d
  clear : ∀ c ∈ cidrs, ∀ k, c.parts.2.toNat ≤ k → k < c.parts.1.width →
    c.parts.1.bit k = false

/-- The parsed CIDRs are compared as ranges exactly when each is written with the
first address of its range. -/
theorem comparedAsRanges_iff (texts : List String) :
    ComparedAsRanges (parseCidrs texts) ↔
      ∀ c ∈ parseCidrs texts, 2 ^ c.hostBits ∣ c.net.value := by
  have hlen : ∀ c ∈ parseCidrs texts, c.prefixLen.toNat ≤ c.net.width := by
    intro c hc
    obtain ⟨text, -, hparse⟩ := List.mem_filterMap.mp hc
    exact Cidr.prefixLen_le hparse
  constructor
  · intro hranges c hc
    exact (Cidr.clear_iff_dvd (hlen c hc)).mp (hranges.clear c hc)
  · intro hfirst
    have hequal : ∀ c ∈ parseCidrs texts, ∀ d ∈ parseCidrs texts, c.SameRange d → c = d :=
      fun c hc d hd hsame => hsame.eq (hlen c hc) (hlen d hd) (hfirst c hc) (hfirst d hd)
    refine ⟨?_, ?_, fun c hc => (Cidr.clear_iff_dvd (hlen c hc)).mpr (hfirst c hc)⟩
    · intro c hc d hd
      rw [sameCidr_iff]
      refine ⟨?_, hequal c hc d hd⟩
      rintro rfl
      exact fun _ => rfl
    · intro router hunique hcidrs siteId drop hdrop p hp hsite c hc d hd hsame
      obtain ⟨hkept, q, hq, hcq⟩ := router.mem_removeCidrs hunique hp hsite hc
      rw [hequal c (hcidrs q hq hcq) d (hdrop hd) hsame] at hkept
      exact hkept hd

/-- The same range written with and without a host address. -/
theorem host_address_not_range : ¬ComparedAsRanges (parseCidrs ["10.0.0.5/24", "10.0.0.0/24"]) := by
  have hparsed : parseCidrs ["10.0.0.5/24", "10.0.0.0/24"] =
      [⟨.v4 #v[10, 0, 0, 5], 24⟩, ⟨.v4 #v[10, 0, 0, 0], 24⟩] := by decide
  have hsame : Cidr.SameRange ⟨.v4 #v[10, 0, 0, 5], 24⟩ ⟨.v4 #v[10, 0, 0, 0], 24⟩ := by
    intro ip
    rw [Bool.eq_iff_iff, Cidr.contains_iff, Cidr.contains_iff]
    exact Iff.rfl
  intro hranges
  rw [hparsed] at hranges
  have hequal := (hranges.same _ List.mem_cons_self _
    (List.mem_cons_of_mem _ List.mem_cons_self)).mpr hsame
  exact absurd hequal (by decide)

end Olm

end Newt
