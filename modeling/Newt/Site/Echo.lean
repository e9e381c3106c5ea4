import Newt.Core.Addr
import Newt.Foundation.Bytes
import Newt.Foundation.OnesComplement

/-! # The keepalive ping of a site

The ICMP echo request that keeps the tunnel in use, and the Internet checksum of
its two headers. A checksum that is written into the zero bytes it was computed
over makes the sum of all words a string of ones, so that the receiver computes
zero.
-/

namespace Newt.Site

open Foundation OnesComplement

/-- An addition to the sum, unless it overflows. -/
def addU32 (sum word : UInt32) : Option UInt32 :=
  if sum.toNat + word.toNat < 2 ^ 32 then some (sum + word) else none

/-- Add the big-endian words of a byte string. A last byte without a partner is
the high byte of a word. -/
def addWords : UInt32 → List UInt8 → Option UInt32
  | sum, a :: b :: rest => do addWords (← addU32 sum (UInt32.ofNat (beNat [a, b]))) rest
  | sum, [last] => addU32 sum (last.toUInt32 <<< 8)
  | sum, [] => some sum

theorem toNat_shiftRight_sixteen (sum : UInt32) : (sum >>> 16).toNat = sum.toNat / 65536 := by
  rw [UInt32.toNat_shiftRight, Nat.shiftRight_eq_div_pow]
  rfl

theorem toNat_foldOnce (sum : UInt32) :
    ((sum &&& (0xffff : UInt32)) + (sum >>> 16)).toNat = fold 65536 sum.toNat := by
  have hlow : (sum &&& (0xffff : UInt32)).toNat = sum.toNat % 65536 := by
    rw [UInt32.toNat_and]
    exact Nat.and_two_pow_sub_one_eq_mod _ 16
  have hlt := sum.toNat_lt
  rw [UInt32.toNat_add, hlow, toNat_shiftRight_sixteen, fold, Nat.mod_eq_of_lt (by omega)]

/-- A carry is left exactly if the sum is beyond one word. -/
theorem shiftRight_sixteen_ne_zero_iff (sum : UInt32) : sum >>> 16 ≠ 0 ↔ 65536 ≤ sum.toNat := by
  rw [ne_eq, ← UInt32.toNat_inj, toNat_shiftRight_sixteen, UInt32.toNat_zero]
  omega

/-- The carries are folded into the low word until none is left. -/
def foldCarries (sum : UInt32) : UInt32 :=
  if sum >>> 16 ≠ 0 then foldCarries ((sum &&& (0xffff : UInt32)) + (sum >>> 16)) else sum
termination_by sum.toNat
decreasing_by
  rw [toNat_foldOnce]
  exact fold_lt (by decide) ((shiftRight_sixteen_ne_zero_iff sum).mp ‹_›)

/-- Internet checksum, unless the sum overflows. -/
def checksum (data : List UInt8) : Option UInt16 := do
  let sum ← addWords 0 data
  return ~~~(foldCarries sum).toUInt16

/-- `data[offset..offset + 2].copy_from_slice(bytes)` for two bytes. -/
def copyTwo (data : List UInt8) (offset : Nat) (value : UInt16) : List UInt8 :=
  data.take offset ++ beBytes 2 value.toNat ++ data.drop (offset + 2)

/-- `b"newtping"` -/
def payload : List UInt8 := "newtping".toList.map Char.toUInt8

/-- Type echo request, code 0, and zeros for the checksum. -/
def echoMessage (ident seq : UInt16) : List UInt8 :=
  [8, 0, 0, 0] ++ beBytes 2 ident.toNat ++ beBytes 2 seq.toNat ++ payload

/-- A header of five words with DF set, TTL 64, protocol ICMP, and zeros for the
checksum. -/
def ipv4Header (total : Nat) (src dst : Ipv4Addr) : List UInt8 :=
  [0x45, 0x00] ++ beBytes 2 total ++ [0, 0, 0x40, 0x00] ++ [64, 1, 0, 0] ++ src.toList ++ dst.toList

/-- Build an IPv4 ICMP echo request packet. -/
def icmpEcho (src dst : Ipv4Addr) (ident seq : UInt16) : Option (List UInt8) := do
  let icmp := echoMessage ident seq
  let c ← checksum icmp
  let icmp := copyTwo icmp 2 c
  let total := 20 + icmp.length
  let ip := ipv4Header total src dst
  let c ← checksum ip
  let ip := copyTwo ip 10 c
  return ip ++ icmp

/-! ## The sum of the words -/

theorem toNat_foldCarries (sum : UInt32) :
    (foldCarries sum).toNat = residue 65536 sum.toNat := by
  fun_induction foldCarries sum with
  | case1 sum _ ih => rw [ih, toNat_foldOnce, residue_fold (by decide)]
  | case2 sum hdone =>
      rw [shiftRight_sixteen_ne_zero_iff] at hdone
      exact (residue_of_lt (Nat.lt_of_not_le hdone)).symm

/-- The sum of the words without a bound. -/
def wordSum : List UInt8 → Nat
  | a :: b :: rest => beNat [a, b] + wordSum rest
  | [last] => last.toNat * 256
  | [] => 0

theorem beNat_pair (a b : UInt8) : beNat [a, b] = a.toNat * 256 + b.toNat := by simp [beNat]

theorem wordSum_le (data : List UInt8) : wordSum data ≤ 65535 * ((data.length + 1) / 2) := by
  fun_induction wordSum data with
  | case1 a b rest ih =>
      have ha := a.toNat_lt
      have hb := b.toNat_lt
      rw [beNat_pair, List.length_cons, List.length_cons]
      omega
  | case2 last =>
      have hlast := last.toNat_lt
      rw [List.length_singleton]
      omega
  | case3 => exact Nat.zero_le _

theorem addU32_eq {sum word : UInt32} (hsum : sum.toNat + word.toNat < 2 ^ 32) :
    ∃ total, addU32 sum word = some total ∧ total.toNat = sum.toNat + word.toNat := by
  refine ⟨sum + word, if_pos hsum, ?_⟩
  rw [UInt32.toNat_add, Nat.mod_eq_of_lt hsum]

theorem addWords_eq {sum : UInt32} {data : List UInt8}
    (hsum : sum.toNat + wordSum data < 2 ^ 32) :
    ∃ total, addWords sum data = some total ∧ total.toNat = sum.toNat + wordSum data := by
  fun_induction addWords sum data with
  | case1 sum a b rest ih =>
      have hword : (UInt32.ofNat (beNat [a, b])).toNat = beNat [a, b] := by
        have hlt := beNat_lt [a, b]
        rw [UInt32.toNat_ofNat', Nat.mod_eq_of_lt (by simp at hlt; omega)]
      generalize UInt32.ofNat (beNat [a, b]) = word at hword ⊢
      rw [wordSum, ← Nat.add_assoc, ← hword] at hsum ⊢
      obtain ⟨next, hnext, htotal⟩ := addU32_eq (Nat.lt_of_le_of_lt (Nat.le_add_right _ _) hsum)
      rw [← htotal] at hsum ⊢
      rw [hnext]
      exact ih next hsum
  | case2 sum last =>
      have hword : (last.toUInt32 <<< 8).toNat = last.toNat * 256 := by
        have hlt := last.toNat_lt
        rw [UInt32.toNat_shiftLeft, Nat.shiftLeft_eq, UInt8.toNat_toUInt32]
        exact Nat.mod_eq_of_lt (show last.toNat * 256 < 2 ^ 32 by omega)
      rw [wordSum, ← hword] at hsum ⊢
      exact addU32_eq hsum
  | case3 sum => exact ⟨sum, rfl, rfl⟩

/-- Without an overflow the checksum is the complement of what the sum of the words
leaves. -/
theorem checksum_eq {data : List UInt8} (hlength : data.length ≤ 131072) :
    ∃ c, checksum data = some c ∧ c.toNat = 65535 - residue 65536 (wordSum data) := by
  have hbound := wordSum_le data
  obtain ⟨total, htotal, hsum⟩ := addWords_eq (show (0 : UInt32).toNat + wordSum data < 2 ^ 32 by
    rw [UInt32.toNat_zero]
    omega)
  rw [UInt32.toNat_zero, Nat.zero_add] at hsum
  have hlow : (foldCarries total).toUInt16.toNat = residue 65536 (wordSum data) := by
    rw [UInt32.toNat_toUInt16, toNat_foldCarries, hsum]
    exact Nat.mod_eq_of_lt (residue_lt (by decide))
  refine ⟨~~~(foldCarries total).toUInt16, by rw [checksum, htotal]; rfl, ?_⟩
  rw [UInt16.toNat_not, hlow]
  rfl

theorem wordSum_append {front : List UInt8} (heven : front.length % 2 = 0) (back : List UInt8) :
    wordSum (front ++ back) = wordSum front + wordSum back := by
  fun_induction wordSum front with
  | case1 a b rest ih =>
      simp only [List.length_cons] at heven
      rw [List.cons_append, List.cons_append, wordSum, ih (by omega), Nat.add_assoc]
  | case2 last => simp at heven
  | case3 => simp

/-- The checksum in the place of two zero bytes is added to the sum. -/
theorem wordSum_copyTwo {front back : List UInt8} (heven : front.length % 2 = 0) (value : UInt16) :
    wordSum (copyTwo (front ++ 0 :: 0 :: back) front.length value) =
      wordSum (front ++ 0 :: 0 :: back) + value.toNat := by
  have hcopy : copyTwo (front ++ 0 :: 0 :: back) front.length value =
      front ++ (beBytes 2 value.toNat ++ back) := by
    simp [copyTwo, List.drop_append]
  have hvalue := beNat_beBytes 2 value.toNat
  have hlt := value.toNat_lt
  obtain ⟨high, low, hbytes⟩ : ∃ high low, beBytes 2 value.toNat = [high, low] := ⟨_, _, rfl⟩
  rw [hbytes, Nat.mod_eq_of_lt (by omega)] at hvalue
  rw [hcopy, wordSum_append heven, wordSum_append heven, hbytes, List.cons_append,
    List.singleton_append, wordSum, hvalue, wordSum]
  simp [beNat]
  omega

/-- The ones' complement sum of the words. A receiver accepts what has the sum of
all ones. -/
def onesSum (data : List UInt8) : Nat := residue 65536 (wordSum data)

/-- The checksum in the place of two zero bytes makes the sum all ones. -/
theorem onesSum_copyTwo {front back : List UInt8} (heven : front.length % 2 = 0)
    (hlength : (front ++ 0 :: 0 :: back).length ≤ 131072) {c : UInt16}
    (hc : checksum (front ++ 0 :: 0 :: back) = some c) :
    onesSum (copyTwo (front ++ 0 :: 0 :: back) front.length c) = 0xffff := by
  obtain ⟨value, hvalue, hresidue⟩ := checksum_eq hlength
  obtain rfl : value = c := Option.some.inj (hvalue.symm.trans hc)
  rw [onesSum, wordSum_copyTwo heven, hresidue]
  exact residue_add_complement (by decide)

/-- What sums to all ones has the checksum zero. -/
theorem checksum_of_onesSum {data : List UInt8} (hlength : data.length ≤ 131072)
    (hones : onesSum data = 0xffff) : checksum data = some 0 := by
  obtain ⟨c, hc, hresidue⟩ := checksum_eq hlength
  rw [onesSum] at hones
  rw [hones] at hresidue
  obtain rfl : c = 0 := UInt16.toNat_inj.mp hresidue
  exact hc

theorem eq_append_of_zeros {data : List UInt8} {offset : Nat} (hfirst : data[offset]? = some 0)
    (hsecond : data[offset + 1]? = some 0) :
    data = data.take offset ++ 0 :: 0 :: data.drop (offset + 2) := by
  obtain ⟨hlt, hfirst⟩ := List.getElem?_eq_some_iff.mp hfirst
  obtain ⟨hlt', hsecond⟩ := List.getElem?_eq_some_iff.mp hsecond
  calc data = data.take offset ++ data.drop offset := (List.take_append_drop offset data).symm
    _ = _ := by rw [List.drop_eq_getElem_cons hlt, List.drop_eq_getElem_cons hlt', hfirst, hsecond]

/-- The length of the IPv4 header in its first byte. -/
def headerLength (packet : List UInt8) : Nat := 4 * ((packet.getD 0 0).toNat % 16)

/-- Both checksums of an ICMP packet verify, and its length is the one it states. -/
structure Verifies (packet : List UInt8) : Prop where
  totalLength : beNat ((packet.drop 2).take 2) = packet.length
  header : onesSum (packet.take (headerLength packet)) = 0xffff
  message : onesSum (packet.drop (headerLength packet)) = 0xffff

/-- The packet asks `dst` for an echo to `src` with this identifier and number. -/
structure Asks (src dst : Ipv4Addr) (ident seq : UInt16) (packet : List UInt8) : Prop where
  addresses : (packet.drop 12).take 8 = src.toList ++ dst.toList
  request : (packet.drop 20).take 2 = [8, 0]
  ident : beNat ((packet.drop 24).take 2) = ident.toNat
  seq : beNat ((packet.drop 26).take 2) = seq.toNat

theorem copyTwo_length {data : List UInt8} {offset : Nat} (hin : offset + 2 ≤ data.length)
    (value : UInt16) : (copyTwo data offset value).length = data.length := by
  simp only [copyTwo, List.length_append, List.length_take, List.length_drop, beBytes_length]
  omega

theorem copyTwo_drop {data : List UInt8} {offset : Nat} (hin : offset + 2 ≤ data.length)
    (value : UInt16) : (copyTwo data offset value).drop (offset + 2) = data.drop (offset + 2) := by
  have hfront : (data.take offset ++ beBytes 2 value.toNat).length = offset + 2 := by
    simp only [List.length_append, List.length_take, beBytes_length]
    omega
  exact List.drop_left' hfront

theorem echoMessage_length (ident seq : UInt16) : (echoMessage ident seq).length = 16 := by
  simp only [echoMessage, List.length_append, beBytes_length]
  rfl

theorem ipv4Header_length (total : Nat) (src dst : Ipv4Addr) :
    (ipv4Header total src dst).length = 20 := by
  simp [ipv4Header]

theorem checksum_message (ident seq : UInt16) :
    ∃ c, checksum (echoMessage ident seq) = some c ∧
      onesSum (copyTwo (echoMessage ident seq) 2 c) = 0xffff := by
  have hsplit : echoMessage ident seq =
      [8, 0] ++ 0 :: 0 :: (beBytes 2 ident.toNat ++ beBytes 2 seq.toNat ++ payload) := rfl
  have hlength : (echoMessage ident seq).length ≤ 131072 := by simp [echoMessage_length]
  obtain ⟨c, hc, -⟩ := checksum_eq hlength
  rw [hsplit] at hlength hc ⊢
  exact ⟨c, hc, onesSum_copyTwo (show [8, 0].length % 2 = 0 by decide) hlength hc⟩

theorem checksum_header (total : Nat) (src dst : Ipv4Addr) :
    ∃ c, checksum (ipv4Header total src dst) = some c ∧
      onesSum (copyTwo (ipv4Header total src dst) 10 c) = 0xffff := by
  have hsplit : ipv4Header total src dst =
      ([0x45, 0x00] ++ beBytes 2 total ++ [0, 0, 0x40, 0x00, 64, 1]) ++
        0 :: 0 :: (src.toList ++ dst.toList) := by
    simp [ipv4Header]
  have hlength : (ipv4Header total src dst).length ≤ 131072 := by simp [ipv4Header_length]
  obtain ⟨c, hc, -⟩ := checksum_eq hlength
  rw [hsplit] at hlength hc ⊢
  exact ⟨c, hc, onesSum_copyTwo (by simp) hlength hc⟩

theorem icmpEcho_verifies (src dst : Ipv4Addr) (ident seq : UInt16) :
    ∃ packet, icmpEcho src dst ident seq = some packet ∧ Verifies packet ∧
      Asks src dst ident seq packet := by
  obtain ⟨c, hc, hmessage⟩ := checksum_message ident seq
  have hicmp : (copyTwo (echoMessage ident seq) 2 c).length = 16 := by
    rw [copyTwo_length (by simp [echoMessage_length]), echoMessage_length]
  obtain ⟨d, hd, hheader⟩ := checksum_header 36 src dst
  have hip : (copyTwo (ipv4Header 36 src dst) 10 d).length = 20 := by
    rw [copyTwo_length (by simp [ipv4Header_length]), ipv4Header_length]
  refine ⟨copyTwo (ipv4Header 36 src dst) 10 d ++ copyTwo (echoMessage ident seq) 2 c, ?_, ?_, ?_⟩
  · simp only [icmpEcho, hc, hicmp, bind, Option.bind, hd]
    rfl
  · have hfirst : headerLength (copyTwo (ipv4Header 36 src dst) 10 d ++
        copyTwo (echoMessage ident seq) 2 c) = 20 := by
      simp [headerLength, copyTwo, ipv4Header]
    constructor
    · rw [List.length_append, hip, hicmp]
      rfl
    · rw [hfirst, List.take_left' hip]
      exact hheader
    · rw [hfirst, List.drop_left' hip]
      exact hmessage
  · have haddresses : (copyTwo (ipv4Header 36 src dst) 10 d).drop 12 = src.toList ++ dst.toList :=
      copyTwo_drop (by simp [ipv4Header_length]) d
    have hnumbers : (copyTwo (echoMessage ident seq) 2 c).drop 4 =
        beBytes 2 ident.toNat ++ (beBytes 2 seq.toNat ++ payload) :=
      (copyTwo_drop (by simp [echoMessage_length]) c).trans (List.append_assoc _ _ _)
    constructor
    · rw [List.drop_append_of_le_length (by simp [hip]), haddresses, List.take_left' (by simp)]
    · rw [List.drop_left' hip]
      rfl
    · rw [show 24 = 20 + 4 from rfl, ← List.drop_drop, List.drop_left' hip, hnumbers]
      simp [beNat_beBytes]
    · rw [show 26 = 20 + (4 + 2) from rfl, ← List.drop_drop, List.drop_left' hip,
        ← List.drop_drop, hnumbers]
      simp [beNat_beBytes]

/-- The checksum of a byte string of at most 128 KiB does not overflow. It is the
complement of the ones' complement sum, and it verifies where it replaces two zero
bytes. An echo request carries two checksums of this kind. -/
theorem checksum_verifies :
    (∀ data : List UInt8, data.length ≤ 131072 →
      ∃ c, checksum data = some c ∧ c.toNat = 0xffff - onesSum data ∧
        ∀ offset, offset % 2 = 0 → data[offset]? = some 0 → data[offset + 1]? = some 0 →
          ∃ written, written = data.take offset ++ beBytes 2 c.toNat ++ data.drop (offset + 2) ∧
            checksum written = some 0 ∧ onesSum written = 0xffff) ∧
      ∀ src dst ident seq, ∃ packet, icmpEcho src dst ident seq = some packet ∧
        Verifies packet ∧ Asks src dst ident seq packet := by
  refine ⟨?_, icmpEcho_verifies⟩
  intro data hlength
  obtain ⟨c, hc, hresidue⟩ := checksum_eq hlength
  refine ⟨c, hc, hresidue, ?_⟩
  intro offset heven hfirst hsecond
  have hsplit := eq_append_of_zeros hfirst hsecond
  have hlt := (List.getElem?_eq_some_iff.mp hsecond).1
  have hfront : (data.take offset).length = offset := by
    rw [List.length_take]
    omega
  have hones : onesSum (copyTwo data offset c) = 0xffff := by
    rw [hsplit] at hlength hc
    have hones := onesSum_copyTwo (by rw [hfront]; exact heven) hlength hc
    rwa [hfront, ← hsplit] at hones
  have hsize : (copyTwo data offset c).length ≤ 131072 := by
    rw [copyTwo_length (by omega)]
    exact hlength
  exact ⟨copyTwo data offset c, rfl, checksum_of_onesSum hsize hones, hones⟩

/-- A byte string of odd length with room for a checksum in its middle. The words
0x0102 and 0x0500 have the sum 0x0602. -/
theorem checksum_verifies_five_bytes :
    checksum [1, 2, 0, 0, 5] = some 0xf9fd ∧ checksum [1, 2, 0xf9, 0xfd, 5] = some 0 ∧
      onesSum [1, 2, 0xf9, 0xfd, 5] = 0xffff := by
  obtain ⟨c, hc, hvalue, hverifies⟩ := checksum_verifies.1 [1, 2, 0, 0, 5] (by decide)
  obtain rfl : c = 0xf9fd := UInt16.toNat_inj.mp hvalue
  obtain ⟨written, hwritten, hzero, hones⟩ := hverifies 2 (by decide) rfl rfl
  obtain rfl : written = [1, 2, 0xf9, 0xfd, 5] := hwritten
  exact ⟨hc, hzero, hones⟩

end Newt.Site
