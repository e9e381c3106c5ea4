import Newt.Foundation.Bytes

/-! # Attribute lists

Attributes are records with a header of four bytes, the length of header and data
and a type, in either byte order. Each one is padded to a multiple of four bytes.
Walking through a buffer of encoded attributes gives them back.
-/

namespace Foundation

inductive ByteOrder where
  | little
  | big
  deriving DecidableEq, Repr

namespace ByteOrder

/-- The `width` low bytes of a number. -/
def bytes : ByteOrder → Nat → Nat → List UInt8
  | little => leBytes
  | big => beBytes

/-- The value of a byte string. -/
def nat : ByteOrder → List UInt8 → Nat
  | little => leNat
  | big => beNat

variable (order : ByteOrder) (width value : Nat)

@[simp]
theorem bytes_length : (order.bytes width value).length = width := by
  cases order with
  | little => exact leBytes_length width value
  | big => exact beBytes_length width value

theorem nat_bytes : order.nat (order.bytes width value) = value % 256 ^ width := by
  cases order with
  | little => exact leNat_leBytes width value
  | big => exact beNat_beBytes width value

end ByteOrder

structure Attribute where
  kind : UInt16
  data : List UInt8
  deriving DecidableEq, Repr

namespace Attribute

/-- The next multiple of four. -/
def align (n : Nat) : Nat := (n + 3) / 4 * 4

/-- The length of header and data. -/
def size (attr : Attribute) : Nat := 4 + attr.data.length

def encode (order : ByteOrder) (attr : Attribute) : List UInt8 :=
  order.bytes 2 attr.size ++ order.bytes 2 attr.kind.toNat ++ attr.data ++
    List.replicate (align attr.size - attr.size) 0

/-- Read attributes to the end of the buffer. A length that is smaller than the
header or leads beyond the end is refused. -/
def walk (order : ByteOrder) (buf : List UInt8) : Option (List Attribute) :=
  if buf = [] then some []
  else
    let size := order.nat (buf.take 2)
    if 4 ≤ size ∧ align size ≤ buf.length then
      let attr := ⟨UInt16.ofNat (order.nat ((buf.drop 2).take 2)), (buf.take size).drop 4⟩
      (walk order (buf.drop (align size))).map (attr :: ·)
    else none
termination_by buf.length
decreasing_by
  have hpos := List.length_pos_of_ne_nil ‹buf ≠ []›
  simp only [align, List.length_drop]
  omega

variable (order : ByteOrder)

@[simp]
theorem encode_length (attr : Attribute) : (attr.encode order).length = align attr.size := by
  simp only [encode, List.length_append, ByteOrder.bytes_length, List.length_replicate, align, size]
  omega

@[simp]
theorem walk_nil : walk order [] = some [] := by
  rw [walk, if_pos rfl]

/-- One attribute is read, and the walk goes on behind its padding. -/
theorem walk_encode_append {attr : Attribute} (hsize : attr.size < 65536) (rest : List UInt8) :
    walk order (attr.encode order ++ rest) = (walk order rest).map (attr :: ·) := by
  have hlength : order.nat ((attr.encode order ++ rest).take 2) = attr.size := by
    simp [encode, ByteOrder.nat_bytes]
    omega
  have hkind : order.nat (((attr.encode order ++ rest).drop 2).take 2) = attr.kind.toNat := by
    simp [encode, ByteOrder.nat_bytes]
  have hdata : ((attr.encode order ++ rest).take attr.size).drop 4 = attr.data := by
    have hheader : (order.bytes 2 attr.size ++ order.bytes 2 attr.kind.toNat).length = 4 := by simp
    rw [encode, List.append_assoc _ _ rest, List.take_left', List.drop_left' hheader]
    rw [List.length_append, hheader, size]
  have hpadded : attr.encode order ++ rest ≠ [] := by
    intro hnil
    have hzero := congrArg List.length hnil
    simp only [List.length_append, encode_length, align, size, List.length_nil] at hzero
    omega
  rw [walk, if_neg hpadded]
  simp only [hlength, hkind, hdata]
  rw [if_pos, List.drop_left' (encode_length order attr)]
  · simp
  · simp [size]

theorem flatMap_encode_aligned (attrs : List Attribute) :
    (attrs.flatMap (encode order)).length % 4 = 0 := by
  induction attrs with
  | nil => rfl
  | cons attr rest ih =>
      rw [List.flatMap_cons, List.length_append, encode_length, align]
      omega

/-- Walking through encoded attributes gives them back. -/
theorem walk_flatMap_encode {attrs : List Attribute} (hsize : ∀ attr ∈ attrs, attr.size < 65536) :
    walk order (attrs.flatMap (encode order)) = some attrs := by
  induction attrs with
  | nil => simp
  | cons attr rest ih =>
      rw [List.flatMap_cons, walk_encode_append order (hsize attr List.mem_cons_self),
        ih fun other hother => hsize other (List.mem_cons_of_mem _ hother)]
      rfl

end Attribute

end Foundation
