import Newt.Noise.Buffers

/-! # Messages on the wire

The parser reads back every message that the engine formats. The fields of a message
have fixed lengths, so each of them stands where the parser looks for it.
-/

namespace Newt.Noise

open Foundation

/-! ## Fields -/

theorem slice_skip {a : Bytes} {n i j : Nat} (hlength : a.length = n) (hskip : n ≤ i) (b : Bytes) :
    slice (a ++ b) i j = slice b (i - n) (j - n) := by
  subst hlength
  rw [slice, slice, List.drop_append, List.drop_eq_nil_of_le hskip, List.nil_append]
  congr 1
  omega

theorem slice_here {a : Bytes} {n : Nat} (hlength : a.length = n) (b : Bytes) :
    slice (a ++ b) 0 n = a := by
  subst hlength
  simp [slice]

@[simp]
theorem u32FromLe_leBytes (index : BitVec 32) : u32FromLe (leBytes 4 index.toNat) = index := by
  rw [u32FromLe, leNat_leBytes]
  apply BitVec.eq_of_toNat_eq
  have hindex := index.isLt
  rw [BitVec.toNat_ofNat]
  omega

/-- What an initiation is before its MACs. -/
def HandshakeInit.message (p : HandshakeInit) : Bytes :=
  leBytes 4 handshakeInit ++ leBytes 4 p.senderIdx.toNat ++ p.unencryptedEphemeral ++
    p.encryptedStatic ++ p.encryptedTimestamp

/-- What a response is before its MACs. -/
def HandshakeResponse.message (p : HandshakeResponse) : Bytes :=
  leBytes 4 handshakeResp ++ leBytes 4 p.senderIdx.toNat ++ leBytes 4 p.receiverIdx.toNat ++
    p.unencryptedEphemeral ++ p.encryptedNothing

/-- A data packet. -/
def PacketData.message (p : PacketData) : Bytes :=
  leBytes 4 data ++ leBytes 4 p.receiverIdx.toNat ++ leBytes 8 p.counter ++
    p.encryptedEncapsulatedPacket

/-! ## Messages -/

theorem parseIncomingPacket_handshakeInit (p : HandshakeInit) {macs : Bytes}
    (hephemeral : p.unencryptedEphemeral.length = 32) (hstatic : p.encryptedStatic.length = 48)
    (htimestamp : p.encryptedTimestamp.length = 28) (hmacs : macs.length = 32) :
    parseIncomingPacket (p.message ++ macs) = .ok (.handshakeInit p) := by
  have hlength : (p.message ++ macs).length = 148 := by
    simp [HandshakeInit.message, hephemeral, hstatic, htimestamp, hmacs]
  have htype := leBytes_length 4 handshakeInit
  have hindex := leBytes_length 4 p.senderIdx.toNat
  simp only [parseIncomingPacket, hlength]
  simp only [HandshakeInit.message, List.append_assoc]
  simp (disch := decide) only [slice_skip htype, slice_skip hindex, slice_skip hephemeral,
    slice_skip hstatic, slice_here htype, slice_here hindex, slice_here hephemeral,
    slice_here hstatic, slice_here htimestamp, Nat.reduceSub, u32FromLe_leBytes, leNat_leBytes]
  rfl

theorem parseIncomingPacket_handshakeResponse (p : HandshakeResponse) {macs : Bytes}
    (hephemeral : p.unencryptedEphemeral.length = 32) (hnothing : p.encryptedNothing.length = 16)
    (hmacs : macs.length = 32) :
    parseIncomingPacket (p.message ++ macs) = .ok (.handshakeResponse p) := by
  have hlength : (p.message ++ macs).length = 92 := by
    simp [HandshakeResponse.message, hephemeral, hnothing, hmacs]
  have htype := leBytes_length 4 handshakeResp
  have hsender := leBytes_length 4 p.senderIdx.toNat
  have hreceiver := leBytes_length 4 p.receiverIdx.toNat
  simp only [parseIncomingPacket, hlength]
  simp only [HandshakeResponse.message, List.append_assoc]
  simp (disch := decide) only [slice_skip htype, slice_skip hsender, slice_skip hreceiver,
    slice_skip hephemeral, slice_here htype, slice_here hsender, slice_here hreceiver,
    slice_here hephemeral, slice_here hnothing, Nat.reduceSub, u32FromLe_leBytes, leNat_leBytes]
  rfl

theorem parseIncomingPacket_packetData (p : PacketData) (hcounter : p.counter < 2 ^ 64)
    (htag : 16 ≤ p.encryptedEncapsulatedPacket.length) :
    parseIncomingPacket p.message = .ok (.packetData p) := by
  have hlength : p.message.length = 16 + p.encryptedEncapsulatedPacket.length := by
    simp only [PacketData.message, List.length_append, leBytes_length]
  have htype := leBytes_length 4 data
  have hindex := leBytes_length 4 p.receiverIdx.toNat
  have hnumber := leBytes_length 8 p.counter
  have hcontent : p.message.drop 16 = p.encryptedEncapsulatedPacket := by
    have hheader : (leBytes 4 data ++ leBytes 4 p.receiverIdx.toNat ++
        leBytes 8 p.counter).length = 16 := by simp
    rw [PacketData.message, List.drop_left' hheader]
  have hvalue : p.counter % 256 ^ 8 = p.counter := Nat.mod_eq_of_lt hcounter
  simp only [parseIncomingPacket, hcontent, hlength]
  simp only [PacketData.message, List.append_assoc]
  simp (disch := decide) only [slice_skip htype, slice_skip hindex, slice_here htype,
    slice_here hindex, slice_here hnumber, Nat.reduceSub, u32FromLe_leBytes, leNat_leBytes, hvalue]
  have hshort : ¬16 + p.encryptedEncapsulatedPacket.length < 4 := by omega
  have hlong : dataOverheadSz ≤ 16 + p.encryptedEncapsulatedPacket.length := by
    simp only [dataOverheadSz]
    omega
  simp [hshort, hlong, handshakeInit, handshakeResp, cookieReply, data]

end Newt.Noise
