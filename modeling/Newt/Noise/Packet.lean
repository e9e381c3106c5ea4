import Newt.Core.Addr
import Newt.Foundation.Bytes

/-! # WireGuard datagrams

The message formats of the vendored engine and the parser every datagram goes
through before any cryptographic check.
-/

namespace Newt.Noise

open Foundation

abbrev Bytes := List UInt8

/-- The bytes at positions `start` to `stop` (exclusive). -/
def slice (bytes : Bytes) (start stop : Nat) : Bytes := (bytes.drop start).take (stop - start)

/-- A `u32` in little-endian order. -/
def u32FromLe (bytes : Bytes) : BitVec 32 := BitVec.ofNat 32 (leNat bytes)

inductive WireGuardError where
  | destinationBufferTooSmall
  | incorrectPacketLength
  | unexpectedPacket
  | wrongPacketType
  | wrongIndex
  | wrongKey
  | invalidTai64nTimestamp
  | wrongTai64nTimestamp
  | invalidMac
  | invalidAeadTag
  | invalidCounter
  | duplicateCounter
  | invalidPacket
  | noCurrentSession
  | lockFailed
  | connectionExpired
  | underLoad
  deriving DecidableEq, Repr

/-- The panics of the engine. The release build aborts on them. -/
inductive Panic where
  | destinationBufferTooSmall
  | unexpectedSendHandshakeResponse
  deriving DecidableEq, Repr

def handshakeInit : Nat := 1
def handshakeResp : Nat := 2
def cookieReply : Nat := 3
def data : Nat := 4

def handshakeInitSz : Nat := 148
def handshakeRespSz : Nat := 92
def cookieReplySz : Nat := 64
def dataOverheadSz : Nat := 32

structure HandshakeInit where
  senderIdx : BitVec 32
  unencryptedEphemeral : Bytes
  encryptedStatic : Bytes
  encryptedTimestamp : Bytes
  deriving DecidableEq, Repr

structure HandshakeResponse where
  senderIdx : BitVec 32
  receiverIdx : BitVec 32
  unencryptedEphemeral : Bytes
  encryptedNothing : Bytes
  deriving DecidableEq, Repr

structure PacketCookieReply where
  receiverIdx : BitVec 32
  nonce : Bytes
  encryptedCookie : Bytes
  deriving DecidableEq, Repr

structure PacketData where
  receiverIdx : BitVec 32
  counter : Nat
  encryptedEncapsulatedPacket : Bytes
  deriving DecidableEq, Repr

/-- A packet from the network. -/
inductive Packet where
  | handshakeInit (packet : HandshakeInit)
  | handshakeResponse (packet : HandshakeResponse)
  | packetCookieReply (packet : PacketCookieReply)
  | packetData (packet : PacketData)
  deriving DecidableEq, Repr

/-- The index of ours that a packet is addressed to. Initiations carry none. -/
def Packet.receiverIdx : Packet → Option (BitVec 32)
  | .handshakeInit _ => none
  | .handshakeResponse packet => some packet.receiverIdx
  | .packetCookieReply packet => some packet.receiverIdx
  | .packetData packet => some packet.receiverIdx

/-- `Tunn::parse_incoming_packet`. The type is read from four bytes, so the
three reserved bytes have to be zero. -/
def parseIncomingPacket (src : Bytes) : Except WireGuardError Packet :=
  if src.length < 4 then .error .invalidPacket
  else
    let packetType := leNat (slice src 0 4)
    if packetType = handshakeInit ∧ src.length = handshakeInitSz then
      .ok (.handshakeInit ⟨u32FromLe (slice src 4 8), slice src 8 40, slice src 40 88,
        slice src 88 116⟩)
    else if packetType = handshakeResp ∧ src.length = handshakeRespSz then
      .ok (.handshakeResponse ⟨u32FromLe (slice src 4 8), u32FromLe (slice src 8 12),
        slice src 12 44, slice src 44 60⟩)
    else if packetType = cookieReply ∧ src.length = cookieReplySz then
      .ok (.packetCookieReply ⟨u32FromLe (slice src 4 8), slice src 8 32, slice src 32 64⟩)
    else if packetType = data ∧ dataOverheadSz ≤ src.length then
      .ok (.packetData ⟨u32FromLe (slice src 4 8), leNat (slice src 8 16), src.drop 16⟩)
    else .error .invalidPacket

end Newt.Noise
