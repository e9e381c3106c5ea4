import Newt.Noise.Buffers

/-! # What the tunnel delivers

A packet for the host is the content of a data packet that a session of the
tunnel decrypts, cut to the length in its IP header. Nothing else of the header
is looked at, and no other operation delivers packets.
-/

namespace Newt.Noise

open Foundation

/-- The packet for the host in a result. -/
def TunnResult.packet? : TunnResult → Option Bytes
  | .writeToTunnelV4 packet _ | .writeToTunnelV6 packet _ => some packet
  | _ => none

/-- The length in the header of a bare IPv4 or IPv6 packet. -/
def ipLength (packet : Bytes) : Option Nat :=
  if packet.getD 0 0 >>> 4 = 4 ∧ ipv4MinHeaderSize ≤ packet.length then
    some (beNat (slice packet 2 4))
  else if packet.getD 0 0 >>> 4 = 6 ∧ ipv6MinHeaderSize ≤ packet.length then
    some (beNat (slice packet 4 6) + ipv6MinHeaderSize)
  else none

/-- A session of the tunnel decrypts the datagram, and `packet` is its content up
to the length in the header. -/
def Tunn.Decrypts (P : Primitives) (t : Tunn) (datagram packet : Bytes) : Prop :=
  ∃ data session plaintext length,
    parseIncomingPacket datagram = .ok (.packetData data) ∧
    t.sessions (slot data.receiverIdx.toNat) = some session ∧
    session.receivingIndex = data.receiverIdx ∧
    P.aeadChacha20Open session.receiver data.counter data.encryptedEncapsulatedPacket [] =
      .ok plaintext ∧
    ipLength plaintext = some length ∧ length ≤ plaintext.length ∧ packet = plaintext.take length

theorem Session.receivePacketData_opens {P : Primitives} {session next : Session}
    {packet : PacketData} {dstLen : Nat} {plaintext : Bytes}
    (hreceive : session.receivePacketData P packet dstLen = .ok (next, .ok plaintext)) :
    session.receivingIndex = packet.receiverIdx ∧
      P.aeadChacha20Open session.receiver packet.counter packet.encryptedEncapsulatedPacket [] =
        .ok plaintext := by
  simp only [receivePacketData] at hreceive
  split_ifs at hreceive with _ hindex
  · cases hreceive
  · split at hreceive
    · cases hreceive
    · split at hreceive
      · cases hreceive
      · next hopen =>
          split at hreceive
          · cases hreceive
          · cases hreceive
            exact ⟨(not_not.mp hindex).symm, hopen⟩

namespace Tunn

variable {P : Primitives} {m : Moment} {t next : Tunn} {dstLen : Nat} {result : TunnResult}
  {packet : Bytes}

theorem validateDecapsulatedPacket_packet {content : Bytes}
    (hvalid : (t.validateDecapsulatedPacket content).2.packet? = some packet) :
    ∃ length, ipLength content = some length ∧ length ≤ content.length ∧
      packet = content.take length := by
  simp only [validateDecapsulatedPacket] at hvalid
  simp only [ipLength]
  split_ifs at hvalid with hempty hv4 hshort hv6 hshort
  · cases hvalid
  · cases hvalid
  · cases hvalid
    exact ⟨_, if_pos hv4, Nat.not_lt.mp hshort, rfl⟩
  · cases hvalid
  · cases hvalid
    exact ⟨_, by rw [if_neg hv4, if_pos hv6], Nat.not_lt.mp hshort, rfl⟩
  · cases hvalid

theorem formatHandshakeInitiation_packet (forceResend : Bool) :
    (t.formatHandshakeInitiation P m dstLen forceResend).2.packet? = none := by
  simp only [formatHandshakeInitiation]
  split
  · rfl
  · split <;> rfl

theorem encapsulate_packet {src : Bytes}
    (hencapsulate : t.encapsulate P m src dstLen = .ok (next, result)) :
    result.packet? = none := by
  simp only [encapsulate] at hencapsulate
  split at hencapsulate
  · split at hencapsulate
    · cases hencapsulate
    · cases hencapsulate
      rfl
  · rw [Except.ok.injEq] at hencapsulate
    have hinitiation : (formatHandshakeInitiation P m (t.queuePacket src) dstLen false).2.packet? =
      none := formatHandshakeInitiation_packet false
    rwa [hencapsulate] at hinitiation

theorem sendQueuedPacket_packet (hsend : t.sendQueuedPacket P m dstLen = .ok (next, result)) :
    result.packet? = none := by
  simp only [sendQueuedPacket] at hsend
  split at hsend
  · cases hsend
    rfl
  · split at hsend
    · cases hsend
    · cases hsend
      rfl
    · next hencapsulate =>
        cases hsend
        exact encapsulate_packet hencapsulate

theorem handleHandshakeInit_packet {p : HandshakeInit}
    (hhandle : t.handleHandshakeInit P m p dstLen = .ok (next, result)) :
    result.packet? = none := by
  simp only [handleHandshakeInit] at hhandle
  split at hhandle <;> cases hhandle <;> rfl

theorem handleHandshakeResponse_packet {p : HandshakeResponse}
    (hhandle : t.handleHandshakeResponse P m p dstLen = .ok (next, result)) :
    result.packet? = none := by
  simp only [handleHandshakeResponse] at hhandle
  split at hhandle
  · cases hhandle
    rfl
  · split at hhandle <;> cases hhandle
    rfl

theorem handleCookieReply_packet {p : PacketCookieReply}
    (hhandle : t.handleCookieReply P p = (next, result)) : result.packet? = none := by
  simp only [handleCookieReply] at hhandle
  split at hhandle <;> cases hhandle <;> rfl

theorem handleData_packet {data : PacketData}
    (hhandle : t.handleData P data dstLen = .ok (next, result))
    (hpacket : result.packet? = some packet) :
    ∃ session plaintext length, t.sessions (slot data.receiverIdx.toNat) = some session ∧
      session.receivingIndex = data.receiverIdx ∧
      P.aeadChacha20Open session.receiver data.counter data.encryptedEncapsulatedPacket [] =
        .ok plaintext ∧
      ipLength plaintext = some length ∧ length ≤ plaintext.length ∧
      packet = plaintext.take length := by
  simp only [handleData] at hhandle
  split at hhandle
  · cases hhandle
    cases hpacket
  · next session hsession =>
      split at hhandle
      · cases hhandle
      · cases hhandle
        cases hpacket
      · next hreceive =>
          rw [Except.ok.injEq] at hhandle
          obtain ⟨hindex, hopen⟩ := Session.receivePacketData_opens hreceive
          obtain ⟨length, hlength, hle, htake⟩ :=
            validateDecapsulatedPacket_packet (by rw [hhandle]; exact hpacket)
          exact ⟨session, _, length, hsession, hindex, hopen, hlength, hle, htake⟩

/-- A packet for the host was decrypted by a session of the tunnel. -/
theorem decapsulate_packet {datagram : Bytes}
    (hdecapsulate : t.decapsulate P m datagram dstLen = .ok (next, result))
    (hpacket : result.packet? = some packet) : t.Decrypts P datagram packet := by
  simp only [decapsulate] at hdecapsulate
  split_ifs at hdecapsulate with hempty
  · rw [sendQueuedPacket_packet hdecapsulate] at hpacket
    cases hpacket
  · split at hdecapsulate
    · cases hdecapsulate
      cases hpacket
    · next limiter parsed hverify =>
        cases parsed with
        | handshakeInit p =>
            rw [handleHandshakeInit_packet hdecapsulate] at hpacket
            cases hpacket
        | handshakeResponse p =>
            rw [handleHandshakeResponse_packet hdecapsulate] at hpacket
            cases hpacket
        | packetCookieReply p =>
            simp only [handleVerifiedPacket, Except.ok.injEq] at hdecapsulate
            rw [handleCookieReply_packet hdecapsulate] at hpacket
            cases hpacket
        | packetData data =>
            obtain ⟨session, plaintext, length, hopened⟩ := handleData_packet hdecapsulate hpacket
            exact ⟨data, session, plaintext, length, RateLimiter.verifyPacket_parsed hverify,
              hopened⟩

end Tunn

end Newt.Noise
