import Newt.Noise.Tunn

/-! # Which calls fit their destination buffer

The engine panics on a destination buffer that is too small. These are the
exact conditions, one function at a time up to `Tunn.decapsulate`, together with
what each call does to the queue of waiting packets.
-/

namespace Newt.Noise

theorem Session.formatPacketData_ok (P : Primitives) (session : Session) {src : Bytes}
    {dstLen : Nat} (hfit : src.length + dataOverheadSz ≤ dstLen) :
    ∃ next datagram, session.formatPacketData P src dstLen = .ok (next, datagram) := by
  simp only [formatPacketData, if_neg (Nat.not_lt.mpr hfit)]
  exact ⟨_, _, rfl⟩

/-- The size check comes before all others, so it alone decides about a panic. -/
theorem Session.receivePacketData_returns_iff (P : Primitives) (session : Session)
    (packet : PacketData) (dstLen : Nat) :
    (∃ out, session.receivePacketData P packet dstLen = .ok out) ↔
      packet.encryptedEncapsulatedPacket.length ≤ dstLen := by
  by_cases hfit : packet.encryptedEncapsulatedPacket.length ≤ dstLen
  · simp only [receivePacketData, if_neg (Nat.not_lt.mpr hfit), hfit, iff_true]
    split
    · exact ⟨_, rfl⟩
    · split <;> [skip; split <;> [skip; split]] <;> exact ⟨_, rfl⟩
  · simp [receivePacketData, Nat.lt_of_not_le hfit, hfit]

/-- A response is built right after an initiation was accepted, so the state it
expects is there. -/
theorem Handshake.receiveHandshakeInitialization_ok (P : Primitives) (m : Moment)
    (hs : Handshake) (packet : HandshakeInit) (dstLen : Nat) :
    ∃ out, hs.receiveHandshakeInitialization P m packet dstLen = .ok out := by
  simp only [receiveHandshakeInitialization]
  split
  · exact ⟨_, rfl⟩
  · split
    · exact ⟨_, rfl⟩
    · split
      · exact ⟨_, rfl⟩
      · split
        · exact ⟨_, rfl⟩
        · split
          · exact ⟨_, rfl⟩
          · simp only [formatHandshakeResponse]
            split <;> exact ⟨_, rfl⟩

theorem Handshake.formatHandshakeInitiation_isInProgress {P : Primitives} {m : Moment}
    {hs next : Handshake} {dstLen : Nat} {packet : Bytes}
    (hformat : hs.formatHandshakeInitiation P m dstLen = .ok (packet, next)) :
    next.isInProgress = true := by
  simp only [formatHandshakeInitiation] at hformat
  split at hformat
  · cases hformat
  · simp only [appendMac1AndMac2, Except.ok.injEq, Prod.mk.injEq] at hformat
    rw [← hformat.2]
    rfl

namespace RateLimiter

variable {P : Primitives} {limiter next : RateLimiter} {src : Bytes}

theorem verifyPacket_parsed {packet : Packet}
    (hverify : limiter.verifyPacket P src = (next, .ok packet)) :
    parseIncomingPacket src = .ok packet := by
  simp only [verifyPacket] at hverify
  split at hverify
  · cases hverify
  · next hparse =>
      rw [hparse]
      split at hverify
      · split_ifs at hverify <;> cases hverify
        rfl
      · split_ifs at hverify <;> cases hverify
        rfl
      · cases hverify
        rfl

/-- Data packets are neither checked nor counted here. -/
theorem verifyPacket_data {packet : PacketData}
    (hparse : parseIncomingPacket src = .ok (.packetData packet)) :
    limiter.verifyPacket P src = (limiter, .ok (.packetData packet)) := by
  simp only [verifyPacket, hparse]

end RateLimiter

namespace Tunn

/-! ## What the helpers leave alone -/

section Frame

variable (t : Tunn)

@[simp]
theorem timerTick_packetQueue (name : TimerName) :
    (t.timerTick name).packetQueue = t.packetQueue := rfl

@[simp]
theorem timerTick_handshake (name : TimerName) : (t.timerTick name).handshake = t.handshake := rfl

@[simp]
theorem timerTickSessionEstablished_packetQueue (isInitiator : Bool) (index : Nat) :
    (t.timerTickSessionEstablished isInitiator index).packetQueue = t.packetQueue := rfl

@[simp]
theorem setCurrentSession_packetQueue (index : Nat) :
    (t.setCurrentSession index).packetQueue = t.packetQueue := by
  simp only [setCurrentSession]
  split <;> [rfl; split <;> rfl]

@[simp]
theorem validateDecapsulatedPacket_packetQueue (packet : Bytes) :
    (t.validateDecapsulatedPacket packet).1.packetQueue = t.packetQueue := by
  simp only [validateDecapsulatedPacket]
  split_ifs <;> rfl

@[simp]
theorem queuePacket_handshake (packet : Bytes) :
    (t.queuePacket packet).handshake = t.handshake := by
  simp only [queuePacket]
  split <;> rfl

@[simp]
theorem queuePacket_sessions (packet : Bytes) :
    (t.queuePacket packet).sessions = t.sessions := by
  simp only [queuePacket]
  split <;> rfl

@[simp]
theorem queuePacket_current (packet : Bytes) : (t.queuePacket packet).current = t.current := by
  simp only [queuePacket]
  split <;> rfl

theorem queuePacket_length_le (packet : Bytes) :
    (t.queuePacket packet).packetQueue.length ≤ t.packetQueue.length + 1 := by
  simp only [queuePacket]
  split <;> simp

theorem mem_queuePacket {packet waiting : Bytes}
    (hmem : waiting ∈ (t.queuePacket packet).packetQueue) :
    waiting = packet ∨ waiting ∈ t.packetQueue := by
  simp only [queuePacket] at hmem
  split at hmem
  · simp only [List.mem_append, List.mem_singleton] at hmem
    exact hmem.symm
  · exact .inr hmem

end Frame

variable (P : Primitives) (m : Moment) (t : Tunn)

/-- An initiation leaves the queue alone. It returns bytes only when it starts
a handshake that was not in progress. -/
theorem formatHandshakeInitiation_spec {dstLen : Nat} (hfit : handshakeInitSz ≤ dstLen) :
    ∃ next result, t.formatHandshakeInitiation P m dstLen false = (next, result) ∧
      next.packetQueue = t.packetQueue ∧
      (result = .done ∨ (∃ datagram, result = .writeToNetwork datagram) ∧
        t.handshake.isInProgress = false ∧ next.handshake.isInProgress = true) := by
  simp only [formatHandshakeInitiation]
  split
  · exact ⟨_, _, rfl, rfl, .inl rfl⟩
  · next hidle =>
      have hidle : t.handshake.isInProgress = false := by simpa using hidle
      split
      · next hformat =>
          simp only [Handshake.formatHandshakeInitiation, if_neg (Nat.not_lt.mpr hfit)] at hformat
          cases hformat
      · next packet handshake hformat =>
          have hnext := Handshake.formatHandshakeInitiation_isInProgress hformat
          refine ⟨_, _, rfl, ?_, .inr ⟨⟨_, rfl⟩, hidle, ?_⟩⟩
          · split_ifs <;> rfl
          · split_ifs <;> exact hnext

/-- The session that encrypts exists: the packet leaves at once, and the session
advances. -/
theorem encapsulate_formatted {session used : Session} {src datagram : Bytes} {dstLen : Nat}
    (hsession : t.sessions (slot t.current) = some session)
    (hformat : session.formatPacketData P src dstLen = .ok (used, datagram)) :
    ∃ next, t.encapsulate P m src dstLen = .ok (next, .writeToNetwork datagram) ∧
      next.sessions (slot next.current) = some used ∧ next.packetQueue = t.packetQueue ∧
      next.handshake = t.handshake := by
  simp only [encapsulate, hsession, hformat]
  refine ⟨_, rfl, ?_, ?_, ?_⟩
  · split_ifs <;> simp [timerTick]
  · split_ifs <;> rfl
  · split_ifs <;> rfl

theorem encapsulate_session {session : Session} {src : Bytes} {dstLen : Nat}
    (hsession : t.sessions (slot t.current) = some session)
    (hfit : src.length + dataOverheadSz ≤ dstLen) :
    ∃ next datagram, t.encapsulate P m src dstLen = .ok (next, .writeToNetwork datagram) ∧
      next.packetQueue = t.packetQueue ∧ next.handshake = t.handshake := by
  obtain ⟨used, datagram, hformat⟩ := session.formatPacketData_ok P hfit
  obtain ⟨next, hengine, _, hkept⟩ := encapsulate_formatted P m t hsession hformat
  exact ⟨next, datagram, hengine, hkept⟩

theorem encapsulate_noSession {src : Bytes} {dstLen : Nat}
    (hsession : t.sessions (slot t.current) = none) :
    t.encapsulate P m src dstLen =
      .ok ((t.queuePacket src).formatHandshakeInitiation P m dstLen false) := by
  simp only [encapsulate, hsession]

/-- The two ways to take a packet from the queue. With a session it is sent.
Without one it goes back to the queue, behind the others, and a handshake is
started unless one is in progress. -/
theorem sendQueuedPacket_cons {packet : Bytes} {rest : List Bytes} {dstLen : Nat}
    (hqueue : t.packetQueue = packet :: rest) (hinit : handshakeInitSz ≤ dstLen)
    (hfit : t.sessions (slot t.current) ≠ none → packet.length + dataOverheadSz ≤ dstLen) :
    ∃ next result, t.sendQueuedPacket P m dstLen = .ok (next, result) ∧
      ((next.packetQueue = rest ∧ next.handshake = t.handshake) ∨
        next.packetQueue = ({ t with packetQueue := rest }.queuePacket packet).packetQueue ∧
          (result = .done ∨
            t.handshake.isInProgress = false ∧ next.handshake.isInProgress = true)) := by
  cases hsession : t.sessions (slot t.current) with
  | some session =>
      obtain ⟨next, datagram, hsend, hrest, hhandshake⟩ :=
        encapsulate_session P m { t with packetQueue := rest } hsession (hfit (by simp [hsession]))
      refine ⟨next, .writeToNetwork datagram, ?_, .inl ⟨hrest, hhandshake⟩⟩
      simp only [sendQueuedPacket, hqueue, hsend]
  | none =>
      obtain ⟨next, result, hformat, hrest, hresult⟩ :=
        formatHandshakeInitiation_spec P m ({ t with packetQueue := rest }.queuePacket packet) hinit
      have hsend : ({ t with packetQueue := rest } : Tunn).encapsulate P m packet dstLen =
          .ok (next, result) := by
        rw [encapsulate_noSession P m { t with packetQueue := rest } hsession, hformat]
      simp only [queuePacket_handshake] at hresult
      rcases hresult with rfl | ⟨⟨datagram, rfl⟩, hidle, hstarted⟩
      · refine ⟨next, .done, ?_, .inr ⟨hrest, .inl rfl⟩⟩
        simp only [sendQueuedPacket, hqueue, hsend]
      · refine ⟨next, .writeToNetwork datagram, ?_, .inr ⟨hrest, .inr ⟨hidle, hstarted⟩⟩⟩
        simp only [sendQueuedPacket, hqueue, hsend]

/-- A waiting packet that the destination buffer cannot hold panics once there is
a session to send it with. -/
theorem sendQueuedPacket_overlong {packet : Bytes} {rest : List Bytes} {dstLen : Nat}
    (hqueue : t.packetQueue = packet :: rest) (hsession : t.sessions (slot t.current) ≠ none)
    (hlong : dstLen < packet.length + dataOverheadSz) :
    t.sendQueuedPacket P m dstLen = .error .destinationBufferTooSmall := by
  obtain ⟨session, hsession⟩ := Option.ne_none_iff_exists'.mp hsession
  have hformat : session.formatPacketData P packet dstLen = .error .destinationBufferTooSmall := by
    rw [Session.formatPacketData, if_pos hlong]
  simp only [sendQueuedPacket, hqueue, encapsulate, hsession, hformat]

/-- Besides the size check of a data packet nothing panics on a datagram. -/
theorem handleVerifiedPacket_returns_iff (packet : Packet) {dstLen : Nat}
    (hdst : dataOverheadSz ≤ dstLen) :
    (∃ out, t.handleVerifiedPacket P m packet dstLen = .ok out) ↔
      ∀ p, packet = .packetData p → (t.sessions (slot p.receiverIdx.toNat)).isSome →
        p.encryptedEncapsulatedPacket.length ≤ dstLen := by
  cases packet with
  | handshakeInit p =>
      simp only [reduceCtorEq, false_implies, implies_true, iff_true]
      obtain ⟨⟨handshake, result⟩, hreceive⟩ :=
        t.handshake.receiveHandshakeInitialization_ok P m p dstLen
      simp only [handleVerifiedPacket, handleHandshakeInit, hreceive]
      cases result <;> exact ⟨_, rfl⟩
  | handshakeResponse p =>
      simp only [reduceCtorEq, false_implies, implies_true, iff_true, handleVerifiedPacket,
        handleHandshakeResponse]
      split
      · exact ⟨_, rfl⟩
      · next handshake seed _ =>
          have hfit : ([] : Bytes).length + dataOverheadSz ≤ dstLen := by simpa
          obtain ⟨session, keepalive, hformat⟩ := (Session.new seed).formatPacketData_ok P hfit
          simp only [hformat]
          exact ⟨_, rfl⟩
  | packetCookieReply p => simp [handleVerifiedPacket]
  | packetData p =>
      simp only [Packet.packetData.injEq, forall_eq', handleVerifiedPacket, handleData]
      cases hsession : t.sessions (slot p.receiverIdx.toNat) with
      | none => simp
      | some session =>
          simp only [Option.isSome_some, forall_const]
          rw [← session.receivePacketData_returns_iff P p dstLen]
          cases hreceive : session.receivePacketData P p dstLen with
          | error panic => simp
          | ok out =>
              obtain ⟨used, result⟩ := out
              cases result <;> simp

/-- No datagram of the network touches the queue. -/
theorem handleVerifiedPacket_packetQueue {packet : Packet} {dstLen : Nat} {next : Tunn}
    {result : TunnResult}
    (hhandle : t.handleVerifiedPacket P m packet dstLen = .ok (next, result)) :
    next.packetQueue = t.packetQueue := by
  cases packet with
  | handshakeInit p =>
      simp only [handleVerifiedPacket, handleHandshakeInit] at hhandle
      split at hhandle <;> cases hhandle <;> rfl
  | handshakeResponse p =>
      simp only [handleVerifiedPacket, handleHandshakeResponse] at hhandle
      split at hhandle
      · cases hhandle
        rfl
      · split at hhandle <;> cases hhandle
        simp
  | packetCookieReply p =>
      simp only [handleVerifiedPacket, handleCookieReply, Except.ok.injEq] at hhandle
      split at hhandle <;> cases hhandle <;> rfl
  | packetData p =>
      simp only [handleVerifiedPacket, handleData] at hhandle
      split at hhandle
      · cases hhandle
        rfl
      · split at hhandle
        · cases hhandle
        · cases hhandle
          rfl
        · simp only [Except.ok.injEq, Prod.ext_iff] at hhandle
          simp [← hhandle.1]

end Tunn

end Newt.Noise
