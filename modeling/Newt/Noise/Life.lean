import Newt.Noise.Replay

/-! # The life of a session

Between its handshake and its end a session encrypts packets and receives packets.
Its counters say how many packets it encrypted and which counters it received.
-/

namespace Newt.Noise

open Foundation

/-- What a session can become after its handshake: it has encrypted `sent` packets, and
received the counters in `seen`. A peer that sent less than `2 ^ 64 - 1024` packets has
not used any other counter. -/
inductive Session.Life (P : Primitives) (seed : SessionSeed) : Session → Nat → List Nat → Prop
  | new : Life P seed (Session.new seed) 0 []
  | format {session next : Session} {sent : Nat} {seen : List Nat} {src datagram : Bytes}
      {dstLen : Nat} (prior : Life P seed session sent seen)
      (step : session.formatPacketData P src dstLen = .ok (next, datagram)) :
      Life P seed next (sent + 1) seen
  | receive {session next : Session} {sent : Nat} {seen : List Nat} {packet : PacketData}
      {dstLen : Nat} {plaintext : Bytes} (prior : Life P seed session sent seen)
      (hbound : packet.counter + nBits < 2 ^ 64)
      (step : session.receivePacketData P packet dstLen = .ok (next, .ok plaintext)) :
      Life P seed next sent (packet.counter :: seen)

namespace Session

variable {P : Primitives} {session next : Session} {seed : SessionSeed} {sent : Nat}
  {seen : List Nat} {packet : PacketData} {dstLen : Nat} {src datagram plaintext : Bytes}

theorem formatPacketData_eq_ok (hstep : session.formatPacketData P src dstLen =
    .ok (next, datagram)) :
    next = { session with sendingKeyCounter := (session.sendingKeyCounter + 1) % 2 ^ 64 } ∧
      datagram = leBytes 4 data ++ leBytes 4 session.sendingIndex.toNat ++
        leBytes 8 session.sendingKeyCounter ++
        P.aeadChacha20Seal session.sender session.sendingKeyCounter src [] := by
  rw [formatPacketData] at hstep
  split at hstep
  · cases hstep
  · cases hstep
    exact ⟨rfl, rfl⟩

/-- What the checks of a received packet are, and what a packet that passes them
changes. -/
theorem receivePacketData_eq_ok (hstep : session.receivePacketData P packet dstLen =
    .ok (next, .ok plaintext)) :
    packet.receiverIdx = session.receivingIndex ∧
      P.aeadChacha20Open session.receiver packet.counter packet.encryptedEncapsulatedPacket [] =
        .ok plaintext ∧
      ∃ v, session.receivingKeyCounter.markDidReceive packet.counter = .ok v ∧
        next = { session with
          receivingKeyCounter := { v with receiveCnt := (v.receiveCnt + 1) % 2 ^ 64 } } := by
  simp only [receivePacketData] at hstep
  split_ifs at hstep with hfit hindex
  · cases hstep
  · split at hstep
    · cases hstep
    · split at hstep
      · cases hstep
      · next hopen =>
          split at hstep
          · cases hstep
          · next hmark =>
              cases hstep
              rw [receivingCounterMark] at hmark
              split at hmark
              · cases hmark
              · next v hv =>
                  cases hmark
                  exact ⟨not_not.mp hindex, hopen, v, hv, rfl⟩

/-- The state of a session after its handshake and the packets of its life. -/
structure Lived (seed : SessionSeed) (session : Session) (sent : Nat) (seen : List Nat) :
    Prop where
  receivingIndex : session.receivingIndex = seed.localIndex
  sendingIndex : session.sendingIndex = seed.peerIndex
  receiver : session.receiver = seed.receivingKey
  sender : session.sender = seed.sendingKey
  sendingKeyCounter : session.sendingKeyCounter = sent % 2 ^ 64
  receivingKeyCounter : session.receivingKeyCounter.Remembers seen
  receiveCnt : session.receivingKeyCounter.receiveCnt = seen.length % 2 ^ 64

theorem Life.lived (hlife : Life P seed session sent seen) : Lived seed session sent seen := by
  induction hlife with
  | new => exact ⟨rfl, rfl, rfl, rfl, rfl, ReceivingKeyCounterValidator.remembers_default, rfl⟩
  | format prior step ih =>
      obtain ⟨rfl, -⟩ := formatPacketData_eq_ok step
      exact { ih with sendingKeyCounter := by simp [ih.sendingKeyCounter, Nat.add_mod] }
  | @receive session next sent seen packet _ _ _ hbound step ih =>
      obtain ⟨-, -, v, hmark, rfl⟩ := receivePacketData_eq_ok step
      obtain ⟨hfresh, hstale⟩ :=
        ReceivingKeyCounterValidator.markDidReceive_spec ih.receivingKeyCounter hbound
      by_cases hnew : Fresh nBits seen packet.counter
      · obtain ⟨w, hw, hremembers, hcnt⟩ := hfresh hnew
        cases hw.symm.trans hmark
        exact { ih with
          receivingKeyCounter := hremembers
          receiveCnt := by simp [hcnt, ih.receiveCnt, Nat.add_mod] }
      · cases (hstale hnew).symm.trans hmark

/-- What happens to a packet with the index of the session that decrypts. -/
theorem Life.receive_cases (hlife : Life P seed session sent seen)
    (hindex : packet.receiverIdx = seed.localIndex) (hbound : packet.counter + nBits < 2 ^ 64)
    (hfit : packet.encryptedEncapsulatedPacket.length ≤ dstLen)
    (hopen : P.aeadChacha20Open seed.receivingKey packet.counter
      packet.encryptedEncapsulatedPacket [] = .ok plaintext) :
    (Fresh nBits seen packet.counter →
      ∃ next, session.receivePacketData P packet dstLen = .ok (next, .ok plaintext)) ∧
    (packet.counter ∈ seen → (∀ d ∈ seen, d < packet.counter + nBits) →
      session.receivePacketData P packet dstLen = .ok (session, .error .duplicateCounter)) ∧
    ((∃ d ∈ seen, packet.counter + nBits ≤ d) →
      session.receivePacketData P packet dstLen = .ok (session, .error .invalidCounter)) := by
  have hlived := hlife.lived
  obtain ⟨haccept, hduplicate, hinvalid⟩ :=
    ReceivingKeyCounterValidator.willAccept_spec hlived.receivingKeyCounter hbound
  simp only [receivePacketData, if_neg (Nat.not_lt.mpr hfit), hlived.receivingIndex, hindex,
    ne_eq, not_true, if_false, hlived.receiver, hopen]
  refine ⟨fun hfresh => ?_, fun hmem hnear => ?_, fun hfar => ?_⟩
  · obtain ⟨v, hmark, -⟩ := (ReceivingKeyCounterValidator.markDidReceive_spec
      hlived.receivingKeyCounter hbound).1 hfresh
    simp only [haccept hfresh, receivingCounterMark, hmark]
    exact ⟨_, rfl⟩
  · simp only [hduplicate hmem hnear]
  · simp only [hinvalid hfar]

/-- Every packet that decrypts is received once: it is accepted exactly if its counter
was not received before and no counter received is 1024 or more ahead of it. -/
theorem Life.receives_iff (hlife : Life P seed session sent seen)
    (hindex : packet.receiverIdx = seed.localIndex) (hbound : packet.counter + nBits < 2 ^ 64)
    (hfit : packet.encryptedEncapsulatedPacket.length ≤ dstLen)
    (hopen : P.aeadChacha20Open seed.receivingKey packet.counter
      packet.encryptedEncapsulatedPacket [] = .ok plaintext) :
    ((∃ next, session.receivePacketData P packet dstLen = .ok (next, .ok plaintext)) ↔
      packet.counter ∉ seen ∧ ∀ d ∈ seen, d < packet.counter + nBits) ∧
    (session.receivePacketData P packet dstLen = .ok (session, .error .duplicateCounter) ↔
      packet.counter ∈ seen ∧ ∀ d ∈ seen, d < packet.counter + nBits) ∧
    (session.receivePacketData P packet dstLen = .ok (session, .error .invalidCounter) ↔
      ∃ d ∈ seen, packet.counter + nBits ≤ d) := by
  obtain ⟨haccept, hduplicate, hinvalid⟩ := hlife.receive_cases hindex hbound hfit hopen
  by_cases hnear : ∀ d ∈ seen, d < packet.counter + nBits
  · have hfar : ¬∃ d ∈ seen, packet.counter + nBits ≤ d := by
      rintro ⟨d, hd, hle⟩
      exact absurd (hnear d hd) (Nat.not_lt.mpr hle)
    by_cases hmem : packet.counter ∈ seen
    · simpa [hduplicate hmem hnear, hmem, hfar] using hnear
    · obtain ⟨next, hnext⟩ := haccept ⟨hmem, hnear⟩
      simpa [hnext, hmem, hfar] using hnear
  · have hfar : ∃ d ∈ seen, packet.counter + nBits ≤ d := by simpa using hnear
    simp [hinvalid hfar, hnear, hfar]

/-- A session that received counter 0 refuses it from then on, and takes counter 7. -/
theorem Life.receives_iff_replayed :
    ∃ (seed : SessionSeed) (session : Session), Life Primitives.null seed session 0 [0] ∧
      session.receivePacketData Primitives.null ⟨seed.localIndex, 0, []⟩ 0 =
        .ok (session, .error .duplicateCounter) ∧
      ∃ next, session.receivePacketData Primitives.null ⟨seed.localIndex, 7, []⟩ 0 =
        .ok (next, .ok []) := by
  have hreceive : ∃ next, (Session.new ⟨1, 2, [], []⟩).receivePacketData Primitives.null
      ⟨1, 0, []⟩ 0 = .ok (next, .ok []) := ⟨_, rfl⟩
  obtain ⟨session, hsession⟩ := hreceive
  have hlife : Life Primitives.null ⟨1, 2, [], []⟩ session 0 [0] :=
    .receive .new (by decide) hsession
  have hopen (counter : Nat) : Primitives.null.aeadChacha20Open [] counter [] [] = .ok [] := rfl
  refine ⟨_, session, hlife, ?_, ?_⟩
  · exact (hlife.receives_iff rfl (by decide) (by decide) (hopen 0)).2.1.mpr (by decide)
  · exact (hlife.receives_iff rfl (by decide) (by decide) (hopen 7)).1.mpr (by decide)

end Session

end Newt.Noise
