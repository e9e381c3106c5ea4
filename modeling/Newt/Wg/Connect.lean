import Newt.Wg.Lifetime
import Newt.Wg.Link

/-! # Two pumps connect

From whatever states two peers are in, the four datagrams of a handshake that one of them
starts leave both with the new session, and both encrypt with it from then on. Only the
rate limiters and the timestamps can stand in the way.
-/

namespace Newt.Noise

open Foundation

namespace RateLimiter

/-- A handshake message with a valid first MAC passes while the limit is not reached. -/
theorem verifyPacket_handshake {P : Primitives} (hlaw : P.Lawful) {limiter : RateLimiter}
    {sender : Handshake} {msg : Bytes} {packet : Packet}
    (hparse : parseIncomingPacket (sender.withMacs P msg) = .ok packet)
    (hkind : (∃ p, packet = .handshakeInit p) ∨ ∃ p, packet = .handshakeResponse p)
    (hkey : limiter.mac1Key = sender.params.sendingMac1Key)
    (hcount : limiter.count < limiter.limit) :
    limiter.verifyPacket P (sender.withMacs P msg) =
      ({ limiter with count := (limiter.count + 1) % 2 ^ 64 }, .ok packet) := by
  have hlength : (sender.withMacs P msg).length = msg.length + 32 := by
    simp [Handshake.withMacs, Handshake.mac1_length _ _ hlaw, Handshake.mac2_length _ _ hlaw]
  have hmsg : (sender.withMacs P msg).take (msg.length + 32 - 32) = msg := by
    simp [Handshake.withMacs]
  have hmac : slice (sender.withMacs P msg) (msg.length + 32 - 32) (msg.length + 32 - 16) =
      P.b2sKeyedMac16 limiter.mac1Key msg := by
    have hstop : msg.length + 32 - 16 - msg.length = 16 := by omega
    rw [Handshake.withMacs, List.append_assoc, Nat.add_sub_cancel,
      slice_skip rfl (Nat.le_refl _), Nat.sub_self, hstop,
      slice_here (Handshake.mac1_length _ _ hlaw), hkey]
    rfl
  simp only [verifyPacket, hparse, hlength, hmsg, hmac]
  rcases hkind with ⟨p, rfl⟩ | ⟨p, rfl⟩
  all_goals
    simp only [ne_eq, not_true, if_false, if_neg (Nat.not_le.mpr hcount)]

end RateLimiter

theorem Handshake.awaiting_initSent {hs : Handshake} {sent : HandshakeInitSentState}
    (hstate : hs.state = .initSent sent) :
    hs.awaiting sent.localIndex = some (sent, false) := by
  simp only [awaiting, hstate]
  split <;> simp_all

namespace Tunn

/-- A tunnel with secret `x` to the peer with secret `y`. No session timer is ahead of the
clock that the timers last read. -/
structure Configured (P : Primitives) (x y : Bytes) (t : Tunn) : Prop where
  params : t.handshake.params = NoiseParams.new P x (P.publicKey x) (P.publicKey y) none
  mac1Key : t.rateLimiter.mac1Key = P.b2sHash labelMac1 (P.publicKey x)
  recent : ∀ i, t.timers.sessionTimers i ≤ t.timers.timers .timeCurrent

variable {P : Primitives} {x y : Bytes} {t a b : Tunn} {m : Moment} {dstLen : Nat}

theorem Configured.paired (ha : a.Configured P x y) (hb : b.Configured P y x) :
    NoiseParams.Paired P a.handshake.params b.handshake.params :=
  ⟨x, y, none, ha.params, hb.params⟩

/-- The first MACs of the peer are valid. -/
theorem Configured.mac1Key_eq (ha : a.Configured P x y) (hb : b.Configured P y x) :
    b.rateLimiter.mac1Key = a.handshake.params.sendingMac1Key := by
  rw [hb.mac1Key, ha.params]
  rfl

theorem setCurrentSession_current {index : Nat}
    (hrecent : t.timers.sessionTimers (slot t.current) ≤ t.timers.sessionTimers (slot index)) :
    (t.setCurrentSession index).current = index := by
  rw [setCurrentSession]
  split_ifs with hsame hnewer
  · exact hsame
  · rfl
  · exact absurd (.inr hrecent) hnewer

theorem decapsulate_verified {datagram : Bytes} {limiter : RateLimiter} {packet : Packet}
    (hnonempty : datagram ≠ [])
    (hverify : t.rateLimiter.verifyPacket P datagram = (limiter, .ok packet)) :
    t.decapsulate P m datagram dstLen =
      ({ t with rateLimiter := limiter } : Tunn).handleVerifiedPacket P m packet dstLen := by
  simp only [decapsulate, if_neg hnonempty, hverify]

/-- An idle tunnel starts a handshake. -/
theorem formatHandshakeInitiation_starts (hidle : t.handshake.isInProgress = false)
    (hinit : handshakeInitSz ≤ dstLen) :
    ∃ next, t.formatHandshakeInitiation P m dstLen false =
        (next, .writeToNetwork (t.handshake.withMacs P (t.handshake.initiation P m).message)) ∧
      next.handshake.params = t.handshake.params ∧
      next.handshake.state = .initSent (t.handshake.initiated P m) ∧
      next.rateLimiter = t.rateLimiter ∧ next.sessions = t.sessions ∧
      next.current = t.current ∧ next.timers.sessionTimers = t.timers.sessionTimers ∧
      (next.timers.timers .timeCurrent = t.timers.timers .timeCurrent ∨
        next.timers.timers .timeCurrent = m.now) := by
  simp only [formatHandshakeInitiation, hidle, Bool.false_and, Bool.false_eq_true, if_false]
  -- an expired tunnel resets its timers first
  generalize hcleared : (if t.handshake.isExpired = true then
    { t with timers := t.timers.clear m.now } else t) = cleared
  have hkept : cleared.handshake = t.handshake ∧ cleared.rateLimiter = t.rateLimiter ∧
      cleared.sessions = t.sessions ∧ cleared.current = t.current ∧
      cleared.timers.sessionTimers = t.timers.sessionTimers ∧
      (cleared.timers.timers .timeCurrent = t.timers.timers .timeCurrent ∨
        cleared.timers.timers .timeCurrent = m.now) := by
    rw [← hcleared]
    split_ifs
    · exact ⟨rfl, rfl, rfl, rfl, rfl, .inr rfl⟩
    · exact ⟨rfl, rfl, rfl, rfl, rfl, .inl rfl⟩
  obtain ⟨hhandshake, hlimiter, hsessions, hcurrent, htimers, htime⟩ := hkept
  simp only [hhandshake, hidle, Bool.not_false, if_true,
    Handshake.formatHandshakeInitiation_eq P m t.handshake hinit]
  refine ⟨_, rfl, rfl, rfl, hlimiter, hsessions, hcurrent, htimers, ?_⟩
  simpa [timerTick] using htime

/-- What becomes of a tunnel whose handshake accepts an initiation. -/
theorem handleHandshakeInit_established {p : HandshakeInit} {hs : Handshake} {packet : Bytes}
    {seed : SessionSeed} (hreceive : t.handshake.receiveHandshakeInitialization P m p dstLen =
      .ok (hs, .ok (packet, seed))) :
    ∃ next, t.handleHandshakeInit P m p dstLen = .ok (next, .writeToNetwork packet) ∧
      next.sessions = Function.update t.sessions (slot seed.localIndex.toNat)
        (some (Session.new seed)) ∧
      next.timers.sessionTimers = Function.update t.timers.sessionTimers
        (slot seed.localIndex.toNat) (t.timers.timers .timeCurrent) ∧
      next.current = t.current := by
  simp only [handleHandshakeInit, hreceive]
  exact ⟨_, rfl, rfl, rfl, rfl⟩

/-- What becomes of a tunnel whose handshake accepts a response. The new session sends a
keepalive, and it is the current one as no other session is newer. -/
theorem handleHandshakeResponse_established {p : HandshakeResponse} {hs : Handshake}
    {seed : SessionSeed}
    (hreceive : t.handshake.receiveHandshakeResponse P m p = .ok (hs, seed))
    (hfit : dataOverheadSz ≤ dstLen)
    (hrecent : ∀ i, t.timers.sessionTimers i ≤ t.timers.timers .timeCurrent) :
    ∃ next, t.handleHandshakeResponse P m p dstLen =
        .ok (next, .writeToNetwork ((Session.new seed).datagram P [])) ∧
      next.sessions = Function.update t.sessions (slot seed.localIndex.toNat)
        (some (Session.new seed).advance) ∧
      next.current = seed.localIndex.toNat := by
  have hformat : (Session.new seed).formatPacketData P [] dstLen =
      .ok ((Session.new seed).advance, (Session.new seed).datagram P []) :=
    (Session.new seed).formatPacketData_eq P (by simpa using hfit)
  have hindex : (Session.new seed).advance.localIndex = seed.localIndex.toNat := rfl
  simp only [handleHandshakeResponse, hreceive, hformat, hindex, slot_mod]
  refine ⟨_, rfl, ?_, ?_⟩
  · rw [setCurrentSession_sessions]
    rfl
  · apply setCurrentSession_current
    have hlatest : ∀ (i j : Fin nSessions), Function.update t.timers.sessionTimers j
        (t.timers.timers .timeCurrent) i ≤ t.timers.timers .timeCurrent := by
      intro i j
      by_cases hij : i = j
      · rw [hij, Function.update_self]
      · rw [Function.update_of_ne hij]
        exact hrecent i
    simpa [timerTickSessionEstablished, timerTick] using hlatest _ _

/-- A response that the sender of the initiation `sent` accepts, and from which it derives
the session of the peer. -/
structure Answers (P : Primitives) (x y : Bytes) (sent : HandshakeInitSentState)
    (response : Bytes) (p : HandshakeResponse) (seed : SessionSeed) : Prop where
  nonempty : response ≠ []
  receiverIdx : p.receiverIdx = sent.localIndex
  verified : ∀ limiter : RateLimiter, limiter.mac1Key = P.b2sHash labelMac1 (P.publicKey x) →
    limiter.count < limiter.limit →
    limiter.verifyPacket P response =
      ({ limiter with count := (limiter.count + 1) % 2 ^ 64 }, .ok (.handshakeResponse p))
  received : ∀ (hs : Handshake) (m : Moment) (older : Bool),
    hs.params = NoiseParams.new P x (P.publicKey x) (P.publicKey y) none →
    hs.awaiting p.receiverIdx = some (sent, older) →
    ∃ next, hs.receiveHandshakeResponse P m p = .ok (next, seed.swap)

/-- The peer answers an initiation with a response and a session. -/
theorem decapsulate_initiation (hlaw : P.Lawful) (ha : a.Configured P x y)
    (hb : b.Configured P y x) (m' : Moment)
    (hcount : b.rateLimiter.count < b.rateLimiter.limit)
    (hnewer : (a.handshake.stamper.tai64n m.now).after b.handshake.lastHandshakeTimestamp = true)
    (hresp : handshakeRespSz ≤ dstLen) :
    ∃ next response p seed,
      b.decapsulate P m' (a.handshake.withMacs P (a.handshake.initiation P m).message) dstLen =
        .ok (next, .writeToNetwork response) ∧
      Answers P x y (a.handshake.initiated P m) response p seed ∧
      next.sessions = Function.update b.sessions (slot seed.localIndex.toNat)
        (some (Session.new seed)) ∧
      next.timers.sessionTimers = Function.update b.timers.sessionTimers
        (slot seed.localIndex.toNat) (b.timers.timers .timeCurrent) ∧
      next.current = b.current := by
  have hpaired := ha.paired hb
  have hparse := Handshake.parse_initiation (m := m) hlaw hpaired
  have hverify := RateLimiter.verifyPacket_handshake hlaw hparse (.inl ⟨_, rfl⟩)
    (ha.mac1Key_eq hb) hcount
  have hnonempty : a.handshake.withMacs P (a.handshake.initiation P m).message ≠ [] := by
    simp [Handshake.withMacs, HandshakeInit.message, leBytes]
  -- the peer in the state that answers the initiation
  let sent := a.handshake.initiated P m
  let b' : Handshake := { b.handshake with
    lastHandshakeTimestamp := a.handshake.stamper.tai64n m.now
    previous := b.handshake.state
    state := .initReceived sent.hash sent.chainingKey (P.publicKey m.ephemeral) sent.localIndex }
  have hreceive : b.handshake.receiveHandshakeInitialization P m' (a.handshake.initiation P m)
      dstLen = b'.formatHandshakeResponse P m' dstLen :=
    Handshake.receive_initiation hlaw hpaired hnewer
  rw [Handshake.formatHandshakeResponse_eq P m' b' hresp rfl] at hreceive
  let limited : Tunn := { b with
    rateLimiter := { b.rateLimiter with count := (b.rateLimiter.count + 1) % 2 ^ 64 } }
  obtain ⟨next, hhandle, hsessions, htimers, hcurrent⟩ :=
    handleHandshakeInit_established (t := limited) hreceive
  let answer := b'.answered P m' sent.hash sent.chainingKey (P.publicKey m.ephemeral)
  refine ⟨next, _, b'.response P answer sent.localIndex, _,
    (decapsulate_verified hnonempty hverify).trans hhandle, ⟨?_, rfl, ?_, ?_⟩, hsessions,
    htimers, hcurrent⟩
  · simp [Handshake.withMacs, HandshakeResponse.message, leBytes]
  · intro limiter hkey hcount
    refine RateLimiter.verifyPacket_handshake hlaw (Handshake.parse_response hlaw b')
      (.inr ⟨_, rfl⟩) ?_ hcount
    rw [hkey, ← ha.mac1Key, ha.mac1Key, hb.params]
    rfl
  · intro hs m'' older hparams hawaiting
    have hpair : NoiseParams.Paired P hs.params b'.params := ⟨x, y, none, hparams, hb.params⟩
    obtain ⟨hs', hresponse, -⟩ := Handshake.receive_response hlaw hpair m' m'' hawaiting
    exact ⟨hs', hresponse⟩

/-- The initiator takes the response, answers with a keepalive, and speaks. -/
theorem decapsulate_response (ha : a.Configured P x y) {sent : HandshakeInitSentState}
    (hstate : a.handshake.state = .initSent sent)
    (hcount : a.rateLimiter.count < a.rateLimiter.limit) (hfit : dataOverheadSz ≤ dstLen)
    {response : Bytes} {p : HandshakeResponse} {seed : SessionSeed}
    (hanswers : Answers P x y sent response p seed) :
    ∃ next, a.decapsulate P m response dstLen =
        .ok (next, .writeToNetwork (seed.swap.packet P 0 []).message) ∧
      next.Speaks seed.swap 1 ∧ next.Listens P seed.swap [] := by
  have hawaiting : a.handshake.awaiting p.receiverIdx = some (sent, false) := by
    rw [hanswers.receiverIdx]
    exact Handshake.awaiting_initSent hstate
  have hverify := hanswers.verified a.rateLimiter ha.mac1Key hcount
  obtain ⟨hs, hreceive⟩ := hanswers.received a.handshake m false ha.params hawaiting
  let limited : Tunn := { a with
    rateLimiter := { a.rateLimiter with count := (a.rateLimiter.count + 1) % 2 ^ 64 } }
  obtain ⟨next, hhandle, hsessions, hcurrent⟩ :=
    handleHandshakeResponse_established (t := limited) hreceive hfit ha.recent
  have hslot : next.sessions (slot seed.swap.localIndex.toNat) =
      some (Session.new seed.swap).advance := by
    rw [hsessions]
    exact Function.update_self _ _ _
  refine ⟨next, (decapsulate_verified hanswers.nonempty hverify).trans hhandle, ?_, ?_⟩
  · exact ⟨_, hcurrent ▸ hslot, rfl, rfl, rfl⟩
  · have hempty : ([] : Bytes).length + dataOverheadSz ≤ dataOverheadSz := Nat.le_refl _
    exact ⟨_, 1, hslot, .format .new ((Session.new seed.swap).formatPacketData_eq P hempty)⟩

/-- The responder takes the keepalive and speaks, too. -/
theorem decapsulate_keepalive (hlaw : P.Lawful) {seed : SessionSeed}
    (hsession : b.sessions (slot seed.localIndex.toNat) = some (Session.new seed))
    (hrecent : b.timers.sessionTimers (slot b.current) ≤
      b.timers.sessionTimers (slot seed.localIndex.toNat)) (hfit : dataOverheadSz ≤ dstLen) :
    ∃ next, b.decapsulate P m (seed.swap.packet P 0 []).message dstLen = .ok (next, .done) ∧
      next.Speaks seed 0 ∧ next.Listens P seed [0] := by
  have hlength : (seed.swap.packet P 0 []).encryptedEncapsulatedPacket.length = 16 :=
    hlaw.aeadSeal_length _ _ _ _
  have hopen : P.aeadChacha20Open seed.receivingKey (seed.swap.packet P 0 []).counter
      (seed.swap.packet P 0 []).encryptedEncapsulatedPacket [] = .ok [] :=
    hlaw.open_sealed _ _ _ _
  have hbound : (seed.swap.packet P 0 []).counter + nBits < 2 ^ 64 :=
    show 0 + nBits < 2 ^ 64 by decide
  have hroom : (seed.swap.packet P 0 []).encryptedEncapsulatedPacket.length ≤ dstLen := by
    rw [hlength]
    exact Nat.le_trans (by decide) hfit
  have hlife : Session.Life P seed (Session.new seed) 0 [] := .new
  have hfresh : Fresh nBits [] (seed.swap.packet P 0 []).counter :=
    ⟨List.not_mem_nil, fun d hd => by cases hd⟩
  obtain ⟨used, hreceive⟩ := (hlife.receive_cases rfl hbound hroom hopen).1 hfresh
  have hlater := hlife.receive hbound hreceive
  have hslot : b.sessions (slot (seed.swap.packet P 0 []).receiverIdx.toNat) =
    some (Session.new seed) := hsession
  have hcounter : (seed.swap.packet P 0 []).counter < 2 ^ 64 :=
    Nat.lt_of_le_of_lt (Nat.le_add_right _ _) hbound
  rw [decapsulate_data hcounter (Nat.le_of_eq hlength.symm)]
  simp only [handleData, hslot, hreceive, validateDecapsulatedPacket, List.length_nil, if_true]
  let stored : Tunn := { b with
    sessions := Function.update b.sessions (slot seed.localIndex.toNat) (some used) }
  have hcurrent : (stored.setCurrentSession seed.localIndex.toNat).current =
      seed.localIndex.toNat := setCurrentSession_current hrecent
  have hused : (stored.setCurrentSession seed.localIndex.toNat).sessions
      (slot seed.localIndex.toNat) = some used := by
    rw [setCurrentSession_sessions]
    exact Function.update_self _ _ _
  have hlived := hlater.lived
  refine ⟨_, rfl, ⟨used, ?_, hlived.sender, hlived.sendingIndex, hlived.sendingKeyCounter⟩,
    used, 0, hused, hlater⟩
  exact (congrArg (fun i => (stored.setCurrentSession seed.localIndex.toNat).sessions (slot i))
    hcurrent).trans hused

end Tunn

end Newt.Noise

namespace Newt.Wg.Pump

open Foundation Noise

variable {P : Primitives} {x y : Bytes}

/-- The initiation of `a` and the answers to it establish a session. -/
theorem configured_connect (hlaw : P.Lawful) {a b : Pump} (ha : a.tun.Configured P x y)
    (hb : b.tun.Configured P y x) (hidle : a.tun.handshake.isInProgress = false)
    (m₁ m₂ m₃ m₄ : Moment) (hclock : a.tun.timers.timers .timeCurrent ≤ m₁.now)
    (hcountA : a.tun.rateLimiter.count < a.tun.rateLimiter.limit)
    (hcountB : b.tun.rateLimiter.count < b.tun.rateLimiter.limit)
    (hnewer : (a.tun.handshake.stamper.tai64n m₁.now).after
      b.tun.handshake.lastHandshakeTimestamp = true) :
    ∃ a₁ initiation b₁ response a₂ keepalive b₂ seed,
      a.initiateHandshake P m₁ = (a₁, some initiation) ∧
      b.decapsulate P m₂ initiation = .ok (b₁, .network response) ∧
      a₁.decapsulate P m₃ response = .ok (a₂, .network keepalive) ∧
      b₁.decapsulate P m₄ keepalive = .ok (b₂, .nothing) ∧
      a₂.tun.Speaks seed.swap 1 ∧ a₂.tun.Listens P seed.swap [] ∧
      b₂.tun.Speaks seed 0 ∧ b₂.tun.Listens P seed [0] := by
  have hresp (pump : Pump) : handshakeRespSz ≤ pump.scratch :=
    Nat.le_trans (by decide) pump.handshakeInitSz_le_scratch
  obtain ⟨tunA, hformat, hparams, hstate, hlimiter, -, -, htimers, htime⟩ :=
    Tunn.formatHandshakeInitiation_starts (P := P) (m := m₁) hidle a.handshakeInitSz_le_scratch
  obtain ⟨tunB, response, p, seed, hresponse, hanswers, hsessions, hages, hcurrent⟩ :=
    Tunn.decapsulate_initiation (m := m₁) hlaw ha hb m₂ hcountB hnewer (hresp b)
  have hconfigured : tunA.Configured P x y := by
    refine ⟨hparams.trans ha.params, hlimiter ▸ ha.mac1Key, fun i => ?_⟩
    rw [htimers]
    rcases htime with hsame | hnow
    · rw [hsame]
      exact ha.recent i
    · rw [hnow]
      exact Nat.le_trans (ha.recent i) hclock
  obtain ⟨tunA', hkeepalive, hspeaksA, hlistensA⟩ := Tunn.decapsulate_response (m := m₃) hconfigured
    hstate (by rwa [hlimiter]) a.overhead_le_scratch hanswers
  have hlatest : tunB.timers.sessionTimers (Tunn.slot tunB.current) ≤
      tunB.timers.sessionTimers (Tunn.slot seed.localIndex.toNat) := by
    rw [hages, Function.update_self, hcurrent]
    by_cases hslot : Tunn.slot b.tun.current = Tunn.slot seed.localIndex.toNat
    · rw [hslot, Function.update_self]
    · rw [Function.update_of_ne hslot]
      exact hb.recent _
  obtain ⟨tunB', hdone, hspeaksB, hlistensB⟩ := Tunn.decapsulate_keepalive (m := m₄) hlaw
    (by rw [hsessions, Function.update_self]) hlatest b.overhead_le_scratch
  refine ⟨{ a with tun := tunA },
    a.tun.handshake.withMacs P (a.tun.handshake.initiation P m₁).message, { b with tun := tunB },
    response, { a with tun := tunA' }, (seed.swap.packet P 0 []).message, { b with tun := tunB' },
    seed, ?_, ?_, ?_, ?_, hspeaksA, hlistensA, hspeaksB, hlistensB⟩
  · simp only [initiateHandshake, hformat, networkOnly]
  · simp only [Pump.decapsulate, hresponse, inbound]
  · have hscratch : ({ a with tun := tunA } : Pump).scratch = a.scratch := rfl
    simp only [Pump.decapsulate, hscratch, hkeepalive, inbound]
  · have hscratch : ({ b with tun := tunB } : Pump).scratch = b.scratch := rfl
    simp only [Pump.decapsulate, hscratch, hdone, inbound]

/-- A run configures the tunnel for good. -/
theorem run_configured {mtu : Nat} {index : BitVec 32} {durationAtStart now : Nat} {last : Pump}
    {calls : List Call} {outs : List Inbound} {log : List Event}
    (hrun : (withIndex P x (P.publicKey y) mtu index durationAtStart).run P calls =
      .ok (last, outs, log))
    (horder : (calls.map Call.now).Pairwise (· ≤ ·)) (hnow : ∀ call ∈ calls, call.now ≤ now) :
    last.tun.Configured P x y ∧ last.tun.timers.timers .timeCurrent ≤ now := by
  have hnew : (withIndex P x (P.publicKey y) mtu index durationAtStart).tun.Timely 0 :=
    Tunn.new_timely _ _ _ _ _ _ _
  obtain ⟨htimely, hparams, hkey⟩ :=
    run_follows hnew (fun _ _ => Nat.zero_le _) horder hnow (Nat.zero_le _) hrun
  exact ⟨⟨hparams, hkey, htimely.sessionTimers⟩, htimely.timeCurrent⟩

/-- Two peers after any runs, of which `a` has no handshake in progress. The initiation of
`a` and the answers to it establish a session on which both sides speak and listen, unless
a rate limiter is exhausted or `b` has already seen a later timestamp. -/
theorem connects_after_runs (hlaw : P.Lawful) {mtuA mtuB : Nat} {indexA indexB : BitVec 32}
    {startA startB : Nat} {a b : Pump} {callsA callsB : List Call} {outsA outsB : List Inbound}
    {logA logB : List Event}
    (hrunA : (withIndex P x (P.publicKey y) mtuA indexA startA).run P callsA =
      .ok (a, outsA, logA))
    (hrunB : (withIndex P y (P.publicKey x) mtuB indexB startB).run P callsB =
      .ok (b, outsB, logB))
    (horderA : (callsA.map Call.now).Pairwise (· ≤ ·))
    (horderB : (callsB.map Call.now).Pairwise (· ≤ ·)) (m₁ m₂ m₃ m₄ : Moment)
    (hnowA : ∀ call ∈ callsA, call.now ≤ m₁.now) (hnowB : ∀ call ∈ callsB, call.now ≤ m₂.now)
    (hidle : a.tun.handshake.isInProgress = false)
    (hcountA : a.tun.rateLimiter.count < a.tun.rateLimiter.limit)
    (hcountB : b.tun.rateLimiter.count < b.tun.rateLimiter.limit)
    (hnewer : (a.tun.handshake.stamper.tai64n m₁.now).after
      b.tun.handshake.lastHandshakeTimestamp = true) :
    ∃ a₁ initiation b₁ response a₂ keepalive b₂ seed,
      a.initiateHandshake P m₁ = (a₁, some initiation) ∧
      b.decapsulate P m₂ initiation = .ok (b₁, .network response) ∧
      a₁.decapsulate P m₃ response = .ok (a₂, .network keepalive) ∧
      b₁.decapsulate P m₄ keepalive = .ok (b₂, .nothing) ∧
      a₂.tun.Speaks seed.swap 1 ∧ a₂.tun.Listens P seed.swap [] ∧
      b₂.tun.Speaks seed 0 ∧ b₂.tun.Listens P seed [0] := by
  obtain ⟨ha, hclock⟩ := run_configured hrunA horderA hnowA
  obtain ⟨hb, -⟩ := run_configured hrunB horderB hnowB
  exact configured_connect hlaw ha hb hidle m₁ m₂ m₃ m₄ hclock hcountA hcountB hnewer

/-- The two sides that have already talked to each other start a new session. -/
theorem connects_after_talk :
    ∃ a₁ initiation b₁ response a₂ keepalive b₂ seed,
      (ran twin asking).1.initiateHandshake Primitives.null ⟨secs 1, []⟩ = (a₁, some initiation) ∧
      (ran twin answering).1.decapsulate Primitives.null start initiation =
        .ok (b₁, .network response) ∧
      a₁.decapsulate Primitives.null start response = .ok (a₂, .network keepalive) ∧
      b₁.decapsulate Primitives.null start keepalive = .ok (b₂, .nothing) ∧
      a₂.tun.Speaks (SessionSeed.swap seed) 1 ∧
      a₂.tun.Listens Primitives.null (SessionSeed.swap seed) [] ∧
      b₂.tun.Speaks seed 0 ∧ b₂.tun.Listens Primitives.null seed [0] := by
  have hasking := run_eq_ran twin asking (by decide +kernel)
  have hanswering := run_eq_ran twin answering (by decide +kernel)
  exact connects_after_runs (x := []) (y := []) Primitives.null_lawful hasking hanswering
    (by decide) (by decide) ⟨secs 1, []⟩ start start start (by decide) (by decide)
    (by decide +kernel) (by decide +kernel) (by decide +kernel) (by decide +kernel)

end Newt.Wg.Pump
