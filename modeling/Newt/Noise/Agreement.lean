import Newt.Noise.Wire

/-! # Both sides of a handshake agree

The initiator and the responder run the same key schedule from their own secrets. With
primitives that do what they promise, an initiation is accepted by the peer it is meant
for, the response is accepted by the initiator while it waits for it, and the two
sessions have the same keys with the directions exchanged.
-/

namespace Newt.Noise

open Foundation

/-- What the protocol needs from its primitives to work. Secrecy is not part of it. -/
structure Primitives.Lawful (P : Primitives) : Prop where
  diffieHellman_comm : ∀ a b,
    P.diffieHellman a (P.publicKey b) = P.diffieHellman b (P.publicKey a)
  aeadOpen_aeadSeal : ∀ key counter plaintext aad,
    P.aeadOpen key counter (P.aeadSeal key counter plaintext aad) aad = some plaintext
  aeadSeal_length : ∀ key counter plaintext aad,
    (P.aeadSeal key counter plaintext aad).length = plaintext.length + 16
  publicKey_length : ∀ secret, (P.publicKey secret).length = 32
  keyedMac16_length : ∀ key content, (P.keyedMac16 key content).length = 16

theorem Primitives.null_lawful : Primitives.null.Lawful where
  diffieHellman_comm _ _ := rfl
  aeadOpen_aeadSeal _ _ plaintext _ := by simp [null]
  aeadSeal_length _ _ plaintext _ := by simp [null]
  publicKey_length _ := by simp [null]
  keyedMac16_length _ _ := by simp [null]

variable {P : Primitives}

theorem Primitives.Lawful.open_sealed (hlaw : P.Lawful) (key : Bytes) (counter : Nat)
    (plaintext aad : Bytes) :
    P.aeadChacha20Open key counter (P.aeadChacha20Seal key counter plaintext aad) aad =
      .ok plaintext := by
  simp only [aeadChacha20Open, aeadChacha20Seal, hlaw.aeadOpen_aeadSeal]

/-- Each side has its own secret and the public key of the other. -/
def NoiseParams.Paired (P : Primitives) (a b : NoiseParams) : Prop :=
  ∃ x y presharedKey,
    a = NoiseParams.new P x (P.publicKey x) (P.publicKey y) presharedKey ∧
      b = NoiseParams.new P y (P.publicKey y) (P.publicKey x) presharedKey

/-- The seed of the other side. -/
def SessionSeed.swap (seed : SessionSeed) : SessionSeed :=
  ⟨seed.peerIndex, seed.localIndex, seed.sendingKey, seed.receivingKey⟩

/-- The timestamp of an initiation. -/
def TimeStamper.tai64n (stamper : TimeStamper) (now : Nat) : Tai64N :=
  ⟨((now + stamper.durationAtStart) / 1000000000 + (2 ^ 62 + 37)) % 2 ^ 64,
    (now + stamper.durationAtStart) % 1000000000⟩

theorem TimeStamper.stamp_length (stamper : TimeStamper) (now : Nat) :
    (stamper.stamp now).length = 12 := by
  simp [TimeStamper.stamp]

theorem Tai64N.parse_stamp (stamper : TimeStamper) (now : Nat) :
    Tai64N.parse (stamper.stamp now) = .ok (stamper.tai64n now) := by
  have hlength := stamper.stamp_length now
  have hsecs : slice (stamper.stamp now) 0 8 =
      beBytes 8 ((now + stamper.durationAtStart) / 1000000000 + (2 ^ 62 + 37)) :=
    slice_here (by simp) _
  have hnano : slice (stamper.stamp now) 8 12 =
      beBytes 4 ((now + stamper.durationAtStart) % 1000000000) := by
    rw [TimeStamper.stamp, slice_skip (beBytes_length 8 _) (by decide),
      ← List.append_nil (beBytes 4 _)]
    exact slice_here (by simp) _
  have hsmall : (now + stamper.durationAtStart) % 1000000000 < 256 ^ 4 := by
    have hnano := Nat.mod_lt (now + stamper.durationAtStart) (show 0 < 1000000000 by decide)
    omega
  rw [Tai64N.parse, if_neg (by omega), hsecs, hnano, beNat_beBytes, beNat_beBytes,
    Nat.mod_eq_of_lt hsmall]
  rfl

/-! ## The key schedule -/

section Schedule

variable (P : Primitives)

/-- The chaining key after an input. -/
def chain (chainingKey input : Bytes) : Bytes := P.b2sHmac (P.b2sHmac chainingKey input) [0x01]

/-- The key that an input derives next to the chaining key. -/
def chainedKey (chainingKey input : Bytes) : Bytes :=
  P.b2sHmac2 (P.b2sHmac chainingKey input) (chain P chainingKey input) [0x02]

/-- What both sides of an initiation know: the static key of the responder, the
ephemeral key of the initiator, and the two Diffie-Hellman results. -/
structure Offer where
  responder : Bytes
  ephemeral : Bytes
  ephemeralStatic : Bytes
  staticStatic : Bytes

namespace Offer

variable (offer : Offer)

def opening : Bytes := P.b2sHash (P.b2sHash initialChainHash offer.responder) offer.ephemeral

def opened : Bytes := chain P initialChainKey offer.ephemeral

def staticKey : Bytes := chainedKey P (offer.opened P) offer.ephemeralStatic

def identified : Bytes := chain P (offer.opened P) offer.ephemeralStatic

def timestampKey : Bytes := chainedKey P (offer.identified P) offer.staticStatic

def chainingKey : Bytes := chain P (offer.identified P) offer.staticStatic

/-- The static key of the initiator, encrypted. -/
def sealStatic (static : Bytes) : Bytes :=
  P.aeadChacha20Seal (offer.staticKey P) 0 static (offer.opening P)

/-- The timestamp, encrypted after the static key. -/
def sealTimestamp (encryptedStatic stamp : Bytes) : Bytes :=
  P.aeadChacha20Seal (offer.timestampKey P) 0 stamp (P.b2sHash (offer.opening P) encryptedStatic)

def hash (encryptedStatic encryptedTimestamp : Bytes) : Bytes :=
  P.b2sHash (P.b2sHash (offer.opening P) encryptedStatic) encryptedTimestamp

end Offer

/-- What both sides of a response know: the initiation, the ephemeral key of the
responder, the two Diffie-Hellman results with it, and the preshared key. -/
structure Answer where
  hash : Bytes
  chainingKey : Bytes
  ephemeral : Bytes
  ephemeralEphemeral : Bytes
  staticEphemeral : Bytes
  presharedKey : Bytes

namespace Answer

variable (answer : Answer)

def temp : Bytes :=
  P.b2sHmac (chain P (chain P (chain P answer.chainingKey answer.ephemeral)
    answer.ephemeralEphemeral) answer.staticEphemeral) answer.presharedKey

def shared : Bytes := P.b2sHmac (answer.temp P) [0x01]

def mixed : Bytes := P.b2sHmac2 (answer.temp P) (answer.shared P) [0x02]

def key : Bytes := P.b2sHmac2 (answer.temp P) (answer.mixed P) [0x03]

def confirmed : Bytes := P.b2sHash (P.b2sHash answer.hash answer.ephemeral) (answer.mixed P)

/-- The key from the initiator to the responder. -/
def forth : Bytes := P.b2sHmac (P.b2sHmac (answer.shared P) []) [0x01]

/-- The key from the responder to the initiator. -/
def back : Bytes := P.b2sHmac2 (P.b2sHmac (answer.shared P) []) (answer.forth P) [0x02]

/-- Nothing, encrypted to confirm the keys. -/
def confirmation : Bytes := P.aeadChacha20Seal (answer.key P) 0 [] (answer.confirmed P)

end Answer

end Schedule

namespace Handshake

section Macs

variable (P) (hs : Handshake) (msg : Bytes)

/-- The first MAC of a handshake message, which the receiver checks. -/
def mac1 : Bytes := P.b2sKeyedMac16 hs.params.sendingMac1Key msg

/-- The second MAC, which proves a cookie. -/
def mac2 : Bytes :=
  match hs.cookies.writeCookie with
  | some cookie => P.b2sKeyedMac16 cookie (msg ++ hs.mac1 P msg)
  | none => List.replicate 16 0

/-- A handshake message with its MACs. -/
def withMacs : Bytes := msg ++ hs.mac1 P msg ++ hs.mac2 P msg

variable {P}

theorem mac1_length (hlaw : P.Lawful) : (hs.mac1 P msg).length = 16 :=
  hlaw.keyedMac16_length _ _

theorem mac2_length (hlaw : P.Lawful) : (hs.mac2 P msg).length = 16 := by
  rw [mac2]
  split
  · exact hlaw.keyedMac16_length _ _
  · exact List.length_replicate

end Macs

section Initiator

variable (P) (m : Moment) (hs : Handshake)

/-- The initiation as its sender sees it. -/
def offered : Offer where
  responder := hs.params.peerStaticPublic
  ephemeral := P.publicKey m.ephemeral
  ephemeralStatic := P.diffieHellman m.ephemeral hs.params.peerStaticPublic
  staticStatic := hs.params.staticShared

/-- The initiation that is sent. -/
def initiation : HandshakeInit :=
  let static := (hs.offered P m).sealStatic P hs.params.staticPublic
  ⟨succIndex hs.nextIndex, P.publicKey m.ephemeral, static,
    (hs.offered P m).sealTimestamp P static (hs.stamper.stamp m.now)⟩

/-- What is kept of the initiation until its response arrives. -/
def initiated : HandshakeInitSentState :=
  ⟨succIndex hs.nextIndex,
    (hs.offered P m).hash P (hs.initiation P m).encryptedStatic
      (hs.initiation P m).encryptedTimestamp,
    (hs.offered P m).chainingKey P, m.ephemeral, m.now⟩

theorem formatHandshakeInitiation_eq {dstLen : Nat} (hfit : handshakeInitSz ≤ dstLen) :
    hs.formatHandshakeInitiation P m dstLen =
      .ok (hs.withMacs P (hs.initiation P m).message,
        { hs with
          nextIndex := succIndex hs.nextIndex
          previous := hs.state
          state := .initSent (hs.initiated P m)
          cookies := { hs.cookies with
            index := succIndex hs.nextIndex
            lastMac1 := some (hs.mac1 P (hs.initiation P m).message) } }) := by
  rw [formatHandshakeInitiation, if_neg (Nat.not_lt.mpr hfit)]
  rfl

end Initiator

section Responder

variable (P) (m : Moment) (hs : Handshake)

/-- The initiation as its receiver sees it. -/
def received (p : HandshakeInit) : Offer where
  responder := hs.params.staticPublic
  ephemeral := p.unencryptedEphemeral
  ephemeralStatic := P.diffieHellman hs.params.staticPrivate p.unencryptedEphemeral
  staticStatic := hs.params.staticShared

/-- The timestamp in an initiation, if the receiver can decrypt it. -/
def timestamp? (p : HandshakeInit) : Option Tai64N :=
  match P.aeadChacha20Open ((hs.received P p).timestampKey P) 0 p.encryptedTimestamp
      (P.b2sHash ((hs.received P p).opening P) p.encryptedStatic) with
  | .error _ => none
  | .ok stamp => (Tai64N.parse stamp).toOption

/-- A receiver that can decrypt the initiation, knows its sender, and has not seen a
newer one answers it. -/
theorem receiveHandshakeInitialization_eq {p : HandshakeInit} {dstLen : Nat} {stamp : Bytes}
    {timestamp : Tai64N}
    (hstatic : P.aeadChacha20Open ((hs.received P p).staticKey P) 0 p.encryptedStatic
      ((hs.received P p).opening P) = .ok hs.params.peerStaticPublic)
    (htimestamp : P.aeadChacha20Open ((hs.received P p).timestampKey P) 0 p.encryptedTimestamp
      (P.b2sHash ((hs.received P p).opening P) p.encryptedStatic) = .ok stamp)
    (hstamp : Tai64N.parse stamp = .ok timestamp)
    (hnewer : timestamp.after hs.lastHandshakeTimestamp = true) :
    hs.receiveHandshakeInitialization P m p dstLen =
      formatHandshakeResponse P m
        { hs with
          lastHandshakeTimestamp := timestamp
          previous := hs.state
          state := .initReceived
            ((hs.received P p).hash P p.encryptedStatic p.encryptedTimestamp)
            ((hs.received P p).chainingKey P) p.unencryptedEphemeral p.senderIdx } dstLen := by
  simp only [Offer.staticKey, Offer.opening, Offer.opened, Offer.timestampKey, Offer.identified,
    received, chain, chainedKey] at hstatic htimestamp
  simp only [receiveHandshakeInitialization, hstatic, htimestamp, hstamp, hnewer, ne_eq, not_true,
    if_false, Bool.not_true, Bool.false_eq_true]
  rfl

/-- The response as its sender sees it. -/
def answered (hash chainingKey peerEphemeral : Bytes) : Answer where
  hash := hash
  chainingKey := chainingKey
  ephemeral := P.publicKey m.ephemeral
  ephemeralEphemeral := P.diffieHellman m.ephemeral peerEphemeral
  staticEphemeral := P.diffieHellman m.ephemeral hs.params.peerStaticPublic
  presharedKey := hs.params.presharedKey.getD (List.replicate 32 0)

/-- The response that is sent. -/
def response (answer : Answer) (peerIndex : BitVec 32) : HandshakeResponse :=
  ⟨succIndex hs.nextIndex, peerIndex, answer.ephemeral, answer.confirmation P⟩

theorem formatHandshakeResponse_eq {hash chainingKey peerEphemeral : Bytes}
    {peerIndex : BitVec 32} {dstLen : Nat} (hfit : handshakeRespSz ≤ dstLen)
    (hstate : hs.state = .initReceived hash chainingKey peerEphemeral peerIndex) :
    hs.formatHandshakeResponse P m dstLen =
      (let answer := hs.answered P m hash chainingKey peerEphemeral
      let msg := (hs.response P answer peerIndex).message
      .ok ({ hs with
          nextIndex := succIndex hs.nextIndex
          state := .none
          cookies := { hs.cookies with
            index := succIndex hs.nextIndex
            lastMac1 := some (hs.mac1 P msg) } },
        .ok (hs.withMacs P msg,
          ⟨succIndex hs.nextIndex, peerIndex, answer.forth P, answer.back P⟩))) := by
  rw [formatHandshakeResponse, if_neg (Nat.not_lt.mpr hfit), hstate]
  rfl

/-- The response as its receiver sees it. -/
def heard (sent : HandshakeInitSentState) (p : HandshakeResponse) : Answer where
  hash := sent.hash
  chainingKey := sent.chainingKey
  ephemeral := p.unencryptedEphemeral
  ephemeralEphemeral := P.diffieHellman sent.ephemeralPrivate p.unencryptedEphemeral
  staticEphemeral := P.diffieHellman hs.params.staticPrivate p.unencryptedEphemeral
  presharedKey := hs.params.presharedKey.getD (List.replicate 32 0)

theorem receiveHandshakeResponse_eq {p : HandshakeResponse} {sent : HandshakeInitSentState}
    {older : Bool} {plaintext : Bytes} (hawaiting : hs.awaiting p.receiverIdx = some (sent, older))
    (hopen : P.aeadChacha20Open ((hs.heard P sent p).key P) 0 p.encryptedNothing
      ((hs.heard P sent p).confirmed P) = .ok plaintext) :
    hs.receiveHandshakeResponse P m p =
      (let timed := { hs with lastRtt := some ((m.now - sent.timeSent) / 1000000 % 2 ^ 32) }
      .ok (if older then { timed with previous := .none } else { timed with state := .none },
        ⟨sent.localIndex, p.senderIdx, (hs.heard P sent p).back P,
          (hs.heard P sent p).forth P⟩)) := by
  simp only [Answer.key, Answer.confirmed, Answer.mixed, Answer.shared, Answer.temp, heard,
    chain] at hopen
  simp only [receiveHandshakeResponse, hawaiting, hopen]
  rfl

end Responder

/-! ## Agreement -/

section Agreement

variable {a b : Handshake} {m m' : Moment}

/-- Both sides see the same initiation. -/
theorem received_initiation (hlaw : P.Lawful)
    (hpaired : NoiseParams.Paired P a.params b.params) :
    b.received P (a.initiation P m) = a.offered P m := by
  obtain ⟨x, y, psk, ha, hb⟩ := hpaired
  simp only [received, offered, initiation, ha, hb, NoiseParams.new, Offer.mk.injEq, true_and]
  exact ⟨hlaw.diffieHellman_comm _ _, hlaw.diffieHellman_comm _ _⟩

theorem parse_initiation (hlaw : P.Lawful) (hpaired : NoiseParams.Paired P a.params b.params) :
    parseIncomingPacket (a.withMacs P (a.initiation P m).message) =
      .ok (.handshakeInit (a.initiation P m)) := by
  obtain ⟨x, y, psk, ha, -⟩ := hpaired
  rw [withMacs, List.append_assoc]
  refine parseIncomingPacket_handshakeInit _ (hlaw.publicKey_length _) ?_ ?_ ?_
  · have hstatic : a.params.staticPublic.length = 32 := by
      rw [ha]
      exact hlaw.publicKey_length _
    exact (hlaw.aeadSeal_length _ _ _ _).trans (by rw [hstatic])
  · exact (hlaw.aeadSeal_length _ _ _ _).trans (by rw [TimeStamper.stamp_length])
  · rw [List.length_append, mac1_length _ _ hlaw, mac2_length _ _ hlaw]

/-- The peer takes up an initiation that is newer than the last one. -/
theorem receive_initiation (hlaw : P.Lawful) (hpaired : NoiseParams.Paired P a.params b.params)
    (hnewer : (a.stamper.tai64n m.now).after b.lastHandshakeTimestamp = true) {dstLen : Nat} :
    b.receiveHandshakeInitialization P m' (a.initiation P m) dstLen =
      formatHandshakeResponse P m'
        { b with
          lastHandshakeTimestamp := a.stamper.tai64n m.now
          previous := b.state
          state := .initReceived (a.initiated P m).hash (a.initiated P m).chainingKey
            (P.publicKey m.ephemeral) (a.initiated P m).localIndex } dstLen := by
  have hsame : b.received P (a.initiation P m) = a.offered P m :=
    received_initiation hlaw hpaired
  have hstatic : P.aeadChacha20Open ((b.received P (a.initiation P m)).staticKey P) 0
      (a.initiation P m).encryptedStatic ((b.received P (a.initiation P m)).opening P) =
      .ok b.params.peerStaticPublic := by
    have hpeer : b.params.peerStaticPublic = a.params.staticPublic := by
      obtain ⟨x, y, psk, ha, hb⟩ := hpaired
      rw [ha, hb]
      rfl
    rw [hsame, hpeer]
    exact hlaw.open_sealed _ _ _ _
  have htimestamp : P.aeadChacha20Open ((b.received P (a.initiation P m)).timestampKey P) 0
      (a.initiation P m).encryptedTimestamp
      (P.b2sHash ((b.received P (a.initiation P m)).opening P)
        (a.initiation P m).encryptedStatic) = .ok (a.stamper.stamp m.now) := by
    rw [hsame]
    exact hlaw.open_sealed _ _ _ _
  rw [receiveHandshakeInitialization_eq P m' b hstatic htimestamp (Tai64N.parse_stamp _ _) hnewer,
    hsame]
  rfl

/-- Both sides see the same response. -/
theorem heard_response (hlaw : P.Lawful) (hpaired : NoiseParams.Paired P a.params b.params)
    (m' : Moment) (sent : HandshakeInitSentState) (peerIndex : BitVec 32) :
    let answer := b.answered P m' sent.hash sent.chainingKey (P.publicKey sent.ephemeralPrivate)
    a.heard P sent (b.response P answer peerIndex) = answer := by
  obtain ⟨x, y, psk, hparams, hpeer⟩ := hpaired
  simp only [heard, response, answered, hparams, hpeer, NoiseParams.new, Answer.mk.injEq,
    true_and, and_true]
  exact ⟨hlaw.diffieHellman_comm _ _, hlaw.diffieHellman_comm _ _⟩

/-- The initiator that still waits for the response takes it up. -/
theorem receive_response (hlaw : P.Lawful) (hpaired : NoiseParams.Paired P a.params b.params)
    (m' m'' : Moment) {sent : HandshakeInitSentState} {peerIndex : BitVec 32} {older : Bool}
    (hawaiting : a.awaiting peerIndex = some (sent, older)) :
    let answer := b.answered P m' sent.hash sent.chainingKey (P.publicKey sent.ephemeralPrivate)
    ∃ a', a.receiveHandshakeResponse P m'' (b.response P answer peerIndex) =
        .ok (a', ⟨sent.localIndex, succIndex b.nextIndex, answer.back P, answer.forth P⟩) ∧
      a'.params = a.params ∧ (older = false → a'.state = .none) := by
  intro answer
  have hheard : a.heard P sent (b.response P answer peerIndex) = answer :=
    heard_response hlaw hpaired m' sent peerIndex
  have hopen : P.aeadChacha20Open ((a.heard P sent (b.response P answer peerIndex)).key P) 0
      (b.response P answer peerIndex).encryptedNothing
      ((a.heard P sent (b.response P answer peerIndex)).confirmed P) = .ok [] := by
    rw [hheard]
    exact hlaw.open_sealed _ _ _ _
  rw [receiveHandshakeResponse_eq P m'' a hawaiting hopen, hheard]
  refine ⟨_, rfl, ?_, ?_⟩
  · cases older <;> rfl
  · rintro rfl
    rfl

theorem parse_response (hlaw : P.Lawful) (b' : Handshake) {hash chainingKey ephemeral : Bytes}
    {peerIndex : BitVec 32} :
    let p := b'.response P (b'.answered P m' hash chainingKey ephemeral) peerIndex
    parseIncomingPacket (b'.withMacs P p.message) = .ok (.handshakeResponse p) := by
  intro p
  rw [withMacs, List.append_assoc]
  refine parseIncomingPacket_handshakeResponse p (hlaw.publicKey_length _) ?_ ?_
  · exact (hlaw.aeadSeal_length _ _ _ _).trans rfl
  · rw [List.length_append, mac1_length _ _ hlaw, mac2_length _ _ hlaw]

/-- An initiation reaches the peer it is meant for, whatever state the peer is in. The
peer answers it, and whatever happens to the initiator meanwhile, as long as it still
waits for the response it derives the session of the peer with the two sides exchanged. -/
theorem handshake_agrees (hlaw : P.Lawful) (hpaired : NoiseParams.Paired P a.params b.params)
    {a₁ : Handshake} {initiation : Bytes} {dstLen dstLen' : Nat}
    (hformat : a.formatHandshakeInitiation P m dstLen = .ok (initiation, a₁))
    (hnewer : (a.stamper.tai64n m.now).after b.lastHandshakeTimestamp = true)
    (hfit : handshakeRespSz ≤ dstLen') :
    ∃ sent offer b₁ response answer seed, a₁.state = .initSent sent ∧
      parseIncomingPacket initiation = .ok (.handshakeInit offer) ∧
      b.receiveHandshakeInitialization P m' offer dstLen' = .ok (b₁, .ok (response, seed)) ∧
      parseIncomingPacket response = .ok (.handshakeResponse answer) ∧
      ∀ (a₂ : Handshake) (m'' : Moment) (older : Bool), a₂.params = a.params →
        a₂.awaiting answer.receiverIdx = some (sent, older) →
          ∃ a₃, a₂.receiveHandshakeResponse P m'' answer = .ok (a₃, seed.swap) := by
  have hinit : handshakeInitSz ≤ dstLen := by
    by_contra hsmall
    rw [formatHandshakeInitiation, if_pos (Nat.lt_of_not_le hsmall)] at hformat
    cases hformat
  rw [formatHandshakeInitiation_eq P m a hinit] at hformat
  cases hformat
  -- the peer in the state that answers the initiation
  let b' : Handshake := { b with
    lastHandshakeTimestamp := a.stamper.tai64n m.now
    previous := b.state
    state := .initReceived (a.initiated P m).hash (a.initiated P m).chainingKey
      (P.publicKey m.ephemeral) (a.initiated P m).localIndex }
  have hreceive : b.receiveHandshakeInitialization P m' (a.initiation P m) dstLen' =
      b'.formatHandshakeResponse P m' dstLen' := receive_initiation hlaw hpaired hnewer
  rw [formatHandshakeResponse_eq P m' b' hfit rfl] at hreceive
  refine ⟨_, _, _, _, _, _, rfl, parse_initiation hlaw hpaired, hreceive,
    parse_response hlaw b', ?_⟩
  intro a₂ m'' older hparams hawaiting
  have hpaired' : NoiseParams.Paired P a₂.params b'.params := hparams ▸ hpaired
  obtain ⟨a₃, hresponse, -⟩ := receive_response hlaw hpaired' m' m'' hawaiting
  exact ⟨a₃, hresponse⟩

/-- A handshake under the suite without secrecy, whose peer is one like it. -/
def twin : Handshake :=
  .new Primitives.null [] (List.replicate 32 0) (List.replicate 32 0) 0 none 0

theorem twins_agree :
    ∃ sent offer b₁ response answer seed,
      parseIncomingPacket (twin.withMacs Primitives.null
        (twin.initiation Primitives.null ⟨0, []⟩).message) = .ok (.handshakeInit offer) ∧
      twin.receiveHandshakeInitialization Primitives.null ⟨0, []⟩ offer 148 =
        .ok (b₁, .ok (response, seed)) ∧
      parseIncomingPacket response = .ok (.handshakeResponse answer) ∧
      ∀ (a₂ : Handshake) (m'' : Moment) (older : Bool), a₂.params = twin.params →
        a₂.awaiting answer.receiverIdx = some (sent, older) →
          ∃ a₃, a₂.receiveHandshakeResponse Primitives.null m'' answer = .ok (a₃, seed.swap) := by
  have hpaired : NoiseParams.Paired Primitives.null twin.params twin.params :=
    ⟨[], [], none, rfl, rfl⟩
  obtain ⟨sent, offer, b₁, response, answer, seed, -, hagrees⟩ :=
    handshake_agrees Primitives.null_lawful hpaired
      (formatHandshakeInitiation_eq Primitives.null ⟨0, []⟩ twin (Nat.le_refl _)) (by decide)
      (by decide : handshakeRespSz ≤ 148)
  exact ⟨sent, offer, b₁, response, answer, seed, hagrees⟩

end Agreement

end Handshake

end Newt.Noise
