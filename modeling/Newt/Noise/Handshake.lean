import Newt.Noise.Packet

/-! # The Noise handshake of one peer

The handshake state of `noise/handshake.rs` with its key schedule. Hashing,
Diffie-Hellman, and authenticated encryption are primitives of external crates
and enter as `Primitives`. The clock reading of a call and the ephemeral secret
it draws enter as a `Moment`.
-/

namespace Newt.Noise

open Foundation

/-- The cryptographic primitives the engine calls. -/
structure Primitives where
  hash : Bytes → Bytes
  hmac : Bytes → Bytes → Bytes
  keyedMac16 : Bytes → Bytes → Bytes
  publicKey : Bytes → Bytes
  diffieHellman : Bytes → Bytes → Bytes
  /-- ChaCha20-Poly1305: key, counter, plaintext, and associated data. The tag
  follows the ciphertext. -/
  aeadSeal : Bytes → Nat → Bytes → Bytes → Bytes
  aeadOpen : Bytes → Nat → Bytes → Bytes → Option Bytes
  /-- XChaCha20-Poly1305: key, nonce, ciphertext, and associated data. -/
  xaeadOpen : Bytes → Bytes → Bytes → Bytes → Option Bytes

/-- What a call reads from its surroundings: the monotonic clock in nanoseconds
since the tunnel was created, and a fresh ephemeral secret. -/
structure Moment where
  now : Nat
  ephemeral : Bytes
  deriving DecidableEq, Repr

namespace Primitives

variable (P : Primitives)

def b2sHash (data1 data2 : Bytes) : Bytes := P.hash (data1 ++ data2)

def b2sHmac (key data1 : Bytes) : Bytes := P.hmac key data1

def b2sHmac2 (key data1 data2 : Bytes) : Bytes := P.hmac key (data1 ++ data2)

def b2sKeyedMac16 (key data1 : Bytes) : Bytes := P.keyedMac16 key data1

def aeadChacha20Seal (key : Bytes) (counter : Nat) (plaintext aad : Bytes) : Bytes :=
  P.aeadSeal key counter plaintext aad

def aeadChacha20Open (key : Bytes) (counter : Nat) (ciphertext aad : Bytes) :
    Except WireGuardError Bytes :=
  match P.aeadOpen key counter ciphertext aad with
  | some plaintext => .ok plaintext
  | none => .error .invalidAeadTag

/-- A cipher suite without secrecy. It only adds and strips empty tags, which is
enough to run the protocol by hand. -/
def null : Primitives where
  hash _ := List.replicate 32 0
  hmac _ _ := List.replicate 32 0
  keyedMac16 _ _ := List.replicate 16 0
  publicKey _ := List.replicate 32 0
  diffieHellman _ _ := List.replicate 32 0
  aeadSeal _ _ plaintext _ := plaintext ++ List.replicate 16 0
  aeadOpen _ _ ciphertext _ := some (ciphertext.take (ciphertext.length - 16))
  xaeadOpen _ _ ciphertext _ := some (ciphertext.take (ciphertext.length - 16))

end Primitives

/-- `mac1----` -/
def labelMac1 : Bytes := [109, 97, 99, 49, 45, 45, 45, 45]

/-- `cookie--` -/
def labelCookie : Bytes := [99, 111, 111, 107, 105, 101, 45, 45]

def initialChainKey : Bytes :=
  [96, 226, 109, 174, 243, 39, 239, 192, 46, 195, 53, 226, 160, 37, 210, 208, 22, 235, 66, 6, 248,
    114, 119, 245, 45, 56, 209, 152, 139, 120, 205, 54]

def initialChainHash : Bytes :=
  [34, 17, 179, 97, 8, 26, 197, 102, 105, 18, 67, 219, 69, 138, 213, 50, 45, 156, 108, 102, 34,
    147, 232, 183, 14, 225, 156, 101, 186, 7, 158, 243]

structure Tai64N where
  secs : Nat
  nano : Nat
  deriving DecidableEq, Repr

namespace Tai64N

def zero : Tai64N := ⟨0, 0⟩

def parse (buf : Bytes) : Except WireGuardError Tai64N :=
  if buf.length < 12 then .error .invalidTai64nTimestamp
  else .ok ⟨beNat (slice buf 0 8), beNat (slice buf 8 12)⟩

def after (self other : Tai64N) : Bool :=
  self.secs > other.secs || (self.secs == other.secs && self.nano > other.nano)

end Tai64N

/-- The wall clock at the creation of the tunnel, in nanoseconds. -/
structure TimeStamper where
  durationAtStart : Nat
  deriving DecidableEq, Repr

/-- A 12 byte timestamp of the current time. -/
def TimeStamper.stamp (stamper : TimeStamper) (now : Nat) : Bytes :=
  let stamp := now + stamper.durationAtStart
  beBytes 8 (stamp / 1000000000 + (2 ^ 62 + 37)) ++ beBytes 4 (stamp % 1000000000)

structure NoiseParams where
  staticPublic : Bytes
  staticPrivate : Bytes
  peerStaticPublic : Bytes
  staticShared : Bytes
  sendingMac1Key : Bytes
  presharedKey : Option Bytes
  deriving DecidableEq, Repr

def NoiseParams.new (P : Primitives) (staticPrivate staticPublic peerStaticPublic : Bytes)
    (presharedKey : Option Bytes) : NoiseParams where
  staticPublic := staticPublic
  staticPrivate := staticPrivate
  peerStaticPublic := peerStaticPublic
  staticShared := P.diffieHellman staticPrivate peerStaticPublic
  sendingMac1Key := P.b2sHash labelMac1 peerStaticPublic
  presharedKey := presharedKey

/-- A sent initiation that awaits its response. -/
structure HandshakeInitSentState where
  localIndex : BitVec 32
  hash : Bytes
  chainingKey : Bytes
  ephemeralPrivate : Bytes
  timeSent : Nat
  deriving DecidableEq, Repr

inductive HandshakeState where
  | none
  | initSent (state : HandshakeInitSentState)
  | initReceived (hash chainingKey peerEphemeralPublic : Bytes) (peerIndex : BitVec 32)
  | expired
  deriving DecidableEq, Repr

structure Cookies where
  lastMac1 : Option Bytes
  index : BitVec 32
  writeCookie : Option Bytes
  deriving DecidableEq, Repr

structure Handshake where
  params : NoiseParams
  nextIndex : BitVec 32
  previous : HandshakeState
  state : HandshakeState
  cookies : Cookies
  lastHandshakeTimestamp : Tai64N
  stamper : TimeStamper
  lastRtt : Option Nat
  deriving DecidableEq, Repr

/-- The keys and indices a finished handshake hands to its session. -/
structure SessionSeed where
  localIndex : BitVec 32
  peerIndex : BitVec 32
  receivingKey : Bytes
  sendingKey : Bytes
  deriving DecidableEq, Repr

namespace Handshake

def new (P : Primitives) (staticPrivate staticPublic peerStaticPublic : Bytes)
    (globalIdx : BitVec 32) (presharedKey : Option Bytes) (durationAtStart : Nat) : Handshake where
  params := NoiseParams.new P staticPrivate staticPublic peerStaticPublic presharedKey
  nextIndex := globalIdx
  previous := .none
  state := .none
  cookies := ⟨none, 0, none⟩
  lastHandshakeTimestamp := .zero
  stamper := ⟨durationAtStart⟩
  lastRtt := none

def isInProgress (hs : Handshake) : Bool :=
  match hs.state with
  | .none | .expired => false
  | _ => true

def timer (hs : Handshake) : Option Nat :=
  match hs.state with
  | .initSent s => some s.timeSent
  | _ => none

def setExpired (hs : Handshake) : Handshake := { hs with previous := .expired, state := .expired }

def isExpired (hs : Handshake) : Bool :=
  match hs.state with
  | .expired => true
  | _ => false

def hasCookie (hs : Handshake) : Bool := hs.cookies.writeCookie.isSome

def clearCookie (hs : Handshake) : Handshake :=
  { hs with cookies := { hs.cookies with writeCookie := none } }

/-- The 24 high bits name the peer, the 8 low bits count its sessions
cyclically. -/
def succIndex (index : BitVec 32) : BitVec 32 :=
  let idx8 := index.setWidth 8
  (index &&& ~~~0xff#32) ||| (idx8 + 1).setWidth 32

/-- Advance to the next local index and return it. -/
def incIndex (hs : Handshake) : BitVec 32 × Handshake :=
  (succIndex hs.nextIndex, { hs with nextIndex := succIndex hs.nextIndex })

/-- Append both MACs to a handshake message and remember the first for a
cookie reply. -/
def appendMac1AndMac2 (P : Primitives) (hs : Handshake) (localIndex : BitVec 32) (msg : Bytes) :
    Bytes × Handshake :=
  let msgMac1 := P.b2sKeyedMac16 hs.params.sendingMac1Key msg
  let msgMac2 :=
    match hs.cookies.writeCookie with
    | some cookie => P.b2sKeyedMac16 cookie (msg ++ msgMac1)
    | none => List.replicate 16 0
  (msg ++ msgMac1 ++ msgMac2,
    { hs with cookies := { hs.cookies with index := localIndex, lastMac1 := some msgMac1 } })

/-- Build an initiation, remember it, and keep the one before it. -/
def formatHandshakeInitiation (P : Primitives) (m : Moment) (hs : Handshake) (dstLen : Nat) :
    Except WireGuardError (Bytes × Handshake) :=
  if dstLen < handshakeInitSz then .error .destinationBufferTooSmall
  else
    let (localIndex, hs) := hs.incIndex
    let hash := P.b2sHash initialChainHash hs.params.peerStaticPublic
    let ephemeralPrivate := m.ephemeral
    let unencryptedEphemeral := P.publicKey ephemeralPrivate
    let hash := P.b2sHash hash unencryptedEphemeral
    let chainingKey := P.b2sHmac (P.b2sHmac initialChainKey unencryptedEphemeral) [0x01]
    let temp := P.b2sHmac chainingKey
      (P.diffieHellman ephemeralPrivate hs.params.peerStaticPublic)
    let chainingKey := P.b2sHmac temp [0x01]
    let key := P.b2sHmac2 temp chainingKey [0x02]
    let encryptedStatic := P.aeadChacha20Seal key 0 hs.params.staticPublic hash
    let hash := P.b2sHash hash encryptedStatic
    let temp := P.b2sHmac chainingKey hs.params.staticShared
    let chainingKey := P.b2sHmac temp [0x01]
    let key := P.b2sHmac2 temp chainingKey [0x02]
    let encryptedTimestamp := P.aeadChacha20Seal key 0 (hs.stamper.stamp m.now) hash
    let hash := P.b2sHash hash encryptedTimestamp
    -- a response to the initiation before may still arrive
    let hs := { hs with
      previous := hs.state
      state := .initSent ⟨localIndex, hash, chainingKey, ephemeralPrivate, m.now⟩ }
    .ok (appendMac1AndMac2 P hs localIndex
      (leBytes 4 handshakeInit ++ leBytes 4 localIndex.toNat ++ unencryptedEphemeral ++
        encryptedStatic ++ encryptedTimestamp))

/-- Answer the initiation that was just accepted. -/
def formatHandshakeResponse (P : Primitives) (m : Moment) (hs : Handshake) (dstLen : Nat) :
    Except Panic (Handshake × Except WireGuardError (Bytes × SessionSeed)) :=
  if dstLen < handshakeRespSz then .ok (hs, .error .destinationBufferTooSmall)
  else
    match hs.state with
    | .initReceived hash chainingKey peerEphemeralPublic peerIndex =>
        let hs := { hs with state := .none }
        let ephemeralPrivate := m.ephemeral
        let (localIndex, hs) := hs.incIndex
        let unencryptedEphemeral := P.publicKey ephemeralPrivate
        let hash := P.b2sHash hash unencryptedEphemeral
        let temp := P.b2sHmac chainingKey unencryptedEphemeral
        let chainingKey := P.b2sHmac temp [0x01]
        let temp := P.b2sHmac chainingKey (P.diffieHellman ephemeralPrivate peerEphemeralPublic)
        let chainingKey := P.b2sHmac temp [0x01]
        let temp := P.b2sHmac chainingKey
          (P.diffieHellman ephemeralPrivate hs.params.peerStaticPublic)
        let chainingKey := P.b2sHmac temp [0x01]
        let temp := P.b2sHmac chainingKey (hs.params.presharedKey.getD (List.replicate 32 0))
        let chainingKey := P.b2sHmac temp [0x01]
        let temp2 := P.b2sHmac2 temp chainingKey [0x02]
        let key := P.b2sHmac2 temp temp2 [0x03]
        let hash := P.b2sHash hash temp2
        let encryptedNothing := P.aeadChacha20Seal key 0 [] hash
        let temp1 := P.b2sHmac chainingKey []
        let temp2 := P.b2sHmac temp1 [0x01]
        let temp3 := P.b2sHmac2 temp1 temp2 [0x02]
        let (dst, hs) := appendMac1AndMac2 P hs localIndex
          (leBytes 4 handshakeResp ++ leBytes 4 localIndex.toNat ++ leBytes 4 peerIndex.toNat ++
            unencryptedEphemeral ++ encryptedNothing)
        .ok (hs, .ok (dst, ⟨localIndex, peerIndex, temp2, temp3⟩))
    | _ => .error .unexpectedSendHandshakeResponse

/-- Accept an initiation from the configured peer and answer it. -/
def receiveHandshakeInitialization (P : Primitives) (m : Moment) (hs : Handshake)
    (packet : HandshakeInit) (dstLen : Nat) :
    Except Panic (Handshake × Except WireGuardError (Bytes × SessionSeed)) :=
  let hash := P.b2sHash initialChainHash hs.params.staticPublic
  let peerEphemeralPublic := packet.unencryptedEphemeral
  let hash := P.b2sHash hash peerEphemeralPublic
  let chainingKey := P.b2sHmac (P.b2sHmac initialChainKey peerEphemeralPublic) [0x01]
  let temp := P.b2sHmac chainingKey (P.diffieHellman hs.params.staticPrivate peerEphemeralPublic)
  let chainingKey := P.b2sHmac temp [0x01]
  let key := P.b2sHmac2 temp chainingKey [0x02]
  match P.aeadChacha20Open key 0 packet.encryptedStatic hash with
  | .error e => .ok (hs, .error e)
  | .ok peerStaticPublicDecrypted =>
      if hs.params.peerStaticPublic ≠ peerStaticPublicDecrypted then .ok (hs, .error .wrongKey)
      else
        let hash := P.b2sHash hash packet.encryptedStatic
        let temp := P.b2sHmac chainingKey hs.params.staticShared
        let chainingKey := P.b2sHmac temp [0x01]
        let key := P.b2sHmac2 temp chainingKey [0x02]
        match P.aeadChacha20Open key 0 packet.encryptedTimestamp hash with
        | .error e => .ok (hs, .error e)
        | .ok buf =>
            match Tai64N.parse buf with
            | .error e => .ok (hs, .error e)
            | .ok timestamp =>
                -- an initiation that is not newer is a replay
                if !timestamp.after hs.lastHandshakeTimestamp then
                  .ok (hs, .error .wrongTai64nTimestamp)
                else
                  let hash := P.b2sHash hash packet.encryptedTimestamp
                  let hs := { hs with
                    lastHandshakeTimestamp := timestamp
                    previous := hs.state
                    state := .initReceived hash chainingKey peerEphemeralPublic packet.senderIdx }
                  formatHandshakeResponse P m hs dstLen

/-- The outstanding initiation a response answers, and whether it is the older
of the two. -/
def awaiting (hs : Handshake) (receiverIdx : BitVec 32) : Option (HandshakeInitSentState × Bool) :=
  match hs.state, hs.previous with
  | .initSent s, .initSent p =>
      if s.localIndex = receiverIdx then some (s, false)
      else if p.localIndex = receiverIdx then some (p, true) else none
  | .initSent s, _ => if s.localIndex = receiverIdx then some (s, false) else none
  | _, .initSent p => if p.localIndex = receiverIdx then some (p, true) else none
  | _, _ => none

/-- Check a response against the initiation it answers and derive the session
keys. -/
def receiveHandshakeResponse (P : Primitives) (m : Moment) (hs : Handshake)
    (packet : HandshakeResponse) : Except WireGuardError (Handshake × SessionSeed) :=
  match hs.awaiting packet.receiverIdx with
  | none => .error .unexpectedPacket
  | some (state, isPrevious) =>
      let unencryptedEphemeral := packet.unencryptedEphemeral
      let hash := P.b2sHash state.hash unencryptedEphemeral
      let temp := P.b2sHmac state.chainingKey unencryptedEphemeral
      let chainingKey := P.b2sHmac temp [0x01]
      let temp := P.b2sHmac chainingKey
        (P.diffieHellman state.ephemeralPrivate unencryptedEphemeral)
      let chainingKey := P.b2sHmac temp [0x01]
      let temp := P.b2sHmac chainingKey
        (P.diffieHellman hs.params.staticPrivate unencryptedEphemeral)
      let chainingKey := P.b2sHmac temp [0x01]
      let temp := P.b2sHmac chainingKey (hs.params.presharedKey.getD (List.replicate 32 0))
      let chainingKey := P.b2sHmac temp [0x01]
      let temp2 := P.b2sHmac2 temp chainingKey [0x02]
      let key := P.b2sHmac2 temp temp2 [0x03]
      let hash := P.b2sHash hash temp2
      match P.aeadChacha20Open key 0 packet.encryptedNothing hash with
      | .error e => .error e
      | .ok _ =>
          let temp1 := P.b2sHmac chainingKey []
          let temp2 := P.b2sHmac temp1 [0x01]
          let temp3 := P.b2sHmac2 temp1 temp2 [0x02]
          let hs := { hs with lastRtt := some ((m.now - state.timeSent) / 1000000 % 2 ^ 32) }
          let hs := if isPrevious then { hs with previous := .none } else { hs with state := .none }
          -- the two keys are those of the responder with the directions exchanged
          .ok (hs, ⟨state.localIndex, packet.senderIdx, temp3, temp2⟩)

/-- Store the cookie of a cookie reply to our last handshake message. -/
def receiveCookieReply (P : Primitives) (hs : Handshake) (packet : PacketCookieReply) :
    Except WireGuardError Handshake :=
  match hs.cookies.lastMac1 with
  | none => .error .unexpectedPacket
  | some mac1 =>
      if packet.receiverIdx ≠ hs.cookies.index then .error .wrongIndex
      else
        let key := P.b2sHash labelCookie hs.params.peerStaticPublic
        match P.xaeadOpen key packet.nonce packet.encryptedCookie (slice mac1 0 16) with
        | none => .error .invalidAeadTag
        | some plaintext =>
            if plaintext.length ≠ 16 then .error .invalidPacket
            else .ok { hs with cookies := { hs.cookies with writeCookie := some plaintext } }

end Handshake

end Newt.Noise
