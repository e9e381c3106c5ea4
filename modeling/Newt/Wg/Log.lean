import Newt.Foundation.Ledger
import Newt.Noise.Delivery
import Newt.Noise.Life
import Newt.Noise.Steps
import Newt.Wg.Queue

/-! # What a tunnel does with its sessions

The tunnel keeps up to eight sessions in a ring. Its operations establish sessions,
encrypt and decrypt packets with them, and forget them. Each operation has a log of
these events, and the log explains both the ring after the operation and the data that
the operation returns.
-/

namespace Newt.Noise

open Foundation

/-- What happens to a session. It is logged as it was before the event. -/
inductive Event where
  | established (seed : SessionSeed)
  | sent (session : Session) (content : Bytes)
  | received (session : Session) (packet : PacketData) (content : Bytes)

/-- The content of a data packet that is delivered: the part up to the length in its
header. -/
def deliverable (content : Bytes) : Option Bytes :=
  (ipLength content).bind fun length =>
    if length ≤ content.length then some (content.take length) else none

namespace Event

/-- The data packet that an event sends. -/
def datagram? (P : Primitives) : Event → Option Bytes
  | .sent session content => some (session.datagram P content)
  | _ => none

/-- The packet that an event delivers to the host. -/
def packet? : Event → Option Bytes
  | .received _ _ content => deliverable content
  | _ => none

end Event

/-- The sessions of a tunnel, in the order of their slots. -/
abbrev Ring := Fin nSessions → Option Session

/-- What can happen to the ring. -/
inductive Move (P : Primitives) : Ring → List Event → Ring → Prop
  | forget {ring next : Ring} (hkept : ∀ i, next i = ring i ∨ next i = none) :
      Move P ring [] next
  | establish {ring : Ring} (seed : SessionSeed) :
      Move P ring [.established seed]
        (Function.update ring (Tunn.slot seed.localIndex.toNat) (some (Session.new seed)))
  | send {ring : Ring} {i : Fin nSessions} {session next : Session} {content datagram : Bytes}
      {dstLen : Nat} (hslot : ring i = some session)
      (hformat : session.formatPacketData P content dstLen = .ok (next, datagram)) :
      Move P ring [.sent session content] (Function.update ring i (some next))
  | receive {ring : Ring} {i : Fin nSessions} {session next : Session} {packet : PacketData}
      {content : Bytes} {dstLen : Nat} (hslot : ring i = some session)
      (hreceive : session.receivePacketData P packet dstLen = .ok (next, .ok content)) :
      Move P ring [.received session packet content] (Function.update ring i (some next))

/-- The data packet in a result. Handshake messages are not data. -/
def TunnResult.data? : TunnResult → Option Bytes
  | .writeToNetwork datagram => if leNat (slice datagram 0 4) = data then some datagram else none
  | _ => none

/-- The handshake message in a result. -/
def TunnResult.handshake? : TunnResult → Option Bytes
  | .writeToNetwork datagram =>
      if (TunnResult.writeToNetwork datagram).data? = none then some datagram else none
  | _ => none

theorem leNat_slice_leBytes {kind : Nat} (hkind : kind < 256 ^ 4) (rest : Bytes) :
    leNat (slice (leBytes 4 kind ++ rest) 0 4) = kind := by
  have hfront : slice (leBytes 4 kind ++ rest) 0 4 = leBytes 4 kind := by
    simp [slice]
  rw [hfront, leNat_leBytes, Nat.mod_eq_of_lt hkind]

theorem Session.data_datagram (P : Primitives) (session : Session) (content : Bytes) :
    (TunnResult.writeToNetwork (session.datagram P content)).data? =
      some (session.datagram P content) := by
  simp only [TunnResult.data?, Session.datagram, List.append_assoc]
  rw [leNat_slice_leBytes (by decide), if_pos rfl]

theorem Session.formatPacketData_datagram {P : Primitives} {session next : Session}
    {content datagram : Bytes} {dstLen : Nat}
    (hformat : session.formatPacketData P content dstLen = .ok (next, datagram)) :
    datagram = session.datagram P content :=
  (formatPacketData_eq_ok hformat).2

theorem Handshake.formatHandshakeInitiation_data {P : Primitives} {m : Moment}
    {hs next : Handshake} {dstLen : Nat} {packet : Bytes}
    (hformat : hs.formatHandshakeInitiation P m dstLen = .ok (packet, next)) :
    (TunnResult.writeToNetwork packet).data? = none := by
  simp only [formatHandshakeInitiation] at hformat
  split at hformat
  · cases hformat
  · simp only [appendMac1AndMac2, Except.ok.injEq, Prod.mk.injEq] at hformat
    rw [← hformat.1]
    simp only [TunnResult.data?, List.append_assoc]
    rw [leNat_slice_leBytes (by decide), if_neg (by decide)]

theorem Handshake.receiveHandshakeInitialization_data {P : Primitives} {m : Moment}
    {hs next : Handshake} {p : HandshakeInit} {dstLen : Nat} {packet : Bytes}
    {seed : SessionSeed}
    (hreceive : hs.receiveHandshakeInitialization P m p dstLen = .ok (next, .ok (packet, seed))) :
    (TunnResult.writeToNetwork packet).data? = none := by
  simp only [receiveHandshakeInitialization, formatHandshakeResponse] at hreceive
  split at hreceive
  · cases hreceive
  · split at hreceive
    · cases hreceive
    · split at hreceive
      · cases hreceive
      · split at hreceive
        · cases hreceive
        · split at hreceive
          · cases hreceive
          · split at hreceive
            · cases hreceive
            · simp only [appendMac1AndMac2, Except.ok.injEq, Prod.mk.injEq] at hreceive
              rw [← hreceive.2.1]
              simp only [TunnResult.data?, List.append_assoc]
              rw [leNat_slice_leBytes (by decide), if_neg (by decide)]

namespace Tunn

/-! ## The log of an operation -/

section Logs

variable (P : Primitives) (m : Moment) (t : Tunn)

/-- The log of a packet that is encrypted, if there is a session for it. -/
def sends (src : Bytes) : List Event :=
  match t.sessions (slot t.current) with
  | some session => [.sent session src]
  | none => []

/-- The log of an initiation. -/
def answers (p : HandshakeInit) (dstLen : Nat) : List Event :=
  match t.handshake.receiveHandshakeInitialization P m p dstLen with
  | .ok (_, .ok (_, seed)) => [.established seed]
  | _ => []

/-- The log of a response, which is answered with a keepalive. -/
def completes (p : HandshakeResponse) : List Event :=
  match t.handshake.receiveHandshakeResponse P m p with
  | .ok (_, seed) => [.established seed, .sent (Session.new seed) []]
  | .error _ => []

/-- The log of a data packet. -/
def opens (packet : PacketData) (dstLen : Nat) : List Event :=
  match t.sessions (slot packet.receiverIdx.toNat) with
  | none => []
  | some session =>
      match session.receivePacketData P packet dstLen with
      | .ok (_, .ok content) => [.received session packet content]
      | _ => []

/-- The log of a datagram. -/
def handles (datagram : Bytes) (dstLen : Nat) : List Event :=
  if datagram = [] then t.packetQueue.head?.toList.flatMap t.sends
  else
    match t.rateLimiter.verifyPacket P datagram with
    | (_, .ok (.handshakeInit p)) => t.answers P m p dstLen
    | (_, .ok (.handshakeResponse p)) => t.completes P m p
    | (_, .ok (.packetData p)) => t.opens P p dstLen
    | _ => []

/-- The log of the timers. They send a keepalive or a handshake message, or nothing. -/
def ticks (result : TunnResult) : List Event := if result.data? = none then [] else t.sends []

end Logs

/-- The log explains what became of the sessions and all data in the result. -/
structure Logged (P : Primitives) (t next : Tunn) (result : TunnResult) (log : List Event) :
    Prop where
  trail : Trail (Move P) t.sessions log next.sessions
  datagrams : result.data?.toList = log.filterMap (Event.datagram? P)
  packets : result.packet?.toList = log.filterMap Event.packet?

variable {P : Primitives} {m : Moment} {t next : Tunn} {dstLen : Nat} {result : TunnResult}

@[simp]
theorem timerTick_sessions (name : TimerName) : (t.timerTick name).sessions = t.sessions := rfl

@[simp]
theorem timerTickSessionEstablished_sessions (isInitiator : Bool) (index : Nat) :
    (t.timerTickSessionEstablished isInitiator index).sessions = t.sessions := rfl

@[simp]
theorem setCurrentSession_sessions (index : Nat) :
    (t.setCurrentSession index).sessions = t.sessions := by
  simp only [setCurrentSession]
  split <;> [rfl; split <;> rfl]

@[simp]
theorem validateDecapsulatedPacket_sessions (t : Tunn) (packet : Bytes) :
    (t.validateDecapsulatedPacket packet).1.sessions = t.sessions := by
  simp only [validateDecapsulatedPacket]
  split_ifs <;> rfl

@[simp]
theorem requeuePacket_sessions (packet : Bytes) :
    (t.requeuePacket packet).sessions = t.sessions := by
  simp only [requeuePacket]
  split <;> rfl

@[simp]
theorem slot_mod (index : Nat) : slot (index % nSessions) = slot index :=
  Fin.ext (Nat.mod_mod _ _)

namespace Logged

/-- An operation that leaves the sessions alone and returns no data. -/
theorem silent (hsessions : next.sessions = t.sessions) (hdata : result.data? = none)
    (hpacket : result.packet? = none) : Logged P t next result [] where
  trail := hsessions ▸ .refl _
  datagrams := by rw [hdata]; rfl
  packets := by rw [hpacket]; rfl

/-- The operation starts after sessions were forgotten. -/
theorem after_forget {middle : Tunn} {log : List Event}
    (hkept : ∀ i, middle.sessions i = t.sessions i ∨ middle.sessions i = none)
    (hlogged : Logged P middle next result log) : Logged P t next result log where
  trail := (Trail.single (.forget hkept)).trans hlogged.trail
  datagrams := hlogged.datagrams
  packets := hlogged.packets

theorem congr {t' next' : Tunn} {log : List Event} (hlogged : Logged P t next result log)
    (ht : t'.sessions = t.sessions) (hnext : next'.sessions = next.sessions) :
    Logged P t' next' result log where
  trail := ht ▸ hnext ▸ hlogged.trail
  datagrams := hlogged.datagrams
  packets := hlogged.packets

end Logged

/-! ## Every operation has its log -/

theorem formatHandshakeInitiation_logged {forceResend : Bool}
    (hformat : t.formatHandshakeInitiation P m dstLen forceResend = (next, result)) :
    Logged P t next result [] := by
  have hpacket : result.packet? = none := by
    have hinitiation : (t.formatHandshakeInitiation P m dstLen forceResend).2.packet? = none :=
      formatHandshakeInitiation_packet forceResend
    rwa [hformat] at hinitiation
  simp only [formatHandshakeInitiation] at hformat
  split_ifs at hformat
  · cases hformat
    exact .silent rfl rfl rfl
  all_goals
    split at hformat
    · cases hformat
      exact .silent rfl rfl rfl
    · next hengine =>
        cases hformat
        exact .silent rfl (Handshake.formatHandshakeInitiation_data hengine) hpacket

theorem encapsulate_logged {src : Bytes}
    (hstep : t.encapsulate P m src dstLen = .ok (next, result)) :
    Logged P t next result (t.sends src) := by
  rw [sends]
  cases hsession : t.sessions (slot t.current) with
  | none =>
      rw [encapsulate_noSession P m t hsession, Except.ok.injEq] at hstep
      exact (formatHandshakeInitiation_logged hstep).congr (by simp) rfl
  | some session =>
      simp only [encapsulate, hsession] at hstep
      split at hstep
      · cases hstep
      · next used datagram hformat =>
          cases hstep
          rw [Session.formatPacketData_datagram hformat] at *
          refine ⟨?_, ?_, rfl⟩
          · have hmove : Trail (Move P) t.sessions [.sent session src]
                (Function.update t.sessions (slot t.current) (some used)) :=
              .single (.send hsession hformat)
            split_ifs <;> exact hmove
          · rw [Session.data_datagram]
            rfl

theorem sendQueuedPacket_logged (hstep : t.sendQueuedPacket P m dstLen = .ok (next, result)) :
    Logged P t next result (t.packetQueue.head?.toList.flatMap t.sends) := by
  simp only [sendQueuedPacket] at hstep
  split at hstep
  · next hqueue =>
      cases hstep
      rw [hqueue]
      exact .silent rfl rfl rfl
  · next packet rest hqueue =>
      have hlog : t.packetQueue.head?.toList.flatMap t.sends =
          ({ t with packetQueue := rest } : Tunn).sends packet := by
        simp [hqueue, sends]
      rw [hlog]
      split at hstep
      · cases hstep
      · next hsend =>
          cases hstep
          have hlogged := (encapsulate_logged hsend).congr rfl (requeuePacket_sessions packet)
          exact ⟨hlogged.trail, hlogged.datagrams, hlogged.packets⟩
      · next hsend =>
          cases hstep
          exact (encapsulate_logged hsend).congr rfl rfl

theorem handleHandshakeInit_logged {p : HandshakeInit}
    (hstep : t.handleHandshakeInit P m p dstLen = .ok (next, result)) :
    Logged P t next result (t.answers P m p dstLen) := by
  rw [answers]
  simp only [handleHandshakeInit] at hstep
  split at hstep
  · cases hstep
  · next hreceive =>
      cases hstep
      rw [hreceive]
      exact .silent rfl rfl rfl
  · next seed hreceive =>
      cases hstep
      rw [hreceive]
      exact ⟨.single (.establish seed),
        by rw [Handshake.receiveHandshakeInitialization_data hreceive]; rfl, rfl⟩

/-- The keepalive is the first packet of the new session. -/
theorem establish_send_trail {ring : Ring} {seed : SessionSeed} {session : Session}
    {keepalive : Bytes}
    (hformat : (Session.new seed).formatPacketData P [] dstLen = .ok (session, keepalive)) :
    Trail (Move P) ring [.established seed, .sent (Session.new seed) []]
      (Function.update ring (slot seed.localIndex.toNat) (some session)) := by
  let fresh : Ring := Function.update ring (slot seed.localIndex.toNat) (some (Session.new seed))
  have hslot : fresh (slot seed.localIndex.toNat) = some (Session.new seed) :=
    Function.update_self _ _ _
  have hsent := Move.send hslot hformat
  rw [Function.update_idem] at hsent
  exact (Trail.single (.establish seed)).tail hsent

theorem handleHandshakeResponse_logged {p : HandshakeResponse}
    (hstep : t.handleHandshakeResponse P m p dstLen = .ok (next, result)) :
    Logged P t next result (t.completes P m p) := by
  rw [completes]
  simp only [handleHandshakeResponse] at hstep
  split at hstep
  · next hreceive =>
      cases hstep
      rw [hreceive]
      exact .silent rfl rfl rfl
  · next seed hreceive =>
      split at hstep
      · cases hstep
      · next session keepalive hformat =>
          cases hstep
          rw [hreceive]
          have hindex : session.localIndex = seed.localIndex.toNat := by
            rw [(Session.formatPacketData_eq_ok hformat).1]
            rfl
          refine ⟨?_, ?_, rfl⟩
          · simpa [hindex] using establish_send_trail hformat
          · rw [Session.formatPacketData_datagram hformat, Session.data_datagram]
            rfl

theorem handleCookieReply_logged {p : PacketCookieReply}
    (hstep : t.handleCookieReply P p = (next, result)) : Logged P t next result [] := by
  simp only [handleCookieReply] at hstep
  split at hstep <;> cases hstep <;> exact .silent rfl rfl rfl

theorem validateDecapsulatedPacket_result {content : Bytes}
    (hvalid : t.validateDecapsulatedPacket content = (next, result)) :
    next.sessions = t.sessions ∧ result.packet? = deliverable content ∧ result.data? = none := by
  have hsessions := t.validateDecapsulatedPacket_sessions content
  rw [hvalid] at hsessions
  refine ⟨hsessions, ?_⟩
  rw [← show (t.validateDecapsulatedPacket content).2 = result from congrArg Prod.snd hvalid]
  simp only [validateDecapsulatedPacket, deliverable, ipLength]
  split_ifs with hempty hv4 hshort hv6 hshort
  all_goals simp_all [TunnResult.packet?, TunnResult.data?, ipv4MinHeaderSize, ipv6MinHeaderSize]

theorem handleData_logged {packet : PacketData}
    (hstep : t.handleData P packet dstLen = .ok (next, result)) :
    Logged P t next result (t.opens P packet dstLen) := by
  cases hsession : t.sessions (slot packet.receiverIdx.toNat) with
  | none =>
      simp only [handleData, hsession] at hstep
      simp only [opens, hsession]
      cases hstep
      exact .silent rfl rfl rfl
  | some session =>
      simp only [handleData, hsession] at hstep
      simp only [opens, hsession]
      cases hreceive : session.receivePacketData P packet dstLen with
      | error panic => simp [hreceive] at hstep
      | ok out =>
          obtain ⟨used, received⟩ := out
          cases received with
          | error e =>
              simp only [hreceive, Except.ok.injEq, Prod.mk.injEq] at hstep
              obtain ⟨rfl, rfl⟩ := hstep
              exact .silent rfl rfl rfl
          | ok content =>
              simp only [hreceive, Except.ok.injEq] at hstep
              obtain ⟨hsessions, hpacket, hdata⟩ := validateDecapsulatedPacket_result hstep
              rw [timerTick_sessions, setCurrentSession_sessions] at hsessions
              refine ⟨hsessions ▸ .single (.receive hsession hreceive), by rw [hdata]; rfl, ?_⟩
              rw [hpacket]
              cases hcontent : deliverable content <;> simp [Event.packet?, hcontent]

theorem decapsulate_logged {datagram : Bytes}
    (hstep : t.decapsulate P m datagram dstLen = .ok (next, result)) :
    Logged P t next result (t.handles P m datagram dstLen) := by
  rw [handles]
  simp only [decapsulate] at hstep
  split_ifs at hstep ⊢ with hempty
  · exact sendQueuedPacket_logged hstep
  · split at hstep
    · next hverify =>
        cases hstep
        rw [hverify]
        exact .silent rfl rfl rfl
    · next packet hverify =>
        rw [hverify]
        cases packet with
        | handshakeInit p => exact (handleHandshakeInit_logged hstep).congr rfl rfl
        | handshakeResponse p => exact (handleHandshakeResponse_logged hstep).congr rfl rfl
        | packetCookieReply p =>
            simp only [handleVerifiedPacket, Except.ok.injEq] at hstep
            exact (handleCookieReply_logged hstep).congr rfl rfl
        | packetData p => exact (handleData_logged hstep).congr rfl rfl

theorem sendTimed_logged {handshake keepalive : Bool}
    (hstep : t.sendTimed P m dstLen handshake keepalive = .ok (next, result)) :
    Logged P t next result (t.ticks result) := by
  have hsilent (hlogged : Logged P t next result []) :
      Logged P t next result (t.ticks result) := by
    have hnone : result.data? = none := by simpa using hlogged.datagrams
    rwa [ticks, if_pos hnone]
  simp only [sendTimed] at hstep
  split_ifs at hstep
  · exact hsilent (formatHandshakeInitiation_logged (Except.ok.inj hstep))
  · have hlogged := encapsulate_logged hstep
    by_cases hnone : result.data? = none
    · refine hsilent ?_
      have hlog : t.sends [] = [] := by
        have h := hlogged.datagrams
        rw [hnone] at h
        unfold sends at h ⊢
        cases hsession : t.sessions (slot t.current) <;> simp_all [Event.datagram?]
      rwa [hlog] at hlogged
    · rwa [ticks, if_neg hnone]
  · cases hstep
    exact hsilent (.silent rfl rfl rfl)

/-- A keepalive is sent with a session that the timers did not drop. -/
theorem Logged.ticks_after_forget {middle : Tunn}
    (hkept : ∀ i, middle.sessions i = t.sessions i ∨ middle.sessions i = none)
    (hcurrent : middle.current = t.current)
    (hlogged : Logged P middle next result (middle.ticks result)) :
    Logged P t next result (t.ticks result) := by
  have hlog : middle.ticks result = t.ticks result := by
    have hdata := hlogged.datagrams
    unfold ticks sends at hdata ⊢
    rw [hcurrent] at hdata ⊢
    rcases hkept (slot t.current) with hsame | hgone
    · rw [hsame]
    · rw [hgone] at hdata
      have hnone : result.data? = none := by simpa using hdata
      rw [if_pos hnone, if_pos hnone]
  exact (hlog ▸ hlogged).after_forget hkept

theorem expire_logged {now : Nat} (hstep : t.expire now = (next, result)) :
    Logged P t next result (t.ticks result) := by
  cases hstep
  have hnone (i : Fin nSessions) : (t.expire now).1.sessions i = none := rfl
  exact .after_forget (fun i => .inr (hnone i)) (.silent rfl rfl rfl)

theorem updateTimers_logged (hstep : t.updateTimers P m dstLen = .ok (next, result)) :
    Logged P t next result (t.ticks result) := by
  obtain ⟨last, hticked, hcases⟩ := updateTimers_cases hstep
  refine Logged.ticks_after_forget hticked.kept hticked.current ?_
  rcases hcases with ⟨-, rfl, rfl⟩ | ⟨-, -, hexpire⟩ | ⟨-, -, _, _, hsend, -⟩
  · exact .silent rfl rfl rfl
  · exact expire_logged hexpire
  · exact sendTimed_logged hsend

/-- The timers deliver nothing. -/
theorem updateTimers_packet (hstep : t.updateTimers P m dstLen = .ok (next, result)) :
    result.packet? = none := by
  have hlogged := updateTimers_logged hstep
  have hnone : (t.ticks result).filterMap Event.packet? = [] := by
    unfold ticks sends
    split
    · rfl
    · split <;> rfl
  simpa [hnone] using hlogged.packets

end Tunn

end Newt.Noise
