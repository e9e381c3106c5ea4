import Newt.Noise.Steps

/-! # Timers and the clock

The timers hold readings of the clock, and the engine subtracts them from later readings.
Subtracting a later time from an earlier one would panic. Every operation sets timers only
to the last reading or to the current one, so with a clock that never goes back no timer is
ahead of it.
-/

namespace Newt.Noise

theorem Tai64N.after_trans {a b c : Tai64N} (hab : a.after b = true) (hbc : b.after c = true) :
    a.after c = true := by
  simp only [after] at *
  grind

namespace Handshake

/-- An initiation of ours that a response could still answer. -/
def Sent (hs : Handshake) (sent : HandshakeInitSentState) : Prop :=
  hs.state = .initSent sent ∨ hs.previous = .initSent sent

/-- What a step of the handshake keeps. The last timestamp may become a newer one, and
initiations that await their response were sent before the step or in it. -/
structure Follows (now : Nat) (hs next : Handshake) : Prop where
  params : next.params = hs.params
  timestamp : next.lastHandshakeTimestamp = hs.lastHandshakeTimestamp ∨
    next.lastHandshakeTimestamp.after hs.lastHandshakeTimestamp = true
  sent : ∀ sent, next.Sent sent → hs.Sent sent ∨ sent.timeSent = now

variable {P : Primitives} {m : Moment} {now : Nat} {hs middle next : Handshake} {dstLen : Nat}

theorem Follows.refl : Follows now hs hs := ⟨rfl, .inl rfl, fun _ hsent => .inl hsent⟩

theorem Follows.trans (hfirst : Follows now hs middle) (hsecond : Follows now middle next) :
    Follows now hs next where
  params := hsecond.params.trans hfirst.params
  timestamp := by
    rcases hsecond.timestamp with hsame | hnewer
    · exact hsame ▸ hfirst.timestamp
    · rcases hfirst.timestamp with hold | holder
      · exact .inr (hold ▸ hnewer)
      · exact .inr (Tai64N.after_trans hnewer holder)
  sent s hs := (hsecond.sent s hs).elim (hfirst.sent s) .inr

theorem formatHandshakeInitiation_follows {packet : Bytes}
    (hformat : hs.formatHandshakeInitiation P m dstLen = .ok (packet, next)) :
    Follows m.now hs next := by
  obtain ⟨hparams, hlast, hprevious, sent, htime, hstate⟩ :=
    formatHandshakeInitiation_cases hformat
  refine ⟨hparams, .inl hlast, fun other hother => ?_⟩
  rcases hother with hnew | hold
  · rw [hstate, HandshakeState.initSent.injEq] at hnew
    exact .inr (hnew ▸ htime)
  · exact .inl (.inl (hprevious ▸ hold))

theorem receiveHandshakeInitialization_follows {packet : HandshakeInit}
    {out : Except WireGuardError (Bytes × SessionSeed)}
    (hreceive : hs.receiveHandshakeInitialization P m packet dstLen = .ok (next, out)) :
    Follows now hs next := by
  rcases receiveHandshakeInitialization_cases hreceive with
    ⟨rfl, -⟩ | ⟨hparams, hprevious, -, hnewer, hstate⟩
  · exact .refl
  · refine ⟨hparams, .inr hnewer, fun sent hsent => .inl (.inl ?_)⟩
    rcases hsent with hnew | hold
    · rcases hstate with ⟨_, _, _, _, hreceived, -⟩ | ⟨hnone, -⟩
      · cases hreceived.symm.trans hnew
      · cases hnone.symm.trans hnew
    · exact hprevious ▸ hold

theorem receiveHandshakeResponse_follows {packet : HandshakeResponse} {seed : SessionSeed}
    (hreceive : hs.receiveHandshakeResponse P m packet = .ok (next, seed)) :
    Follows now hs next := by
  obtain ⟨hparams, hlast, answered, hcases⟩ := receiveHandshakeResponse_cases hreceive
  refine ⟨hparams, .inl hlast, fun sent hsent => .inl ?_⟩
  rcases hcases with ⟨-, hstate, hprevious⟩ | ⟨-, hstate, hprevious⟩
  · rcases hsent with hnew | hold
    · cases hstate.symm.trans hnew
    · exact .inr (hprevious ▸ hold)
  · rcases hsent with hold | hnew
    · exact .inl (hstate ▸ hold)
    · cases hprevious.symm.trans hnew

theorem receiveCookieReply_follows {packet : PacketCookieReply}
    (hreceive : hs.receiveCookieReply P packet = .ok next) : Follows now hs next := by
  obtain ⟨hparams, hlast, hstate, hprevious⟩ := receiveCookieReply_cases hreceive
  refine ⟨hparams, .inl hlast, fun sent hsent => .inl ?_⟩
  rwa [Sent, hstate, hprevious] at hsent

end Handshake

namespace Tunn

/-- What a step of the tunnel at `now` keeps, and which times its timers show afterwards:
their own, or a reading of the clock. -/
structure Follows (now : Nat) (t next : Tunn) : Prop where
  handshake : t.handshake.Follows now next.handshake
  rateLimiter : next.rateLimiter = t.rateLimiter
  timeCurrent : next.timers.timers .timeCurrent = t.timers.timers .timeCurrent ∨
    next.timers.timers .timeCurrent = now
  timers : ∀ name, next.timers.timers name = t.timers.timers name ∨
    next.timers.timers name = t.timers.timers .timeCurrent ∨
    next.timers.timers name = next.timers.timers .timeCurrent
  sessionTimers : ∀ i, next.timers.sessionTimers i = t.timers.sessionTimers i ∨
    next.timers.sessionTimers i = t.timers.timers .timeCurrent ∨
    next.timers.sessionTimers i = next.timers.timers .timeCurrent

variable {P : Primitives} {m : Moment} {now : Nat} {t middle next : Tunn} {dstLen : Nat}
  {result : TunnResult}

namespace Follows

/-- A step that does not touch the timers. -/
theorem of_eq (hhandshake : t.handshake.Follows now next.handshake)
    (hlimiter : next.rateLimiter = t.rateLimiter)
    (htimers : next.timers.timers = t.timers.timers)
    (hsessions : next.timers.sessionTimers = t.timers.sessionTimers) : Follows now t next where
  handshake := hhandshake
  rateLimiter := hlimiter
  timeCurrent := .inl (by rw [htimers])
  timers _ := .inl (by rw [htimers])
  sessionTimers _ := .inl (by rw [hsessions])

theorem refl : Follows now t t := .of_eq .refl rfl rfl rfl

theorem trans (hfirst : Follows now t middle) (hsecond : Follows now middle next) :
    Follows now t next where
  handshake := hfirst.handshake.trans hsecond.handshake
  rateLimiter := hsecond.rateLimiter.trans hfirst.rateLimiter
  timeCurrent := by
    rcases hsecond.timeCurrent with h | h
    · rw [h]
      exact hfirst.timeCurrent
    · exact .inr h
  timers name := by
    have hcurrent := hfirst.timeCurrent
    have hlast := hsecond.timeCurrent
    rcases hsecond.timers name with h | h | h
    · rcases hfirst.timers name with h' | h' | h' <;> omega
    · omega
    · omega
  sessionTimers i := by
    have hcurrent := hfirst.timeCurrent
    have hlast := hsecond.timeCurrent
    rcases hsecond.sessionTimers i with h | h | h
    · rcases hfirst.sessionTimers i with h' | h' | h' <;> omega
    · omega
    · omega

end Follows

theorem timerTick_follows (name : TimerName) : Follows now t (t.timerTick name) := by
  refine ⟨.refl, rfl, .inl (timerTick_timeCurrent name), fun other => ?_,
    fun i => .inl (congrFun (timerTick_sessionTimers name) i)⟩
  rw [timerTick_timers]
  by_cases hname : other = name
  · rw [hname, Function.update_self]
    exact .inr (.inl rfl)
  · rw [Function.update_of_ne hname]
    exact .inl rfl

theorem timerTickSessionEstablished_follows (isInitiator : Bool) (index : Nat) :
    Follows now t (t.timerTickSessionEstablished isInitiator index) := by
  refine (timerTick_follows .timeSessionEstablished).trans ?_
  refine ⟨.refl, rfl, .inl rfl, fun _ => .inl rfl, fun i => ?_⟩
  by_cases hslot : i = slot index
  · subst hslot
    exact .inr (.inl (Function.update_self _ _ _))
  · exact .inl (Function.update_of_ne hslot _ _)

theorem setCurrentSession_follows (index : Nat) : Follows now t (t.setCurrentSession index) := by
  simp only [setCurrentSession]
  split_ifs <;> exact .of_eq .refl rfl rfl rfl

theorem clear_follows : Follows now t { t with timers := t.timers.clear now } :=
  ⟨.refl, rfl, .inr rfl, fun _ => .inr (.inr rfl), fun _ => .inl rfl⟩

theorem restarted_follows : Follows now t (t.restarted now) := by
  rw [restarted]
  split_ifs
  · exact clear_follows
  · exact .refl

theorem formatHandshakeInitiation_follows {forceResend : Bool}
    (hformat : t.formatHandshakeInitiation P m dstLen forceResend = (next, result)) :
    Follows m.now t next := by
  rcases formatHandshakeInitiation_cases hformat with
    ⟨-, -, rfl, -⟩ | ⟨-, rfl, -⟩ | ⟨packet, handshake, hengine, rfl, -⟩
  · exact .refl
  · exact restarted_follows
  · have hinitiated : Handshake.Follows m.now (t.restarted m.now).handshake handshake := by
      rw [restarted_handshake]
      exact Handshake.formatHandshakeInitiation_follows hengine
    have hset : Follows m.now (t.restarted m.now)
        { t.restarted m.now with handshake := handshake } := .of_eq hinitiated rfl rfl rfl
    refine (restarted_follows.trans hset).trans (.trans ?_ (timerTick_follows _))
    split_ifs
    · exact .refl
    · exact timerTick_follows _

theorem encapsulate_follows {src : Bytes}
    (hstep : t.encapsulate P m src dstLen = .ok (next, result)) : Follows m.now t next := by
  cases hsession : t.sessions (slot t.current) with
  | none =>
      rw [encapsulate_noSession P m t hsession, Except.ok.injEq] at hstep
      refine .trans ?_ (formatHandshakeInitiation_follows hstep)
      simp only [queuePacket]
      split_ifs <;> exact .of_eq .refl rfl rfl rfl
  | some session =>
      simp only [encapsulate, hsession] at hstep
      split at hstep
      · cases hstep
      · next used datagram _ =>
          cases hstep
          let stored : Tunn := { t with
            sessions := Function.update t.sessions (slot t.current) (some used) }
          have hstored : Follows m.now t stored := .of_eq .refl rfl rfl rfl
          have hsent := hstored.trans (timerTick_follows .timeLastPacketSent)
          split_ifs
          · exact (hsent.trans (timerTick_follows .timeLastDataPacketSent)).trans
              (.of_eq .refl rfl rfl rfl)
          · exact hsent.trans (.of_eq .refl rfl rfl rfl)

theorem sendQueuedPacket_follows (hstep : t.sendQueuedPacket P m dstLen = .ok (next, result)) :
    Follows m.now t next := by
  simp only [sendQueuedPacket] at hstep
  split at hstep
  · cases hstep
    exact .refl
  · next packet rest _ =>
      have hrest : Follows m.now t { t with packetQueue := rest } := .of_eq .refl rfl rfl rfl
      split at hstep
      · cases hstep
      · next hsend =>
          cases hstep
          refine (hrest.trans (encapsulate_follows hsend)).trans ?_
          simp only [requeuePacket]
          split_ifs <;> exact .of_eq .refl rfl rfl rfl
      · next hsend =>
          cases hstep
          exact hrest.trans (encapsulate_follows hsend)

theorem handleHandshakeInit_follows {p : HandshakeInit}
    (hstep : t.handleHandshakeInit P m p dstLen = .ok (next, result)) : Follows m.now t next := by
  simp only [handleHandshakeInit] at hstep
  split at hstep
  · cases hstep
  · next hreceive =>
      cases hstep
      exact .of_eq (Handshake.receiveHandshakeInitialization_follows hreceive) rfl rfl rfl
  · next handshake packet seed hreceive =>
      cases hstep
      let stored : Tunn := { t with
        handshake := handshake
        sessions := Function.update t.sessions (slot (Session.new seed).localIndex)
          (some (Session.new seed)) }
      have hstored : Follows m.now t stored :=
        .of_eq (Handshake.receiveHandshakeInitialization_follows hreceive) rfl rfl rfl
      exact ((hstored.trans (timerTick_follows _)).trans (timerTick_follows _)).trans
        (timerTickSessionEstablished_follows _ _)

theorem handleHandshakeResponse_follows {p : HandshakeResponse}
    (hstep : t.handleHandshakeResponse P m p dstLen = .ok (next, result)) :
    Follows m.now t next := by
  simp only [handleHandshakeResponse] at hstep
  split at hstep
  · cases hstep
    exact .refl
  · next handshake seed hreceive =>
      split at hstep
      · cases hstep
      · next session _ _ =>
          cases hstep
          let stored : Tunn := { t with
            handshake := handshake
            sessions := Function.update t.sessions (slot (session.localIndex % nSessions))
              (some session) }
          have hstored : Follows m.now t stored :=
            .of_eq (Handshake.receiveHandshakeResponse_follows hreceive) rfl rfl rfl
          exact ((hstored.trans (timerTick_follows _)).trans
            (timerTickSessionEstablished_follows _ _)).trans (setCurrentSession_follows _)

theorem handleCookieReply_follows {p : PacketCookieReply}
    (hstep : t.handleCookieReply P p = (next, result)) : Follows now t next := by
  simp only [handleCookieReply] at hstep
  split at hstep
  · cases hstep
    exact .refl
  · next handshake hreceive =>
      cases hstep
      have hset : Follows now t { t with handshake := handshake } :=
        .of_eq (Handshake.receiveCookieReply_follows hreceive) rfl rfl rfl
      exact (hset.trans (timerTick_follows _)).trans (timerTick_follows _)

theorem validateDecapsulatedPacket_follows (packet : Bytes) :
    Follows now t (t.validateDecapsulatedPacket packet).1 := by
  have haccepted (length : Nat) : Follows now t
      { t.timerTick .timeLastDataPacketReceived with
        rxBytes := (t.timerTick .timeLastDataPacketReceived).rxBytes + length } :=
    (timerTick_follows _).trans (.of_eq .refl rfl rfl rfl)
  simp only [validateDecapsulatedPacket]
  split_ifs
  all_goals first | exact .refl | exact haccepted _

theorem handleData_follows {packet : PacketData}
    (hstep : t.handleData P packet dstLen = .ok (next, result)) : Follows now t next := by
  simp only [handleData] at hstep
  split at hstep
  · cases hstep
    exact .refl
  · split at hstep
    · cases hstep
    · cases hstep
      exact .refl
    · next used content _ =>
        rw [Except.ok.injEq] at hstep
        let stored : Tunn := { t with
          sessions := Function.update t.sessions (slot packet.receiverIdx.toNat) (some used) }
        have hstored : Follows now t stored := .of_eq .refl rfl rfl rfl
        rw [← show _ = next from congrArg Prod.fst hstep]
        exact ((hstored.trans (setCurrentSession_follows _)).trans (timerTick_follows _)).trans
          (validateDecapsulatedPacket_follows content)

/-- The tunnel when the rate limiter has seen the datagram. An empty one only asks for
queued packets. -/
def checked (P : Primitives) (datagram : Bytes) (t : Tunn) : Tunn :=
  if datagram = [] then t
  else { t with rateLimiter := (t.rateLimiter.verifyPacket P datagram).1 }

/-- The rate limiter sees a datagram first. -/
theorem decapsulate_checked {datagram : Bytes}
    (hstep : t.decapsulate P m datagram dstLen = .ok (next, result)) :
    Follows m.now (t.checked P datagram) next := by
  simp only [decapsulate, checked] at hstep ⊢
  split_ifs at hstep ⊢
  · exact sendQueuedPacket_follows hstep
  · split at hstep
    · next hverify =>
        cases hstep
        rw [hverify]
        exact .refl
    · next packet hverify =>
        rw [hverify]
        cases packet with
        | handshakeInit p => exact handleHandshakeInit_follows hstep
        | handshakeResponse p => exact handleHandshakeResponse_follows hstep
        | packetCookieReply p => exact handleCookieReply_follows (Except.ok.inj hstep)
        | packetData p => exact handleData_follows hstep

/-- The timers read the clock first. -/
theorem updateTimers_ticked (hstep : t.updateTimers P m dstLen = .ok (next, result)) :
    ∃ last, t.Ticked m.now last ∧ Follows m.now last next := by
  obtain ⟨last, hticked, hcases⟩ := updateTimers_cases hstep
  refine ⟨last, hticked, ?_⟩
  rcases hcases with ⟨-, rfl, -⟩ | ⟨-, -, hexpire⟩ | ⟨-, -, handshake, keepalive, hsend, -⟩
  · exact .refl
  · cases hexpire
    have hexpired : Handshake.Follows m.now last.handshake last.handshake.setExpired := by
      refine ⟨rfl, .inl rfl, fun sent hsent => ?_⟩
      rcases hsent with hnone | hnone <;> cases hnone
    exact ⟨hexpired, rfl, .inr rfl, fun _ => .inr (.inr rfl), fun _ => .inl rfl⟩
  · simp only [sendTimed] at hsend
    split_ifs at hsend
    · exact formatHandshakeInitiation_follows (Except.ok.inj hsend)
    · exact encapsulate_follows hsend
    · cases hsend
      exact .refl

theorem updateTimers_timeCurrent (hstep : t.updateTimers P m dstLen = .ok (next, result)) :
    next.timers.timers .timeCurrent = m.now := by
  obtain ⟨last, hticked, hfollows⟩ := updateTimers_ticked hstep
  exact hfollows.timeCurrent.elim (·.trans hticked.timeCurrent) id

/-- No timer is ahead of the last reading of the clock, which is not ahead of `now`. The
engine subtracts these times from `now`. -/
structure Timely (now : Nat) (t : Tunn) : Prop where
  timeCurrent : t.timers.timers .timeCurrent ≤ now
  timers : ∀ name, t.timers.timers name ≤ t.timers.timers .timeCurrent
  sessionTimers : ∀ i, t.timers.sessionTimers i ≤ t.timers.timers .timeCurrent
  sent : ∀ sent, t.handshake.Sent sent → sent.timeSent ≤ now
  lastReset : t.rateLimiter.lastReset ≤ now

theorem Timely.mono {later : Nat} (htimely : t.Timely now) (hlater : now ≤ later) :
    t.Timely later where
  timeCurrent := Nat.le_trans htimely.timeCurrent hlater
  timers := htimely.timers
  sessionTimers := htimely.sessionTimers
  sent sent hsent := Nat.le_trans (htimely.sent sent hsent) hlater
  lastReset := Nat.le_trans htimely.lastReset hlater

/-- A step keeps the timers behind the clock. -/
theorem Follows.timely (hfollows : Follows now t next) (htimely : t.Timely now) :
    next.Timely now := by
  have hclock : t.timers.timers .timeCurrent ≤ next.timers.timers .timeCurrent ∧
      next.timers.timers .timeCurrent ≤ now := by
    have hnow := htimely.timeCurrent
    rcases hfollows.timeCurrent with h | h <;> omega
  refine ⟨hclock.2, fun name => ?_, fun i => ?_, fun sent hsent => ?_, ?_⟩
  · have htimer := htimely.timers name
    rcases hfollows.timers name with h | h | h <;> omega
  · have htimer := htimely.sessionTimers i
    rcases hfollows.sessionTimers i with h | h | h <;> omega
  · rcases hfollows.handshake.sent sent hsent with hold | hnew
    · exact htimely.sent sent hold
    · exact Nat.le_of_eq hnew
  · exact hfollows.rateLimiter ▸ htimely.lastReset

/-- The limiter counts a datagram, and nothing else changes. -/
theorem checked_kept (P : Primitives) (datagram : Bytes) (t : Tunn) :
    (t.checked P datagram).handshake = t.handshake ∧ (t.checked P datagram).timers = t.timers ∧
      (t.checked P datagram).rateLimiter.mac1Key = t.rateLimiter.mac1Key ∧
      (t.checked P datagram).rateLimiter.lastReset = t.rateLimiter.lastReset := by
  simp only [checked, RateLimiter.verifyPacket]
  split
  · exact ⟨rfl, rfl, rfl, rfl⟩
  · split
    · exact ⟨rfl, rfl, rfl, rfl⟩
    · split
      · split_ifs <;> exact ⟨rfl, rfl, rfl, rfl⟩
      · split_ifs <;> exact ⟨rfl, rfl, rfl, rfl⟩
      · exact ⟨rfl, rfl, rfl, rfl⟩

theorem Timely.checked {datagram : Bytes} (htimely : t.Timely now) :
    (t.checked P datagram).Timely now := by
  obtain ⟨hhandshake, htimers, -, hreset⟩ := checked_kept P datagram t
  constructor
  case timeCurrent => exact htimers ▸ htimely.timeCurrent
  case timers => exact htimers ▸ htimely.timers
  case sessionTimers => exact htimers ▸ htimely.sessionTimers
  case sent => exact hhandshake ▸ htimely.sent
  case lastReset => exact hreset ▸ htimely.lastReset

/-- The limiter is reset or not, but its key stays. -/
theorem Ticked.limiter (hticked : t.Ticked now next) :
    next.rateLimiter.mac1Key = t.rateLimiter.mac1Key ∧
      (next.rateLimiter.lastReset = t.rateLimiter.lastReset ∨
        next.rateLimiter.lastReset = now) := by
  rcases hticked.rateLimiter with h | h <;> rw [h]
  · exact ⟨rfl, .inl rfl⟩
  · rw [RateLimiter.resetCount]
    split_ifs
    · exact ⟨rfl, .inr rfl⟩
    · exact ⟨rfl, .inl rfl⟩

theorem Ticked.handshake_follows (hticked : t.Ticked now next) :
    t.handshake.Follows now next.handshake := by
  rcases hticked.handshake with h | h <;> rw [h]
  · exact .refl
  · exact ⟨rfl, .inl rfl, fun _ hsent => .inl hsent⟩

theorem Timely.ticked (htimely : t.Timely now) (hticked : t.Ticked now next) :
    next.Timely now := by
  have htime := hticked.timeCurrent
  have hclock := htimely.timeCurrent
  constructor
  case timeCurrent => exact Nat.le_of_eq htime
  case timers =>
    intro name
    have hname := htimely.timers name
    by_cases hcurrent : name = .timeCurrent
    · exact Nat.le_of_eq (congrArg _ hcurrent)
    · by_cases hpersistent : name = .timePersistentKeepalive
      · subst hpersistent
        rcases hticked.timePersistentKeepalive with h | h <;> omega
      · rw [hticked.timers name hcurrent hpersistent]
        omega
  case sessionTimers =>
    intro i
    have hi := htimely.sessionTimers i
    rw [hticked.sessionTimers]
    split_ifs <;> omega
  case sent =>
    intro sent hsent
    rcases hticked.handshake_follows.sent sent hsent with hold | hnew
    · exact htimely.sent sent hold
    · exact Nat.le_of_eq hnew
  case lastReset =>
    have hreset := htimely.lastReset
    rcases hticked.limiter.2 with h | h <;> omega

theorem new_timely (staticPrivate peerStaticPublic : Bytes) (presharedKey : Option Bytes)
    (persistentKeepalive : Option Nat) (index : BitVec 32) (durationAtStart now : Nat) :
    (Tunn.new P staticPrivate peerStaticPublic presharedKey persistentKeepalive index
      durationAtStart).Timely now := by
  refine ⟨Nat.zero_le _, fun _ => Nat.le_refl _, fun _ => Nat.le_refl _, fun sent hsent => ?_,
    Nat.zero_le _⟩
  rcases hsent with hnone | hnone <;> cases hnone

end Tunn

end Newt.Noise
