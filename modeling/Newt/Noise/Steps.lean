import Newt.Noise.Agreement
import Newt.Noise.Buffers

/-! # What the engine can do

One lemma for each operation of the handshake, and one for the timers: which cases it has,
and what it changes in each. All later results about these operations start from here.
-/

namespace Newt.Noise

namespace Handshake

variable {P : Primitives} {m : Moment} {hs next : Handshake} {dstLen : Nat}

/-- A new initiation awaits its response, and the one before it still does. -/
theorem formatHandshakeInitiation_cases {packet : Bytes}
    (hformat : hs.formatHandshakeInitiation P m dstLen = .ok (packet, next)) :
    next.params = hs.params ∧ next.lastHandshakeTimestamp = hs.lastHandshakeTimestamp ∧
      next.previous = hs.state ∧ ∃ sent, sent.timeSent = m.now ∧ next.state = .initSent sent := by
  simp only [formatHandshakeInitiation] at hformat
  split at hformat
  · cases hformat
  · simp only [appendMac1AndMac2, Except.ok.injEq, Prod.mk.injEq] at hformat
    obtain ⟨-, rfl⟩ := hformat
    exact ⟨rfl, rfl, rfl, _, rfl, rfl⟩

/-- An initiation is refused, or its timestamp is newer than the last and it is answered. The
answer may not fit. -/
theorem receiveHandshakeInitialization_cases {packet : HandshakeInit}
    {out : Except WireGuardError (Bytes × SessionSeed)}
    (hreceive : hs.receiveHandshakeInitialization P m packet dstLen = .ok (next, out)) :
    (next = hs ∧ ∃ e, out = .error e) ∨
      (next.params = hs.params ∧ next.previous = hs.state ∧
        hs.timestamp? P packet = some next.lastHandshakeTimestamp ∧
        next.lastHandshakeTimestamp.after hs.lastHandshakeTimestamp = true ∧
        ((∃ hash key ephemeral index, next.state = .initReceived hash key ephemeral index ∧
            out = .error .destinationBufferTooSmall) ∨
          (next.state = .none ∧ ∃ response, out = .ok response))) := by
  simp only [receiveHandshakeInitialization] at hreceive
  split at hreceive
  · cases hreceive
    exact .inl ⟨rfl, _, rfl⟩
  · split at hreceive
    · cases hreceive
      exact .inl ⟨rfl, _, rfl⟩
    · split at hreceive
      · cases hreceive
        exact .inl ⟨rfl, _, rfl⟩
      · next stamp hopen =>
          split at hreceive
          · cases hreceive
            exact .inl ⟨rfl, _, rfl⟩
          · next timestamp hparse =>
              have htimestamp : hs.timestamp? P packet = some timestamp := by
                have hopened : P.aeadChacha20Open ((hs.received P packet).timestampKey P) 0
                    packet.encryptedTimestamp
                    (P.b2sHash ((hs.received P packet).opening P) packet.encryptedStatic) =
                      .ok stamp := hopen
                simp only [timestamp?, hopened, hparse, Except.toOption]
              split at hreceive
              · cases hreceive
                exact .inl ⟨rfl, _, rfl⟩
              · next hnewer =>
                  have hnewer : timestamp.after hs.lastHandshakeTimestamp = true := by
                    simpa using hnewer
                  simp only [formatHandshakeResponse] at hreceive
                  split at hreceive
                  · cases hreceive
                    exact .inr ⟨rfl, rfl, htimestamp, hnewer, .inl ⟨_, _, _, _, rfl, rfl⟩⟩
                  · simp only [appendMac1AndMac2, Except.ok.injEq, Prod.mk.injEq] at hreceive
                    obtain ⟨rfl, rfl⟩ := hreceive
                    exact .inr ⟨rfl, rfl, htimestamp, hnewer, .inr ⟨rfl, _, rfl⟩⟩

/-- A response uses up the initiation that it answers. -/
theorem receiveHandshakeResponse_cases {packet : HandshakeResponse} {seed : SessionSeed}
    (hreceive : hs.receiveHandshakeResponse P m packet = .ok (next, seed)) :
    next.params = hs.params ∧ next.lastHandshakeTimestamp = hs.lastHandshakeTimestamp ∧ ∃ sent,
      (hs.state = .initSent sent ∧ next.state = .none ∧ next.previous = hs.previous) ∨
        (hs.previous = .initSent sent ∧ next.state = hs.state ∧ next.previous = .none) := by
  simp only [receiveHandshakeResponse] at hreceive
  split at hreceive
  · cases hreceive
  · next sent older hawaiting =>
      have hsent : if older then hs.previous = .initSent sent else hs.state = .initSent sent := by
        simp only [awaiting] at hawaiting
        grind
      split at hreceive
      · cases hreceive
      · simp only [Except.ok.injEq, Prod.mk.injEq] at hreceive
        obtain ⟨rfl, -⟩ := hreceive
        cases older
        · exact ⟨rfl, rfl, sent, .inl ⟨hsent, rfl, rfl⟩⟩
        · exact ⟨rfl, rfl, sent, .inr ⟨hsent, rfl, rfl⟩⟩

theorem receiveCookieReply_cases {packet : PacketCookieReply}
    (hreceive : hs.receiveCookieReply P packet = .ok next) :
    next.params = hs.params ∧ next.lastHandshakeTimestamp = hs.lastHandshakeTimestamp ∧
      next.state = hs.state ∧ next.previous = hs.previous := by
  simp only [receiveCookieReply] at hreceive
  split at hreceive
  · cases hreceive
  · split at hreceive
    · cases hreceive
    · split at hreceive
      · cases hreceive
      · split at hreceive <;> cases hreceive
        exact ⟨rfl, rfl, rfl, rfl⟩

end Handshake

namespace Tunn

variable {P : Primitives} {m : Moment} {t next : Tunn} {dstLen : Nat} {result : TunnResult}

theorem timerTick_timers (name : TimerName) : (t.timerTick name).timers.timers =
    Function.update t.timers.timers name (t.timers.timers .timeCurrent) := by
  cases name <;> rfl

@[simp]
theorem timerTick_timeCurrent (name : TimerName) :
    (t.timerTick name).timers.timers .timeCurrent = t.timers.timers .timeCurrent := by
  rw [timerTick_timers]
  by_cases hname : .timeCurrent = name
  · rw [hname, Function.update_self, ← hname]
  · rw [Function.update_of_ne hname]

@[simp]
theorem timerTick_sessionTimers (name : TimerName) :
    (t.timerTick name).timers.sessionTimers = t.timers.sessionTimers := by
  cases name <;> rfl

/-- A tunnel that gave up starts over with its timers. -/
def restarted (t : Tunn) (now : Nat) : Tunn :=
  if t.handshake.isExpired then { t with timers := t.timers.clear now } else t

@[simp]
theorem restarted_handshake {now : Nat} : (t.restarted now).handshake = t.handshake := by
  rw [restarted]
  split_ifs <;> rfl

@[simp]
theorem restarted_sessions {now : Nat} : (t.restarted now).sessions = t.sessions := by
  rw [restarted]
  split_ifs <;> rfl

@[simp]
theorem restarted_sessionTimers {now : Nat} :
    (t.restarted now).timers.sessionTimers = t.timers.sessionTimers := by
  rw [restarted]
  split_ifs <;> rfl

theorem restarted_of_not_isExpired {now : Nat} (hexpired : t.handshake.isExpired = false) :
    t.restarted now = t := by
  rw [restarted, if_neg (by simp [hexpired])]

/-- A handshake is in progress and not forced, or the buffer is too small, or an initiation
is sent. The last sets the start of the attempt unless it repeats an initiation. -/
theorem formatHandshakeInitiation_cases {forceResend : Bool}
    (hformat : t.formatHandshakeInitiation P m dstLen forceResend = (next, result)) :
    (t.handshake.isInProgress = true ∧ forceResend = false ∧ next = t ∧ result = .done) ∨
      (dstLen < handshakeInitSz ∧ next = t.restarted m.now ∧
        result = .err .destinationBufferTooSmall) ∨
      ∃ packet handshake,
        t.handshake.formatHandshakeInitiation P m dstLen = .ok (packet, handshake) ∧
        next = (if t.handshake.isInProgress then { t.restarted m.now with handshake := handshake }
          else ({ t.restarted m.now with handshake := handshake } : Tunn).timerTick
            .timeLastHandshakeStarted).timerTick .timeLastPacketSent ∧
        result = .writeToNetwork packet ∧
        (t.handshake.isInProgress = true → forceResend = true) := by
  simp only [formatHandshakeInitiation] at hformat
  split at hformat
  · next hbusy =>
      simp only [Bool.and_eq_true, Bool.not_eq_true'] at hbusy
      cases hformat
      exact .inl ⟨hbusy.1, hbusy.2, rfl, rfl⟩
  · next hbusy =>
      have hforced : t.handshake.isInProgress = true → forceResend = true := by
        simpa using hbusy
      refine .inr ?_
      rw [← restarted, restarted_handshake] at hformat
      cases hengine : t.handshake.formatHandshakeInitiation P m dstLen with
      | error e =>
          simp only [hengine, Prod.mk.injEq] at hformat
          refine .inl ⟨?_, hformat.1.symm, ?_⟩
          all_goals
            simp only [Handshake.formatHandshakeInitiation] at hengine
            split at hengine
          · assumption
          · cases hengine
          · cases hengine
            exact hformat.2.symm
          · cases hengine
      | ok out =>
          obtain ⟨packet, handshake⟩ := out
          simp only [hengine, Prod.mk.injEq] at hformat
          obtain ⟨rfl, rfl⟩ := hformat
          refine .inr ⟨packet, handshake, rfl, ?_, rfl, hforced⟩
          cases t.handshake.isInProgress <;> rfl

/-- The state of a tunnel when its timers have been read at `now`, before anything is
sent. -/
structure Ticked (t : Tunn) (now : Nat) (last : Tunn) : Prop where
  sessions : ∀ i, last.sessions i =
    if rejectAfterTime < now - t.timers.sessionTimers i then none else t.sessions i
  sessionTimers : ∀ i, last.timers.sessionTimers i =
    if rejectAfterTime < now - t.timers.sessionTimers i then now else t.timers.sessionTimers i
  current : last.current = t.current
  packetQueue : last.packetQueue = t.packetQueue
  handshake : last.handshake = t.handshake ∨ last.handshake = t.handshake.clearCookie
  timeCurrent : last.timers.timers .timeCurrent = now
  timePersistentKeepalive :
    last.timers.timers .timePersistentKeepalive = t.timers.timers .timePersistentKeepalive ∨
      last.timers.timers .timePersistentKeepalive = now
  timers : ∀ name, name ≠ .timeCurrent → name ≠ .timePersistentKeepalive →
    last.timers.timers name = t.timers.timers name
  rateLimiter : last.rateLimiter = t.rateLimiter ∨ last.rateLimiter = t.rateLimiter.resetCount now

/-- The reasons to give up on the peer: no session for nine minutes, or no answer to the
handshake for 90 seconds. -/
def GivesUp (t : Tunn) (now : Nat) : Prop :=
  rejectAfterTime * 3 ≤ now - t.timers.timers .timeSessionEstablished ∨
    (t.handshake.timer ≠ none ∧
      rekeyAttemptTime ≤ now - t.timers.timers .timeLastHandshakeStarted)

theorem Ticked.timer {t last : Tunn} {now : Nat} (hticked : t.Ticked now last) :
    last.handshake.timer = t.handshake.timer := by
  rcases hticked.handshake with hsame | hcleared
  · rw [hsame]
  · rw [hcleared]
    rfl

theorem Ticked.kept {t last : Tunn} {now : Nat} (hticked : t.Ticked now last) (i : Fin nSessions) :
    last.sessions i = t.sessions i ∨ last.sessions i = none := by
  rw [hticked.sessions i]
  split_ifs
  · exact .inr rfl
  · exact .inl rfl

/-- Up to its rate limiter a tunnel is as before. Then the clock is set, and the sessions that
are too old are dropped. -/
theorem ticked_updateSessionTimers {t reset : Tunn} {now : Nat}
    (hreset : ∃ limiter, reset = { t with rateLimiter := limiter } ∧
      (limiter = t.rateLimiter ∨ limiter = t.rateLimiter.resetCount now)) :
    t.Ticked now (updateSessionTimers
      { reset with timers := { reset.timers with
          timers := Function.update reset.timers.timers .timeCurrent now } } now) := by
  obtain ⟨limiter, rfl, hlimiter⟩ := hreset
  exact
    { sessions := fun _ => rfl
      sessionTimers := fun _ => rfl
      current := rfl
      packetQueue := rfl
      handshake := .inl rfl
      timeCurrent := by simp [updateSessionTimers]
      timePersistentKeepalive := by simp [updateSessionTimers]
      timers := fun name hcurrent _ => by simp [updateSessionTimers, hcurrent]
      rateLimiter := hlimiter }

theorem Ticked.tickPersistent {t last : Tunn} {now : Nat} (hticked : t.Ticked now last) :
    t.Ticked now (last.timerTick .timePersistentKeepalive) :=
  { hticked with
    timeCurrent := by simpa [timerTick] using hticked.timeCurrent
    timePersistentKeepalive := .inr (by simpa [timerTick] using hticked.timeCurrent)
    timers := fun name hcurrent hpersistent => by
      simpa [timerTick, hpersistent] using hticked.timers name hcurrent hpersistent }

/-- While no initiation is sent, only the age of the session is a reason to give up. -/
theorem givesUp_iff_of_idle {t : Tunn} {now : Nat} (hidle : t.handshake.timer = none) :
    t.GivesUp now ↔ rejectAfterTime * 3 ≤ now - t.timers.timers .timeSessionEstablished := by
  simp [GivesUp, hidle]

theorem givesUp_iff_of_awaiting {t : Tunn} {now sent : Nat}
    (hawaiting : t.handshake.timer = some sent) :
    t.GivesUp now ↔ rejectAfterTime * 3 ≤ now - t.timers.timers .timeSessionEstablished ∨
      rekeyAttemptTime ≤ now - t.timers.timers .timeLastHandshakeStarted := by
  simp [GivesUp, hawaiting]

/-- An expired tunnel stays expired and sends nothing. Otherwise the tunnel gives up, or it
sends what is due: while an initiation awaits its response only the initiation itself, once
more after five seconds. -/
theorem updateTimers_eq (P : Primitives) (m : Moment) (t : Tunn) (dstLen : Nat) :
    ∃ last, t.Ticked m.now last ∧
      ((t.handshake.isExpired = true ∧
          t.updateTimers P m dstLen = .ok (last, .err .connectionExpired)) ∨
        (t.handshake.isExpired = false ∧ t.GivesUp m.now ∧
          t.updateTimers P m dstLen = .ok (last.expire m.now)) ∨
        (t.handshake.isExpired = false ∧ ¬t.GivesUp m.now ∧ ∃ handshake keepalive,
          t.updateTimers P m dstLen = last.sendTimed P m dstLen handshake keepalive ∧
          ∀ sent, t.handshake.timer = some sent →
            handshake = decide (rekeyTimeout ≤ m.now - sent) ∧ keepalive = false)) := by
  generalize hstep : t.updateTimers P m dstLen = out
  unfold updateTimers at hstep
  extract_lets now reset _ current pruned established started _ _ _ _ cleared _ _ _ _ _ wished
    _ _ _ asked _ ticked at hstep
  have hreset : ∃ limiter, reset = { t with rateLimiter := limiter } ∧
      (limiter = t.rateLimiter ∨ limiter = t.rateLimiter.resetCount now) := by
    simp only [reset]
    split_ifs
    · exact ⟨_, rfl, .inr rfl⟩
    · exact ⟨_, rfl, .inl rfl⟩
  have hpruned : t.Ticked now pruned := ticked_updateSessionTimers hreset
  have hhandshake : pruned.handshake = t.handshake := by
    obtain ⟨_, hsame, -⟩ := hreset
    have hkept : reset.handshake = t.handshake := by rw [hsame]
    exact hkept
  have hestablished : established = t.timers.timers .timeSessionEstablished :=
    hpruned.timers _ (by decide) (by decide)
  have hstarted : started = t.timers.timers .timeLastHandshakeStarted :=
    hpruned.timers _ (by decide) (by decide)
  have hcleared : t.Ticked now cleared := by
    simp only [cleared]
    split_ifs
    · exact { hpruned with handshake := .inr (congrArg Handshake.clearCookie hhandshake) }
    · exact hpruned
  have hwished : t.Ticked now wished := by
    simp only [wished]
    split_ifs
    · exact { hcleared with }
    · exact hcleared
  have hasked : t.Ticked now asked := by
    simp only [asked]
    split_ifs
    · exact { hwished with }
    · exact hwished
  have hticked : t.Ticked now ticked := by
    simp only [ticked]
    split_ifs
    · exact hasked.tickPersistent
    · exact hasked
  have htimer := hcleared.timer
  rw [hhandshake, hestablished, hstarted] at hstep
  clear_value pruned cleared wished asked ticked
  split at hstep
  · next hexpired => exact ⟨_, hpruned, .inl ⟨hexpired, hstep.symm⟩⟩
  · next hexpired =>
      have hexpired := Bool.eq_false_iff.mpr hexpired
      split at hstep
      · next hrejected =>
          exact ⟨cleared, hcleared, .inr (.inl ⟨hexpired, .inl hrejected, hstep.symm⟩)⟩
      · next hrejected =>
          split at hstep
          · next sent hsent =>
              have hawaiting : t.handshake.timer = some sent := htimer ▸ hsent
              rw [givesUp_iff_of_awaiting hawaiting]
              split at hstep
              · next hattempt =>
                  exact ⟨cleared, hcleared, .inr (.inl ⟨hexpired, .inr hattempt, hstep.symm⟩)⟩
              · next hattempt =>
                  refine ⟨cleared, hcleared, .inr (.inr ⟨hexpired,
                    not_or.mpr ⟨hrejected, hattempt⟩, _, _, hstep.symm, ?_⟩)⟩
                  intro other hother
                  cases hawaiting.symm.trans hother
                  exact ⟨rfl, rfl⟩
          · next hidle =>
              have hidle : t.handshake.timer = none := htimer ▸ hidle
              rw [givesUp_iff_of_idle hidle]
              split at hstep
              · exact ⟨wished, hwished, .inr (.inr ⟨hexpired, hrejected, _, _, hstep.symm,
                  by simp [hidle]⟩)⟩
              · exact ⟨ticked, hticked, .inr (.inr ⟨hexpired, hrejected, _, _, hstep.symm,
                  by simp [hidle]⟩)⟩

/-- What a call that returns has done. -/
theorem updateTimers_cases (hstep : t.updateTimers P m dstLen = .ok (next, result)) :
    ∃ last, t.Ticked m.now last ∧
      ((t.handshake.isExpired = true ∧ next = last ∧ result = .err .connectionExpired) ∨
        (t.handshake.isExpired = false ∧ t.GivesUp m.now ∧ last.expire m.now = (next, result)) ∨
        (t.handshake.isExpired = false ∧ ¬t.GivesUp m.now ∧ ∃ handshake keepalive,
          last.sendTimed P m dstLen handshake keepalive = .ok (next, result) ∧
          ∀ sent, t.handshake.timer = some sent →
            handshake = decide (rekeyTimeout ≤ m.now - sent) ∧ keepalive = false)) := by
  obtain ⟨last, hticked, hcases⟩ := updateTimers_eq P m t dstLen
  rw [hstep] at hcases
  refine ⟨last, hticked, ?_⟩
  rcases hcases with ⟨hexpired, heq⟩ | ⟨hexpired, hgivesUp, heq⟩ |
    ⟨hexpired, hstays, handshake, keepalive, heq, hdue⟩
  · cases heq
    exact .inl ⟨hexpired, rfl, rfl⟩
  · exact .inr (.inl ⟨hexpired, hgivesUp, (Except.ok.inj heq).symm⟩)
  · exact .inr (.inr ⟨hexpired, hstays, handshake, keepalive, heq.symm, hdue⟩)

end Tunn

end Newt.Noise
