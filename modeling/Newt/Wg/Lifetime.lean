import Newt.Noise.Clock
import Newt.Wg.Traffic

/-! # Keys expire

The timers drop every session three minutes after it was established. A pump whose timers
run regularly therefore neither encrypts nor decrypts with a key that is older than that,
and a datagram that was recorded is worthless afterwards. All of this takes a clock that
never goes back.
-/

namespace Newt.Noise

open Foundation

/-- The keys of a session, for receiving and for sending. -/
def Session.keys (session : Session) : Bytes × Bytes := (session.receiver, session.sender)

def SessionSeed.keys (seed : SessionSeed) : Bytes × Bytes := (seed.receivingKey, seed.sendingKey)

/-- The session that an event uses. -/
def Event.session? : Event → Option Session
  | .established _ => none
  | .sent session _ => some session
  | .received session _ _ => some session

theorem Session.formatPacketData_keys {P : Primitives} {session next : Session}
    {content datagram : Bytes} {dstLen : Nat}
    (hformat : session.formatPacketData P content dstLen = .ok (next, datagram)) :
    next.keys = session.keys := by
  rw [(formatPacketData_eq_ok hformat).1]
  rfl

theorem Session.receivePacketData_keys {P : Primitives} {session next : Session}
    {packet : PacketData} {content : Bytes} {dstLen : Nat}
    (hreceive : session.receivePacketData P packet dstLen = .ok (next, .ok content)) :
    next.keys = session.keys := by
  obtain ⟨-, -, v, -, rfl⟩ := receivePacketData_eq_ok hreceive
  rfl

namespace Tunn

/-- The sessions of a tunnel whose events are dated. Every session has its birth in the log,
its timer shows a time before that, and the timers have last been read at most three minutes
after that time. A tunnel that gave up has no session and no initiation. -/
structure Dated (log : List (Nat × Event)) (t : Tunn) : Prop where
  born : ∀ i session, t.sessions i = some session → ∃ born seed,
    (born, .established seed) ∈ log ∧ session.keys = seed.keys ∧ t.timers.sessionTimers i ≤ born
  young : ∀ i, t.sessions i ≠ none →
    t.timers.timers .timeCurrent ≤ t.timers.sessionTimers i + rejectAfterTime
  expired : t.handshake.isExpired = true →
    t.handshake.previous = .expired ∧ ∀ i, t.sessions i = none

/-- Every session is one that was there before, and as old as it was. -/
structure Remains (t next : Tunn) : Prop where
  timeCurrent : next.timers.timers .timeCurrent = t.timers.timers .timeCurrent
  sessions : ∀ i session, next.sessions i = some session → ∃ old, t.sessions i = some old ∧
    session.keys = old.keys ∧ next.timers.sessionTimers i = t.timers.sessionTimers i
  handshake : next.handshake.isExpired = true →
    t.handshake.isExpired = true ∧ next.handshake.previous = t.handshake.previous

variable {P : Primitives} {m : Moment} {t next : Tunn} {dstLen : Nat} {result : TunnResult}
  {log : List (Nat × Event)}

theorem Remains.of_eq (hcurrent : next.timers.timers .timeCurrent = t.timers.timers .timeCurrent)
    (hsessions : next.sessions = t.sessions)
    (htimers : next.timers.sessionTimers = t.timers.sessionTimers)
    (hhandshake : next.handshake.isExpired = true →
      t.handshake.isExpired = true ∧ next.handshake.previous = t.handshake.previous) :
    Remains t next where
  timeCurrent := hcurrent
  sessions i session hslot := by
    rw [hsessions] at hslot
    exact ⟨session, hslot, rfl, congrFun htimers i⟩
  handshake := hhandshake

/-- A session was used, and nothing else happened to the ring. -/
theorem Remains.use (hcurrent : next.timers.timers .timeCurrent = t.timers.timers .timeCurrent)
    {i : Fin nSessions} {session used : Session} (hslot : t.sessions i = some session)
    (hkeys : used.keys = session.keys)
    (hsessions : next.sessions = Function.update t.sessions i (some used))
    (htimers : next.timers.sessionTimers = t.timers.sessionTimers)
    (hhandshake : next.handshake = t.handshake) : Remains t next where
  timeCurrent := hcurrent
  sessions j other hother := by
    rw [hsessions] at hother
    by_cases hj : j = i
    · subst hj
      rw [Function.update_self, Option.some.injEq] at hother
      exact ⟨session, hslot, hother ▸ hkeys, congrFun htimers j⟩
    · rw [Function.update_of_ne hj] at hother
      exact ⟨other, hother, rfl, congrFun htimers j⟩
  handshake hexpired := by
    rw [hhandshake] at hexpired ⊢
    exact ⟨hexpired, rfl⟩

namespace Dated

theorem mono (hdated : t.Dated log) (more : List (Nat × Event)) : t.Dated (log ++ more) where
  born i session hslot := by
    obtain ⟨born, seed, hmem, hrest⟩ := hdated.born i session hslot
    exact ⟨born, seed, List.mem_append_left _ hmem, hrest⟩
  young := hdated.young
  expired := hdated.expired

theorem empty (hnone : ∀ i, t.sessions i = none)
    (hexpired : t.handshake.isExpired = true → t.handshake.previous = .expired) :
    t.Dated log where
  born i session hslot := by
    rw [hnone i] at hslot
    cases hslot
  young i hslot := absurd (hnone i) hslot
  expired hnow := ⟨hexpired hnow, hnone⟩

theorem remains (hdated : t.Dated log) (hremains : t.Remains next) : next.Dated log where
  born i session hslot := by
    obtain ⟨old, hold, hkeys, htimer⟩ := hremains.sessions i session hslot
    rw [hkeys, htimer]
    exact hdated.born i old hold
  young i hslot := by
    obtain ⟨session, hsession⟩ := Option.ne_none_iff_exists'.mp hslot
    obtain ⟨old, hold, -, htimer⟩ := hremains.sessions i session hsession
    rw [hremains.timeCurrent, htimer]
    exact hdated.young i (by simp [hold])
  expired hnext := by
    obtain ⟨hexpired, hprevious⟩ := hremains.handshake hnext
    refine ⟨hprevious.trans (hdated.expired hexpired).1, fun i => ?_⟩
    cases hslot : next.sessions i with
    | none => rfl
    | some session =>
        obtain ⟨old, hold, -⟩ := hremains.sessions i session hslot
        rw [(hdated.expired hexpired).2 i] at hold
        cases hold

/-- A new session is as old as the last reading of the timers. -/
theorem establish (hdated : t.Dated log) (hclock : t.timers.timers .timeCurrent ≤ m.now)
    (seed : SessionSeed) (index : Nat) {session : Session} (hkeys : session.keys = seed.keys)
    (hcurrent : next.timers.timers .timeCurrent = t.timers.timers .timeCurrent)
    (hsessions : next.sessions = Function.update t.sessions (slot index) (some session))
    (htimers : next.timers.sessionTimers = Function.update t.timers.sessionTimers (slot index)
      (t.timers.timers .timeCurrent))
    (hexpired : next.handshake.isExpired = false)
    (hmem : (m.now, .established seed) ∈ log) : next.Dated log where
  born i other hslot := by
    rw [hsessions] at hslot
    rw [htimers]
    by_cases hi : i = slot index
    · subst hi
      rw [Function.update_self, Option.some.injEq] at hslot
      rw [Function.update_self]
      exact ⟨m.now, seed, hmem, hslot ▸ hkeys, hclock⟩
    · rw [Function.update_of_ne hi] at hslot ⊢
      exact hdated.born i other hslot
  young i hslot := by
    rw [hsessions] at hslot
    rw [htimers, hcurrent]
    by_cases hi : i = slot index
    · rw [hi, Function.update_self]
      exact Nat.le_add_right _ _
    · rw [Function.update_of_ne hi] at hslot ⊢
      exact hdated.young i hslot
  expired hnext := by
    rw [hexpired] at hnext
    cases hnext

end Dated

/-! ## Every operation keeps the ages -/

@[simp]
theorem setCurrentSession_timers (index : Nat) :
    (t.setCurrentSession index).timers = t.timers := by
  simp only [setCurrentSession]
  split_ifs <;> rfl

@[simp]
theorem setCurrentSession_handshake (index : Nat) :
    (t.setCurrentSession index).handshake = t.handshake := by
  simp only [setCurrentSession]
  split_ifs <;> rfl

@[simp]
theorem validateDecapsulatedPacket_kept (packet : Bytes) :
    (t.validateDecapsulatedPacket packet).1.timers.timers .timeCurrent =
        t.timers.timers .timeCurrent ∧
      (t.validateDecapsulatedPacket packet).1.timers.sessionTimers = t.timers.sessionTimers ∧
      (t.validateDecapsulatedPacket packet).1.handshake = t.handshake := by
  simp only [validateDecapsulatedPacket]
  split_ifs <;> simp

theorem Remains.refl : Remains t t := .of_eq rfl rfl rfl fun hexpired => ⟨hexpired, rfl⟩

theorem formatHandshakeInitiation_dated {forceResend : Bool} (hdated : t.Dated log)
    (hformat : t.formatHandshakeInitiation P m dstLen forceResend = (next, result)) :
    next.Dated log := by
  have hrestarted : (t.restarted m.now).Dated log := by
    cases hexpired : t.handshake.isExpired with
    | true =>
        -- the timers start over, and there is no session
        obtain ⟨hprevious, hnone⟩ := hdated.expired hexpired
        exact .empty (by simpa using hnone) fun _ => by simpa using hprevious
    | false => exact (restarted_of_not_isExpired hexpired).symm ▸ hdated
  rcases formatHandshakeInitiation_cases hformat with
    ⟨-, -, rfl, -⟩ | ⟨-, rfl, -⟩ | ⟨packet, handshake, hengine, rfl, -⟩
  · exact hdated
  · exact hrestarted
  · obtain ⟨-, -, -, sent, -, hstate⟩ := Handshake.formatHandshakeInitiation_cases hengine
    have hexpired : handshake.isExpired = true → False := by
      simp [Handshake.isExpired, hstate]
    refine hrestarted.remains ?_
    split_ifs
    · exact .of_eq (by simp) (by simp) (by simp) fun h => (hexpired (by simpa using h)).elim
    · exact .of_eq (by simp) (by simp) (by simp) fun h => (hexpired (by simpa using h)).elim

theorem encapsulate_dated {src : Bytes} (hdated : t.Dated log)
    (hstep : t.encapsulate P m src dstLen = .ok (next, result)) : next.Dated log := by
  cases hsession : t.sessions (slot t.current) with
  | none =>
      rw [encapsulate_noSession P m t hsession, Except.ok.injEq] at hstep
      refine formatHandshakeInitiation_dated (hdated.remains ?_) hstep
      simp only [queuePacket]
      split_ifs
      · exact .of_eq rfl rfl rfl fun hexpired => ⟨hexpired, rfl⟩
      · exact .refl
  | some session =>
      simp only [encapsulate, hsession] at hstep
      split at hstep
      · cases hstep
      · next used datagram hformat =>
          cases hstep
          refine hdated.remains (.use ?_ hsession (Session.formatPacketData_keys hformat) ?_ ?_ ?_)
          all_goals split_ifs <;> simp

theorem sendQueuedPacket_dated (hdated : t.Dated log)
    (hstep : t.sendQueuedPacket P m dstLen = .ok (next, result)) : next.Dated log := by
  simp only [sendQueuedPacket] at hstep
  split at hstep
  · cases hstep
    exact hdated
  · next packet rest _ =>
      have hrest : ({ t with packetQueue := rest } : Tunn).Dated log :=
        hdated.remains (.of_eq rfl rfl rfl fun hexpired => ⟨hexpired, rfl⟩)
      split at hstep
      · cases hstep
      · next hsend =>
          cases hstep
          refine (encapsulate_dated hrest hsend).remains ?_
          simp only [requeuePacket]
          split_ifs
          · exact .of_eq rfl rfl rfl fun hexpired => ⟨hexpired, rfl⟩
          · exact .refl
      · next hsend =>
          cases hstep
          exact encapsulate_dated hrest hsend

theorem handleHandshakeInit_dated {p : HandshakeInit} (hdated : t.Dated log)
    (hclock : t.timers.timers .timeCurrent ≤ m.now)
    (hstep : t.handleHandshakeInit P m p dstLen = .ok (next, result)) :
    next.Dated (log ++ (t.answers P m p dstLen).map (m.now, ·)) := by
  rw [answers]
  simp only [handleHandshakeInit] at hstep
  split at hstep
  · cases hstep
  · next hreceive =>
      cases hstep
      rw [hreceive]
      refine .mono (hdated.remains ?_) _
      refine .of_eq rfl rfl rfl fun hexpired => ?_
      rcases Handshake.receiveHandshakeInitialization_cases hreceive with
        ⟨rfl, -⟩ | ⟨-, -, -, -, ⟨_, _, _, _, hstate, -⟩ | ⟨hstate, -⟩⟩
      · exact ⟨hexpired, rfl⟩
      · simp [Handshake.isExpired, hstate] at hexpired
      · simp [Handshake.isExpired, hstate] at hexpired
  · next seed hreceive =>
      cases hstep
      rw [hreceive]
      refine (hdated.mono _).establish hclock seed _ rfl ?_ rfl ?_ ?_ (by simp)
      · simp [timerTickSessionEstablished]
      · simp [timerTickSessionEstablished]
      · rcases Handshake.receiveHandshakeInitialization_cases hreceive with
          ⟨-, e, herror⟩ | ⟨-, -, -, -, ⟨_, _, _, _, -, herror⟩ | ⟨hstate, -⟩⟩
        · cases herror
        · cases herror
        · simp [timerTickSessionEstablished, Handshake.isExpired, hstate]

/-- A tunnel that gave up takes no response. -/
theorem handleHandshakeResponse_dated {p : HandshakeResponse} (hdated : t.Dated log)
    (hclock : t.timers.timers .timeCurrent ≤ m.now)
    (hstep : t.handleHandshakeResponse P m p dstLen = .ok (next, result)) :
    next.Dated (log ++ (t.completes P m p).map (m.now, ·)) := by
  rw [completes]
  simp only [handleHandshakeResponse] at hstep
  split at hstep
  · next hreceive =>
      cases hstep
      exact hdated.mono _
  · next handshake seed hreceive =>
      split at hstep
      · cases hstep
      · next session keepalive hformat =>
          cases hstep
          rw [hreceive]
          have hexpired : handshake.isExpired = false := by
            obtain ⟨-, -, sent, hcases⟩ := Handshake.receiveHandshakeResponse_cases hreceive
            rcases hcases with ⟨-, hstate, -⟩ | ⟨hsent, hstate, -⟩
            · simp [Handshake.isExpired, hstate]
            · cases hgone : t.handshake.isExpired with
              | true => cases (hdated.expired hgone).1.symm.trans hsent
              | false => rwa [Handshake.isExpired, hstate]
          refine (hdated.mono _).establish hclock seed session.localIndex
            (Session.formatPacketData_keys hformat) ?_ ?_ ?_ ?_ (by simp)
          · simp [timerTickSessionEstablished]
          · simp
          · simp [timerTickSessionEstablished]
          · simpa [timerTickSessionEstablished] using hexpired

theorem handleData_dated {packet : PacketData} (hdated : t.Dated log)
    (hstep : t.handleData P packet dstLen = .ok (next, result)) : next.Dated log := by
  simp only [handleData] at hstep
  split at hstep
  · cases hstep
    exact hdated
  · next session hsession =>
      split at hstep
      · cases hstep
      · cases hstep
        exact hdated
      · next used content hreceive =>
          rw [Except.ok.injEq] at hstep
          rw [← show _ = next from congrArg Prod.fst hstep]
          have hkeys := Session.receivePacketData_keys hreceive
          refine hdated.remains (.use ?_ hsession hkeys ?_ ?_ ?_)
          all_goals simp

theorem decapsulate_dated {datagram : Bytes} (hdated : t.Dated log)
    (hclock : t.timers.timers .timeCurrent ≤ m.now)
    (hstep : t.decapsulate P m datagram dstLen = .ok (next, result)) :
    next.Dated (log ++ (t.handles P m datagram dstLen).map (m.now, ·)) := by
  rw [handles]
  simp only [decapsulate] at hstep
  split_ifs at hstep ⊢
  · exact (sendQueuedPacket_dated hdated hstep).mono _
  · have hlimited (limiter : RateLimiter) : ({ t with rateLimiter := limiter } : Tunn).Dated log :=
      hdated.remains (.of_eq rfl rfl rfl fun hexpired => ⟨hexpired, rfl⟩)
    split at hstep
    · cases hstep
      exact (hlimited _).mono _
    · next limiter packet hverify =>
        rw [hverify]
        cases packet with
        | handshakeInit p =>
            have hanswered := handleHandshakeInit_dated (hlimited limiter) hclock hstep
            exact hanswered
        | handshakeResponse p =>
            have hcompleted := handleHandshakeResponse_dated (hlimited limiter) hclock hstep
            exact hcompleted
        | packetCookieReply p =>
            refine .mono ((hlimited limiter).remains ?_) _
            have hcookie := Except.ok.inj hstep
            simp only [handleCookieReply] at hcookie
            split at hcookie
            · cases hcookie
              exact .refl
            · next hreceive =>
                cases hcookie
                obtain ⟨-, -, hstate, hprevious⟩ := Handshake.receiveCookieReply_cases hreceive
                refine .of_eq (by simp) rfl (by simp) fun hexpired => ⟨?_, hprevious⟩
                simpa [Handshake.isExpired, hstate] using hexpired
        | packetData p => exact (handleData_dated (hlimited limiter) hstep).mono _

/-- The timers drop what is too old. -/
theorem Ticked.dated {now : Nat} (hticked : t.Ticked now next) (hdated : t.Dated log) :
    next.Dated log := by
  have hslot {i : Fin nSessions} {session : Session} (hsome : next.sessions i = some session) :
      t.sessions i = some session ∧ next.timers.sessionTimers i = t.timers.sessionTimers i ∧
        now ≤ t.timers.sessionTimers i + rejectAfterTime := by
    rw [hticked.sessions] at hsome
    rw [hticked.sessionTimers]
    split_ifs at hsome ⊢ with hage
    exact ⟨hsome, rfl, by omega⟩
  have hhandshake : next.handshake.isExpired = t.handshake.isExpired ∧
      next.handshake.previous = t.handshake.previous := by
    rcases hticked.handshake with h | h <;> rw [h]
    · exact ⟨rfl, rfl⟩
    · exact ⟨rfl, rfl⟩
  refine ⟨fun i session hsome => ?_, fun i hsome => ?_, fun hexpired => ?_⟩
  · obtain ⟨hold, htimer, -⟩ := hslot hsome
    rw [htimer]
    exact hdated.born i session hold
  · obtain ⟨session, hsession⟩ := Option.ne_none_iff_exists'.mp hsome
    obtain ⟨-, htimer, hage⟩ := hslot hsession
    rwa [hticked.timeCurrent, htimer]
  · rw [hhandshake.1] at hexpired
    obtain ⟨hprevious, hnone⟩ := hdated.expired hexpired
    refine ⟨hhandshake.2.trans hprevious, fun i => ?_⟩
    rcases hticked.kept i with hkept | hdropped
    · rw [hkept, hnone i]
    · exact hdropped

theorem updateTimers_dated (hdated : t.Dated log)
    (hstep : t.updateTimers P m dstLen = .ok (next, result)) : next.Dated log := by
  obtain ⟨last, hticked, hcases⟩ := updateTimers_cases hstep
  have hlast := hticked.dated hdated
  rcases hcases with ⟨-, rfl, -⟩ | ⟨-, -, hexpire⟩ | ⟨-, -, handshake, keepalive, hsend, -⟩
  · exact hlast
  · cases hexpire
    exact .empty (fun _ => rfl) fun _ => rfl
  · simp only [sendTimed] at hsend
    split_ifs at hsend
    · exact formatHandshakeInitiation_dated hlast (Except.ok.inj hsend)
    · exact encapsulate_dated hlast hsend
    · cases hsend
      exact hlast

end Tunn

/-! ## Where sessions come from -/

/-- A session was in the ring at first, or is established in the log. -/
def Origin (ring : Ring) (log : List Event) (session : Session) : Prop :=
  (∃ i old, ring i = some old ∧ session.keys = old.keys) ∨
    ∃ seed, .established seed ∈ log ∧ session.keys = seed.keys

section Origin

variable {P : Primitives} {ring now next : Ring} {log more : List Event} {session : Session}

theorem Origin.mono (horigin : Origin ring log session) : Origin ring (log ++ more) session := by
  rcases horigin with hold | ⟨seed, hmem, hkeys⟩
  · exact .inl hold
  · exact .inr ⟨seed, List.mem_append_left _ hmem, hkeys⟩

theorem Origin.congr {other : Session} (horigin : Origin ring log session)
    (hkeys : other.keys = session.keys) : Origin ring log other := by
  rwa [Origin, hkeys]

/-- The sessions in the ring and those that the log uses have their origin. -/
def Founded (ring : Ring) (log : List Event) (now : Ring) : Prop :=
  (∀ i session, now i = some session → Origin ring log session) ∧
    ∀ event ∈ log, ∀ session, event.session? = some session → Origin ring log session

theorem Founded.use (hfounded : Founded ring log now) {i : Fin nSessions} {used : Session}
    {event : Event} (hslot : now i = some session) (hkeys : used.keys = session.keys)
    (hevent : event.session? = some session) :
    Founded ring (log ++ [event]) (Function.update now i (some used)) := by
  have horigin : Origin ring (log ++ [event]) session := (hfounded.1 i session hslot).mono
  refine ⟨fun j other hother => ?_, fun e he other hother => ?_⟩
  · by_cases hj : j = i
    · rw [hj, Function.update_self, Option.some.injEq] at hother
      exact horigin.congr (hother ▸ hkeys)
    · rw [Function.update_of_ne hj] at hother
      exact (hfounded.1 j other hother).mono
  · rcases List.mem_append.mp he with hold | hnew
    · exact (hfounded.2 e hold other hother).mono
    · rw [List.mem_singleton.mp hnew, hevent, Option.some.injEq] at hother
      exact hother ▸ horigin

theorem Founded.move (hfounded : Founded ring log now) (hmove : Move P now more next) :
    Founded ring (log ++ more) next := by
  cases hmove with
  | forget hkept =>
      rw [List.append_nil]
      refine ⟨fun i session hslot => ?_, hfounded.2⟩
      rcases hkept i with hsame | hnone
      · exact hfounded.1 i session (hsame ▸ hslot)
      · rw [hnone] at hslot
        cases hslot
  | establish seed =>
      refine ⟨fun i session hslot => ?_, fun e he session hsession => ?_⟩
      · by_cases hi : i = Tunn.slot seed.localIndex.toNat
        · rw [hi, Function.update_self, Option.some.injEq] at hslot
          exact .inr ⟨seed, by simp, hslot ▸ rfl⟩
        · rw [Function.update_of_ne hi] at hslot
          exact (hfounded.1 i session hslot).mono
      · rcases List.mem_append.mp he with hold | hnew
        · exact (hfounded.2 e hold session hsession).mono
        · rw [List.mem_singleton.mp hnew] at hsession
          cases hsession
  | send hslot hformat => exact hfounded.use hslot (Session.formatPacketData_keys hformat) rfl
  | receive hslot hreceive => exact hfounded.use hslot (Session.receivePacketData_keys hreceive) rfl

theorem founded_of_trail (htrail : Trail (Move P) ring log next) : Founded ring log next := by
  refine htrail.invariant (Founded ring) ⟨fun i session hslot => ?_, by simp⟩ Founded.move
  exact .inl ⟨i, session, hslot, rfl⟩

end Origin

end Newt.Noise

namespace Newt.Wg.Pump

open Foundation Noise

/-- When a call is made. -/
def Call.now : Call → Nat
  | .encapsulate m _ | .decapsulate m _ | .initiateHandshake m | .updateTimers m => m.now

/-- When the timers have last run after the call, if they had at `ticked`. -/
def Call.ticked (ticked : Nat) : Call → Nat
  | .updateTimers m => m.now
  | _ => ticked

/-- The clock never goes back, and every call comes at most `gap` after the timers ran. -/
def Regular (gap : Nat) : Nat → Nat → List Call → Prop
  | _, _, [] => True
  | now, ticked, call :: calls =>
      now ≤ call.now ∧ call.now ≤ ticked + gap ∧ Regular gap call.now (call.ticked ticked) calls

/-- The log of a run with the time of each event. -/
def datedLog (P : Primitives) : Pump → List Call → List (Nat × Event)
  | _, [] => []
  | pump, call :: calls =>
      match pump.perform P call with
      | .error _ => []
      | .ok (next, _, log) => log.map (call.now, ·) ++ datedLog P next calls

variable {P : Primitives} {pump next last : Pump} {calls : List Call} {outs : List Inbound}
  {log : List Event} {prior : List (Nat × Event)}

/-- A call lets the rate limiter see a datagram or lets the timers read the clock, and then
does the rest. -/
theorem Operates.follows {dstLen : Nat} {t next : Tunn} {call : Call} {result : TunnResult}
    (hoperates : Operates P dstLen t next call result log) :
    ∃ middle, (middle = t ∨ (∃ datagram, middle = t.checked P datagram) ∨
      t.Ticked call.now middle) ∧ Tunn.Follows call.now middle next := by
  cases hoperates with
  | encapsulate hengine => exact ⟨t, .inl rfl, Tunn.encapsulate_follows hengine⟩
  | decapsulate hengine => exact ⟨_, .inr (.inl ⟨_, rfl⟩), Tunn.decapsulate_checked hengine⟩
  | initiateHandshake hengine =>
      exact ⟨t, .inl rfl, Tunn.formatHandshakeInitiation_follows hengine⟩
  | updateTimers hengine =>
      obtain ⟨last, hticked, hfollows⟩ := Tunn.updateTimers_ticked hengine
      exact ⟨last, .inr (.inr hticked), hfollows⟩

theorem Operates.handshake {dstLen : Nat} {t next : Tunn} {call : Call} {result : TunnResult}
    (hoperates : Operates P dstLen t next call result log) :
    t.handshake.Follows call.now next.handshake := by
  obtain ⟨middle, hmiddle, hfollows⟩ := hoperates.follows
  refine .trans ?_ hfollows.handshake
  rcases hmiddle with rfl | ⟨datagram, rfl⟩ | hticked
  · exact .refl
  · rw [(Tunn.checked_kept P datagram t).1]
    exact .refl
  · exact hticked.handshake_follows

/-- What a call keeps. -/
theorem Operates.kept {dstLen : Nat} {t next : Tunn} {call : Call} {result : TunnResult}
    (hoperates : Operates P dstLen t next call result log) (htimely : t.Timely call.now) :
    next.Timely call.now ∧ t.timers.timers .timeCurrent ≤ next.timers.timers .timeCurrent ∧
      next.rateLimiter.mac1Key = t.rateLimiter.mac1Key := by
  obtain ⟨middle, hmiddle, hfollows⟩ := hoperates.follows
  have hkept : middle.Timely call.now ∧
      t.timers.timers .timeCurrent ≤ middle.timers.timers .timeCurrent ∧
      middle.rateLimiter.mac1Key = t.rateLimiter.mac1Key := by
    rcases hmiddle with rfl | ⟨datagram, rfl⟩ | hticked
    · exact ⟨htimely, le_refl _, rfl⟩
    · obtain ⟨-, htimers, hkey, -⟩ := Tunn.checked_kept P datagram t
      exact ⟨htimely.checked, by rw [htimers], hkey⟩
    · exact ⟨htimely.ticked hticked, hticked.timeCurrent ▸ htimely.timeCurrent,
        hticked.limiter.1⟩
  obtain ⟨hmiddle, hclock, hkey⟩ := hkept
  have hlater : middle.timers.timers .timeCurrent ≤ next.timers.timers .timeCurrent := by
    have hnow := hmiddle.timeCurrent
    rcases hfollows.timeCurrent with h | h <;> omega
  exact ⟨hfollows.timely hmiddle, hclock.trans hlater, hfollows.rateLimiter ▸ hkey⟩

theorem Operates.dated {dstLen : Nat} {t next : Tunn} {call : Call} {result : TunnResult}
    (hoperates : Operates P dstLen t next call result log) (hdated : t.Dated prior)
    (hclock : t.timers.timers .timeCurrent ≤ call.now) :
    next.Dated (prior ++ log.map (call.now, ·)) := by
  cases hoperates with
  | encapsulate hengine => exact (Tunn.encapsulate_dated hdated hengine).mono _
  | decapsulate hengine => exact Tunn.decapsulate_dated hdated hclock hengine
  | initiateHandshake hengine => exact (Tunn.formatHandshakeInitiation_dated hdated hengine).mono _
  | updateTimers hengine => exact (Tunn.updateTimers_dated hdated hengine).mono _

theorem Operates.ticked {dstLen ticked : Nat} {t next : Tunn} {call : Call} {result : TunnResult}
    (hoperates : Operates P dstLen t next call result log) (htimely : t.Timely call.now)
    (hticked : ticked ≤ t.timers.timers .timeCurrent) :
    call.ticked ticked ≤ next.timers.timers .timeCurrent := by
  have hlater := (hoperates.kept htimely).2.1
  cases hoperates with
  | updateTimers hengine => exact (Tunn.updateTimers_timeCurrent hengine).ge
  | _ => exact hticked.trans hlater

/-- The state of a run after the log `prior`: what holds of its ages at `now`, when the
timers ran at `ticked`. -/
structure Kept (prior : List (Nat × Event)) (now ticked : Nat) (pump : Pump) : Prop where
  dated : pump.tun.Dated prior
  timely : pump.tun.Timely now
  ticked : ticked ≤ pump.tun.timers.timers .timeCurrent
  past : ∀ entry ∈ prior, entry.1 ≤ now

/-- The key that an event uses is in the log and at most `age` old. -/
def Fits (age : Nat) (dated : List (Nat × Event)) (entry : Nat × Event) : Prop :=
  ∀ session, entry.2.session? = some session → ∃ born seed, (born, .established seed) ∈ dated ∧
    session.keys = seed.keys ∧ born ≤ entry.1 ∧ entry.1 ≤ born + age

theorem perform_kept {now ticked : Nat} {call : Call} {out : Inbound}
    (hkept : Kept prior now ticked pump) (hnow : now ≤ call.now)
    (hperform : pump.perform P call = .ok (next, out, log)) :
    Kept (prior ++ log.map (call.now, ·)) call.now (call.ticked ticked) next := by
  obtain ⟨tun, result, rfl, hoperates, -⟩ := perform_operates hperform
  have htimely := hkept.timely.mono hnow
  refine ⟨hoperates.dated hkept.dated htimely.timeCurrent, (hoperates.kept htimely).1,
    hoperates.ticked htimely hkept.ticked, fun entry hentry => ?_⟩
  rcases List.mem_append.mp hentry with hold | hnew
  · exact (hkept.past entry hold).trans hnow
  · obtain ⟨event, -, rfl⟩ := List.mem_map.mp hnew
    exact le_refl _

/-- A session that a call uses was in the ring, and then it is young enough, or it is
established by the call itself. -/
theorem perform_fits {gap now ticked : Nat} {call : Call} {out : Inbound}
    (hkept : Kept prior now ticked pump) (hnow : now ≤ call.now) (hgap : call.now ≤ ticked + gap)
    (hperform : pump.perform P call = .ok (next, out, log)) :
    ∀ entry ∈ log.map (call.now, ·),
      Fits (rejectAfterTime + gap) (prior ++ log.map (call.now, ·)) entry := by
  intro entry hentry session hsession
  obtain ⟨event, hevent, rfl⟩ := List.mem_map.mp hentry
  have hfounded := founded_of_trail (perform_explained hperform).trail
  rcases hfounded.2 event hevent session hsession with ⟨i, old, hslot, hkeys⟩ | ⟨seed, hmem, hkeys⟩
  · obtain ⟨born, seed, hmem, hborn, htimer⟩ := hkept.dated.born i old hslot
    have hyoung := hkept.dated.young i (by simp [hslot])
    have hticked := hkept.ticked
    refine ⟨born, seed, List.mem_append_left _ hmem, hkeys.trans hborn,
      (hkept.past _ hmem).trans hnow, ?_⟩
    dsimp only
    omega
  · refine ⟨call.now, seed, List.mem_append_right _ (List.mem_map_of_mem hmem), hkeys,
      le_refl _, ?_⟩
    exact Nat.le_add_right _ _

theorem run_fits {gap now ticked : Nat} (hkept : Kept prior now ticked pump)
    (hregular : Regular gap now ticked calls)
    (hrun : pump.run P calls = .ok (last, outs, log)) :
    ∀ entry ∈ datedLog P pump calls,
      Fits (rejectAfterTime + gap) (prior ++ datedLog P pump calls) entry := by
  induction calls generalizing pump outs log prior now ticked with
  | nil => simp [datedLog]
  | cons call calls ih =>
      obtain ⟨next, out, first, rest, more, hperform, hrest, rfl, rfl⟩ := run_cons hrun
      obtain ⟨hnow, hgap, hlater⟩ := hregular
      simp only [datedLog, hperform]
      intro entry hentry
      rw [← List.append_assoc]
      rcases List.mem_append.mp hentry with hfirst | hlast
      · intro session hsession
        obtain ⟨born, seed, hmem, hfits⟩ :=
          perform_fits hkept hnow hgap hperform entry hfirst session hsession
        exact ⟨born, seed, List.mem_append_left _ hmem, hfits⟩
      · exact ih (perform_kept hkept hnow hperform) hlater hrest entry hlast

theorem map_datedLog (hrun : pump.run P calls = .ok (last, outs, log)) :
    (datedLog P pump calls).map Prod.snd = log := by
  induction calls generalizing pump outs log with
  | nil =>
      cases hrun
      rfl
  | cons call calls ih =>
      obtain ⟨next, out, first, rest, more, hperform, hrest, rfl, rfl⟩ := run_cons hrun
      simp only [datedLog, hperform, List.map_append, List.map_map, ih hrest]
      simp [Function.comp_def]

variable {secret peerPublic : Bytes} {mtu : Nat} {index : BitVec 32} {durationAtStart : Nat}

theorem kept_withIndex : Kept [] 0 0 (withIndex P secret peerPublic mtu index durationAtStart) where
  dated := .empty (fun _ => rfl) fun hexpired => by cases hexpired
  timely := Tunn.new_timely _ _ _ _ _ _ _
  ticked := Nat.zero_le _
  past := by simp

/-- In every run of a new pump whose timers run at least every `gap`, each packet that is
encrypted or decrypted uses the keys of a handshake at most three minutes and `gap`
earlier. -/
theorem keys_expire {gap : Nat}
    (hrun : (withIndex P secret peerPublic mtu index durationAtStart).run P calls =
      .ok (last, outs, log))
    (hregular : Regular gap 0 0 calls) :
    (datedLog P (withIndex P secret peerPublic mtu index durationAtStart) calls).map Prod.snd =
        log ∧
      ∀ entry ∈ datedLog P (withIndex P secret peerPublic mtu index durationAtStart) calls,
        Fits (rejectAfterTime + gap)
          (datedLog P (withIndex P secret peerPublic mtu index durationAtStart) calls) entry :=
  ⟨map_datedLog hrun, run_fits kept_withIndex hregular hrun⟩

/-- A handshake and a packet with the timers running in between. -/
def aging : List Call :=
  [.updateTimers ⟨secs 1, []⟩, .initiateHandshake ⟨secs 1, []⟩,
    .decapsulate ⟨secs 2, []⟩ ([2, 0, 0, 0, 1, 0, 0, 0, 1, 0, 0, 0] ++ List.replicate 80 0),
    .updateTimers ⟨secs 3, []⟩, .encapsulate ⟨secs 4, []⟩ header]

theorem keys_expire_aging :
    (datedLog Primitives.null twin aging).map Prod.fst = [secs 2, secs 2, secs 4] ∧
      ∀ entry ∈ datedLog Primitives.null twin aging,
        Fits (rejectAfterTime + secs 2) (datedLog Primitives.null twin aging) entry := by
  have hregular : Regular (secs 2) 0 0 aging := by
    simp [aging, Regular, Call.now, Call.ticked, secs]
  have haging := run_eq_ran twin aging (by decide +kernel)
  exact ⟨by decide +kernel, (keys_expire haging hregular).2⟩

/-- A run keeps what the tunnel keeps, and its timers stay behind the clock. -/
theorem run_follows {start now : Nat} (htimely : pump.tun.Timely start)
    (hstart : ∀ call ∈ calls, start ≤ call.now)
    (horder : (calls.map Call.now).Pairwise (· ≤ ·)) (hnow : ∀ call ∈ calls, call.now ≤ now)
    (hlater : start ≤ now) (hrun : pump.run P calls = .ok (last, outs, log)) :
    last.tun.Timely now ∧ last.tun.handshake.params = pump.tun.handshake.params ∧
      last.tun.rateLimiter.mac1Key = pump.tun.rateLimiter.mac1Key := by
  induction calls generalizing pump outs log start with
  | nil =>
      cases hrun
      exact ⟨htimely.mono hlater, rfl, rfl⟩
  | cons call calls ih =>
      obtain ⟨next, out, first, rest, more, hperform, hrest, rfl, rfl⟩ := run_cons hrun
      obtain ⟨tun, result, rfl, hoperates, -⟩ := perform_operates hperform
      obtain ⟨hnext, -, hkey'⟩ :=
        hoperates.kept (htimely.mono (hstart call List.mem_cons_self))
      rw [List.map_cons, List.pairwise_cons] at horder
      obtain ⟨hlast, hparams, hkey⟩ := ih hnext
        (fun later hmem => horder.1 _ (List.mem_map_of_mem hmem)) horder.2
        (fun later hmem => hnow later (List.mem_cons_of_mem _ hmem))
        (hnow call List.mem_cons_self) hrest
      exact ⟨hlast, hparams.trans hoperates.handshake.params, hkey.trans hkey'⟩

/-- With a clock that never goes back, no timer of a new pump is ever ahead of it. So none
of the times that the engine computes by subtraction is negative, and no call panics on
one. -/
theorem timers_never_ahead {now : Nat}
    (hrun : (withIndex P secret peerPublic mtu index durationAtStart).run P calls =
      .ok (last, outs, log))
    (horder : (calls.map Call.now).Pairwise (· ≤ ·)) (hnow : ∀ call ∈ calls, call.now ≤ now) :
    last.tun.Timely now := by
  have hnew : (withIndex P secret peerPublic mtu index durationAtStart).tun.Timely 0 :=
    Tunn.new_timely _ _ _ _ _ _ _
  exact (run_follows hnew (fun _ _ => Nat.zero_le _) horder hnow (Nat.zero_le _) hrun).1

theorem timers_never_ahead_aging :
    (ran twin aging).1.tun.timers.timers .timeCurrent = secs 3 ∧
      (ran twin aging).1.tun.Timely (secs 4) :=
  ⟨by decide +kernel,
    timers_never_ahead (run_eq_ran twin aging (by decide +kernel)) (by decide) (by decide)⟩

end Newt.Wg.Pump
