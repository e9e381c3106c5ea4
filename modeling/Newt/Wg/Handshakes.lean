import Newt.Wg.Lifetime

/-! # Which handshake messages a pump accepts

Whoever can send datagrams to a pump can repeat the handshake messages of the peer, or
make up any number of their own. An initiation is accepted at most once, however often it
is repeated. And the rate limiter lets only ten messages a second through to the public
key operations.
-/

namespace Newt.Noise

open Foundation

theorem Handshake.timestamp?_congr {P : Primitives} {a b : Handshake}
    (hparams : a.params = b.params) (p : HandshakeInit) :
    a.timestamp? P p = b.timestamp? P p := by
  simp only [timestamp?, received, hparams]

namespace RateLimiter

/-- Whether a datagram is a handshake message that the limiter lets through. -/
def passes (P : Primitives) (limiter : RateLimiter) (datagram : Bytes) : Bool :=
  match (limiter.verifyPacket P datagram).2 with
  | .ok (.handshakeInit _) | .ok (.handshakeResponse _) => true
  | _ => false

/-- The limiter ignores a datagram, or counts it and lets it through if the limit allows. -/
theorem verifyPacket_cases (P : Primitives) (limiter : RateLimiter) (datagram : Bytes) :
    ((limiter.verifyPacket P datagram).1 = limiter ∧ limiter.passes P datagram = false) ∨
      ((limiter.verifyPacket P datagram).1 =
          { limiter with count := (limiter.count + 1) % 2 ^ 64 } ∧
        (limiter.passes P datagram = true ↔ limiter.count < limiter.limit)) := by
  simp only [passes, verifyPacket]
  split
  · exact .inl ⟨rfl, rfl⟩
  · next packet hparse =>
      cases packet with
      | handshakeInit p =>
          dsimp only
          split_ifs with hmac hload
          · exact .inl ⟨rfl, rfl⟩
          · exact .inr ⟨rfl, by simpa using hload⟩
          · exact .inr ⟨rfl, by simpa using hload⟩
      | handshakeResponse p =>
          dsimp only
          split_ifs with hmac hload
          · exact .inl ⟨rfl, rfl⟩
          · exact .inr ⟨rfl, by simpa using hload⟩
          · exact .inr ⟨rfl, by simpa using hload⟩
      | packetCookieReply p => exact .inl ⟨rfl, rfl⟩
      | packetData p => exact .inl ⟨rfl, rfl⟩

end RateLimiter

namespace Tunn

variable {P : Primitives} {m : Moment} {t next : Tunn} {dstLen : Nat} {result : TunnResult}

/-- The initiation in a datagram, if the tunnel accepts it. -/
def accepts (P : Primitives) (m : Moment) (t : Tunn) (datagram : Bytes) (dstLen : Nat) :
    Option HandshakeInit :=
  if datagram = [] then none
  else
    match t.rateLimiter.verifyPacket P datagram with
    | (_, .ok (.handshakeInit p)) =>
        match t.handshake.receiveHandshakeInitialization P m p dstLen with
        | .ok (_, .ok _) => some p
        | _ => none
    | _ => none

/-- The tunnel remembers the timestamp of an initiation that it accepts. -/
theorem decapsulate_accepts {datagram : Bytes} {p : HandshakeInit}
    (hstep : t.decapsulate P m datagram dstLen = .ok (next, result))
    (haccepts : t.accepts P m datagram dstLen = some p) :
    t.handshake.timestamp? P p = some next.handshake.lastHandshakeTimestamp ∧
      next.handshake.lastHandshakeTimestamp.after t.handshake.lastHandshakeTimestamp = true := by
  simp only [accepts, decapsulate] at haccepts hstep
  split_ifs at haccepts hstep
  split at haccepts
  · next limiter q hverify =>
      rw [hverify] at hstep
      simp only [handleVerifiedPacket, handleHandshakeInit] at hstep
      split at haccepts
      · next handshake out hreceive =>
          cases haccepts
          simp only [hreceive] at hstep
          cases hstep
          rcases Handshake.receiveHandshakeInitialization_cases hreceive with
            ⟨-, e, herror⟩ | ⟨-, -, htimestamp, hnewer, -⟩
          · cases herror
          · exact ⟨htimestamp, hnewer⟩
      · cases haccepts
  · cases haccepts

end Tunn

end Newt.Noise

namespace Newt.Wg.Pump

open Foundation Noise

variable {P : Primitives} {pump next last : Pump} {calls : List Call} {outs : List Inbound}
  {log : List Event}

/-- The initiation that a call accepts. -/
def Call.accepts (P : Primitives) (pump : Pump) : Call → Option HandshakeInit
  | .decapsulate m datagram => pump.tun.accepts P m datagram pump.scratch
  | _ => none

/-- The initiations that a run accepts, in order. -/
def acceptedInitiations (P : Primitives) : Pump → List Call → List HandshakeInit
  | _, [] => []
  | pump, call :: calls =>
      match pump.perform P call with
      | .error _ => []
      | .ok (next, _, _) => (call.accepts P pump).toList ++ acceptedInitiations P next calls

/-- The second initiation has the later timestamp. -/
def Supersedes (P : Primitives) (hs : Handshake) (p q : HandshakeInit) : Prop :=
  ∃ s t, hs.timestamp? P p = some s ∧ hs.timestamp? P q = some t ∧ t.after s = true

theorem perform_accepts {call : Call} {out : Inbound} {p : HandshakeInit}
    (hperform : pump.perform P call = .ok (next, out, log))
    (haccepts : call.accepts P pump = some p) :
    pump.tun.handshake.timestamp? P p = some next.tun.handshake.lastHandshakeTimestamp ∧
      next.tun.handshake.lastHandshakeTimestamp.after
        pump.tun.handshake.lastHandshakeTimestamp = true := by
  obtain ⟨tun, result, rfl, hoperates, -⟩ := perform_operates hperform
  cases hoperates with
  | decapsulate hengine => exact Tunn.decapsulate_accepts hengine haccepts
  | _ => cases haccepts

/-- Whatever a run accepts is newer than what was accepted before, and in order. -/
theorem run_accepted (hrun : pump.run P calls = .ok (last, outs, log)) :
    (∀ p ∈ acceptedInitiations P pump calls, ∃ t, pump.tun.handshake.timestamp? P p = some t ∧
        t.after pump.tun.handshake.lastHandshakeTimestamp = true) ∧
      (acceptedInitiations P pump calls).Pairwise (Supersedes P pump.tun.handshake) := by
  induction calls generalizing pump outs log with
  | nil => exact ⟨by simp [acceptedInitiations], .nil⟩
  | cons call calls ih =>
      obtain ⟨next, out, first, rest, more, hperform, hrest, rfl, rfl⟩ := run_cons hrun
      obtain ⟨hnewer, hpairwise⟩ := ih hrest
      obtain ⟨tun, result, rfl, hoperates, -⟩ := perform_operates hperform
      have hfollows := hoperates.handshake
      have hsame (p : HandshakeInit) :
          tun.handshake.timestamp? P p = pump.tun.handshake.timestamp? P p :=
        Handshake.timestamp?_congr hfollows.params p
      have hrelation : Supersedes P tun.handshake = Supersedes P pump.tun.handshake := by
        funext p q
        simp only [Supersedes, hsame]
      simp only [hsame] at hnewer
      rw [hrelation] at hpairwise
      simp only [acceptedInitiations, hperform]
      cases haccepts : call.accepts P pump with
      | none =>
          refine ⟨fun p hp => ?_, hpairwise⟩
          obtain ⟨t, ht, hafter⟩ := hnewer p hp
          refine ⟨t, ht, ?_⟩
          rcases hfollows.timestamp with hkept | hlater
          · exact hkept ▸ hafter
          · exact Tai64N.after_trans hafter hlater
      | some q =>
          obtain ⟨hq, hlater⟩ := perform_accepts hperform haccepts
          refine ⟨fun p hp => ?_, ?_⟩
          · rcases List.mem_cons.mp hp with rfl | hp
            · exact ⟨_, hq, hlater⟩
            · obtain ⟨t, ht, hafter⟩ := hnewer p hp
              exact ⟨t, ht, Tai64N.after_trans hafter hlater⟩
          · refine List.pairwise_cons.mpr ⟨fun p hp => ?_, hpairwise⟩
            obtain ⟨t, ht, hafter⟩ := hnewer p hp
            exact ⟨_, t, hq, ht, hafter⟩

theorem Supersedes.ne {hs : Handshake} {p q : HandshakeInit} (hsupersedes : Supersedes P hs p q) :
    p ≠ q := by
  rintro rfl
  obtain ⟨s, t, hs, ht, hafter⟩ := hsupersedes
  cases hs.symm.trans ht
  simp [Tai64N.after] at hafter

variable {secret peerPublic : Bytes} {mtu : Nat} {index : BitVec 32} {durationAtStart : Nat}

/-- In every run of a new pump, the initiations that it accepts carry increasing
timestamps. So it accepts none of them twice. -/
theorem initiations_accepted_once
    (hrun : (withIndex P secret peerPublic mtu index durationAtStart).run P calls =
      .ok (last, outs, log)) :
    (acceptedInitiations P (withIndex P secret peerPublic mtu index durationAtStart) calls).Pairwise
        (Supersedes P (withIndex P secret peerPublic mtu index durationAtStart).tun.handshake) ∧
      (acceptedInitiations P (withIndex P secret peerPublic mtu index durationAtStart)
        calls).Nodup := by
  have hpairwise := (run_accepted hrun).2
  exact ⟨hpairwise, hpairwise.imp fun hsupersedes => hsupersedes.ne⟩

/-- The initiation arrives twice, and the second time it is not accepted. -/
theorem initiations_accepted_once_repeated :
    (acceptedInitiations Primitives.null twin (answering.take 1 ++ answering)).length = 1 ∧
      (acceptedInitiations Primitives.null twin (answering.take 1 ++ answering)).Nodup := by
  have hrun := run_eq_ran twin (answering.take 1 ++ answering) (by decide +kernel)
  exact ⟨by decide +kernel, (initiations_accepted_once hrun).2⟩

/-! ## The rate limiter -/

/-- The number of handshake messages that a call lets through to the handshake. -/
def Call.passes (P : Primitives) (pump : Pump) : Call → Nat
  | .decapsulate _ datagram => if pump.tun.rateLimiter.passes P datagram then 1 else 0
  | _ => 0

/-- The number of handshake messages that a run lets through. -/
def passed (P : Primitives) : Pump → List Call → Nat
  | _, [] => 0
  | pump, call :: calls =>
      match pump.perform P call with
      | .error _ => 0
      | .ok (next, _, _) => call.passes P pump + passed P next calls

/-- What the limiter knows at `now`, after `n` calls of which it let `passed` messages
through. Every reset comes at least a second after the one before. -/
structure Limits (limiter : RateLimiter) (now n passed : Nat) : Prop where
  count : limiter.count ≤ n
  lastReset : limiter.lastReset ≤ now
  passed : passed ≤ limiter.limit * (limiter.lastReset / secs 1) + min limiter.count limiter.limit

theorem Limits.verifyPacket {limiter : RateLimiter} {now n passed : Nat}
    (hlimits : Limits limiter now n passed) (hn : n + 1 < 2 ^ 64) (datagram : Bytes) :
    Limits (limiter.verifyPacket P datagram).1 now (n + 1)
      (passed + if limiter.passes P datagram then 1 else 0) := by
  obtain ⟨hcount, hreset, hpassed⟩ := hlimits
  rcases limiter.verifyPacket_cases P datagram with ⟨hsame, hfalse⟩ | ⟨hcounted, hpasses⟩
  · rw [hsame, if_neg (by simp [hfalse])]
    exact ⟨Nat.le_succ_of_le hcount, hreset, hpassed⟩
  · have hwrap : (limiter.count + 1) % 2 ^ 64 = limiter.count + 1 :=
      Nat.mod_eq_of_lt (by omega)
    rw [hcounted, hwrap]
    refine ⟨Nat.succ_le_succ hcount, hreset, ?_⟩
    dsimp only
    by_cases hroom : limiter.count < limiter.limit
    · rw [if_pos (hpasses.mpr hroom)]
      omega
    · rw [if_neg fun h => hroom (hpasses.mp h)]
      omega

theorem Limits.resetCount {limiter : RateLimiter} {now n passed : Nat}
    (hlimits : Limits limiter now n passed) {later : Nat} (hlater : later ≤ now) :
    Limits (limiter.resetCount later) now n passed := by
  obtain ⟨hcount, hreset, hpassed⟩ := hlimits
  rw [RateLimiter.resetCount]
  split_ifs with helapsed
  · refine ⟨Nat.zero_le _, hlater, ?_⟩
    -- the messages since the last reset are at most the limit, which the new second pays for
    have hsecond : limiter.lastReset / secs 1 + 1 ≤ later / secs 1 := by
      simp only [secs] at helapsed ⊢
      omega
    have hpaid := Nat.mul_le_mul_left limiter.limit hsecond
    rw [Nat.mul_add_one] at hpaid
    dsimp only
    omega
  · exact ⟨hcount, hreset, hpassed⟩

theorem perform_limits {call : Call} {out : Inbound} {now n passed : Nat}
    (hperform : pump.perform P call = .ok (next, out, log)) (hn : n + 1 < 2 ^ 64)
    (hnow : call.now ≤ now) (hlimits : Limits pump.tun.rateLimiter now n passed) :
    Limits next.tun.rateLimiter now (n + 1) (passed + call.passes P pump) ∧
      next.tun.rateLimiter.limit = pump.tun.rateLimiter.limit := by
  have hlonger : Limits pump.tun.rateLimiter now (n + 1) (passed + 0) :=
    { hlimits with count := Nat.le_succ_of_le hlimits.count }
  obtain ⟨tun, result, rfl, hoperates, -⟩ := perform_operates hperform
  cases hoperates with
  | encapsulate hengine =>
      rw [(Tunn.encapsulate_follows hengine).rateLimiter]
      exact ⟨hlonger, rfl⟩
  | @decapsulate m datagram _ hengine =>
      rw [(Tunn.decapsulate_checked hengine).rateLimiter]
      have hchecked : (pump.tun.checked P datagram).rateLimiter =
          (pump.tun.rateLimiter.verifyPacket P datagram).1 := by
        rw [Tunn.checked]
        split_ifs with hempty
        · rw [hempty]
          rfl
        · rfl
      rw [hchecked]
      refine ⟨hlimits.verifyPacket hn datagram, ?_⟩
      rcases pump.tun.rateLimiter.verifyPacket_cases P datagram with ⟨h, -⟩ | ⟨h, -⟩ <;> rw [h]
  | initiateHandshake hengine =>
      rw [(Tunn.formatHandshakeInitiation_follows hengine).rateLimiter]
      exact ⟨hlonger, rfl⟩
  | updateTimers hengine =>
      obtain ⟨ticked, hticked, hfollows⟩ := Tunn.updateTimers_ticked hengine
      rw [hfollows.rateLimiter]
      rcases hticked.rateLimiter with h | h <;> rw [h]
      · exact ⟨hlonger, rfl⟩
      · refine ⟨hlonger.resetCount hnow, ?_⟩
        rw [RateLimiter.resetCount]
        split_ifs <;> rfl

theorem run_limits {now n count : Nat} (hrun : pump.run P calls = .ok (last, outs, log))
    (hn : n + calls.length < 2 ^ 64) (hnow : ∀ call ∈ calls, call.now ≤ now)
    (hlimits : Limits pump.tun.rateLimiter now n count) :
    Limits last.tun.rateLimiter now (n + calls.length) (count + passed P pump calls) ∧
      last.tun.rateLimiter.limit = pump.tun.rateLimiter.limit := by
  induction calls generalizing pump outs log n count with
  | nil =>
      cases hrun
      exact ⟨hlimits, rfl⟩
  | cons call calls ih =>
      obtain ⟨next, out, first, rest, more, hperform, hrest, rfl, rfl⟩ := run_cons hrun
      rw [List.length_cons] at hn ⊢
      obtain ⟨hnext, hlimit⟩ :=
        perform_limits hperform (by omega) (hnow call List.mem_cons_self) hlimits
      obtain ⟨hlast, hlimit'⟩ := ih hrest (by omega)
        (fun later hmem => hnow later (List.mem_cons_of_mem _ hmem)) hnext
      simp only [passed, hperform]
      rw [show n + (calls.length + 1) = n + 1 + calls.length by omega, ← Nat.add_assoc]
      exact ⟨hlast, hlimit'.trans hlimit⟩

/-- Whatever datagrams arrive at a new pump, by the time `now` at most ten handshake
messages for each second pass its rate limiter, and ten more. -/
theorem handshakes_limited {now : Nat}
    (hrun : (withIndex P secret peerPublic mtu index durationAtStart).run P calls =
      .ok (last, outs, log))
    (hlength : calls.length < 2 ^ 64) (hnow : ∀ call ∈ calls, call.now ≤ now) :
    passed P (withIndex P secret peerPublic mtu index durationAtStart) calls ≤
      10 * (now / secs 1 + 1) := by
  have hstart : Limits (withIndex P secret peerPublic mtu index durationAtStart).tun.rateLimiter
      now 0 0 := ⟨Nat.zero_le _, Nat.zero_le _, Nat.zero_le _⟩
  obtain ⟨⟨-, hreset, hpassed⟩, hlimit⟩ := run_limits hrun (by omega) hnow hstart
  rw [show last.tun.rateLimiter.limit = 10 from hlimit] at hpassed
  have hseconds := Nat.div_le_div_right (c := secs 1) hreset
  omega

theorem handshakes_limited_answering : passed Primitives.null twin answering = 1 ∧
    passed Primitives.null twin answering ≤ 10 * (0 / secs 1 + 1) := by
  have hrun := run_eq_ran twin answering (by decide +kernel)
  exact ⟨by decide +kernel, handshakes_limited hrun (by decide) (by decide)⟩

end Newt.Wg.Pump
