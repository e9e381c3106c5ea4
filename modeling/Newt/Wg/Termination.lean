import Newt.Wg.Queue

/-! # The drain loop ends

Both receive loops call `drain` until it returns nothing. With a session every
call takes a packet from the queue. Without one a call puts the packet back, and
the next call returns nothing because the handshake is in progress by then.
-/

namespace Newt.Noise.Tunn

variable (P : Primitives) (m : Moment) {t next : Tunn} {result : TunnResult} {dstLen : Nat}

/-- The queue holds no more packets than the depth allows. -/
def Bounded (t : Tunn) : Prop := t.packetQueue.length ≤ maxQueueDepth

theorem Bounded.of_eq (hbounded : t.Bounded) (hqueue : next.packetQueue = t.packetQueue) :
    next.Bounded := by
  rw [Bounded, hqueue]
  exact hbounded

theorem Bounded.queuePacket (hbounded : t.Bounded) (packet : Bytes) :
    (t.queuePacket packet).Bounded := by
  simp only [Bounded, Tunn.queuePacket]
  split
  · next hroom => simpa using Nat.succ_le_of_lt hroom
  · exact hbounded

theorem Bounded.requeuePacket (hbounded : t.Bounded) (packet : Bytes) :
    (t.requeuePacket packet).Bounded := by
  simp only [Bounded, Tunn.requeuePacket]
  split
  · next hroom => simpa using Nat.succ_le_of_lt hroom
  · exact hbounded

theorem Bounded.encapsulate {src : Bytes} (hbounded : t.Bounded)
    (hstep : t.encapsulate P m src dstLen = .ok (next, result)) : next.Bounded := by
  cases hsession : t.sessions (slot t.current) with
  | none =>
      rw [encapsulate_noSession P m t hsession] at hstep
      exact (hbounded.queuePacket src).of_eq
        (formatHandshakeInitiation_lingers P m (Except.ok.inj hstep)).packetQueue
  | some session =>
      cases hformat : session.formatPacketData P src dstLen with
      | error panic => simp [Tunn.encapsulate, hsession, hformat] at hstep
      | ok out =>
          obtain ⟨sent, hsent, -, hqueue, -⟩ := encapsulate_formatted P m t hsession hformat
          rw [hsent] at hstep
          cases hstep
          exact hbounded.of_eq hqueue

theorem Bounded.sendQueuedPacket (hbounded : t.Bounded)
    (hstep : t.sendQueuedPacket P m dstLen = .ok (next, result)) : next.Bounded := by
  simp only [Tunn.sendQueuedPacket] at hstep
  split at hstep
  · cases hstep
    exact hbounded
  · next packet rest hqueue =>
      have hrest : Bounded { t with packetQueue := rest } := by
        rw [Bounded, hqueue] at hbounded
        exact Nat.le_of_succ_le hbounded
      split at hstep
      · cases hstep
      · next hsend =>
          cases hstep
          exact (hrest.encapsulate P m hsend).requeuePacket packet
      · next hsend =>
          cases hstep
          exact hrest.encapsulate P m hsend

theorem Bounded.sendTimed {handshake keepalive : Bool} (hbounded : t.Bounded)
    (hstep : t.sendTimed P m dstLen handshake keepalive = .ok (next, result)) : next.Bounded := by
  simp only [Tunn.sendTimed] at hstep
  split_ifs at hstep
  · exact hbounded.of_eq (formatHandshakeInitiation_lingers P m (Except.ok.inj hstep)).packetQueue
  · exact hbounded.encapsulate P m hstep
  · cases hstep
    exact hbounded

theorem Bounded.updateTimers (hbounded : t.Bounded)
    (hstep : t.updateTimers P m dstLen = .ok (next, result)) : next.Bounded := by
  obtain ⟨last, hticked, hcases⟩ := updateTimers_cases hstep
  have hlast := hbounded.of_eq hticked.packetQueue
  rcases hcases with ⟨-, rfl, -⟩ | ⟨-, -, hgone⟩ | ⟨-, -, handshake, keepalive, hsend, -⟩
  · exact hlast
  · cases hgone
    exact Nat.zero_le _
  · exact hlast.sendTimed P m hsend

end Newt.Noise.Tunn

namespace Newt.Wg.Pump

open Noise

variable (P : Primitives) (moments : Nat → Moment) {pump : Pump}

theorem Reachable.bounded (hreachable : pump.Reachable P) : pump.tun.Bounded := by
  induction hreachable with
  | new => exact Nat.zero_le _
  | @encapsulate pump _ _ _ _ _ hstep ih =>
      simp only [Pump.encapsulate] at hstep
      split at hstep
      · cases hstep
      · next hengine =>
          cases hstep
          exact ih.encapsulate P _ hengine
  | @decapsulate pump next m datagram _ _ hstep ih =>
      by_cases hempty : datagram = []
      · subst hempty
        simp only [Pump.decapsulate, Tunn.decapsulate, if_pos] at hstep
        split at hstep
        · cases hstep
        · next hengine =>
            cases hstep
            exact ih.sendQueuedPacket P _ hengine
      · exact ih.of_eq (decapsulate_packetQueue P hempty hstep).1
  | @initiateHandshake pump m _ ih =>
      exact ih.of_eq (Tunn.formatHandshakeInitiation_lingers P m rfl).packetQueue
  | @updateTimers pump _ _ _ _ hstep ih =>
      simp only [Pump.updateTimers] at hstep
      split at hstep
      · cases hstep
      · next hengine =>
          cases hstep
          exact ih.updateTimers P _ hengine

/-- The loop without a bound, from call number `call` on: it ends after `calls`
calls of `drain`, with the pump that the last of them leaves or with its panic. -/
inductive Drains (P : Primitives) (moments : Nat → Moment) :
    Nat → Pump → Nat → Except Panic Pump → Prop
  | nothing {call : Nat} {pump next : Pump}
      (hdrain : pump.drain P (moments call) = .ok (next, .nothing)) :
      Drains P moments call pump 1 (.ok next)
  | panics {call : Nat} {pump : Pump} {panic : Panic}
      (hdrain : pump.drain P (moments call) = .error panic) :
      Drains P moments call pump 1 (.error panic)
  | again {call calls : Nat} {pump next : Pump} {more : Inbound} {last : Except Panic Pump}
      (hdrain : pump.drain P (moments call) = .ok (next, more)) (hmore : more ≠ .nothing)
      (hrest : Drains P moments (call + 1) next calls last) :
      Drains P moments call pump (calls + 1) last

/-- A bound that the loop does not reach changes nothing. -/
theorem Drains.drainLoop_eq {call calls : Nat} {last : Except Panic Pump}
    (hdrains : Drains P moments call pump calls last) {fuel : Nat} (hfuel : calls ≤ fuel) :
    (drainLoop P moments fuel call pump).map Prod.fst = last := by
  induction hdrains generalizing fuel with
  | nothing hdrain =>
      obtain ⟨fuel, rfl⟩ : ∃ n, fuel = n + 1 := ⟨fuel - 1, by omega⟩
      simp only [drainLoop, hdrain]
      rfl
  | panics hdrain =>
      obtain ⟨fuel, rfl⟩ : ∃ n, fuel = n + 1 := ⟨fuel - 1, by omega⟩
      simp only [drainLoop, hdrain]
      rfl
  | @again call calls pump next more last hdrain hmore _ ih =>
      obtain ⟨fuel, rfl⟩ : ∃ n, fuel = n + 1 := ⟨fuel - 1, by omega⟩
      have hloop := ih (Nat.le_of_succ_le_succ hfuel)
      cases more with
      | nothing => exact absurd rfl hmore
      | packet packet =>
          simp only [drainLoop, hdrain]
          rw [← hloop]
          cases drainLoop P moments fuel (call + 1) next <;> rfl
      | network datagram =>
          simp only [drainLoop, hdrain]
          rw [← hloop]
          cases drainLoop P moments fuel (call + 1) next <;> rfl

theorem pending_le (pump : Pump) : pump.pending ≤ pump.tun.packetQueue.length + 1 := by
  simp only [pending]
  split <;> omega

/-- The loop ends, by induction on the progress that is left. -/
theorem drains_within_pending (call : Nat) (pump : Pump) :
    ∃ calls last, Drains P moments call pump calls last ∧ calls ≤ pump.pending + 1 ∧
      ∀ panic, last = .error panic →
        ∃ packet ∈ pump.tun.packetQueue, max pump.mtu 1500 < packet.length := by
  induction hn : pump.pending using Nat.strong_induction_on generalizing call pump with
  | _ n ih =>
      subst hn
      rcases drain_progress P (moments call) pump with ⟨hdrain, hlong⟩ |
        ⟨next, more, hdrain, hmtu, hwaiting, hprogress⟩
      · exact ⟨1, _, .panics hdrain, by omega, fun _ _ => hlong⟩
      · by_cases hmore : more = .nothing
        · subst hmore
          refine ⟨1, _, .nothing hdrain, by omega, ?_⟩
          intro panic hlast
          cases hlast
        · have hless := hprogress.resolve_left hmore
          obtain ⟨calls, last, hrest, hcalls, hpanic⟩ := ih _ hless (call + 1) next rfl
          refine ⟨calls + 1, last, .again hdrain hmore hrest, by omega, ?_⟩
          intro panic hlast
          obtain ⟨packet, hmem, hlong⟩ := hpanic panic hlast
          rw [hmtu] at hlong
          exact ⟨packet, hwaiting hmem, hlong⟩

/-- From every state of a pump, reachable or not, the loop makes at most two calls
more than packets wait. It is cut short only by the panic on a packet that exceeds
the scratch buffer, and whatever bound of `drainLoop` allows these calls does not
change its end. -/
theorem drain_loop_ends (call : Nat) (pump : Pump) :
    ∃ calls last, calls ≤ pump.tun.packetQueue.length + 2 ∧
      Drains P moments call pump calls last ∧
      (∀ fuel, calls ≤ fuel → (drainLoop P moments fuel call pump).map Prod.fst = last) ∧
      ∀ panic, last = .error panic →
        ∃ packet ∈ pump.tun.packetQueue, max pump.mtu 1500 < packet.length := by
  obtain ⟨calls, last, hdrains, hcalls, hpanic⟩ := drains_within_pending P moments call pump
  have hpending := pump.pending_le
  exact ⟨calls, last, by omega, hdrains, fun fuel hfuel => hdrains.drainLoop_eq P moments hfuel,
    hpanic⟩

/-- A loop of a reachable pump makes at most 258 calls. -/
theorem Reachable.drains (hreachable : pump.Reachable P) (call : Nat) :
    ∃ calls ≤ maxQueueDepth + 2, ∃ last, Drains P moments call pump calls last := by
  obtain ⟨calls, last, hdrains, hcalls, -⟩ := drains_within_pending P moments call pump
  have hqueue : pump.tun.packetQueue.length ≤ maxQueueDepth := hreachable.bounded
  have hpending := pump.pending_le
  exact ⟨calls, by omega, last, hdrains⟩

end Newt.Wg.Pump
