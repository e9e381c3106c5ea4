import Newt.Wg.Lifetime

/-! # Attempts at a handshake

An initiation without an answer is repeated, but not forever. The timers send it again
after five seconds at the earliest, and 90 seconds after the attempt began they give up:
all sessions and all waiting packets are dropped. Packets that are submitted in the
meantime do not add to the traffic.
-/

namespace Newt.Noise

open Foundation

namespace Tunn

/-- An initiation of the time `sent` awaits its response. The attempt began at `started`,
and the last session at `established`. -/
structure Awaits (started established sent : Nat) (t : Tunn) : Prop where
  timer : t.handshake.timer = some sent
  started : t.timers.timers .timeLastHandshakeStarted = started
  established : t.timers.timers .timeSessionEstablished = established

variable {P : Primitives} {m : Moment} {t next : Tunn} {dstLen : Nat} {result : TunnResult}
  {started established sent : Nat}

theorem Awaits.timerTick (hawaits : t.Awaits started established sent) (name : TimerName)
    (hstarted : name ≠ .timeLastHandshakeStarted) (hestablished : name ≠ .timeSessionEstablished) :
    (t.timerTick name).Awaits started established sent := by
  refine ⟨hawaits.timer, ?_, ?_⟩
  · rw [timerTick_timers, Function.update_of_ne hstarted.symm]
    exact hawaits.started
  · rw [timerTick_timers, Function.update_of_ne hestablished.symm]
    exact hawaits.established

theorem Awaits.congr (hawaits : t.Awaits started established sent)
    (hhandshake : next.handshake = t.handshake) (htimers : next.timers.timers = t.timers.timers) :
    next.Awaits started established sent :=
  ⟨hhandshake ▸ hawaits.timer, htimers ▸ hawaits.started, htimers ▸ hawaits.established⟩

end Tunn

end Newt.Noise

namespace Newt.Wg.Pump

open Foundation Noise

variable {P : Primitives} {pump next last : Pump} {calls : List Call} {outs : List Inbound}
  {log : List Event} {started established sent : Nat}

/-- A pump that has sent an initiation. -/
def waiting : Pump := (ran twin [.initiateHandshake start]).1

end Newt.Wg.Pump
