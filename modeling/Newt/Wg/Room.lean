import Newt.Wg.Loops

/-! # Pumps whose packets fit their buffers

A pump panics when a packet does not fit the scratch buffer of a call. No such packet comes up
as long as the submitted packets and the datagrams from the network are short enough, since
only submitted packets wait in the queue.
-/

namespace Newt.Noise.Tunn

open Foundation

variable (P : Primitives) (m : Moment) (t : Tunn) {dstLen : Nat}

theorem encapsulate_ok {src : Bytes} (hfit : src.length + dataOverheadSz ≤ dstLen) :
    ∃ out, t.encapsulate P m src dstLen = .ok out := by
  cases hsession : t.sessions (slot t.current) with
  | none => exact ⟨_, encapsulate_noSession P m t hsession⟩
  | some session =>
      obtain ⟨next, datagram, hengine, -⟩ := encapsulate_session P m t hsession hfit
      exact ⟨_, hengine⟩

theorem sendTimed_ok (handshake keepalive : Bool) (hfit : dataOverheadSz ≤ dstLen) :
    ∃ out, t.sendTimed P m dstLen handshake keepalive = .ok out := by
  rw [sendTimed]
  split_ifs
  · exact ⟨_, rfl⟩
  · exact t.encapsulate_ok P m (by simpa using hfit)
  · exact ⟨_, rfl⟩

theorem updateTimers_ok (hfit : dataOverheadSz ≤ dstLen) :
    ∃ out, t.updateTimers P m dstLen = .ok out := by
  obtain ⟨last, -, ⟨-, heq⟩ | ⟨-, -, heq⟩ | ⟨-, -, handshake, keepalive, heq, -⟩⟩ :=
    updateTimers_eq P m t dstLen
  · exact ⟨_, heq⟩
  · exact ⟨_, heq⟩
  · rw [heq]
    exact last.sendTimed_ok P m handshake keepalive hfit

end Newt.Noise.Tunn

namespace Newt.Wg.Pump

open Foundation Noise

variable {P : Primitives} {pump next last : Pump} {calls : List Call} {outs : List Inbound}
  {log : List Event}

theorem withIndex_roomy (P : Primitives) (secret peerPublic : Bytes) (mtu : Nat)
    (index : BitVec 32) (durationAtStart : Nat) :
    (withIndex P secret peerPublic mtu index durationAtStart).Roomy := by
  intro packet hmem
  cases hmem

theorem run_mtu (hrun : pump.run P calls = .ok (last, outs, log)) : last.mtu = pump.mtu := by
  induction calls generalizing pump outs log with
  | nil =>
      cases hrun
      rfl
  | cons call calls ih =>
      obtain ⟨next, out, first, rest, more, hperform, hrest, rfl, rfl⟩ := run_cons hrun
      obtain ⟨tun, result, rfl, -, -⟩ := perform_operates hperform
      have hlast := ih hrest
      exact hlast

/-- Only submitted packets join the queue. -/
theorem Carries.roomy {traffic : List Traffic} (hcarries : pump.Carries P last traffic)
    (hroomy : pump.Roomy)
    (hshort : ∀ packet ∈ traffic.filterMap Traffic.submitted?,
      packet.length ≤ packetRoom pump.mtu) : last.Roomy ∧ last.mtu = pump.mtu := by
  obtain ⟨calls, outs, log, hrun, -, hsubmitted, -⟩ := hcarries
  have hmtu := run_mtu hrun
  refine ⟨fun packet hmem => ?_, hmtu⟩
  rw [hmtu]
  by_cases hempty : packet = []
  · subst hempty
    exact Nat.zero_le _
  · have hcount := run_conserves hrun packet hempty
    have hwaits := List.count_pos_iff.mpr hmem
    rw [hsubmitted] at hcount
    by_cases hold : packet ∈ pump.tun.packetQueue
    · exact hroomy packet hold
    · rw [List.count_eq_zero.mpr hold] at hcount
      exact hshort packet (List.count_pos_iff.mp (by omega))

theorem encapsulate_returns (m : Moment) {packet : Bytes}
    (hshort : packet.length ≤ packetRoom pump.mtu) :
    ∃ out, pump.encapsulate P m packet = .ok out := by
  have hfit : packet.length + dataOverheadSz ≤ pump.scratch :=
    Nat.add_le_add_right hshort dataOverheadSz
  obtain ⟨⟨tun, result⟩, hengine⟩ := pump.tun.encapsulate_ok P m hfit
  exact ⟨_, by rw [encapsulate, hengine]⟩

theorem updateTimers_returns (m : Moment) (pump : Pump) :
    ∃ out, pump.updateTimers P m = .ok out := by
  obtain ⟨⟨tun, result⟩, hengine⟩ := pump.tun.updateTimers_ok P m pump.overhead_le_scratch
  exact ⟨_, by rw [updateTimers, hengine]⟩

/-- The encrypted content of a data packet is 16 bytes shorter than the datagram, and the
scratch buffer has room for 32 bytes more than a packet. -/
theorem decapsulate_returns (m : Moment) {datagram : Bytes} (hroomy : pump.Roomy)
    (hshort : datagram.length ≤ packetRoom pump.mtu + 48) :
    ∃ next out, pump.decapsulate P m datagram = .ok (next, out) ∧ next.Roomy := by
  by_cases hempty : datagram = []
  · subst hempty
    obtain ⟨next, out, hdrain, hnext, -⟩ := drain_spec P m hroomy
    exact ⟨next, out, hdrain, hnext⟩
  · have hreturns := (decapsulate_returns_iff P m hempty).mpr fun hlong =>
      Nat.not_le_of_lt hlong.1 hshort
    obtain ⟨⟨next, out⟩, hstep⟩ := hreturns
    exact ⟨next, out, hstep, decapsulate_roomy P hempty hstep hroomy⟩

theorem receivePart_returns (moments : Nat → Moment) (drains : Nat) {datagram : Bytes}
    (hroomy : pump.Roomy) (hshort : datagram.length ≤ packetRoom pump.mtu + 48) :
    ∃ out, pump.receivePart P moments drains datagram = .ok out := by
  obtain ⟨next, first, hfirst, hnext⟩ :=
    decapsulate_returns (P := P) (moments 0) hroomy hshort
  obtain ⟨⟨last, rest⟩, hloop⟩ := drainLoop_ok P moments drains 1 hnext
  exact ⟨_, by simp only [receivePart, hfirst, hloop]; rfl⟩

theorem receive_returns (moments : Nat → Moment) {datagram : Bytes} (hroomy : pump.Roomy)
    (hshort : datagram.length ≤ packetRoom pump.mtu + 48) :
    ∃ out, pump.receive P moments datagram = .ok out := by
  obtain ⟨drains, hpart⟩ := receive_eq_receivePart P moments pump datagram
  rw [hpart]
  exact receivePart_returns moments drains hroomy hshort

end Newt.Wg.Pump
