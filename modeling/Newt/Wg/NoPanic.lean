import Newt.Noise.Buffers
import Newt.Wg.Pump

/-! # Datagrams that panic the data plane

The receive loops accept datagrams of up to `max mtu 1500 + 64` bytes, but the
scratch buffer has room for the content of `max mtu 1500 + 48` of them. A data
packet in between panics as soon as its receiver index selects a slot with a
session, before any other check. Every other datagram is safe, and so are the
calls of `drain` that follow.
-/

namespace Newt.Wg

open Foundation Noise

theorem parseIncomingPacket_data {datagram : Bytes} {packet : PacketData}
    (hparse : parseIncomingPacket datagram = .ok (.packetData packet)) :
    packet.encryptedEncapsulatedPacket.length + 16 = datagram.length := by
  simp only [parseIncomingPacket] at hparse
  split_ifs at hparse with _ _ _ _ hdata
  · cases hparse
  · cases hparse
  · cases hparse
  · simp only [Except.ok.injEq, Packet.packetData.injEq] at hparse
    rw [← hparse]
    simp only [dataOverheadSz] at hdata
    simp only [List.length_drop]
    omega

namespace Pump

variable (P : Primitives) {pump : Pump}

/-- The longest packet that the buffers of a pump are made for. -/
def packetRoom (mtu : Nat) : Nat := max mtu 1500

/-- Every waiting packet fits. -/
def Roomy (pump : Pump) : Prop :=
  ∀ packet ∈ pump.tun.packetQueue, packet.length ≤ packetRoom pump.mtu

/-- Every waiting packet has at most `mtu` bytes. -/
def QueueFits (pump : Pump) : Prop := ∀ packet ∈ pump.tun.packetQueue, packet.length ≤ pump.mtu

theorem QueueFits.roomy (hqueue : pump.QueueFits) : pump.Roomy := by
  intro packet hmem
  exact Nat.le_trans (hqueue packet hmem) (Nat.le_max_left _ _)

/-- A data packet for an occupied slot whose content exceeds the scratch buffer. -/
def Overlong (pump : Pump) (datagram : Bytes) : Prop :=
  max pump.mtu 1500 + 48 < datagram.length ∧
    ∃ packet, parseIncomingPacket datagram = .ok (.packetData packet) ∧
      (pump.tun.sessions (Tunn.slot packet.receiverIdx.toNat)).isSome

theorem overhead_le_scratch (pump : Pump) : dataOverheadSz ≤ pump.scratch := by
  simp only [dataOverheadSz, scratch]
  omega

theorem handshakeInitSz_le_scratch (pump : Pump) : handshakeInitSz ≤ pump.scratch := by
  simp only [handshakeInitSz, scratch]
  omega

theorem drain_empty (m : Moment) (hwaiting : pump.tun.packetQueue = []) :
    pump.drain P m = .ok (pump, .nothing) := by
  simp [drain, decapsulate, Tunn.decapsulate, Tunn.sendQueuedPacket, hwaiting, inbound]

theorem drain_overlong (m : Moment) {packet : Bytes} {rest : List Bytes}
    (hwaiting : pump.tun.packetQueue = packet :: rest)
    (hsession : pump.tun.sessions (Tunn.slot pump.tun.current) ≠ none)
    (hlong : pump.scratch < packet.length + dataOverheadSz) :
    pump.drain P m = .error .destinationBufferTooSmall := by
  have hsend := Tunn.sendQueuedPacket_overlong P m pump.tun hwaiting hsession hlong
  simp [drain, decapsulate, Tunn.decapsulate, hsend]

/-- The first packet is sent, or it goes back to the queue: with a new initiation, or
with nothing while one awaits its response. -/
theorem drain_first (m : Moment) {packet : Bytes} {rest : List Bytes}
    (hwaiting : pump.tun.packetQueue = packet :: rest)
    (hfit : pump.tun.sessions (Tunn.slot pump.tun.current) ≠ none →
      packet.length + dataOverheadSz ≤ pump.scratch) :
    ∃ next more, pump.drain P m = .ok (next, more) ∧ next.mtu = pump.mtu ∧
      next.tun.packetQueue ⊆ pump.tun.packetQueue ∧
      (more = .nothing ∨ next.pending < pump.pending) := by
  obtain ⟨next, result, hsend, hnext⟩ := Tunn.sendQueuedPacket_cons P m pump.tun hwaiting
    pump.handshakeInitSz_le_scratch hfit
  refine ⟨{ pump with tun := next }, inbound result, ?_, rfl, ?_, ?_⟩
  · simp [drain, decapsulate, Tunn.decapsulate, hsend]
  · intro waiting hmem
    rw [hwaiting]
    rcases hnext with ⟨hpopped, _⟩ | ⟨hrequeued, _⟩
    · exact List.mem_cons_of_mem _ (hpopped ▸ hmem)
    · rcases Tunn.mem_queuePacket _ (hrequeued ▸ hmem) with rfl | hold
      · exact List.mem_cons_self
      · exact List.mem_cons_of_mem _ hold
  · rcases hnext with ⟨hpopped, hhandshake⟩ | ⟨hrequeued, hdone | ⟨hidle, hstarted⟩⟩
    · right
      simp [pending, hpopped, hhandshake, hwaiting]
    · left
      simp [hdone, inbound]
    · right
      have hlength := Tunn.queuePacket_length_le { pump.tun with packetQueue := rest } packet
      simp only [pending, hrequeued, hstarted, hidle, hwaiting, List.length_cons]
      simpa using Nat.lt_succ_of_le hlength

/-- A call of `drain` makes progress unless it returns nothing, and no new packet
joins the queue. It panics only on a waiting packet that exceeds the buffer. -/
theorem drain_progress (m : Moment) (pump : Pump) :
    (pump.drain P m = .error .destinationBufferTooSmall ∧
        ∃ packet ∈ pump.tun.packetQueue, max pump.mtu 1500 < packet.length) ∨
      ∃ next more, pump.drain P m = .ok (next, more) ∧ next.mtu = pump.mtu ∧
        next.tun.packetQueue ⊆ pump.tun.packetQueue ∧
        (more = .nothing ∨ next.pending < pump.pending) := by
  cases hwaiting : pump.tun.packetQueue with
  | nil => exact .inr ⟨pump, .nothing, drain_empty P m hwaiting, rfl, by simp [hwaiting], .inl rfl⟩
  | cons packet rest =>
      rw [← hwaiting]
      by_cases hfit : pump.tun.sessions (Tunn.slot pump.tun.current) ≠ none →
          packet.length + dataOverheadSz ≤ pump.scratch
      · exact .inr (drain_first P m hwaiting hfit)
      · obtain ⟨hsession, hlong⟩ := Classical.not_imp.mp hfit
        refine .inl ⟨drain_overlong P m hwaiting hsession (Nat.lt_of_not_le hlong), packet, ?_, ?_⟩
        · rw [hwaiting]
          exact List.mem_cons_self
        · simp only [dataOverheadSz, scratch] at hlong
          omega

/-- A call of `drain` on a queue that fits returns, keeps the queue fitting, and
makes progress unless it returns nothing. -/
theorem drain_spec (m : Moment) (hroomy : pump.Roomy) :
    ∃ next more, pump.drain P m = .ok (next, more) ∧ next.Roomy ∧
      (more = .nothing ∨ next.pending < pump.pending) := by
  rcases drain_progress P m pump with ⟨-, packet, hmem, hlong⟩ |
    ⟨next, more, hdrain, hmtu, hwaiting, hprogress⟩
  · exact absurd (hroomy packet hmem) (Nat.not_le_of_lt hlong)
  · refine ⟨next, more, hdrain, ?_, hprogress⟩
    intro packet hmem
    rw [hmtu]
    exact hroomy packet (hwaiting hmem)

/-- The drain loop returns, with any bound on its calls. -/
theorem drainLoop_ok (moments : Nat → Moment) (fuel call : Nat) (hroomy : pump.Roomy) :
    ∃ out, drainLoop P moments fuel call pump = .ok out := by
  induction fuel generalizing call pump with
  | zero => exact ⟨_, rfl⟩
  | succ fuel ih =>
      obtain ⟨next, more, hdrain, hnext, _⟩ := drain_spec P (moments call) hroomy
      obtain ⟨⟨last, rest⟩, hloop⟩ := ih (call + 1) hnext
      cases more <;> simp [drainLoop, hdrain, hloop]

/-- More calls than `pending` change nothing, so the loop of the source ends. -/
theorem drainLoop_eq_of_pending_lt (moments : Nat → Moment) {fuel more : Nat} (call : Nat)
    (hroomy : pump.Roomy) (hfuel : pump.pending < fuel) (hmore : fuel ≤ more) :
    drainLoop P moments more call pump = drainLoop P moments fuel call pump := by
  induction fuel generalizing call pump more with
  | zero => omega
  | succ fuel ih =>
      obtain ⟨more, rfl⟩ : ∃ n, more = n + 1 := ⟨more - 1, by omega⟩
      obtain ⟨next, out, hdrain, hnext, hprogress⟩ := drain_spec P (moments call) hroomy
      rcases hprogress with rfl | hless
      · simp only [drainLoop, hdrain]
      · have hloop := ih (call + 1) hnext (by omega) (Nat.le_of_succ_le_succ hmore)
        cases out <;> simp only [drainLoop, hdrain, hloop]

theorem decapsulate_returns_iff (m : Moment) {datagram : Bytes} (hnonempty : datagram ≠ []) :
    (∃ out, pump.decapsulate P m datagram = .ok out) ↔ ¬ pump.Overlong datagram := by
  have hlift : (∃ out, pump.decapsulate P m datagram = .ok out) ↔
      ∃ out, pump.tun.decapsulate P m datagram pump.scratch = .ok out := by
    simp only [decapsulate]
    cases pump.tun.decapsulate P m datagram pump.scratch <;> simp
  rw [hlift]
  simp only [Tunn.decapsulate, if_neg hnonempty]
  split
  · next limiter e hverify =>
      refine iff_of_true ⟨_, rfl⟩ ?_
      rintro ⟨_, packet, hparse, _⟩
      rw [RateLimiter.verifyPacket_data hparse] at hverify
      cases hverify
  · next limiter packet hverify =>
      have hparse := RateLimiter.verifyPacket_parsed hverify
      rw [Tunn.handleVerifiedPacket_returns_iff P m _ packet pump.overhead_le_scratch]
      constructor
      · rintro hfits ⟨hlong, p, hdata, hsession⟩
        have hlength := parseIncomingPacket_data hdata
        have hfit := hfits p (Except.ok.inj (hparse.symm.trans hdata)) hsession
        simp only [scratch] at hfit
        omega
      · rintro hshort p rfl hsession
        have hlength := parseIncomingPacket_data hparse
        by_contra hlong
        refine hshort ⟨?_, p, hparse, hsession⟩
        simp only [scratch] at hlong
        omega

/-- A datagram of the network leaves the waiting packets as they are. -/
theorem decapsulate_packetQueue {m : Moment} {datagram : Bytes} (hnonempty : datagram ≠ [])
    {next : Pump} {out : Inbound}
    (hdecapsulate : pump.decapsulate P m datagram = .ok (next, out)) :
    next.tun.packetQueue = pump.tun.packetQueue ∧ next.mtu = pump.mtu := by
  simp only [decapsulate, Tunn.decapsulate, if_neg hnonempty] at hdecapsulate
  split at hdecapsulate
  · cases hdecapsulate
  · next tun result hengine =>
      cases hdecapsulate
      split at hengine
      · cases hengine
        exact ⟨rfl, rfl⟩
      · have hkept := Tunn.handleVerifiedPacket_packetQueue P m _ hengine
        exact ⟨hkept, rfl⟩

theorem decapsulate_roomy {m : Moment} {datagram : Bytes} (hnonempty : datagram ≠ [])
    {next : Pump} {out : Inbound} (hdecapsulate : pump.decapsulate P m datagram = .ok (next, out))
    (hroomy : pump.Roomy) : next.Roomy := by
  obtain ⟨hkept, hmtu⟩ := decapsulate_packetQueue P hnonempty hdecapsulate
  intro waiting hmem
  rw [hmtu]
  exact hroomy waiting (hkept ▸ hmem)

/-! ## A peer that has one session -/

def start : Moment := ⟨0, []⟩

def initiated : Pump :=
  ((Pump.new Primitives.null [] [] 1280 0).initiateHandshake Primitives.null start).1

/-- The response to the first initiation of the pump. -/
def response : Bytes := [2, 0, 0, 0, 7, 0, 0, 0, 1, 0, 0, 0] ++ List.replicate 80 0

def established : Pump :=
  match initiated.decapsulate Primitives.null start response with
  | .ok (pump, _) => pump
  | .error _ => initiated

theorem established_reachable : established.Reachable Primitives.null := by
  have hstep : initiated.decapsulate Primitives.null start response =
      .ok (established, .network ([4, 0, 0, 0, 7, 0, 0, 0] ++ List.replicate 24 0)) := rfl
  exact .decapsulate (.initiateHandshake (.new [] [] 1280 0 0)) hstep

theorem established_queueFits : established.QueueFits := by
  intro packet hmem
  cases hmem

/-- A data packet for receiver index 1 with `n` zero bytes after the index. -/
def zeroData (n : Nat) : Bytes := [4, 0, 0, 0, 1, 0, 0, 0] ++ List.replicate n 0

@[simp]
theorem zeroData_length (n : Nat) : (zeroData n).length = n + 8 := by simp [zeroData]

theorem parseIncomingPacket_zeroData {n : Nat} (hn : 24 ≤ n) :
    ∃ packet, parseIncomingPacket (zeroData n) = .ok (.packetData packet) ∧
      packet.receiverIdx = 1 := by
  have htype : leNat (slice (zeroData n) 0 4) = data := rfl
  have hindex : u32FromLe (slice (zeroData n) 4 8) = 1 := rfl
  refine ⟨⟨1, leNat (slice (zeroData n) 8 16), (zeroData n).drop 16⟩, ?_, rfl⟩
  simp only [parseIncomingPacket, zeroData_length, htype, hindex, data, handshakeInit,
    handshakeResp, cookieReply, dataOverheadSz]
  rw [if_neg (by omega), if_neg (by omega), if_neg (by omega), if_neg (by omega),
    if_pos ⟨trivial, by omega⟩]

/-- In every state of a pump, reachable or not, the decryption of a datagram and
the calls of `drain` after it return without a panic exactly when the datagram
is not overlong. -/
theorem receive_returns_iff (moments : Nat → Moment) (datagram : Bytes)
    (hqueue : pump.QueueFits) :
    (∃ out, pump.receive P moments datagram = .ok out) ↔ ¬ pump.Overlong datagram := by
  by_cases hnonempty : datagram = []
  · subst hnonempty
    have hshort : ¬ pump.Overlong [] := by simp [Overlong]
    obtain ⟨next, first, hdrain, hnext, _⟩ := drain_spec P (moments 0) hqueue.roomy
    obtain ⟨⟨last, rest⟩, hloop⟩ := drainLoop_ok P moments (next.pending + 1) 1 hnext
    rw [drain] at hdrain
    simp [receive, hdrain, hloop, hshort]
  · rw [← decapsulate_returns_iff P (moments 0) hnonempty]
    cases hdecapsulate : pump.decapsulate P (moments 0) datagram with
    | error panic => simp [receive, hdecapsulate]
    | ok out =>
        obtain ⟨next, first⟩ := out
        have hnext := decapsulate_roomy P hnonempty hdecapsulate hqueue.roomy
        obtain ⟨⟨last, rest⟩, hloop⟩ := drainLoop_ok P moments (next.pending + 1) 1 hnext
        simp [receive, hdecapsulate, hloop]

theorem receive_returns_keepalive :
    established.QueueFits ∧ ∃ out,
      established.receive Primitives.null (fun _ => start) (zeroData 24) = .ok out := by
  refine ⟨established_queueFits, ?_⟩
  apply (receive_returns_iff Primitives.null _ _ established_queueFits).mpr
  intro hlong
  exact absurd hlong.1 (by rw [zeroData_length]; decide)

/-- With the default MTU of 1280 the receive buffer holds a datagram of 1564
bytes, and the scratch buffer is too small for its content. Nothing in the
datagram is authentic. -/
theorem receive_overlong_panics :
    established.Reachable Primitives.null ∧ established.QueueFits ∧
      (zeroData 1556).length ≤ recvBuf established.mtu ∧
      established.receive Primitives.null (fun _ => start) (zeroData 1556) =
        .error .destinationBufferTooSmall := by
  refine ⟨established_reachable, established_queueFits, by rw [zeroData_length]; decide, ?_⟩
  obtain ⟨packet, hparse, hindex⟩ := parseIncomingPacket_zeroData (show 24 ≤ 1556 by decide)
  have hcontent := parseIncomingPacket_data hparse
  rw [zeroData_length] at hcontent
  obtain ⟨session, hsession⟩ : ∃ session,
      established.tun.sessions (Tunn.slot packet.receiverIdx.toNat) = some session := by
    rw [hindex]
    exact ⟨_, rfl⟩
  have hsmall : established.scratch < packet.encryptedEncapsulatedPacket.length := by
    have hscratch : established.scratch = 1532 := rfl
    omega
  have hnonempty : zeroData 1556 ≠ [] := List.cons_ne_nil _ _
  simp only [receive, decapsulate, Tunn.decapsulate, if_neg hnonempty,
    RateLimiter.verifyPacket_data hparse, Tunn.handleVerifiedPacket, Tunn.handleData, hsession,
    Session.receivePacketData, if_pos hsmall]

end Pump

end Newt.Wg
