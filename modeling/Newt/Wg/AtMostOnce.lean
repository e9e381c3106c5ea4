import Mathlib.Data.List.Perm.Subperm
import Newt.Wg.Traffic

/-! # Packets are delivered at most once

A pump neither loses count of the packets in its queue nor sends one of them twice. Two
pumps that talk over any network therefore deliver every submitted packet at most once,
whatever the network repeats, reorders, or invents, as long as it cannot forge the
authenticated encryption.
-/

namespace Newt.Noise

open Foundation

namespace Event

/-- The content of a packet that is encrypted. -/
def content? : Event → Option Bytes
  | .sent _ content => some content
  | _ => none

/-- What is encrypted: under which key and counter, and its content. -/
def sentRecord? : Event → Option ((Bytes × Nat) × Bytes)
  | .sent session content => some ((session.sender, session.sendingKeyCounter), content)
  | _ => none

/-- What is decrypted: under which key and counter, and its content. -/
def receivedRecord? : Event → Option ((Bytes × Nat) × Bytes)
  | .received session packet content => some ((session.receiver, packet.counter), content)
  | _ => none

theorem map_sentRecord (log : List Event) :
    (log.filterMap sentRecord?).map Prod.fst = log.filterMap nonce? ∧
      (log.filterMap sentRecord?).map Prod.snd = log.filterMap content? := by
  rw [List.map_filterMap, List.map_filterMap]
  refine ⟨?_, ?_⟩ <;>
  · congr 1
    funext event
    cases event <;> rfl

theorem map_receivedRecord (log : List Event) :
    (log.filterMap receivedRecord?).map Prod.fst = log.filterMap receipt? ∧
      ((log.filterMap receivedRecord?).map Prod.snd).filterMap deliverable =
        log.filterMap packet? := by
  rw [List.map_filterMap, List.map_filterMap, List.filterMap_filterMap]
  refine ⟨?_, ?_⟩ <;>
  · congr 1
    funext event
    cases event <;> rfl

end Event

namespace Tunn

/-- Whatever leaves encrypted or waits in the queue has been submitted. Empty packets are
keepalives, which nobody submits. -/
def Conserves (t next : Tunn) (submitted : List Bytes) (log : List Event) : Prop :=
  ∀ packet, packet ≠ [] →
    (log.filterMap Event.content?).count packet + next.packetQueue.count packet ≤
      submitted.count packet + t.packetQueue.count packet

variable {P : Primitives} {m : Moment} {t next : Tunn} {dstLen : Nat} {result : TunnResult}

/-- An operation that leaves the queue alone and sends at most keepalives. -/
theorem Conserves.idle {log : List Event} (hqueue : next.packetQueue = t.packetQueue)
    (hlog : ∀ content ∈ log.filterMap Event.content?, content = []) :
    t.Conserves next [] log := by
  intro packet hpacket
  have hnone : (log.filterMap Event.content?).count packet = 0 :=
    List.count_eq_zero.mpr fun hmem => hpacket (hlog packet hmem)
  rw [hnone, hqueue, Nat.zero_add, List.count_nil, Nat.zero_add]

theorem sends_none {src : Bytes} (hnone : t.sessions (slot t.current) = none) :
    t.sends src = [] := by rw [sends, hnone]

theorem queuePacket_count (src packet : Bytes) :
    (t.queuePacket src).packetQueue.count packet ≤
      [src].count packet + t.packetQueue.count packet := by
  rw [queuePacket]
  split
  · rw [List.count_append, Nat.add_comm]
  · exact Nat.le_add_left _ _

theorem encapsulate_conserves {src : Bytes}
    (hstep : t.encapsulate P m src dstLen = .ok (next, result)) :
    t.Conserves next [src] (t.sends src) := by
  intro packet _
  cases hsession : t.sessions (slot t.current) with
  | none =>
      rw [encapsulate_noSession P m t hsession, Except.ok.injEq] at hstep
      rw [sends_none hsession, (formatHandshakeInitiation_lingers P m hstep).packetQueue,
        List.filterMap_nil, List.count_nil, Nat.zero_add]
      exact queuePacket_count src packet
  | some session =>
      cases hformat : session.formatPacketData P src dstLen with
      | error panic => simp [encapsulate, hsession, hformat] at hstep
      | ok out =>
          obtain ⟨sent, hsent, -, hqueue, -⟩ := encapsulate_formatted P m t hsession hformat
          cases hsent.symm.trans hstep
          rw [sends, hsession, hqueue]
          exact Nat.le_refl _

/-- The packet that is taken from the queue leaves encrypted or returns to the queue, and
only once, since an initiation fits the buffer. -/
theorem sendQueuedPacket_conserves (hinit : handshakeInitSz ≤ dstLen)
    (hstep : t.sendQueuedPacket P m dstLen = .ok (next, result)) :
    t.Conserves next [] (t.packetQueue.head?.toList.flatMap t.sends) := by
  simp only [sendQueuedPacket] at hstep
  split at hstep
  · next hqueue =>
      cases hstep
      rw [hqueue]
      exact .idle rfl (by simp)
  · next first rest hqueue =>
      let popped : Tunn := { t with packetQueue := rest }
      have hlog : t.packetQueue.head?.toList.flatMap t.sends = popped.sends first := by
        simp [hqueue, sends, popped]
      have hconserves {last : Tunn} {out : TunnResult}
          (hsend : popped.encapsulate P m first dstLen = .ok (last, out)) :
          t.Conserves last [] (popped.sends first) := by
        intro packet hpacket
        have hcount := encapsulate_conserves hsend packet hpacket
        rw [hqueue, ← List.singleton_append, List.count_append]
        simpa [popped] using hcount
      rw [hlog]
      split at hstep
      · cases hstep
      · next last e hsend =>
          -- nothing fails here: a packet with a session is sent, and an initiation fits
          exfalso
          cases hsession : popped.sessions (slot popped.current) with
          | none =>
              obtain ⟨_, _, hwaits, -, hresult⟩ := encapsulate_waits P m first hsession hinit
              cases hwaits.symm.trans hsend
              rcases hresult with hdone | ⟨_, hnetwork⟩
              · cases hdone
              · cases hnetwork
          | some session =>
              cases hformat : session.formatPacketData P first dstLen with
              | error panic =>
                  have hpanic : popped.encapsulate P m first dstLen = .error panic := by
                    simp [encapsulate, hsession, hformat]
                  cases hpanic.symm.trans hsend
              | ok out =>
                  obtain ⟨sent, hsent, -⟩ := encapsulate_formatted P m popped hsession hformat
                  cases hsent.symm.trans hsend
      · next hsend =>
          cases hstep
          exact hconserves hsend

theorem decapsulate_conserves {datagram : Bytes} (hinit : handshakeInitSz ≤ dstLen)
    (hstep : t.decapsulate P m datagram dstLen = .ok (next, result)) :
    t.Conserves next [] (t.handles P m datagram dstLen) := by
  rw [handles]
  simp only [decapsulate] at hstep
  split_ifs at hstep ⊢ with hempty
  · exact sendQueuedPacket_conserves hinit hstep
  · split at hstep
    · next hverify =>
        cases hstep
        rw [hverify]
        exact .idle rfl (by simp)
    · next packet hverify =>
        rw [hverify]
        have hqueue := handleVerifiedPacket_packetQueue P m _ hstep
        refine .idle hqueue ?_
        cases packet with
        | handshakeInit p =>
            simp only [answers]
            split <;> simp [Event.content?]
        | handshakeResponse p =>
            simp only [completes]
            split <;> simp [Event.content?]
        | packetCookieReply p => simp
        | packetData p =>
            simp only [opens]
            split
            · simp
            · split <;> simp [Event.content?]

/-- The timers encrypt nothing but keepalives. They drop the queue when they give up. -/
theorem updateTimers_conserves (hstep : t.updateTimers P m dstLen = .ok (next, result)) :
    t.Conserves next [] (t.ticks result) := by
  have hkeepalive : ∀ content ∈ (t.ticks result).filterMap Event.content?, content = [] := by
    unfold ticks sends
    split
    · simp
    · split <;> simp [Event.content?]
  have hqueue : ∀ packet, packet ≠ [] →
      next.packetQueue.count packet ≤ t.packetQueue.count packet := by
    intro packet hpacket
    obtain ⟨last, hticked, hcases⟩ := updateTimers_cases hstep
    rw [← hticked.packetQueue]
    rcases hcases with ⟨-, rfl, -⟩ | ⟨-, -, hexpire⟩ | ⟨-, -, handshake, keepalive, hsend, -⟩
    · exact Nat.le_refl _
    · cases hexpire
      exact Nat.zero_le _
    · simp only [sendTimed] at hsend
      split_ifs at hsend
      · rw [(formatHandshakeInitiation_lingers P m (Except.ok.inj hsend)).packetQueue]
      · have hcount := encapsulate_conserves hsend packet hpacket
        rw [List.count_singleton, if_neg (by simpa using hpacket.symm)] at hcount
        omega
      · cases hsend
        exact Nat.le_refl _
  intro packet hpacket
  have hnone : ((t.ticks result).filterMap Event.content?).count packet = 0 :=
    List.count_eq_zero.mpr fun hmem => hpacket (hkeepalive packet hmem)
  rw [hnone, Nat.zero_add, List.count_nil, Nat.zero_add]
  exact hqueue packet hpacket

end Tunn

end Newt.Noise

namespace Newt.Wg.Pump

open Foundation Noise

/-- The packet that a call submits. -/
def Call.submitted? : Call → Option Bytes
  | .encapsulate _ packet => some packet
  | _ => none

variable {P : Primitives} {pump next last : Pump} {calls : List Call} {outs : List Inbound}
  {log : List Event}

theorem perform_conserves {call : Call} {out : Inbound}
    (hperform : pump.perform P call = .ok (next, out, log)) :
    pump.tun.Conserves next.tun call.submitted?.toList log := by
  obtain ⟨tun, result, rfl, hoperates, -⟩ := perform_operates hperform
  cases hoperates with
  | encapsulate hengine => exact Tunn.encapsulate_conserves hengine
  | decapsulate hengine =>
      exact Tunn.decapsulate_conserves pump.handshakeInitSz_le_scratch hengine
  | initiateHandshake hengine =>
      exact .idle (Tunn.formatHandshakeInitiation_lingers P _ hengine).packetQueue (by simp)
  | updateTimers hengine => exact Tunn.updateTimers_conserves hengine

/-- Over a whole run, too, whatever was encrypted or still waits was submitted. -/
theorem run_conserves (hrun : pump.run P calls = .ok (last, outs, log)) :
    pump.tun.Conserves last.tun (calls.filterMap Call.submitted?) log := by
  induction calls generalizing pump outs log with
  | nil =>
      cases hrun
      exact .idle rfl (by simp)
  | cons call calls ih =>
      obtain ⟨next, out, first, rest, more, hperform, hrest, rfl, rfl⟩ := run_cons hrun
      intro packet hpacket
      have hfirst := perform_conserves hperform packet hpacket
      have hlast := ih hrest packet hpacket
      have hsubmitted : ((call :: calls).filterMap Call.submitted?).count packet =
          call.submitted?.toList.count packet +
            (calls.filterMap Call.submitted?).count packet := by
        cases hcall : call.submitted? <;> simp [hcall, Nat.add_comm, List.count_cons]
      rw [hsubmitted, List.filterMap_append, List.count_append]
      omega

theorem subperm_filterMap {α β : Type} (f : α → Option β) {xs ys : List α}
    (hsubperm : xs.Subperm ys) : (xs.filterMap f).Subperm (ys.filterMap f) := by
  obtain ⟨zs, hperm, hsublist⟩ := hsubperm
  exact ⟨zs.filterMap f, hperm.filterMap f, hsublist.filterMap f⟩

/-- A pump that starts with an empty queue encrypts at most what was submitted. -/
theorem run_sends_submitted {secret peerPublic : Bytes} {mtu : Nat} {index : BitVec 32}
    {durationAtStart : Nat}
    (hrun : (withIndex P secret peerPublic mtu index durationAtStart).run P calls =
      .ok (last, outs, log)) :
    ((log.filterMap Event.content?).filterMap deliverable).Subperm
      ((calls.filterMap Call.submitted?).filterMap deliverable) := by
  have hconserves := run_conserves hrun
  -- keepalives are never delivered
  have hnonempty (contents : List Bytes) : contents.filterMap deliverable =
      (contents.filter (· ≠ [])).filterMap deliverable := by
    rw [List.filterMap_filter]
    congr 1
    funext content
    by_cases hcontent : content = []
    · subst hcontent
      rfl
    · simp [hcontent]
  rw [hnonempty, hnonempty (calls.filterMap _)]
  refine subperm_filterMap _ (List.subperm_ext_iff.mpr fun packet hmem => ?_)
  have hpacket : packet ≠ [] := by simpa using (List.mem_filter.mp hmem).2
  have hcount := hconserves packet hpacket
  rw [List.count_filter (by simpa using hpacket), List.count_filter (by simpa using hpacket)]
  simp only [withIndex, Tunn.new, List.count_nil] at hcount
  omega

/-- Two pumps over any network that forges nothing: all that one of them decrypts was
encrypted by the other. Then the packets it delivers are among those submitted to the
other, cut to the length in their headers, and each is delivered at most as often as it
was submitted. -/
theorem delivered_at_most_once {secretA peerA secretB peerB : Bytes} {mtuA mtuB : Nat}
    {indexA indexB : BitVec 32} {startA startB : Nat} {callsA callsB : List Call}
    {lastA lastB : Pump} {outsA outsB : List Inbound} {logA logB : List Event}
    (hrunA : (withIndex P secretA peerA mtuA indexA startA).run P callsA =
      .ok (lastA, outsA, logA))
    (hrunB : (withIndex P secretB peerB mtuB indexB startB).run P callsB =
      .ok (lastB, outsB, logB))
    (hauthentic : logB.filterMap Event.receivedRecord? ⊆ logA.filterMap Event.sentRecord?)
    (hkeys : (logB.filterMap Event.receivingKey?).Nodup)
    (hbound : ∀ nonce ∈ logA.filterMap Event.nonce?, nonce.2 + nBits < 2 ^ 64) :
    (outsB.filterMap Inbound.packet?).Subperm
      ((callsA.filterMap Call.submitted?).filterMap deliverable) := by
  have hexplained := run_explained hrunB
  obtain ⟨hreceipts, hpackets⟩ := Event.map_receivedRecord logB
  obtain ⟨hnonces, hcontents⟩ := Event.map_sentRecord logA
  have hbounded : ∀ receipt ∈ logB.filterMap Event.receipt?, receipt.2 + nBits < 2 ^ 64 := by
    intro receipt hmem
    rw [← hreceipts] at hmem
    obtain ⟨record, hrecord, rfl⟩ := List.mem_map.mp hmem
    refine hbound _ ?_
    rw [← hnonces]
    exact List.mem_map_of_mem (hauthentic hrecord)
  have hnodup : (logB.filterMap Event.receivedRecord?).Nodup := by
    refine List.Nodup.of_map Prod.fst ?_
    rw [hreceipts]
    exact receipts_nodup hexplained.trail hkeys hbounded
  have hrecords := subperm_filterMap (deliverable ∘ Prod.snd)
    (List.subperm_of_subset hnodup hauthentic)
  rw [← List.filterMap_map, ← List.filterMap_map, hcontents, hpackets] at hrecords
  rw [hexplained.packets]
  exact hrecords.trans (run_sends_submitted hrunA)

theorem delivered_once_answering :
    (ran twin answering).2.1.filterMap Inbound.packet? = [header] ∧
      ((ran twin answering).2.1.filterMap Inbound.packet?).Subperm
        ((asking.filterMap Call.submitted?).filterMap deliverable) := by
  have hasking := run_eq_ran twin asking (by decide +kernel)
  have hanswering := run_eq_ran twin answering (by decide +kernel)
  exact ⟨by decide +kernel, delivered_at_most_once hasking hanswering (by decide +kernel)
    (by decide +kernel) (by decide +kernel)⟩

end Newt.Wg.Pump
