import Newt.Wg.Log

/-! # The traffic of a pump

A run of a pump is any sequence of its calls, with any datagrams. Its log has every
session that was established, every packet that was encrypted, and every packet that was
decrypted. No two packets are encrypted under the same key and counter, and no key and
counter is received twice, as long as handshakes do not repeat keys.
-/

namespace Newt.Noise

open Foundation

namespace Event

/-- The key that a new session encrypts with. -/
def sendingKey? : Event → Option Bytes
  | .established seed => some seed.sendingKey
  | _ => none

/-- The key that a new session decrypts with. -/
def receivingKey? : Event → Option Bytes
  | .established seed => some seed.receivingKey
  | _ => none

/-- The key and the counter of a packet that is encrypted. -/
def nonce? : Event → Option (Bytes × Nat)
  | .sent session _ => some (session.sender, session.sendingKeyCounter)
  | _ => none

/-- The key and the counter of a packet that is decrypted. -/
def receipt? : Event → Option (Bytes × Nat)
  | .received session packet _ => some (session.receiver, packet.counter)
  | _ => none

/-- An event in the ledger of the sending keys. -/
def sendingEntry : Event → Option (Entry Bytes Nat)
  | .established seed => some (.opened seed.sendingKey)
  | .sent session _ => some (.used session.sender session.sendingKeyCounter)
  | .received _ _ _ => none

/-- An event in the ledger of the receiving keys. -/
def receivingEntry : Event → Option (Entry Bytes Nat)
  | .established seed => some (.opened seed.receivingKey)
  | .sent _ _ => none
  | .received session packet _ => some (.used session.receiver packet.counter)

theorem keys_sending (log : List Event) :
    Entry.keys (log.filterMap sendingEntry) = log.filterMap sendingKey? := by
  rw [Entry.keys, List.filterMap_filterMap]
  congr 1
  funext event
  cases event <;> rfl

theorem uses_sending (log : List Event) :
    Entry.uses (log.filterMap sendingEntry) = log.filterMap nonce? := by
  rw [Entry.uses, List.filterMap_filterMap]
  congr 1
  funext event
  cases event <;> rfl

theorem keys_receiving (log : List Event) :
    Entry.keys (log.filterMap receivingEntry) = log.filterMap receivingKey? := by
  rw [Entry.keys, List.filterMap_filterMap]
  congr 1
  funext event
  cases event <;> rfl

theorem uses_receiving (log : List Event) :
    Entry.uses (log.filterMap receivingEntry) = log.filterMap receipt? := by
  rw [Entry.uses, List.filterMap_filterMap]
  congr 1
  funext event
  cases event <;> rfl

end Event

namespace Session

/-! ## Sessions as cells of a ledger -/

/-- A session as the sender: packets use up the counters. -/
def sending : Discipline Session Bytes Nat where
  key session := session.sender
  fresh session := ∃ seed, session = Session.new seed
  use session n next :=
    n = session.sendingKeyCounter ∧ next.sender = session.sender ∧
      next.sendingKeyCounter = (n + 1) % 2 ^ 64
  keep session next :=
    next.sender = session.sender ∧ next.sendingKeyCounter = session.sendingKeyCounter
  key_of_use huse := huse.2.1
  key_of_keep hkeep := hkeep.1

/-- A session as the receiver: packets fill the replay window. -/
def receiving : Discipline Session Bytes Nat where
  key session := session.receiver
  fresh session := ∃ seed, session = Session.new seed
  use session n next :=
    next.receiver = session.receiver ∧
      ∃ v cnt, session.receivingKeyCounter.markDidReceive n = .ok v ∧
        next.receivingKeyCounter = { v with receiveCnt := cnt }
  keep session next :=
    next.receiver = session.receiver ∧ next.receivingKeyCounter = session.receivingKeyCounter
  key_of_use huse := huse.1
  key_of_keep hkeep := hkeep.1

/-- The counters of a session count up from zero. -/
theorem sending_guarantees : sending.Guarantees fun session counters =>
    session.sendingKeyCounter = counters.length % 2 ^ 64 ∧
      counters = (List.range counters.length).map (· % 2 ^ 64) where
  fresh hfresh := by
    obtain ⟨seed, rfl⟩ := hfresh
    exact ⟨rfl, rfl⟩
  use hgood huse := by
    obtain ⟨hcounter, hcounters⟩ := hgood
    obtain ⟨rfl, -, hnext⟩ := huse
    rw [List.length_append, List.length_singleton, List.range_succ, List.map_append]
    refine ⟨by rw [hnext, hcounter, Nat.mod_add_mod], ?_⟩
    rw [← hcounters, hcounter]
    rfl
  keep hgood hkeep := ⟨hkeep.2.trans hgood.1, hgood.2⟩

/-- A session receives every counter at most once. -/
theorem receiving_guarantees : receiving.Guarantees fun session counters =>
    (∀ counter ∈ counters, counter + nBits < 2 ^ 64) →
      session.receivingKeyCounter.Remembers counters.reverse ∧ counters.Nodup where
  fresh hfresh _ := by
    obtain ⟨seed, rfl⟩ := hfresh
    exact ⟨ReceivingKeyCounterValidator.remembers_default, List.nodup_nil⟩
  use {session counter next counters} hgood huse hbound := by
    obtain ⟨-, v, cnt, hmark, hnext⟩ := huse
    obtain ⟨hremembers, hnodup⟩ := hgood fun n hn => hbound n (List.mem_append_left _ hn)
    obtain ⟨hfresh, hstale⟩ := ReceivingKeyCounterValidator.markDidReceive_spec hremembers
      (hbound counter (by simp))
    by_cases hnew : Fresh nBits counters.reverse counter
    · obtain ⟨w, hw, hremembered, -⟩ := hfresh hnew
      cases hw.symm.trans hmark
      rw [hnext, List.reverse_append]
      refine ⟨hremembered, ?_⟩
      have hunseen : counter ∉ counters := by simpa using hnew.1
      exact hnodup.append (List.nodup_singleton _) (by simpa using hunseen)
    · cases (hstale hnew).symm.trans hmark
  keep hgood hkeep hbound := by
    rw [hkeep.2]
    exact hgood hbound

end Session

/-! ## The ring as a ledger -/

variable {P : Primitives} {ring next : Ring} {log : List Event}

theorem Move.sending (hmove : Move P ring log next) :
    Trail Session.sending.Step ring (log.flatMap fun e => e.sendingEntry.toList) next := by
  cases hmove with
  | forget hkept => exact .single (.drop hkept)
  | establish seed =>
      have hfresh : Session.sending.fresh (Session.new seed) := ⟨seed, rfl⟩
      exact .single (.put _ hfresh)
  | send hslot hformat =>
      obtain ⟨rfl, -⟩ := Session.formatPacketData_eq_ok hformat
      exact .single (.use hslot ⟨rfl, rfl, rfl⟩)
  | receive hslot hreceive =>
      obtain ⟨-, -, v, -, rfl⟩ := Session.receivePacketData_eq_ok hreceive
      exact .single (.keep hslot ⟨rfl, rfl⟩)

theorem Move.receiving (hmove : Move P ring log next) :
    Trail Session.receiving.Step ring (log.flatMap fun e => e.receivingEntry.toList) next := by
  cases hmove with
  | forget hkept => exact .single (.drop hkept)
  | establish seed =>
      have hfresh : Session.receiving.fresh (Session.new seed) := ⟨seed, rfl⟩
      exact .single (.put _ hfresh)
  | send hslot hformat =>
      obtain ⟨rfl, -⟩ := Session.formatPacketData_eq_ok hformat
      exact .single (.keep hslot ⟨rfl, rfl⟩)
  | receive hslot hreceive =>
      obtain ⟨-, -, v, hmark, rfl⟩ := Session.receivePacketData_eq_ok hreceive
      exact .single (.use hslot ⟨rfl, v, _, hmark, rfl⟩)

/-- No key and counter encrypts two packets. -/
theorem nonces_nodup (htrail : Trail (Move P) (fun _ => none) log ring)
    (hkeys : (log.filterMap Event.sendingKey?).Nodup)
    (hcount : (log.filterMap Event.nonce?).length ≤ 2 ^ 64) :
    (log.filterMap Event.nonce?).Nodup := by
  have hledger := htrail.map id (fun e => e.sendingEntry.toList) Move.sending
  simp only [id_eq, ← List.filterMap_eq_flatMap_toList] at hledger
  rw [← Event.uses_sending] at hcount ⊢
  refine Discipline.nodup_uses_of_trail Session.sending_guarantees hledger
    (by rwa [Event.keys_sending]) ?_
  rintro session key ⟨-, hcounters⟩
  have hlength : (Entry.numbers key (log.filterMap Event.sendingEntry)).length ≤ 2 ^ 64 := by
    rw [Entry.numbers, List.length_map]
    exact (List.length_filter_le _ _).trans hcount
  rw [hcounters]
  refine List.Nodup.map_on ?_ List.nodup_range
  intro a ha b hb hmod
  rw [List.mem_range] at ha hb
  rwa [Nat.mod_eq_of_lt (ha.trans_le hlength), Nat.mod_eq_of_lt (hb.trans_le hlength)] at hmod

/-- No key and counter is received twice. -/
theorem receipts_nodup (htrail : Trail (Move P) (fun _ => none) log ring)
    (hkeys : (log.filterMap Event.receivingKey?).Nodup)
    (hbound : ∀ receipt ∈ log.filterMap Event.receipt?, receipt.2 + nBits < 2 ^ 64) :
    (log.filterMap Event.receipt?).Nodup := by
  have hledger := htrail.map id (fun e => e.receivingEntry.toList) Move.receiving
  simp only [id_eq, ← List.filterMap_eq_flatMap_toList] at hledger
  rw [← Event.uses_receiving] at hbound ⊢
  refine Discipline.nodup_uses_of_trail Session.receiving_guarantees hledger
    (by rwa [Event.keys_receiving]) ?_
  intro session key hgood
  refine (hgood fun counter hcounter => ?_).2
  exact hbound (key, counter) (Entry.mem_numbers_iff.mp hcounter)

end Newt.Noise

namespace Newt.Wg

open Foundation Noise

/-- The data packet in an output. -/
def Inbound.data? : Inbound → Option Bytes
  | .network datagram => (TunnResult.writeToNetwork datagram).data?
  | _ => none

/-- The handshake message in an output. -/
def Inbound.handshake? : Inbound → Option Bytes
  | .network datagram => (TunnResult.writeToNetwork datagram).handshake?
  | _ => none

/-- The packet for the host in an output. -/
def Inbound.packet? : Inbound → Option Bytes
  | .packet content => some content
  | _ => none

def Inbound.ofNetwork : Option Bytes → Inbound
  | some datagram => .network datagram
  | none => .nothing

namespace Pump

/-- The calls that both roles make. The receive loops consist of calls of
`decapsulate`. -/
inductive Call where
  | encapsulate (m : Moment) (packet : Bytes)
  | decapsulate (m : Moment) (datagram : Bytes)
  | initiateHandshake (m : Moment)
  | updateTimers (m : Moment)
  deriving DecidableEq, Repr

/-- One call, with its output and its log. -/
def perform (P : Primitives) (pump : Pump) :
    Call → Except Panic (Pump × Inbound × List Event)
  | .encapsulate m packet =>
      match pump.encapsulate P m packet with
      | .error p => .error p
      | .ok (next, out) => .ok (next, .ofNetwork out, pump.tun.sends packet)
  | .decapsulate m datagram =>
      match pump.decapsulate P m datagram with
      | .error p => .error p
      | .ok (next, out) => .ok (next, out, pump.tun.handles P m datagram pump.scratch)
  | .initiateHandshake m =>
      let (next, out) := pump.initiateHandshake P m
      .ok (next, .ofNetwork out, [])
  | .updateTimers m =>
      match pump.updateTimers P m with
      | .error p => .error p
      | .ok (next, out) =>
          .ok (next, .ofNetwork out, if (Inbound.ofNetwork out).data? = none then []
            else pump.tun.sends [])

/-- Any number of calls, with all their outputs and the whole log. -/
def run (P : Primitives) : Pump → List Call → Except Panic (Pump × List Inbound × List Event)
  | pump, [] => .ok (pump, [], [])
  | pump, call :: calls =>
      match pump.perform P call with
      | .error p => .error p
      | .ok (next, out, log) =>
          match run P next calls with
          | .error p => .error p
          | .ok (last, outs, logs) => .ok (last, out :: outs, log ++ logs)

variable {P : Primitives} {pump next last : Pump} {calls : List Call} {outs : List Inbound}
  {log : List Event}

/-- An output shows what is in the result of the engine. -/
structure Shows (out : Inbound) (result : TunnResult) : Prop where
  data : out.data? = result.data?
  handshake : out.handshake? = result.handshake?
  packet : out.packet? = result.packet?

theorem shows_ofNetwork {result : TunnResult} (hnone : result.packet? = none) :
    Shows (.ofNetwork (networkOnly result)) result := by
  cases result <;> first | exact ⟨rfl, rfl, rfl⟩ | cases hnone

theorem shows_inbound (result : TunnResult) : Shows (inbound result) result := by
  cases result <;> exact ⟨rfl, rfl, rfl⟩

/-- What a call does to the tunnel, with the result of the engine and the log. -/
inductive Operates (P : Primitives) (dstLen : Nat) (t next : Tunn) :
    Call → TunnResult → List Event → Prop
  | encapsulate {m : Moment} {packet : Bytes} {result : TunnResult}
      (hengine : t.encapsulate P m packet dstLen = .ok (next, result)) :
      Operates P dstLen t next (.encapsulate m packet) result (t.sends packet)
  | decapsulate {m : Moment} {datagram : Bytes} {result : TunnResult}
      (hengine : t.decapsulate P m datagram dstLen = .ok (next, result)) :
      Operates P dstLen t next (.decapsulate m datagram) result (t.handles P m datagram dstLen)
  | initiateHandshake {m : Moment} {result : TunnResult}
      (hengine : t.formatHandshakeInitiation P m dstLen false = (next, result)) :
      Operates P dstLen t next (.initiateHandshake m) result []
  | updateTimers {m : Moment} {result : TunnResult}
      (hengine : t.updateTimers P m dstLen = .ok (next, result)) :
      Operates P dstLen t next (.updateTimers m) result (t.ticks result)

theorem Operates.logged {dstLen : Nat} {t next : Tunn} {call : Call} {result : TunnResult}
    (hoperates : Operates P dstLen t next call result log) : t.Logged P next result log := by
  cases hoperates with
  | encapsulate hengine => exact Tunn.encapsulate_logged hengine
  | decapsulate hengine => exact Tunn.decapsulate_logged hengine
  | initiateHandshake hengine => exact Tunn.formatHandshakeInitiation_logged hengine
  | updateTimers hengine => exact Tunn.updateTimers_logged hengine

/-- A call that returns is an operation of the tunnel, and its output shows the result. -/
theorem perform_operates {call : Call} {out : Inbound}
    (hperform : pump.perform P call = .ok (next, out, log)) :
    ∃ tun result, next = { pump with tun := tun } ∧
      Operates P pump.scratch pump.tun tun call result log ∧ Shows out result := by
  cases call with
  | encapsulate m packet =>
      simp only [perform, Pump.encapsulate] at hperform
      cases hengine : pump.tun.encapsulate P m packet pump.scratch with
      | error panic => simp [hengine] at hperform
      | ok out =>
          obtain ⟨tun, result⟩ := out
          simp only [hengine, Except.ok.injEq, Prod.mk.injEq] at hperform
          obtain ⟨rfl, rfl, rfl⟩ := hperform
          exact ⟨tun, result, rfl, .encapsulate hengine,
            shows_ofNetwork (Tunn.encapsulate_packet hengine)⟩
  | decapsulate m datagram =>
      simp only [perform, Pump.decapsulate] at hperform
      cases hengine : pump.tun.decapsulate P m datagram pump.scratch with
      | error panic => simp [hengine] at hperform
      | ok out =>
          obtain ⟨tun, result⟩ := out
          simp only [hengine, Except.ok.injEq, Prod.mk.injEq] at hperform
          obtain ⟨rfl, rfl, rfl⟩ := hperform
          exact ⟨tun, result, rfl, .decapsulate hengine, shows_inbound result⟩
  | initiateHandshake m =>
      cases hengine : pump.tun.formatHandshakeInitiation P m pump.scratch false with
      | mk tun result =>
          simp only [perform, Pump.initiateHandshake, hengine, Except.ok.injEq,
            Prod.mk.injEq] at hperform
          obtain ⟨rfl, rfl, rfl⟩ := hperform
          have hnone : result.packet? = none := by
            simpa using (Tunn.formatHandshakeInitiation_logged hengine).packets
          exact ⟨tun, result, rfl, .initiateHandshake hengine, shows_ofNetwork hnone⟩
  | updateTimers m =>
      simp only [perform, Pump.updateTimers] at hperform
      cases hengine : pump.tun.updateTimers P m pump.scratch with
      | error panic => simp [hengine] at hperform
      | ok out =>
          obtain ⟨tun, result⟩ := out
          have hshows : Shows (.ofNetwork (networkOnly result)) result :=
            shows_ofNetwork (Tunn.updateTimers_packet hengine)
          simp only [hengine, Except.ok.injEq, Prod.mk.injEq, hshows.data] at hperform
          obtain ⟨rfl, rfl, rfl⟩ := hperform
          exact ⟨tun, result, rfl, .updateTimers hengine, hshows⟩

/-- A run is a first call and the run after it. -/
theorem run_cons {call : Call} (hrun : pump.run P (call :: calls) = .ok (last, outs, log)) :
    ∃ next out first rest more, pump.perform P call = .ok (next, out, first) ∧
      next.run P calls = .ok (last, rest, more) ∧ outs = out :: rest ∧ log = first ++ more := by
  simp only [run] at hrun
  split at hrun
  · cases hrun
  · next next out first hperform =>
      split at hrun
      · cases hrun
      · next rest more hrest =>
          cases hrun
          exact ⟨next, out, first, _, _, hperform, hrest, rfl, rfl⟩

/-- The log explains the sessions and the outputs. -/
structure Explained (P : Primitives) (pump last : Pump) (outs : List Inbound) (log : List Event) :
    Prop where
  trail : Trail (Move P) pump.tun.sessions log last.tun.sessions
  datagrams : outs.filterMap Inbound.data? = log.filterMap (Event.datagram? P)
  packets : outs.filterMap Inbound.packet? = log.filterMap Event.packet?

theorem perform_explained {call : Call} {out : Inbound}
    (hperform : pump.perform P call = .ok (next, out, log)) :
    Explained P pump next [out] log := by
  obtain ⟨tun, result, rfl, hoperates, hshows⟩ := perform_operates hperform
  have hlogged := hoperates.logged
  refine ⟨hlogged.trail, ?_, ?_⟩
  · rw [← hlogged.datagrams, ← hshows.data]
    cases hout : out.data? <;> simp [hout]
  · rw [← hlogged.packets, ← hshows.packet]
    cases hout : out.packet? <;> simp [hout]

theorem run_explained (hrun : pump.run P calls = .ok (last, outs, log)) :
    Explained P pump last outs log := by
  induction calls generalizing pump outs log with
  | nil =>
      cases hrun
      exact ⟨.refl _, rfl, rfl⟩
  | cons call calls ih =>
      obtain ⟨next, out, first, rest, more, hperform, hrest, rfl, rfl⟩ := run_cons hrun
      have hfirst := perform_explained hperform
      have hlast := ih hrest
      refine ⟨hfirst.trail.trans hlast.trail, ?_, ?_⟩
      · rw [← List.singleton_append, List.filterMap_append, List.filterMap_append,
          hfirst.datagrams, hlast.datagrams]
      · rw [← List.singleton_append, List.filterMap_append, List.filterMap_append,
          hfirst.packets, hlast.packets]

variable {secret peerPublic : Bytes} {mtu : Nat} {index : BitVec 32} {durationAtStart : Nat}

/-- In every run of a new pump, the data packets that leave it are those of the log, and no
two of them are encrypted under the same key and counter, as long as no two handshakes
agree on the same key. -/
theorem run_nonces_unique
    (hrun : (withIndex P secret peerPublic mtu index durationAtStart).run P calls =
      .ok (last, outs, log))
    (hkeys : (log.filterMap Event.sendingKey?).Nodup)
    (hcount : (log.filterMap Event.nonce?).length ≤ 2 ^ 64) :
    outs.filterMap Inbound.data? = log.filterMap (Event.datagram? P) ∧
      (log.filterMap Event.nonce?).Nodup := by
  have hexplained := run_explained hrun
  exact ⟨hexplained.datagrams, nonces_nodup hexplained.trail hkeys hcount⟩

/-! ## A handshake and one packet -/

/-- A pump under the suite without secrecy, whose peer is a pump like it. -/
def twin : Pump := withIndex Primitives.null [] (List.replicate 32 0) 1280 0 0

/-- What a run under this suite does. -/
def ran (pump : Pump) (calls : List Call) : Pump × List Inbound × List Event :=
  match pump.run Primitives.null calls with
  | .ok out => out
  | .error _ => (pump, [], [])

theorem run_eq_ran (pump : Pump) (calls : List Call)
    (hok : (pump.run Primitives.null calls).isOk = true) :
    pump.run Primitives.null calls =
      .ok ((ran pump calls).1, (ran pump calls).2.1, (ran pump calls).2.2) := by
  rw [ran]
  cases hrun : pump.run Primitives.null calls with
  | error panic =>
      rw [hrun] at hok
      cases hok
  | ok out => rfl

/-- A bare IPv4 header. -/
def header : Bytes := [69, 0, 0, 20] ++ List.replicate 16 0

/-- The calls of the side that starts the handshake and sends the packet. -/
def asking : List Call :=
  [.initiateHandshake start,
    .decapsulate start ([2, 0, 0, 0, 1, 0, 0, 0, 1, 0, 0, 0] ++ List.replicate 80 0),
    .encapsulate start header]

/-- The data packet with the header. -/
def carried : Bytes :=
  [4, 0, 0, 0, 1, 0, 0, 0, 1, 0, 0, 0, 0, 0, 0, 0] ++ header ++ List.replicate 16 0

/-- The calls of the other side. The network delivers the data packet twice. -/
def answering : List Call :=
  [.decapsulate start ([1, 0, 0, 0, 1, 0, 0, 0] ++ List.replicate 80 0 ++
      [64, 0, 0, 0, 0, 0, 0, 37] ++ List.replicate 52 0),
    .decapsulate start ([4, 0, 0, 0, 1, 0, 0, 0] ++ List.replicate 24 0),
    .decapsulate start carried, .decapsulate start carried]

theorem nonces_unique_asking :
    (ran twin asking).2.1.filterMap Inbound.data? =
        [[4, 0, 0, 0, 1, 0, 0, 0] ++ List.replicate 24 0, carried] ∧
      ((ran twin asking).2.2.filterMap Event.nonce?).Nodup := by
  have hasking := run_eq_ran twin asking (by decide +kernel)
  have hcount : ((ran twin asking).2.2.filterMap Event.nonce?).length = 2 := by decide
  exact ⟨by decide, (run_nonces_unique hasking (by decide) (by rw [hcount]; decide)).2⟩

/-- In every run of a new pump, the packets for the host are contents of the data packets
in the log, and no two of these have the same key and counter: neither within a session
nor after it was replaced. -/
theorem run_receipts_unique
    (hrun : (withIndex P secret peerPublic mtu index durationAtStart).run P calls =
      .ok (last, outs, log))
    (hkeys : (log.filterMap Event.receivingKey?).Nodup)
    (hbound : ∀ receipt ∈ log.filterMap Event.receipt?, receipt.2 + nBits < 2 ^ 64) :
    outs.filterMap Inbound.packet? = log.filterMap Event.packet? ∧
      (log.filterMap Event.receipt?).Nodup := by
  have hexplained := run_explained hrun
  exact ⟨hexplained.packets, receipts_nodup hexplained.trail hkeys hbound⟩

theorem receipts_unique_answering :
    (ran twin answering).2.1.filterMap Inbound.packet? = [header] ∧
      ((ran twin answering).2.2.filterMap Event.receipt?).Nodup := by
  have hanswering := run_eq_ran twin answering (by decide +kernel)
  have hreceipts : (ran twin answering).2.2.filterMap Event.receipt? =
      [(List.replicate 32 0, 0), (List.replicate 32 0, 1)] := by decide +kernel
  exact ⟨by decide +kernel,
    (run_receipts_unique hanswering (by decide +kernel) (by rw [hreceipts]; decide)).2⟩

end Pump

end Newt.Wg
