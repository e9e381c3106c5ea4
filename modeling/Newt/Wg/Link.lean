import Newt.Noise.Agreement
import Newt.Wg.Traffic

/-! # An established link

One tunnel speaks: it encrypts packets under consecutive counters. The other listens: it
decrypts whatever part of them the network delivers, in whatever order and however often.
The packets it delivers are those whose counters pass the sliding window.
-/

namespace Newt.Noise

open Foundation

/-- The data packet of a session of `seed` with a given counter and content. -/
def SessionSeed.packet (P : Primitives) (seed : SessionSeed) (counter : Nat) (content : Bytes) :
    PacketData :=
  ⟨seed.peerIndex, counter, P.aeadChacha20Seal seed.sendingKey counter content []⟩

namespace Tunn

variable {P : Primitives} {m : Moment} {t : Tunn} {dstLen : Nat} {seed : SessionSeed}
  {seen : List Nat} {counter : Nat} {content : Bytes}

/-- The session of `seed` is in its slot and has received the counters in `seen`. -/
def Listens (P : Primitives) (seed : SessionSeed) (seen : List Nat) (t : Tunn) : Prop :=
  ∃ session sent, t.sessions (slot seed.localIndex.toNat) = some session ∧
    Session.Life P seed session sent seen

/-- The tunnel encrypts with the session of `seed`, and `counter` comes next. -/
def Speaks (seed : SessionSeed) (counter : Nat) (t : Tunn) : Prop :=
  ∃ session, t.sessions (slot t.current) = some session ∧ session.sender = seed.sendingKey ∧
    session.sendingIndex = seed.peerIndex ∧ session.sendingKeyCounter = counter

/-- A speaking tunnel encrypts the next packet at once. -/
theorem Speaks.encapsulate (hspeaks : t.Speaks seed counter) (P : Primitives) (m : Moment)
    (hcounter : counter + 1 < 2 ^ 64) (hfit : content.length + dataOverheadSz ≤ dstLen) :
    ∃ next, t.encapsulate P m content dstLen =
        .ok (next, .writeToNetwork (seed.packet P counter content).message) ∧
      next.Speaks seed (counter + 1) := by
  obtain ⟨session, hsession, hsender, hindex, rfl⟩ := hspeaks
  obtain ⟨next, hstep, hnext, -⟩ :=
    encapsulate_formatted P m t hsession (session.formatPacketData_eq P hfit)
  refine ⟨next, ?_, session.advance, hnext, hsender, hindex, Nat.mod_eq_of_lt hcounter⟩
  rw [hstep, Session.datagram, hsender, hindex]
  rfl

/-- A listening tunnel takes a packet that decrypts exactly if its counter is fresh. -/
theorem Listens.handleData {packet : PacketData} (hlistens : t.Listens P seed seen)
    (hindex : packet.receiverIdx = seed.localIndex) (hbound : packet.counter + nBits < 2 ^ 64)
    (hfit : packet.encryptedEncapsulatedPacket.length ≤ dstLen)
    (hopen : P.aeadChacha20Open seed.receivingKey packet.counter
      packet.encryptedEncapsulatedPacket [] = .ok content) :
    ∃ next result, t.handleData P packet dstLen = .ok (next, result) ∧
      result.packet? = (if Fresh nBits seen packet.counter then deliverable content else none) ∧
      next.Listens P seed (if Fresh nBits seen packet.counter then packet.counter :: seen
        else seen) := by
  obtain ⟨session, sent, hsession, hlife⟩ := hlistens
  obtain ⟨haccept, hduplicate, hfar⟩ := hlife.receive_cases hindex hbound hfit hopen
  by_cases hfresh : Fresh nBits seen packet.counter
  · obtain ⟨used, hreceive⟩ := haccept hfresh
    simp only [Tunn.handleData, hindex, hsession, hreceive, if_pos hfresh]
    generalize hvalid : validateDecapsulatedPacket _ content = out
    obtain ⟨next, result⟩ := out
    obtain ⟨hsessions, hpacket, -⟩ := validateDecapsulatedPacket_result hvalid
    refine ⟨next, result, rfl, hpacket, used, sent, ?_, hlife.receive hbound hreceive⟩
    rw [hsessions, timerTick_sessions, setCurrentSession_sessions]
    exact Function.update_self _ _ _
  · obtain ⟨e, hreceive⟩ : ∃ e, session.receivePacketData P packet dstLen =
        .ok (session, .error e) := by
      by_cases hnear : ∀ d ∈ seen, d < packet.counter + nBits
      · have hmem : packet.counter ∈ seen := by
          by_contra hnew
          exact hfresh ⟨hnew, hnear⟩
        exact ⟨_, hduplicate hmem hnear⟩
      · exact ⟨_, hfar (by simpa using hnear)⟩
    simp only [Tunn.handleData, hindex, hsession, hreceive, if_neg hfresh]
    exact ⟨_, _, rfl, rfl, session, sent, hsession, hlife⟩

theorem decapsulate_data {packet : PacketData} (hcounter : packet.counter < 2 ^ 64)
    (htag : 16 ≤ packet.encryptedEncapsulatedPacket.length) :
    t.decapsulate P m packet.message dstLen = t.handleData P packet dstLen := by
  have hparse := parseIncomingPacket_packetData packet hcounter htag
  have hnonempty : packet.message ≠ [] := by simp [PacketData.message, leBytes]
  simp only [Tunn.decapsulate, if_neg hnonempty, RateLimiter.verifyPacket_data hparse,
    handleVerifiedPacket]

/-- A listening tunnel takes a data packet of its peer exactly if its counter is fresh. -/
theorem Listens.decapsulate (hlaw : P.Lawful) (hlistens : t.Listens P seed seen) (m : Moment)
    (hbound : counter + nBits < 2 ^ 64) (hfit : content.length + 16 ≤ dstLen) :
    ∃ next result,
      t.decapsulate P m (seed.swap.packet P counter content).message dstLen = .ok (next, result) ∧
      result.packet? = (if Fresh nBits seen counter then deliverable content else none) ∧
      next.Listens P seed (if Fresh nBits seen counter then counter :: seen else seen) := by
  have hlength : (seed.swap.packet P counter content).encryptedEncapsulatedPacket.length =
      content.length + 16 := hlaw.aeadSeal_length _ _ _ _
  have hcounter : (seed.swap.packet P counter content).counter < 2 ^ 64 :=
    Nat.lt_of_le_of_lt (Nat.le_add_right _ _) hbound
  rw [decapsulate_data hcounter (by omega)]
  exact hlistens.handleData rfl hbound (by omega) (hlaw.open_sealed _ _ _ _)

end Tunn

end Newt.Noise

namespace Newt.Wg.Pump

open Foundation Noise

variable {P : Primitives} {pump : Pump} {seed : SessionSeed} {seen : List Nat}

/-- Packets submitted to a speaking pump leave at once, under consecutive counters. -/
theorem run_submissions (P : Primitives) (submissions : List (Moment × Bytes)) {counter : Nat}
    (hspeaks : pump.tun.Speaks seed counter)
    (hcounter : counter + submissions.length < 2 ^ 64)
    (hfits : ∀ submission ∈ submissions, submission.2.length ≤ max pump.mtu 1500) :
    ∃ last log, pump.run P (submissions.map fun s => .encapsulate s.1 s.2) =
        .ok (last, (submissions.mapIdx fun i s =>
          .network (seed.packet P (counter + i) s.2).message), log) ∧
      last.tun.Speaks seed (counter + submissions.length) := by
  induction submissions generalizing pump counter with
  | nil => exact ⟨pump, [], rfl, hspeaks⟩
  | cons submission rest ih =>
      obtain ⟨m, packet⟩ := submission
      have hfit : packet.length + dataOverheadSz ≤ pump.scratch := by
        have hlength : packet.length ≤ max pump.mtu 1500 := hfits (m, packet) List.mem_cons_self
        simp only [dataOverheadSz, scratch]
        omega
      rw [List.length_cons] at hcounter
      obtain ⟨tun, hengine, hnext⟩ := hspeaks.encapsulate P m (by omega) hfit
      have hspeaking : ({ pump with tun := tun } : Pump).tun.Speaks seed (counter + 1) := hnext
      obtain ⟨last, log, hrun, hlast⟩ := ih hspeaking (by omega)
        fun submission hmem => hfits submission (List.mem_cons_of_mem _ hmem)
      refine ⟨last, pump.tun.sends packet ++ log, ?_, ?_⟩
      · simp only [List.map_cons, run, perform, Pump.encapsulate, hengine, networkOnly,
          Inbound.ofNetwork, hrun, List.mapIdx_cons]
        simp only [Nat.add_zero, Nat.add_assoc, Nat.add_comm 1]
      · rwa [List.length_cons, Nat.add_comm rest.length, ← Nat.add_assoc]

/-- A listening pump delivers, of the packets that arrive, those with accepted counters. -/
theorem run_arrivals (hlaw : P.Lawful) (content : Nat → Bytes) (arrivals : List (Moment × Nat))
    (hlistens : pump.tun.Listens P seed seen)
    (hbound : ∀ arrival ∈ arrivals, arrival.2 + nBits < 2 ^ 64)
    (hfits : ∀ arrival ∈ arrivals, (content arrival.2).length ≤ max pump.mtu 1500) :
    ∃ last outs log, pump.run P (arrivals.map fun a =>
        .decapsulate a.1 (seed.swap.packet P a.2 (content a.2)).message) = .ok (last, outs, log) ∧
      outs.filterMap Inbound.packet? =
        (accepted nBits seen (arrivals.map Prod.snd)).filterMap fun c =>
          deliverable (content c) := by
  induction arrivals generalizing pump seen with
  | nil => exact ⟨pump, [], [], rfl, rfl⟩
  | cons arrival rest ih =>
      obtain ⟨m, counter⟩ := arrival
      have hfit : (content counter).length + 16 ≤ pump.scratch := by
        have hlength : (content counter).length ≤ max pump.mtu 1500 :=
          hfits (m, counter) List.mem_cons_self
        simp only [scratch]
        omega
      obtain ⟨tun, result, hengine, hpacket, hnext⟩ :=
        hlistens.decapsulate hlaw m (hbound (m, counter) List.mem_cons_self) hfit
      have hlistening : ({ pump with tun := tun } : Pump).tun.Listens P seed
          (if Fresh nBits seen counter then counter :: seen else seen) := hnext
      obtain ⟨last, outs, log, hrun, houts⟩ := ih hlistening
        (fun arrival hmem => hbound arrival (List.mem_cons_of_mem _ hmem))
        (fun arrival hmem => hfits arrival (List.mem_cons_of_mem _ hmem))
      refine ⟨last, inbound result :: outs, pump.tun.handles P m
        (seed.swap.packet P counter (content counter)).message pump.scratch ++ log, ?_, ?_⟩
      · simp only [List.map_cons, run, perform, Pump.decapsulate, hengine, hrun]
      · have hfirst := (shows_inbound result).packet
        rw [hpacket] at hfirst
        rw [List.filterMap_cons, hfirst, houts, List.map_cons, accepted]
        split_ifs
        · rw [List.filterMap_cons]
        · rfl

/-- Up to 1024 packets over an established link. The network loses, reorders, and repeats
them as it likes: `arrivals` are the positions of those that arrive. Each packet that
arrives is delivered once, in the order of the first arrivals. -/
theorem link_delivers (hlaw : P.Lawful) {a b : Pump} {counter : Nat}
    (hspeaks : a.tun.Speaks seed.swap counter) (hlistens : b.tun.Listens P seed seen)
    (hseen : ∀ d ∈ seen, d < counter) (submissions : List (Moment × Bytes))
    (hwindow : submissions.length ≤ nBits)
    (hcounter : counter + submissions.length + nBits < 2 ^ 64)
    (hfits : ∀ s ∈ submissions, s.2.length ≤ max a.mtu 1500 ∧ s.2.length ≤ max b.mtu 1500)
    (hbare : ∀ s ∈ submissions, deliverable s.2 = some s.2)
    (arrivals : List (Moment × Nat)) (harrivals : ∀ x ∈ arrivals, x.2 < submissions.length) :
    ∃ (a' : Pump) (sent : List Bytes) (logA : List Event) (b' : Pump) (outs : List Inbound)
      (logB : List Event),
      a.run P (submissions.map fun s => .encapsulate s.1 s.2) =
        .ok (a', sent.map .network, logA) ∧
      b.run P (arrivals.map fun x => .decapsulate x.1 (sent.getD x.2 [])) =
        .ok (b', outs, logB) ∧
      outs.filterMap Inbound.packet? =
        (arrivals.map Prod.snd).eraseDups.map fun i => (submissions.map Prod.snd).getD i [] := by
  obtain ⟨a', logA, hrunA, -⟩ := run_submissions P submissions hspeaks (by omega)
    fun s hs => (hfits s hs).1
  let packets := submissions.map Prod.snd
  let sent := submissions.mapIdx fun i s => (seed.swap.packet P (counter + i) s.2).message
  let content (c : Nat) : Bytes := packets.getD (c - counter) []
  -- the data packet at position `i` has counter `counter + i`
  have hcontent : ∀ i, content (counter + i) = packets.getD i [] := by
    intro i
    simp [content]
  have hsent : ∀ i < submissions.length, sent.getD i [] =
      (seed.swap.packet P (counter + i) (content (counter + i))).message := by
    intro i hi
    simp [sent, hcontent, packets, hi]
  have hpacket : ∀ i < submissions.length, ∃ s ∈ submissions, packets.getD i [] = s.2 := by
    intro i hi
    exact ⟨submissions[i], List.getElem_mem hi, by simp [packets, hi]⟩
  let numbered := arrivals.map fun x => (x.1, counter + x.2)
  have hcalls : (arrivals.map fun x => Call.decapsulate x.1 (sent.getD x.2 [])) =
      numbered.map fun x =>
        Call.decapsulate x.1 (seed.swap.packet P x.2 (content x.2)).message := by
    rw [List.map_map]
    refine List.map_congr_left fun x hx => ?_
    simp only [Function.comp_apply, hsent x.2 (harrivals x hx)]
  have hbound : ∀ x ∈ numbered, x.2 + nBits < 2 ^ 64 := by
    intro x hx
    obtain ⟨y, hy, rfl⟩ := List.mem_map.mp hx
    have hposition := harrivals y hy
    dsimp only
    omega
  have hlengths : ∀ x ∈ numbered, (content x.2).length ≤ max b.mtu 1500 := by
    intro x hx
    obtain ⟨y, hy, rfl⟩ := List.mem_map.mp hx
    obtain ⟨s, hs, hcontents⟩ := hpacket y.2 (harrivals y hy)
    rw [hcontent, hcontents]
    exact (hfits s hs).2
  obtain ⟨b', outs, logB, hrunB, houts⟩ := run_arrivals hlaw content numbered hlistens hbound
    hlengths
  refine ⟨a', sent, logA, b', outs, logB, ?_, hcalls ▸ hrunB, ?_⟩
  · rw [hrunA]
    congr 3
    exact List.ext_getElem (by simp [sent]) (by simp [sent])
  · have hpositions : (numbered.map Prod.snd).eraseDups =
        (arrivals.map Prod.snd).eraseDups.map (counter + ·) := by
      rw [← eraseDups_map_add, List.map_map, List.map_map]
      rfl
    have hcounters : ∀ c ∈ numbered.map Prod.snd, counter ≤ c ∧ c < counter + nBits := by
      intro c hc
      simp only [numbered, List.map_map, List.mem_map, Function.comp_apply] at hc
      obtain ⟨y, hy, rfl⟩ := hc
      have hposition := harrivals y hy
      omega
    have haccepted : accepted nBits seen (numbered.map Prod.snd) =
        (numbered.map Prod.snd).eraseDups := by
      rw [accepted_eq_eraseDups, List.filter_eq_self.mpr]
      · intro c hc
        simpa using fun hmem => absurd (hseen c hmem) (Nat.not_lt.mpr (hcounters c hc).1)
      · intro d hd c hc
        have := hseen d hd
        have := hcounters c hc
        omega
      · intro d hd c hc
        have := hcounters d hd
        have := hcounters c hc
        omega
    rw [houts, haccepted, hpositions, List.filterMap_map,
      List.filterMap_eq_map_iff_forall_eq_some]
    intro i hi
    obtain ⟨y, hy, rfl⟩ := List.mem_map.mp (List.mem_eraseDups.mp hi)
    obtain ⟨s, hs, hcontents⟩ := hpacket y.2 (harrivals y hy)
    rw [Function.comp_apply, hcontent, hcontents, hbare s hs]

/-- A pump with one session, which both sides of a link can be. -/
def linked : Pump := { twin with
  tun := { twin.tun with
    sessions := Function.update twin.tun.sessions (Tunn.slot 1) (some (Session.new ⟨1, 1, [], []⟩))
    current := 1 } }

theorem linked_delivers_header :
    ∃ (a' : Pump) (sent : List Bytes) (logA : List Event) (b' : Pump) (outs : List Inbound)
      (logB : List Event),
      linked.run Primitives.null [.encapsulate start header] = .ok (a', sent.map .network, logA) ∧
      linked.run Primitives.null
          [.decapsulate start (sent.getD 0 []), .decapsulate start (sent.getD 0 [])] =
        .ok (b', outs, logB) ∧
      outs.filterMap Inbound.packet? = [header] := by
  have hspeaks : linked.tun.Speaks (SessionSeed.swap ⟨1, 1, [], []⟩) 0 :=
    ⟨Session.new ⟨1, 1, [], []⟩, rfl, rfl, rfl, rfl⟩
  have hlistens : linked.tun.Listens Primitives.null ⟨1, 1, [], []⟩ [] :=
    ⟨Session.new ⟨1, 1, [], []⟩, 0, rfl, .new⟩
  obtain ⟨a', sent, logA, b', outs, logB, hsent, harrive, houts⟩ :=
    link_delivers Primitives.null_lawful hspeaks hlistens (by simp) [(start, header)] (by decide)
      (by decide) (by decide) (by decide) [(start, 0), (start, 0)] (by decide)
  exact ⟨a', sent, logA, b', outs, logB, hsent, harrive, houts.trans (by decide)⟩

end Newt.Wg.Pump
