import Mathlib.Logic.Function.Iterate
import Newt.Olm.Router

/-! # Inbound demultiplexing

A peer index is a 32-bit counter, but only its low 24 bits reach the session
indices of the peer, and `peer_index_of` recovers those. Demultiplexing is
therefore exact as long as the counter stays below `2 ^ 24`, and a router that
has created `2 ^ 24` peers in its life loses the datagrams of the last one.
-/

namespace Newt.Olm

open Foundation Noise Wg

/-! ## Session indices -/

theorem succIndex_shift (x : BitVec 32) : Handshake.succIndex x >>> 8 = x >>> 8 := by
  have hmask : ~~~0xff#32 >>> 8 = 0xffffff#32 := by decide
  have hhigh : x >>> 8 &&& 0xffffff#32 = x >>> 8 := by
    apply BitVec.eq_of_toNat_eq
    have hlt := x.isLt
    rw [BitVec.toNat_and, BitVec.toNat_ushiftRight, Nat.shiftRight_eq_div_pow,
      show (0xffffff#32).toNat = 2 ^ 24 - 1 from rfl, Nat.and_two_pow_sub_one_eq_mod]
    omega
  have hlow : (x.setWidth 8 + 1).setWidth 32 >>> 8 = 0#32 := by
    apply BitVec.eq_of_toNat_eq
    have hlt := (x.setWidth 8 + 1).isLt
    rw [BitVec.toNat_ushiftRight, Nat.shiftRight_eq_div_pow, BitVec.toNat_setWidth]
    simp only [BitVec.toNat_ofNat]
    omega
  unfold Handshake.succIndex
  simp only [BitVec.ushiftRight_or_distrib, BitVec.ushiftRight_and_distrib, hmask, hhigh, hlow,
    BitVec.or_zero]

/-- Session indices keep the peer part of the index they start from. -/
theorem iterate_succIndex_shift (k : Nat) (x : BitVec 32) :
    Handshake.succIndex^[k] x >>> 8 = x >>> 8 := by
  induction k with
  | zero => rfl
  | succ k ih => rw [Function.iterate_succ_apply', succIndex_shift, ih]

/-- The peer part has 24 bits. -/
theorem shiftLeft_shiftRight_eq_iff (index : BitVec 32) :
    (index <<< 8) >>> 8 = index ↔ index.toNat < 2 ^ 24 := by
  rw [← BitVec.toNat_inj]
  simp only [BitVec.toNat_ushiftRight, BitVec.toNat_shiftLeft, Nat.shiftLeft_eq,
    Nat.shiftRight_eq_div_pow]
  omega

/-- A local index that the tunnel of a peer assigns to one of its sessions. -/
def Peer.Assigns (p : Peer) (index : BitVec 32) : Prop :=
  ∃ k, 0 < k ∧ index = Handshake.succIndex^[k] (p.index <<< 8)

/-! ## The two parsers agree -/

theorem getD_zero_of_type {datagram : Bytes} {n : Nat} (hn : n < 256)
    (hlength : 4 ≤ datagram.length) (htype : leNat (slice datagram 0 4) = n) :
    datagram.getD 0 0 = UInt8.ofNat n := by
  cases datagram with
  | nil => simp at hlength
  | cons first rest =>
      simp only [slice, List.drop_zero, List.take_succ_cons, leNat] at htype
      have hfirst := first.toNat_lt
      have hvalue : first.toNat = n := by omega
      rw [List.getD_cons_zero, ← hvalue, UInt8.ofNat_toNat]

/-- `peer_index_of` reads the receiver index from where the engine reads it. -/
theorem peerIndexOf_parsed {datagram : Bytes} {packet : Packet} {index : BitVec 32}
    (hparse : parseIncomingPacket datagram = .ok packet)
    (hindex : packet.receiverIdx = some index) :
    peerIndexOf datagram = some (index >>> 8) := by
  simp only [parseIncomingPacket] at hparse
  split_ifs at hparse with hshort hinit hresp hcookie hdata
  · cases hparse
    cases hindex
  · cases hparse
    cases hindex
    have hfirst : datagram.getD 0 0 = 2 :=
      getD_zero_of_type (by decide) (Nat.not_lt.mp hshort) hresp.1
    have hlength : datagram.length = 92 := hresp.2
    rw [peerIndexOf, if_neg (by omega)]
    simp only [hfirst, ↓reduceIte, hlength, Nat.reduceAdd, Nat.reduceLT]
  · cases hparse
    cases hindex
    have hfirst : datagram.getD 0 0 = 3 :=
      getD_zero_of_type (by decide) (Nat.not_lt.mp hshort) hcookie.1
    have hlength : datagram.length = 64 := hcookie.2
    rw [peerIndexOf, if_neg (by omega)]
    simp only [hfirst, show ¬ (3 : UInt8) = 2 by decide, ↓reduceIte, true_or, hlength,
      Nat.reduceAdd, Nat.reduceLT]
  · cases hparse
    cases hindex
    have hfirst : datagram.getD 0 0 = 4 :=
      getD_zero_of_type (by decide) (Nat.not_lt.mp hshort) hdata.1
    have hlength : 32 ≤ datagram.length := hdata.2
    have hroom : ¬ datagram.length < 8 := by omega
    rw [peerIndexOf, if_neg hroom]
    simp only [hfirst, show ¬ (4 : UInt8) = 2 by decide, ↓reduceIte, or_true, Nat.reduceAdd,
      hroom]

namespace Router

variable (P : Primitives) (decode : String → Except String Bytes)

/-! ## Exactness in one state -/

/-- A datagram reaches the pump of the peer at position `i` and no other peer. -/
structure FeedsOnly (router : Router) (datagram : Bytes) (i : Nat) : Prop where
  selected : router.demux datagram = some i
  fed : ∀ moments,
    router.handleInbound P moments datagram = router.feed P moments i datagram
  others : ∀ moments next out, router.handleInbound P moments datagram = .ok (next, out) →
    ∀ j, j ≠ i → next.peers[j]? = router.peers[j]?

theorem feedsOnly_of_demux {router : Router} {datagram : Bytes} {i : Nat}
    (hdemux : router.demux datagram = some i) : router.FeedsOnly P datagram i := by
  have hfed : ∀ moments,
      router.handleInbound P moments datagram = router.feed P moments i datagram := by
    intro moments
    rw [handleInbound, hdemux]
  refine ⟨hdemux, hfed, ?_⟩
  intro moments next out hnext j hj
  rw [hfed, feed] at hnext
  split at hnext
  · cases hnext
    rfl
  · split at hnext
    · cases hnext
    · cases hnext
      rw [List.getElem?_set_ne (Ne.symm hj)]

/-- Every datagram that the engine accepts with a local index of a peer is fed to
that peer only. -/
def Exact (router : Router) : Prop :=
  ∀ i p, router.peers[i]? = some p → ∀ index, p.Assigns index → ∀ datagram packet,
    parseIncomingPacket datagram = .ok packet → packet.receiverIdx = some index →
    router.FeedsOnly P datagram i

theorem exact_of_small {router : Router} (hunique : Keyed.UniqueKeys Peer.index router.peers)
    (hsmall : ∀ p ∈ router.peers, p.index.toNat < 2 ^ 24) : router.Exact P := by
  rintro i p hp index ⟨k, _, rfl⟩ datagram packet hparse hindex
  apply feedsOnly_of_demux
  have hmem : p ∈ router.peers := List.mem_of_getElem? hp
  have howner : peerIndexOf datagram = some p.index := by
    rw [peerIndexOf_parsed hparse hindex, iterate_succIndex_shift,
      (shiftLeft_shiftRight_eq_iff p.index).mpr (hsmall p hmem)]
  rw [demux, howner, Option.bind_some, List.findIdx?_eq_some_iff_getElem]
  obtain ⟨hi, hget⟩ := List.getElem?_eq_some_iff.mp hp
  refine ⟨hi, by simp [hget], ?_⟩
  intro j hj hsame
  -- an earlier peer with this index would repeat an index
  have hindices : (router.peers.map Peer.index)[j]? = (router.peers.map Peer.index)[i]? := by
    simpa [hget, hi, Nat.lt_trans hj hi] using hsame
  have hlength : j < (router.peers.map Peer.index).length := by
    rw [List.length_map]
    omega
  exact Nat.ne_of_lt hj ((List.getElem?_inj hlength hunique).mp hindices)

/-- A data packet for a local index. -/
def dataFor (index : BitVec 32) : Bytes :=
  [4, 0, 0, 0] ++ leBytes 4 index.toNat ++ List.replicate 24 0

theorem parseIncomingPacket_dataFor (index : BitVec 32) :
    ∃ packet, parseIncomingPacket (dataFor index) = .ok packet ∧
      packet.receiverIdx = some index := by
  have hlength : (dataFor index).length = 32 := by simp [dataFor]
  have htype : leNat (slice (dataFor index) 0 4) = data := rfl
  have hslice : slice (dataFor index) 4 8 = leBytes 4 index.toNat := rfl
  have hindex : u32FromLe (slice (dataFor index) 4 8) = index := by
    apply BitVec.eq_of_toNat_eq
    rw [u32FromLe, hslice, leNat_leBytes, BitVec.toNat_ofNat]
    have hlt := index.isLt
    omega
  refine ⟨.packetData ⟨index, leNat (slice (dataFor index) 8 16), (dataFor index).drop 16⟩, ?_, rfl⟩
  simp only [parseIncomingPacket, hlength, htype, hindex, data, handshakeInit, handshakeResp,
    cookieReply, dataOverheadSz]
  rw [if_neg (by omega), if_neg (by omega), if_neg (by omega), if_neg (by omega),
    if_pos ⟨trivial, by omega⟩]

theorem not_exact_of_large {router : Router} {p : Peer} (hp : p ∈ router.peers)
    (hlarge : 2 ^ 24 ≤ p.index.toNat) : ¬ router.Exact P := by
  intro hexact
  obtain ⟨i, hi, hget⟩ := List.getElem_of_mem hp
  have hassigned : p.Assigns (Handshake.succIndex (p.index <<< 8)) := ⟨1, Nat.one_pos, rfl⟩
  obtain ⟨packet, hparse, hindex⟩ :=
    parseIncomingPacket_dataFor (Handshake.succIndex (p.index <<< 8))
  have hselected := (hexact i p (List.getElem?_eq_some_iff.mpr ⟨hi, hget⟩) _ hassigned _ packet
    hparse hindex).selected
  rw [demux, peerIndexOf_parsed hparse hindex, succIndex_shift, Option.bind_some,
    List.findIdx?_eq_some_iff_getElem] at hselected
  obtain ⟨_, hfound, _⟩ := hselected
  rw [hget, decide_eq_true_eq] at hfound
  have hsmall := (shiftLeft_shiftRight_eq_iff p.index).mp hfound.symm
  omega

/-! ## Exactness along a run -/

/-- The call creates a peer: an upsert whose key decodes. -/
def Call.creates : Call → Bool
  | .upsertPeer _ _ _ peerPubB64 _ _ => (publicFromB64 decode peerPubB64).isOk
  | _ => false

/-- A router that has created `n` peers so far, and not wrapped its counter. -/
structure Allocated (n : Nat) (router : Router) : Prop where
  next : router.nextIndex.toNat = n + 1
  used : ∀ p ∈ router.peers, p.index.toNat ≤ n
  unique : Keyed.UniqueKeys Peer.index router.peers

theorem allocated_new (secret : Bytes) (mtu : Nat) : (Router.new secret mtu).Allocated 0 where
  next := rfl
  used := by
    intro p hp
    cases hp
  unique := List.nodup_nil

/-- Calls that create no peer keep the counter, and the indices up to removal. -/
theorem Allocated.of_sublist {n : Nat} {router next : Router} (halloc : router.Allocated n)
    (hnext : next.nextIndex = router.nextIndex)
    (hindices : (next.peers.map Peer.index).Sublist (router.peers.map Peer.index)) :
    next.Allocated n where
  next := by rw [hnext, halloc.next]
  used := by
    intro p hp
    have hmem := hindices.subset (List.mem_map_of_mem hp)
    obtain ⟨old, hold, hindex⟩ := List.mem_map.mp hmem
    rw [← hindex]
    exact halloc.used old hold
  unique := halloc.unique.sublist hindices

theorem succPeerIndex_toNat {index : BitVec 32} (hindex : index.toNat < 2 ^ 32 - 1) :
    (succPeerIndex index).toNat = index.toNat + 1 := by
  unfold succPeerIndex
  split <;> bv_omega

/-- What a call does to the indices: it creates a peer with the next one, or it
removes some. -/
theorem apply_indices {router next : Router} {call : Call}
    (happly : router.apply P decode call = .ok next) :
    (call.creates decode = true ∧ next.nextIndex = succPeerIndex router.nextIndex ∧
        ∃ kept p, next.peers = kept ++ [p] ∧ kept.Sublist router.peers ∧
          p.index = router.nextIndex) ∨
      (call.creates decode = false ∧ next.nextIndex = router.nextIndex ∧
        (next.peers.map Peer.index).Sublist (router.peers.map Peer.index)) := by
  have hmodify : ∀ (siteId : Int) (f : Peer → Peer), (∀ p, (f p).index = p.index) →
      ((router.modifyPeer siteId f).peers.map Peer.index).Sublist
        (router.peers.map Peer.index) := by
    intro siteId f hf
    rw [modifyPeer, Keyed.map_key_modifyFirst hf]
  have hindex : ∀ (p : Peer) (pump : Pump), ({ p with pump := pump } : Peer).index = p.index :=
    fun _ _ => rfl
  cases call with
  | upsertPeer m durationAtStart siteId peerPubB64 endpoint cidrs =>
      cases happly
      simp only [Call.creates, upsertPeer]
      cases publicFromB64 decode peerPubB64 with
      | error e => exact .inr ⟨rfl, rfl, List.Sublist.refl _⟩
      | ok peerPub => exact .inl ⟨rfl, rfl, _, _, rfl, List.filter_sublist, rfl⟩
  | removePeer siteId =>
      cases happly
      exact .inr ⟨rfl, rfl, List.filter_sublist.map _⟩
  | setEndpoint siteId endpoint =>
      cases happly
      exact .inr ⟨rfl, rfl, hmodify _ _ fun _ => rfl⟩
  | setCidrs siteId cidrs =>
      cases happly
      exact .inr ⟨rfl, rfl, hmodify _ _ fun _ => rfl⟩
  | addCidrs siteId cidrs =>
      cases happly
      exact .inr ⟨rfl, rfl, hmodify _ _ fun _ => rfl⟩
  | removeCidrs siteId drop =>
      cases happly
      exact .inr ⟨rfl, rfl, hmodify _ _ fun _ => rfl⟩
  | routeOutbound m ipPkt =>
      obtain ⟨hnext, hpeers⟩ := traffic_map hindex rfl happly
      exact .inr ⟨rfl, hnext, by rw [hpeers]⟩
  | handleInbound moments datagram =>
      obtain ⟨hnext, hpeers⟩ := traffic_map hindex rfl happly
      exact .inr ⟨rfl, hnext, by rw [hpeers]⟩
  | tick moments =>
      obtain ⟨hnext, hpeers⟩ := traffic_map hindex rfl happly
      exact .inr ⟨rfl, hnext, by rw [hpeers]⟩

theorem Allocated.apply {n : Nat} {router next : Router} {call : Call}
    (halloc : router.Allocated n) (hn : n < 2 ^ 32 - 2)
    (happly : router.apply P decode call = .ok next) :
    next.Allocated (n + if call.creates decode then 1 else 0) := by
  rcases apply_indices P decode happly with
    ⟨hcreates, hnext, kept, p, hpeers, hkept, hp⟩ | ⟨hcreates, hnext, hindices⟩
  · have hindex : p.index.toNat = n + 1 := by rw [hp, halloc.next]
    have hold : ∀ q ∈ kept, q.index.toNat ≤ n := fun q hq => halloc.used q (hkept.subset hq)
    rw [if_pos hcreates]
    refine ⟨?_, ?_, ?_⟩
    · rw [hnext, succPeerIndex_toNat (by rw [halloc.next]; omega), halloc.next]
    · intro q hq
      rw [hpeers, List.mem_append, List.mem_singleton] at hq
      rcases hq with hq | rfl
      · exact Nat.le_succ_of_le (hold q hq)
      · exact Nat.le_of_eq hindex
    · rw [hpeers]
      have hunique : Keyed.UniqueKeys Peer.index kept := halloc.unique.sublist (hkept.map _)
      apply hunique.push
      rw [Keyed.table_eq_none_iff]
      intro q hq hsame
      have hle := hold q hq
      rw [hsame] at hle
      omega
  · rw [hcreates]
    exact halloc.of_sublist hnext hindices

/-- The number of peers that a sequence of calls creates. -/
def created (calls : List Call) : Nat := calls.countP (Call.creates decode)

theorem Allocated.run {n : Nat} {router last : Router} {calls : List Call}
    (halloc : router.Allocated n) (hn : n + created decode calls ≤ 2 ^ 24)
    (hrun : run P decode router calls = .ok last) :
    last.Allocated (n + created decode calls) := by
  induction calls generalizing n router with
  | nil =>
      cases hrun
      exact halloc
  | cons call rest ih =>
      simp only [Router.run] at hrun
      simp only [created, List.countP_cons] at hn ⊢
      split at hrun
      · cases hrun
      · next middle happly =>
          have hmiddle := halloc.apply P decode (by omega) happly
          have htotal : n + (if call.creates decode then 1 else 0) + created decode rest =
              n + (List.countP (Call.creates decode) rest +
                if call.creates decode then 1 else 0) := by
            rw [created]
            omega
          rw [← htotal] at hn ⊢
          exact ih hmiddle hn hrun

theorem run_append (router : Router) (before after : List Call) :
    run P decode router (before ++ after) =
      (run P decode router before).bind fun middle => run P decode middle after := by
  induction before generalizing router with
  | nil => rfl
  | cons call before ih =>
      simp only [List.cons_append, Router.run]
      cases router.apply P decode call with
      | error panic => rfl
      | ok next => exact ih next

theorem run_append_ok {router last : Router} {before after : List Call}
    (hrun : run P decode router (before ++ after) = .ok last) :
    ∃ middle, run P decode router before = .ok middle ∧ run P decode middle after = .ok last := by
  rw [run_append] at hrun
  cases hbefore : run P decode router before with
  | error panic =>
      rw [hbefore] at hrun
      cases hrun
  | ok middle =>
      rw [hbefore] at hrun
      exact ⟨middle, rfl, hrun⟩

theorem run_singleton {router next : Router} {call : Call} :
    run P decode router [call] = .ok next ↔ router.apply P decode call = .ok next := by
  simp only [Router.run]
  cases router.apply P decode call <;> simp

/-- The peer with number `2 ^ 24` cannot be reached. -/
theorem not_exact_after_create {secret : Bytes} {mtu : Nat} {before : List Call} {call : Call}
    {middle next : Router} (hrun : run P decode (Router.new secret mtu) before = .ok middle)
    (hcreated : created decode before + 1 = 2 ^ 24) (hcreates : call.creates decode = true)
    (happly : middle.apply P decode call = .ok next) : ¬ next.Exact P := by
  have halloc := (allocated_new secret mtu).run P decode (by omega) hrun
  rcases apply_indices P decode happly with ⟨_, _, kept, p, hpeers, _, hp⟩ | ⟨hcreates', _, _⟩
  · apply not_exact_of_large P (p := p)
    · rw [hpeers]
      exact List.mem_append_right _ (List.mem_singleton_self p)
    · rw [hp, halloc.next]
      omega
  · rw [hcreates] at hcreates'
    cases hcreates'

theorem countP_split {α : Type} (holds : α → Bool) {n : Nat} {l : List α}
    (hn : n < l.countP holds) :
    ∃ before x after, l = before ++ x :: after ∧ holds x = true ∧ before.countP holds = n := by
  induction l generalizing n with
  | nil => simp at hn
  | cons y l ih =>
      by_cases hy : holds y = true
      · cases n with
        | zero => exact ⟨[], y, l, rfl, hy, rfl⟩
        | succ n =>
            rw [List.countP_cons_of_pos hy] at hn
            obtain ⟨before, x, after, rfl, hx, hcount⟩ := ih (Nat.lt_of_succ_lt_succ hn)
            exact ⟨y :: before, x, after, rfl, hx, by rw [List.countP_cons_of_pos hy, hcount]⟩
      · rw [List.countP_cons_of_neg hy] at hn
        obtain ⟨before, x, after, rfl, hx, hcount⟩ := ih hn
        exact ⟨y :: before, x, after, rfl, hx, by rw [List.countP_cons_of_neg hy, hcount]⟩

/-- Demultiplexing is exact in every state along a run of a fresh router if and
only if the run creates fewer than `2 ^ 24` peers. -/
theorem exact_along_run_iff (secret : Bytes) (mtu : Nat) (calls : List Call) {last : Router}
    (hrun : run P decode (Router.new secret mtu) calls = .ok last) :
    (∀ before, before <+: calls → ∀ middle,
        run P decode (Router.new secret mtu) before = .ok middle → middle.Exact P) ↔
      created decode calls < 2 ^ 24 := by
  constructor
  · intro hexact
    by_contra hmany
    obtain ⟨before, call, after, rfl, hcreates, hcount⟩ :=
      countP_split (Call.creates decode) (n := 2 ^ 24 - 1) (l := calls) (by
        simp only [created] at hmany
        omega)
    rw [List.append_cons] at hrun
    obtain ⟨next, hnext, _⟩ := run_append_ok P decode hrun
    obtain ⟨middle, hmiddle, hcall⟩ := run_append_ok P decode hnext
    have happly := (run_singleton P decode).mp hcall
    refine not_exact_after_create P decode hmiddle ?_ hcreates happly (hexact _ ?_ next hnext)
    · rw [created, hcount]
      rfl
    · exact ⟨after, by rw [← List.append_cons]⟩
  · intro hfew before hpart middle hmiddle
    have hcount : created decode before ≤ created decode calls := hpart.sublist.countP_le
    have halloc := (allocated_new secret mtu).run P decode (by omega) hmiddle
    apply exact_of_small P halloc.unique
    intro p hp
    have hused := halloc.used p hp
    omega

/-! ## Sites that are updated again and again -/

/-- The upsert that a sync message repeats for a site. -/
def resync (siteId : Int) : Call :=
  .upsertPeer ⟨0, []⟩ 0 siteId "" .documentation []

theorem resync_creates (siteId : Int) : (resync siteId).creates zeroKey = true := rfl

theorem run_resync (sites : List Int) (router : Router) :
    ∃ last, run Primitives.null zeroKey router (sites.map resync) = .ok last := by
  induction sites generalizing router with
  | nil => exact ⟨router, rfl⟩
  | cons siteId sites ih => exact ih _

/-- Two sites, of which the first is updated. -/
theorem exact_along_run_resync :
    created zeroKey ([7, 8, 7].map resync) = 3 ∧
      ∀ before, before <+: [7, 8, 7].map resync → ∀ middle,
        run Primitives.null zeroKey (Router.new [] 1280) before = .ok middle →
          middle.Exact Primitives.null := by
  have hcount : created zeroKey ([7, 8, 7].map resync) = 3 := rfl
  obtain ⟨last, hrun⟩ := run_resync [7, 8, 7] (Router.new [] 1280)
  exact ⟨hcount, (exact_along_run_iff Primitives.null zeroKey [] 1280 _ hrun).mpr (by
    rw [hcount]
    decide)⟩

/-- After `2 ^ 24` updates of one site its datagrams no longer reach it. -/
theorem resync_many_not_exact :
    ∃ router, run Primitives.null zeroKey (Router.new [] 1280)
        (List.replicate (2 ^ 24) (resync 7)) = .ok router ∧
      ¬ router.Exact Primitives.null := by
  obtain ⟨last, hrun⟩ := run_resync (List.replicate (2 ^ 24) 7) (Router.new [] 1280)
  rw [List.map_replicate] at hrun
  refine ⟨last, hrun, ?_⟩
  have hcreated : created zeroKey (List.replicate (2 ^ 24 - 1) (resync 7)) + 1 = 2 ^ 24 := by
    rw [created, List.countP_replicate, if_pos (resync_creates 7)]
    rfl
  rw [show 2 ^ 24 = 2 ^ 24 - 1 + 1 from rfl, List.replicate_succ'] at hrun
  obtain ⟨middle, hmiddle, hcall⟩ := run_append_ok Primitives.null zeroKey hrun
  exact not_exact_after_create Primitives.null zeroKey hmiddle hcreated (resync_creates 7)
    ((run_singleton Primitives.null zeroKey).mp hcall)

end Router

end Newt.Olm
