import Newt.Foundation.Best
import Newt.Olm.Demux
import Newt.Olm.Range

/-! # Longest-prefix routing

The peer that a destination is routed to, against all the CIDRs of the table: it is
the first of the peers that hold a longest matching prefix. An update of a site
moves its peer to the end of the table, and so it loses the ties it had won.
-/

namespace Newt.Olm

open Foundation Noise Wg

/-- The destination field of an IPv4 or IPv6 packet. -/
def Destination (pkt : Bytes) : IpAddr → Prop
  | .v4 octets => (∃ first, pkt.head? = some first ∧ first.toNat / 16 = 4) ∧ 20 ≤ pkt.length ∧
      octets.toList = (pkt.drop 16).take 4
  | .v6 octets => (∃ first, pkt.head? = some first ∧ first.toNat / 16 = 6) ∧ 40 ≤ pkt.length ∧
      octets.toList = (pkt.drop 24).take 16

theorem toList_ofFn_getD (pkt : Bytes) (start n : Nat) (hlong : start + n ≤ pkt.length) :
    (Vector.ofFn fun i : Fin n => pkt.getD (start + i) 0).toList = (pkt.drop start).take n := by
  apply List.ext_getElem
  · simp
    omega
  · intro i hi hi'
    simp at hi
    simp [List.getElem?_eq_getElem (show start + i < pkt.length by omega)]

theorem destIp_eq_some_iff (pkt : Bytes) (dst : IpAddr) :
    destIp pkt = some dst ↔ Destination pkt dst := by
  have hversion (first version : UInt8) :
      first >>> 4 = version ↔ first.toNat / 16 = version.toNat := by
    rw [← UInt8.toNat_inj, UInt8.toNat_shiftRight, Nat.shiftRight_eq_div_pow]
    rfl
  constructor
  · intro hdst
    simp only [destIp] at hdst
    split at hdst
    · cases hdst
    · next first hfirst =>
        split at hdst
        · next h4 =>
            cases hdst
            exact ⟨⟨first, hfirst, (hversion first 4).mp h4.1⟩, h4.2,
              toList_ofFn_getD pkt 16 4 h4.2⟩
        · split at hdst
          · next h6 =>
              cases hdst
              exact ⟨⟨first, hfirst, (hversion first 6).mp h6.1⟩, h6.2,
                toList_ofFn_getD pkt 24 16 h6.2⟩
          · cases hdst
  · cases dst with
    | v4 octets =>
        rintro ⟨⟨first, hfirst, hfour⟩, hlong, hoctets⟩
        have hdst : destIp pkt = some (.v4 (Vector.ofFn fun i => pkt.getD (16 + i) 0)) := by
          simp only [destIp, hfirst, (hversion first 4).mpr hfour, hlong, and_self, if_true]
        rw [hdst, Vector.toList_inj.mp ((toList_ofFn_getD pkt 16 4 hlong).trans hoctets.symm)]
    | v6 octets =>
        rintro ⟨⟨first, hfirst, hsix⟩, hlong, hoctets⟩
        have hdst : destIp pkt = some (.v6 (Vector.ofFn fun i => pkt.getD (24 + i) 0)) := by
          simp [destIp, hfirst, (hversion first 6).mpr hsix, hlong]
        rw [hdst, Vector.toList_inj.mp ((toList_ofFn_getD pkt 24 16 hlong).trans hoctets.symm)]

namespace Router

/-- The peer at a position has a CIDR of this length that covers the destination. -/
def Holds (router : Router) (dst : IpAddr) (i len : Nat) : Prop :=
  ∃ p c, router.peers[i]? = some p ∧ c ∈ p.cidrs ∧ c.Covers dst ∧ c.prefixLen.toNat = len

theorem Holds.lt {router : Router} {dst : IpAddr} {i len : Nat} (hholds : router.Holds dst i len) :
    i < router.peers.length := by
  obtain ⟨p, -, hp, -⟩ := hholds
  exact (List.getElem?_eq_some_iff.mp hp).1

/-- The first of the peers that hold a longest prefix for the destination. -/
def Owner (router : Router) (dst : IpAddr) (i : Nat) : Prop :=
  ∃ len, router.Holds dst i len ∧ ∀ j other, router.Holds dst j other →
    other ≤ len ∧ (j < i → other < len)

/-- No CIDR of the table covers the destination. -/
def Unrouted (router : Router) (dst : IpAddr) : Prop :=
  ∀ p ∈ router.peers, ∀ c ∈ p.cidrs, ¬c.Covers dst

theorem Holds.not_unrouted {router : Router} {dst : IpAddr} {i len : Nat}
    (hholds : router.Holds dst i len) : ¬router.Unrouted dst := by
  obtain ⟨p, c, hp, hc, hcovers, -⟩ := hholds
  exact fun hunrouted => hunrouted p (List.mem_of_getElem? hp) c hc hcovers

/-- The positions of the peers with their CIDRs, as `best_peer` visits them. -/
def candidates (peers : List Peer) (start : Nat) : List (Nat × Cidr) :=
  (peers.zipIdx start).flatMap fun (p, i) => p.cidrs.map fun c => (i, c)

theorem candidates_cons (p : Peer) (peers : List Peer) (start : Nat) :
    candidates (p :: peers) start =
      (p.cidrs.map fun c => (start, c)) ++ candidates peers (start + 1) := by
  simp [candidates, List.zipIdx_cons]

theorem mem_candidates_iff {peers : List Peer} {start i : Nat} {c : Cidr} :
    (i, c) ∈ candidates peers start ↔
      ∃ p, start ≤ i ∧ peers[i - start]? = some p ∧ c ∈ p.cidrs := by
  simp only [candidates, List.mem_flatMap, Prod.exists, List.mem_map, Prod.mk.injEq,
    List.mem_zipIdx_iff_le_and_getElem?_sub]
  constructor
  · rintro ⟨p, i, hp, c, hc, rfl, rfl⟩
    exact ⟨p, hp.1, hp.2, hc⟩
  · rintro ⟨p, hle, hp, hc⟩
    exact ⟨p, i, ⟨hle, hp⟩, c, hc, rfl, rfl⟩

theorem candidates_pairwise (peers : List Peer) (start : Nat) :
    (candidates peers start).Pairwise fun x y => x.1 ≤ y.1 := by
  induction peers generalizing start with
  | nil => simp [candidates]
  | cons p peers ih =>
      rw [candidates_cons, List.pairwise_append]
      refine ⟨List.pairwise_map.mpr (List.pairwise_of_forall fun _ _ => Nat.le_refl _), ih _, ?_⟩
      rintro x hx ⟨j, d⟩ hy
      obtain ⟨c, -, rfl⟩ := List.mem_map.mp hx
      obtain ⟨-, hle, -⟩ := mem_candidates_iff.mp hy
      exact Nat.le_of_succ_le hle

theorem holds_iff_mem {router : Router} {dst : IpAddr} {i len : Nat} :
    router.Holds dst i len ↔ ∃ c, (i, c) ∈ candidates router.peers 0 ∧ c.contains dst = true ∧
      c.prefixLen.toNat = len := by
  simp only [Holds, mem_candidates_iff, Nat.zero_le, Nat.sub_zero, true_and, Cidr.contains_iff]
  constructor
  · rintro ⟨p, c, hp, hc, hcovers, hlen⟩
    exact ⟨c, ⟨p, hp, hc⟩, hcovers, hlen⟩
  · rintro ⟨c, ⟨p, hp, hc⟩, hcovers, hlen⟩
    exact ⟨p, c, hp, hc, hcovers, hlen⟩

theorem found_candidates (router : Router) (dst : IpAddr) :
    Best.Found (fun x : Nat × Cidr => x.2.contains dst) Prod.fst (fun x => x.2.prefixLen)
      (candidates router.peers 0) ((candidates router.peers 0).foldl (better dst) none) :=
  Best.found_foldl _

/-- `best_peer` finds the owner, and nothing only if no CIDR covers the
destination. -/
theorem bestPeer_spec (router : Router) (dst : IpAddr) :
    (∃ i, router.bestPeer dst = some i ∧ router.Owner dst i) ∨
      (router.bestPeer dst = none ∧ router.Unrouted dst) := by
  have hfound := found_candidates router dst
  have hbest : router.bestPeer dst =
      ((candidates router.peers 0).foldl (better dst) none).map Prod.fst := rfl
  rw [hbest]
  cases hsearch : (candidates router.peers 0).foldl (better dst) none with
  | none =>
      right
      refine ⟨rfl, ?_⟩
      rw [hsearch] at hfound
      intro p hp c hc hcovers
      obtain ⟨i, hi⟩ := List.mem_iff_getElem?.mp hp
      have hmem : (i, c) ∈ candidates router.peers 0 :=
        mem_candidates_iff.mpr ⟨p, Nat.zero_le i, hi, hc⟩
      have hnot : c.contains dst = false := hfound _ hmem
      rw [(c.contains_iff dst).mpr hcovers] at hnot
      cases hnot
  | some best =>
      left
      obtain ⟨i, longest⟩ := best
      refine ⟨i, rfl, longest.toNat, ?_⟩
      rw [hsearch] at hfound
      obtain ⟨before, ⟨_, c⟩, after, hsplit, hcontains, rfl, rfl, hbefore, hafter⟩ := hfound
      have horder := candidates_pairwise router.peers 0
      rw [hsplit, List.pairwise_append, List.pairwise_cons] at horder
      refine ⟨holds_iff_mem.mpr ⟨c, by simp [hsplit], hcontains, rfl⟩, ?_⟩
      intro j len hholds
      obtain ⟨d, hd, hcovers, rfl⟩ := holds_iff_mem.mp hholds
      rw [hsplit, List.mem_append, List.mem_cons] at hd
      -- what comes earlier is shorter, and what comes later belongs to no earlier peer
      obtain hd | heq | hd := hd
      · have hlt := UInt8.lt_iff_toNat_lt.mp (hbefore _ hd hcovers)
        exact ⟨Nat.le_of_lt hlt, fun _ => hlt⟩
      · cases heq
        exact ⟨Nat.le_refl _, fun hlt => absurd hlt (Nat.lt_irrefl _)⟩
      · have hle := UInt8.le_iff_toNat_le.mp (hafter _ hd hcovers)
        exact ⟨hle, fun hlt => absurd hlt (Nat.not_lt_of_le (horder.2.1.1 _ hd))⟩

theorem Owner.getElem? {router : Router} {dst : IpAddr} {i : Nat} (howner : router.Owner dst i) :
    ∃ p, router.peers[i]? = some p := by
  obtain ⟨_, ⟨p, _, hp, _⟩, _⟩ := howner
  exact ⟨p, hp⟩

theorem routeTarget_spec (router : Router) (dst : IpAddr) :
    (∃ i p, router.Owner dst i ∧ router.peers[i]? = some p ∧
        router.routeTarget dst = some p.endpoint) ∨
      (router.Unrouted dst ∧ router.routeTarget dst = none) := by
  obtain ⟨i, hbest, howner⟩ | ⟨hbest, hunrouted⟩ := router.bestPeer_spec dst
  · left
    obtain ⟨p, hp⟩ := howner.getElem?
    exact ⟨i, p, howner, hp, by simp [routeTarget, hbest, hp]⟩
  · exact .inr ⟨hunrouted, by simp [routeTarget, hbest]⟩

/-- A packet is encrypted by the owner of its destination and sent to the owner's
endpoint. If there is none, no pump is touched. The routing decision is the same. -/
theorem routeOutbound_owner (P : Primitives) (m : Moment) (router : Router)
    (ipPkt : Bytes) :
    ((∃ dst i p, Destination ipPkt dst ∧ router.Owner dst i ∧ router.peers[i]? = some p ∧
        router.routeOutbound P m ipPkt = (p.pump.encapsulate P m ipPkt).map fun result =>
          ({ router with peers := router.peers.set i { p with pump := result.1 } },
            result.2.map fun b => (b, p.endpoint))) ∨
      ((∀ dst, Destination ipPkt dst → router.Unrouted dst) ∧
        router.routeOutbound P m ipPkt = .ok (router, none))) ∧
    ∀ dst, (∃ i p, router.Owner dst i ∧ router.peers[i]? = some p ∧
        router.routeTarget dst = some p.endpoint) ∨
      (router.Unrouted dst ∧ router.routeTarget dst = none) := by
  refine ⟨?_, router.routeTarget_spec⟩
  cases hdst : destIp ipPkt with
  | none =>
      right
      refine ⟨?_, by simp [routeOutbound, hdst]⟩
      intro dst hfield
      rw [(destIp_eq_some_iff ipPkt dst).mpr hfield] at hdst
      cases hdst
  | some dst =>
      obtain ⟨i, hbest, howner⟩ | ⟨hbest, hunrouted⟩ := router.bestPeer_spec dst
      · left
        obtain ⟨p, hp⟩ := howner.getElem?
        refine ⟨dst, i, p, (destIp_eq_some_iff ipPkt dst).mp hdst, howner, hp, ?_⟩
        simp only [routeOutbound, hdst, Option.bind_some, hbest, hp]
        cases p.pump.encapsulate P m ipPkt <;> rfl
      · right
        refine ⟨?_, by simp [routeOutbound, hdst, hbest]⟩
        intro other hfield
        rw [(destIp_eq_some_iff ipPkt other).mpr hfield] at hdst
        cases hdst
        exact hunrouted

/-! ## Announcing a site again -/

theorem Owner.unique {router : Router} {dst : IpAddr} {i j : Nat} (hi : router.Owner dst i)
    (hj : router.Owner dst j) : i = j := by
  obtain ⟨m, hholdsi, hmaxi⟩ := hi
  obtain ⟨n, hholdsj, hmaxj⟩ := hj
  have hij := hmaxi j n hholdsj
  have hji := hmaxj i m hholdsi
  omega

theorem routeTarget_of_owner {router : Router} {dst : IpAddr} {i : Nat} {p : Peer}
    (howner : router.Owner dst i) (hp : router.peers[i]? = some p) :
    router.routeTarget dst = some p.endpoint := by
  obtain ⟨j, q, hj, hq, htarget⟩ | ⟨hunrouted, -⟩ := router.routeTarget_spec dst
  · rw [howner.unique hj, hq] at hp
    cases hp
    exact htarget
  · obtain ⟨_, hholds, -⟩ := howner
    exact absurd hunrouted hholds.not_unrouted

/-- The first peer after position `i` that ties with it for the longest prefix. -/
def RunnerUp (router : Router) (dst : IpAddr) (i j : Nat) : Prop :=
  i < j ∧ ∃ len, router.Holds dst i len ∧ router.Holds dst j len ∧
    (∀ k other, router.Holds dst k other → other ≤ len) ∧
    ∀ k, i < k → k < j → ¬router.Holds dst k len

/-- Where the peers of a table of `n` stand after the one at `i` moved to the end. -/
def movedTo (n i j : Nat) : Nat := if j < i then j else if j = i then n - 1 else j - 1

/-- The peer at `i` has moved to the end of the table. -/
structure Moved (router next : Router) (i : Nat) : Prop where
  length : next.peers.length = router.peers.length
  same : ∀ j p, router.peers[j]? = some p →
    ∃ q, next.peers[movedTo router.peers.length i j]? = some q ∧ q.endpoint = p.endpoint ∧
      q.cidrs = p.cidrs

theorem upsertPeer_moved {router : Router} (hunique : router.UniqueSites) {i : Nat} {p : Peer}
    (hp : router.peers[i]? = some p) (P : Primitives) {decode : String → Except String Bytes}
    (m : Moment) (durationAtStart : Nat) {key : String} {peerPub : Bytes}
    (hkey : publicFromB64 decode key = .ok peerPub) :
    router.Moved (router.upsertPeer P decode m durationAtStart p.siteId key p.endpoint p.cidrs).1
      i := by
  obtain ⟨hi, -⟩ := List.getElem?_eq_some_iff.mp hp
  obtain ⟨renewed, hpeers, hendpoint, hcidrs⟩ : ∃ renewed : Peer,
      (router.upsertPeer P decode m durationAtStart p.siteId key p.endpoint p.cidrs).1.peers =
        router.peers.eraseIdx i ++ [renewed] ∧ renewed.endpoint = p.endpoint ∧
        renewed.cidrs = p.cidrs := by
    rw [upsertPeer, hkey, ← hunique.eraseKey_eq_eraseIdx hp]
    exact ⟨_, rfl, rfl, rfl⟩
  have herased : (router.peers.eraseIdx i).length = router.peers.length - 1 :=
    List.length_eraseIdx_of_lt hi
  refine ⟨?_, ?_⟩
  · rw [hpeers, List.length_append, herased, List.length_singleton]
    omega
  · intro j q hq
    obtain ⟨hj, -⟩ := List.getElem?_eq_some_iff.mp hq
    rw [hpeers, movedTo]
    split_ifs with hbefore hself
    · refine ⟨q, ?_, rfl, rfl⟩
      rw [List.getElem?_append_left (by omega), List.getElem?_eraseIdx_of_lt hbefore, hq]
    · subst hself
      rw [hp] at hq
      cases hq
      refine ⟨renewed, ?_, hendpoint, hcidrs⟩
      rw [← herased]
      exact List.getElem?_concat_length
    · refine ⟨q, ?_, rfl, rfl⟩
      rw [List.getElem?_append_left (by omega), List.getElem?_eraseIdx_of_ge (by omega),
        Nat.sub_add_cancel (by omega), hq]

section Moved

variable {router next : Router} {i : Nat} (hmoved : router.Moved next i)
include hmoved

theorem Moved.holds_iff {dst : IpAddr} {j len : Nat} (hj : j < router.peers.length) :
    next.Holds dst (movedTo router.peers.length i j) len ↔ router.Holds dst j len := by
  obtain ⟨q, hq, -, hcidrs⟩ := hmoved.same j _ (List.getElem?_eq_getElem hj)
  simp only [Holds, hq, List.getElem?_eq_getElem hj, Option.some.injEq, exists_and_left,
    exists_eq_left', hcidrs]

/-- Every peer of the new table comes from one of the old table. -/
theorem Moved.holds_next {dst : IpAddr} {k len : Nat} (hi : i < router.peers.length)
    (hholds : next.Holds dst k len) :
    ∃ j, j < router.peers.length ∧ k = movedTo router.peers.length i j ∧
      router.Holds dst j len := by
  have hk : k < router.peers.length := hmoved.length ▸ hholds.lt
  obtain ⟨j, hj, rfl⟩ : ∃ j, j < router.peers.length ∧ k = movedTo router.peers.length i j := by
    refine ⟨if k < i then k else if k = router.peers.length - 1 then i else k + 1, ?_, ?_⟩
    · split_ifs <;> omega
    · simp only [movedTo]
      split_ifs <;> omega
  exact ⟨j, hj, rfl, (hmoved.holds_iff hj).mp hholds⟩

theorem Moved.unrouted {dst : IpAddr} (hunrouted : next.Unrouted dst) : router.Unrouted dst := by
  intro p hp c hc
  obtain ⟨j, hj⟩ := List.mem_iff_getElem?.mp hp
  obtain ⟨q, hq, -, hcidrs⟩ := hmoved.same j p hj
  exact hunrouted q (List.mem_of_getElem? hq) c (hcidrs ▸ hc)

theorem Moved.owner_runnerUp {dst : IpAddr} {j : Nat} (hi : i < router.peers.length)
    (hj : j < router.peers.length) (howner : router.Owner dst i)
    (hrunner : router.RunnerUp dst i j) : next.Owner dst (movedTo router.peers.length i j) := by
  obtain ⟨hlater, len, hholdsi, hholdsj, hmax, hbetween⟩ := hrunner
  obtain ⟨longest, hlongest, hfirst⟩ := howner
  refine ⟨len, (hmoved.holds_iff hj).mpr hholdsj, ?_⟩
  intro k other hholds
  obtain ⟨l, hl, rfl, hold⟩ := hmoved.holds_next hi hholds
  have hle := hmax l other hold
  refine ⟨hle, fun hearlier => Nat.lt_of_le_of_ne hle ?_⟩
  rintro rfl
  -- a tie before the runner-up comes before the owner, or between the two
  by_cases hl : l < i
  · have hshort := (hfirst l other hold).2 hl
    have hlong := hmax i longest hlongest
    omega
  · refine hbetween l ?_ ?_ hold
    all_goals
      simp only [movedTo] at hearlier
      split_ifs at hearlier <;> omega

theorem Moved.runnerUp_of_owner {dst : IpAddr} {j : Nat} (hj : j < router.peers.length)
    (howner : router.Owner dst i) (hnext : next.Owner dst (movedTo router.peers.length i j))
    (hother : j ≠ i) : router.RunnerUp dst i j := by
  obtain ⟨len, hholds, hmax⟩ := hnext
  obtain ⟨longest, hlongest, hfirst⟩ := howner
  have hholdsj := (hmoved.holds_iff hj).mp hholds
  have hall (k other : Nat) (hk : router.Holds dst k other) : other ≤ len :=
    (hmax _ other ((hmoved.holds_iff hk.lt).mpr hk)).1
  have htie : longest = len := Nat.le_antisymm (hall i longest hlongest) (hfirst j len hholdsj).1
  have hlater : ¬j < i := fun hearlier => by
    have hshort := (hfirst j len hholdsj).2 hearlier
    omega
  refine ⟨by omega, len, htie ▸ hlongest, hholdsj, hall, ?_⟩
  intro k hik hkj hk
  have hshort := (hmax _ len ((hmoved.holds_iff hk.lt).mpr hk)).2
  simp only [movedTo] at hshort
  split_ifs at hshort <;> omega

theorem Moved.owner_eq {dst : IpAddr} {j k : Nat}
    (hj : j < router.peers.length) (howner : router.Owner dst k) (hother : k ≠ i)
    (hnext : next.Owner dst (movedTo router.peers.length i j)) : j = k := by
  obtain ⟨len, hholds, hmax⟩ := hnext
  obtain ⟨longest, hlongest, hfirst⟩ := howner
  have hold := hfirst j len ((hmoved.holds_iff hj).mp hholds)
  have hnew := hmax _ longest ((hmoved.holds_iff hlongest.lt).mpr hlongest)
  have hk := hlongest.lt
  simp only [movedTo] at hnew
  split_ifs at hnew <;> omega

/-- The owner in the new table, with the peer it was in the old one. -/
theorem Moved.owner_former {dst : IpAddr} {k : Nat} (hi : i < router.peers.length)
    (hnext : next.Owner dst k) :
    ∃ j former, k = movedTo router.peers.length i j ∧ router.peers[j]? = some former ∧
      ¬router.Unrouted dst ∧ next.routeTarget dst = some former.endpoint := by
  obtain ⟨len, hholds, -⟩ := id hnext
  obtain ⟨j, hj, rfl, hold⟩ := hmoved.holds_next hi hholds
  have hformer : router.peers[j]? = some router.peers[j] := List.getElem?_eq_getElem hj
  obtain ⟨renewed, hrenewed, hendpoint, -⟩ := hmoved.same j _ hformer
  refine ⟨j, _, rfl, hformer, hold.not_unrouted, ?_⟩
  rw [routeTarget_of_owner hnext hrenewed, hendpoint]

/-- Who gets the traffic after the move has the endpoint of the owner before it, unless
the moved peer was the owner and had a rival. -/
theorem Moved.endpoint_eq {dst : IpAddr} {j owner : Nat} {p former ownerPeer : Peer}
    (hp : router.peers[i]? = some p) (howner : router.Owner dst owner)
    (hownerPeer : router.peers[owner]? = some ownerPeer)
    (hnext : next.Owner dst (movedTo router.peers.length i j))
    (hformer : router.peers[j]? = some former)
    (htie : router.Owner dst i → router.RunnerUp dst i j → former.endpoint = p.endpoint) :
    former.endpoint = ownerPeer.endpoint := by
  have hj : j < router.peers.length := (List.getElem?_eq_some_iff.mp hformer).1
  by_cases hown : owner = i
  · subst hown
    obtain rfl := Option.some.inj (hp.symm.trans hownerPeer)
    by_cases hself : j = owner
    · subst hself
      rw [Option.some.inj (hformer.symm.trans hp)]
    · exact htie howner (hmoved.runnerUp_of_owner hj howner hnext hself)
  · obtain rfl := hmoved.owner_eq hj howner hown hnext
    rw [Option.some.inj (hformer.symm.trans hownerPeer)]

/-- Moving a peer to the end leaves the routing of a destination as it is exactly when
it is not the owner, or the first of its rivals has the same endpoint. -/
theorem Moved.routeTarget_iff {p : Peer} (hp : router.peers[i]? = some p) (dst : IpAddr) :
    next.routeTarget dst = router.routeTarget dst ↔
      ∀ j q, router.Owner dst i → router.RunnerUp dst i j → router.peers[j]? = some q →
        q.endpoint = p.endpoint := by
  have hi : i < router.peers.length := (List.getElem?_eq_some_iff.mp hp).1
  constructor
  · intro hsame j q howner hrunner hq
    have hj : j < router.peers.length := (List.getElem?_eq_some_iff.mp hq).1
    obtain ⟨renewed, hrenewed, hendpoint, -⟩ := hmoved.same j q hq
    have hnext := hmoved.owner_runnerUp hi hj howner hrunner
    rw [routeTarget_of_owner hnext hrenewed, routeTarget_of_owner howner hp, hendpoint] at hsame
    exact Option.some.inj hsame
  · intro htie
    obtain ⟨k, _, hnext, -⟩ | ⟨hunrouted, htarget⟩ := next.routeTarget_spec dst
    · obtain ⟨j, former, rfl, hformer, hrouted, htarget⟩ := hmoved.owner_former hi hnext
      obtain ⟨owner, ownerPeer, howner, hownerPeer, hbefore⟩ | ⟨hunrouted, -⟩ :=
        router.routeTarget_spec dst
      · rw [htarget, hbefore, hmoved.endpoint_eq hp howner hownerPeer hnext hformer]
        intro hown hrunner
        exact htie j former hown hrunner hformer
      · exact absurd hunrouted hrouted
    · rw [htarget]
      obtain ⟨owner, _, ⟨_, hholds, -⟩, -⟩ | ⟨-, hbefore⟩ := router.routeTarget_spec dst
      · exact absurd (hmoved.unrouted hunrouted) hholds.not_unrouted
      · exact hbefore.symm

end Moved

theorem apply_unique {P : Primitives} {decode : String → Except String Bytes}
    {router next : Router} {call : Call} (hunique : router.UniqueSites)
    (happly : router.apply P decode call = .ok next) : next.UniqueSites := by
  by_cases htraffic : call.isTraffic = true
  · have hsites := (traffic_map (f := Peer.siteId) (fun _ _ => rfl) htraffic happly).2
    unfold UniqueSites Keyed.UniqueKeys
    rw [hsites]
    exact hunique
  · cases call with
    | upsertPeer m durationAtStart siteId peerPubB64 endpoint cidrs =>
        cases happly
        exact upsertPeer_unique P decode m durationAtStart hunique siteId peerPubB64 endpoint cidrs
    | removePeer siteId =>
        cases happly
        exact removePeer_unique hunique siteId
    | setEndpoint siteId endpoint =>
        cases happly
        exact modifyPeer_unique hunique siteId fun _ => rfl
    | setCidrs siteId cidrs =>
        cases happly
        exact modifyPeer_unique hunique siteId fun _ => rfl
    | addCidrs siteId cidrs =>
        cases happly
        exact modifyPeer_unique hunique siteId fun _ => rfl
    | removeCidrs siteId drop =>
        cases happly
        exact modifyPeer_unique hunique siteId fun _ => rfl
    | _ => exact absurd rfl htraffic

theorem run_unique {P : Primitives} {decode : String → Except String Bytes} {calls : List Call}
    {router next : Router} (hunique : router.UniqueSites)
    (hrun : router.run P decode calls = .ok next) : next.UniqueSites := by
  induction calls generalizing router with
  | nil =>
      cases hrun
      exact hunique
  | cons call calls ih =>
      simp only [run] at hrun
      split at hrun
      · cases hrun
      · next happly => exact ih (apply_unique hunique happly) hrun

/-- Announcing a site again leaves the routing of a destination as it is exactly when
the site does not own it, or wins it without a tie against an endpoint of another. -/
theorem routeTarget_upsertPeer_iff {P : Primitives} {decode : String → Except String Bytes}
    {secret : Bytes} {mtu : Nat} {calls : List Call} {router : Router}
    (hrun : (new secret mtu).run P decode calls = .ok router) {i : Nat} {p : Peer}
    (hp : router.peers[i]? = some p) (m : Moment) (durationAtStart : Nat) {key : String}
    {peerPub : Bytes} (hkey : publicFromB64 decode key = .ok peerPub) (dst : IpAddr) :
    (router.upsertPeer P decode m durationAtStart p.siteId key p.endpoint p.cidrs).1.routeTarget
        dst = router.routeTarget dst ↔
      ∀ j q, router.Owner dst i → router.RunnerUp dst i j → router.peers[j]? = some q →
        q.endpoint = p.endpoint := by
  have hunique : router.UniqueSites :=
    run_unique (by simp [UniqueSites, new, Keyed.UniqueKeys]) hrun
  exact (upsertPeer_moved hunique hp P m durationAtStart hkey).routeTarget_iff hp dst

/-- The same announcement of two sites, at different endpoints. -/
def announce (siteId : Int) : Call :=
  .upsertPeer ⟨0, []⟩ 0 siteId "" ⟨.v4 #v[192, 0, 2, UInt8.ofInt siteId], 51820⟩
    [⟨.v4 #v[10, 0, 0, 0], 24⟩]

/-- The router after two sites announced the same range. -/
def shared : Router :=
  match run Primitives.null zeroKey (Router.new [] 1280) [announce 1, announce 2] with
  | .ok router => router
  | .error _ => Router.new [] 1280

theorem shared_reachable :
    run Primitives.null zeroKey (Router.new [] 1280) [announce 1, announce 2] = .ok shared := rfl

/-- The second site announces the range again, and the first keeps it. -/
theorem announce_second_again : ∃ p, shared.peers[1]? = some p ∧
    ∀ j q, shared.Owner (.v4 #v[10, 0, 0, 5]) 1 → shared.RunnerUp (.v4 #v[10, 0, 0, 5]) 1 j →
      shared.peers[j]? = some q → q.endpoint = p.endpoint :=
  ⟨_, rfl, (routeTarget_upsertPeer_iff shared_reachable rfl ⟨0, []⟩ 0
    (show publicFromB64 zeroKey "" = .ok _ from rfl) (.v4 #v[10, 0, 0, 5])).mp rfl⟩

/-- The first site announces the range again, and loses it to the second. -/
theorem announce_first_again_moves_traffic :
    run Primitives.null zeroKey (Router.new [] 1280) [announce 1, announce 2] = .ok shared ∧
    ∃ p, shared.peers[0]? = some p ∧
      (shared.upsertPeer Primitives.null zeroKey ⟨0, []⟩ 0 p.siteId "" p.endpoint
        p.cidrs).1.routeTarget (.v4 #v[10, 0, 0, 5]) ≠
          shared.routeTarget (.v4 #v[10, 0, 0, 5]) :=
  ⟨shared_reachable, _, rfl, by decide⟩

end Router

end Newt.Olm
