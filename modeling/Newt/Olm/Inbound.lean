import Newt.Noise.Delivery
import Newt.Olm.Demux

/-! # Packets for the host

Where the packets come from that `handle_inbound` delivers to the host. Each one
was decrypted by a session of the peer whose index the datagram carries. The
ranges of the peers take no part in it: they select peers for outbound packets,
and the source address of an inbound packet is never compared with them.
-/

namespace Newt.Wg.Pump

open Noise

variable {P : Primitives} {pump next : Pump}

theorem inbound_eq_packet {result : TunnResult} {packet : Bytes}
    (hinbound : inbound result = .packet packet) : result.packet? = some packet := by
  cases result <;> simp_all [inbound, TunnResult.packet?]

theorem decapsulate_packet {m : Moment} {datagram packet : Bytes}
    (hdecapsulate : pump.decapsulate P m datagram = .ok (next, .packet packet)) :
    pump.tun.Decrypts P datagram packet := by
  simp only [decapsulate] at hdecapsulate
  split at hdecapsulate
  · cases hdecapsulate
  · next htunn =>
      simp only [Except.ok.injEq, Prod.mk.injEq] at hdecapsulate
      exact Tunn.decapsulate_packet htunn (inbound_eq_packet hdecapsulate.2)

/-- An empty datagram decrypts to nothing, so `drain` delivers no packets. -/
theorem not_decrypts_nil (t : Tunn) (packet : Bytes) : ¬ t.Decrypts P [] packet := by
  rintro ⟨data, _, _, _, hparse, _⟩
  cases hparse

theorem drainLoop_packet {moments : Nat → Moment} {fuel call : Nat} {results : List Inbound}
    (hloop : drainLoop P moments fuel call pump = .ok (next, results)) (packet : Bytes) :
    .packet packet ∉ results := by
  induction fuel generalizing call pump results with
  | zero =>
      cases hloop
      simp
  | succ fuel ih =>
      simp only [drainLoop] at hloop
      split at hloop
      · cases hloop
      · cases hloop
        simp
      · next middle more _ hdrain =>
          split at hloop
          · cases hloop
          · next hrest =>
              cases hloop
              intro hmem
              rcases List.mem_cons.mp hmem with rfl | hmem
              · exact not_decrypts_nil _ packet (decapsulate_packet hdrain)
              · exact ih hrest hmem

theorem receive_packet {moments : Nat → Moment} {datagram packet : Bytes}
    {results : List Inbound} (hreceive : pump.receive P moments datagram = .ok (next, results))
    (hmem : .packet packet ∈ results) : pump.tun.Decrypts P datagram packet := by
  simp only [receive] at hreceive
  split at hreceive
  · cases hreceive
  · next first hdecapsulate =>
      split at hreceive
      · cases hreceive
      · next hloop =>
          cases hreceive
          rcases List.mem_cons.mp hmem with rfl | hmem
          · exact decapsulate_packet hdecapsulate
          · exact absurd hmem (drainLoop_packet hloop packet)

end Newt.Wg.Pump

namespace Newt.Olm

open Foundation Noise Wg

/-- Source of a bare IPv4 or IPv6 packet. -/
def sourceIp (pkt : Bytes) : Option IpAddr :=
  match pkt.head? with
  | none => none
  | some first =>
      let version := first >>> 4
      if version = 4 ∧ 20 ≤ pkt.length then
        some (.v4 (Vector.ofFn fun i => pkt.getD (12 + i) 0))
      else if version = 6 ∧ 40 ≤ pkt.length then
        some (.v6 (Vector.ofFn fun i => pkt.getD (8 + i) 0))
      else none

namespace Router

variable (P : Primitives) (moments : Nat → Moment)

/-- Every packet for the host has its source address in a range of the peer it
came from. -/
def SourcesAllowed (router : Router) (datagram : Bytes) : Prop :=
  ∀ next out packet, router.handleInbound P moments datagram = .ok (next, out) →
    .toHost packet ∈ out →
      ∃ p ∈ router.peers, peerIndexOf datagram = some p.index ∧
        ∃ src, sourceIp packet = some src ∧ ∃ c ∈ p.cidrs, c.contains src

/-- The router with other ranges. -/
def withCidrs (router : Router) (cidrs : Peer → List Cidr) : Router :=
  { router with peers := router.peers.map fun p => { p with cidrs := cidrs p } }

theorem demux_withCidrs (router : Router) (cidrs : Peer → List Cidr) (datagram : Bytes) :
    (router.withCidrs cidrs).demux datagram = router.demux datagram := by
  simp only [demux, withCidrs, List.findIdx?_map]
  rfl

theorem feed_withCidrs {router next : Router} {i : Nat} {datagram : Bytes} {out : List Out}
    (hfeed : router.feed P moments i datagram = .ok (next, out)) (cidrs : Peer → List Cidr) :
    ∃ next', (router.withCidrs cidrs).feed P moments i datagram = .ok (next', out) := by
  simp only [feed] at hfeed
  simp only [feed, withCidrs, List.getElem?_map]
  split at hfeed
  · next hp =>
      cases hfeed
      rw [hp]
      exact ⟨_, rfl⟩
  · next p hp =>
      rw [hp]
      simp only [Option.map_some]
      split at hfeed
      · cases hfeed
      · next hreceive =>
          cases hfeed
          exact ⟨_, rfl⟩

theorem demux_index {router : Router} {datagram : Bytes} {i : Nat} {p : Peer}
    (hdemux : router.demux datagram = some i) (hp : router.peers[i]? = some p) :
    peerIndexOf datagram = some p.index := by
  simp only [demux, Option.bind_eq_some_iff, List.findIdx?_eq_some_iff_getElem] at hdemux
  obtain ⟨index, hindex, hi, hfound, _⟩ := hdemux
  obtain ⟨_, hget⟩ := List.getElem?_eq_some_iff.mp hp
  rw [hget] at hfound
  rw [hindex, of_decide_eq_true hfound]

theorem feed_packet {router next : Router} {i : Nat} {datagram packet : Bytes} {out : List Out}
    (hfeed : router.feed P moments i datagram = .ok (next, out)) (hmem : .toHost packet ∈ out) :
    ∃ p, router.peers[i]? = some p ∧ p.pump.tun.Decrypts P datagram packet := by
  simp only [feed] at hfeed
  split at hfeed
  · cases hfeed
    cases hmem
  · next p hp =>
      split at hfeed
      · cases hfeed
      · next hreceive =>
          cases hfeed
          obtain ⟨result, hresult, hout⟩ := List.mem_filterMap.mp hmem
          cases result with
          | packet content =>
              cases hout
              exact ⟨p, hp, Pump.receive_packet hreceive hresult⟩
          | network b => cases hout
          | nothing => cases hout

/-- The host gets a packet only from the peer that the datagram is for, and only
one that a session of this peer decrypts. What it gets does not depend on the
ranges of any peer. -/
theorem handleInbound_authentic {router next : Router} {datagram : Bytes} {out : List Out}
    (hinbound : router.handleInbound P moments datagram = .ok (next, out)) :
    (∀ packet, .toHost packet ∈ out →
      ∃ p ∈ router.peers, peerIndexOf datagram = some p.index ∧
        p.pump.tun.Decrypts P datagram packet) ∧
    ∀ cidrs, ∃ next', (router.withCidrs cidrs).handleInbound P moments datagram =
      .ok (next', out) := by
  simp only [handleInbound, demux_withCidrs] at hinbound ⊢
  cases hdemux : router.demux datagram with
  | none =>
      rw [hdemux] at hinbound
      cases hinbound
      refine ⟨fun packet hmem => ?_, fun cidrs => ⟨_, rfl⟩⟩
      cases hmem
  | some i =>
      rw [hdemux] at hinbound
      refine ⟨fun packet hmem => ?_, feed_withCidrs P moments hinbound⟩
      obtain ⟨p, hp, hdecrypts⟩ := feed_packet P moments hinbound hmem
      exact ⟨p, List.mem_of_getElem? hp, demux_index hdemux hp, hdecrypts⟩

/-! ## A site that uses an address of another site -/

theorem served_ranges : served.peers.map (fun p => (p.index, p.cidrs)) =
    [(1, [range 1]), (2, [range 2])] := rfl

/-- An IPv4 header with a source address of the second site. -/
def spoofed : Bytes :=
  [69, 0, 0, 20, 0, 0, 0, 0, 64, 17, 0, 0, 10, 0, 2, 9, 100, 89, 0, 5]

/-- A data packet of the first site. -/
def spoofedDatagram : Bytes :=
  [4, 0, 0, 0, 1, 1, 0, 0] ++ List.replicate 8 0 ++ spoofed ++ List.replicate 16 0

theorem served_delivers_spoofed :
    ∃ next, served.handleInbound Primitives.null (fun _ => ⟨0, []⟩) spoofedDatagram =
      .ok (next, [.toHost spoofed]) := ⟨_, rfl⟩

theorem handleInbound_authentic_spoofed :
    ∃ next, served.handleInbound Primitives.null (fun _ => ⟨0, []⟩) spoofedDatagram =
        .ok (next, [.toHost spoofed]) ∧
      ∃ p ∈ served.peers, peerIndexOf spoofedDatagram = some p.index ∧
        p.pump.tun.Decrypts Primitives.null spoofedDatagram spoofed := by
  obtain ⟨next, hnext⟩ := served_delivers_spoofed
  refine ⟨next, hnext, ?_⟩
  exact (handleInbound_authentic Primitives.null _ hnext).1 spoofed List.mem_cons_self

/-- The first site injects a packet with an address of the second. -/
theorem spoofed_source_not_allowed :
    run Primitives.null zeroKey (Router.new [] 1280) twoSites = .ok served ∧
      ¬ served.SourcesAllowed Primitives.null (fun _ => ⟨0, []⟩) spoofedDatagram := by
  refine ⟨served_reachable, ?_⟩
  intro hallowed
  obtain ⟨next, hnext⟩ := served_delivers_spoofed
  obtain ⟨p, hp, hindex, src, hsrc, c, hc, hcontains⟩ :=
    hallowed next _ spoofed hnext List.mem_cons_self
  have hpeer : (p.index, p.cidrs) ∈ served.peers.map (fun p => (p.index, p.cidrs)) :=
    List.mem_map_of_mem hp
  have hfirst : p.index = 1 := (Option.some.inj hindex).symm
  rw [served_ranges, hfirst] at hpeer
  have hranges : p.cidrs = [range 1] := by simpa using hpeer
  rw [hranges, List.mem_singleton] at hc
  cases hsrc
  subst hc
  exact absurd hcontains (by decide)

end Router

end Newt.Olm
