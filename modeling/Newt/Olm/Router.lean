import Newt.Foundation.Keyed
import Newt.Olm.Cidr
import Newt.Wg.Pump

/-! # The multi-peer router of the client

One WireGuard session per site. Outbound packets go to the peer with the longest
matching prefix, inbound datagrams to the peer whose index they carry. The
base64 decoder of public keys is a parameter, as are the cryptographic
primitives of the pumps.
-/

namespace Newt.Olm

open Foundation Noise Wg

/-- Result of feeding an inbound datagram to the router. -/
inductive Out where
  | toHost (packet : Bytes)
  | toNet (datagram : Bytes) (endpoint : SocketAddr)
  deriving DecidableEq, Repr

structure Peer where
  siteId : Int
  pump : Pump
  endpoint : SocketAddr
  cidrs : List Cidr
  index : BitVec 32

structure Router where
  secret : Bytes
  mtu : Nat
  peers : List Peer
  nextIndex : BitVec 32

/-- What `push` of `handle_inbound` appends for one result of the pump. -/
def Out.ofInbound (endpoint : SocketAddr) : Inbound → Option Out
  | .packet p => some (.toHost p)
  | .network b => some (.toNet b endpoint)
  | .nothing => none

/-- Destination of a bare IPv4 or IPv6 packet. -/
def destIp (pkt : Bytes) : Option IpAddr :=
  match pkt.head? with
  | none => none
  | some first =>
      let version := first >>> 4
      if version = 4 ∧ 20 ≤ pkt.length then
        some (.v4 (Vector.ofFn fun i => pkt.getD (16 + i) 0))
      else if version = 6 ∧ 40 ≤ pkt.length then
        some (.v6 (Vector.ofFn fun i => pkt.getD (24 + i) 0))
      else none

namespace Router

def new (secret : Bytes) (mtu : Nat) : Router := ⟨secret, mtu, [], 1⟩

/-- `wrapping_add(1).max(1)` -/
def succPeerIndex (index : BitVec 32) : BitVec 32 :=
  if index + 1 < 1 then 1 else index + 1

def removePeer (router : Router) (siteId : Int) : Router :=
  { router with peers := Keyed.eraseKey Peer.siteId siteId router.peers }

/-- Add or replace the peer of a site and return the initiation to send to it.
A key that does not decode changes nothing. -/
def upsertPeer (P : Primitives) (decode : String → Except String Bytes) (m : Moment)
    (durationAtStart : Nat) (router : Router) (siteId : Int) (peerPubB64 : String)
    (endpoint : SocketAddr) (cidrs : List Cidr) : Router × Option (Bytes × SocketAddr) :=
  match publicFromB64 decode peerPubB64 with
  | .error _ => (router, none)
  | .ok peerPub =>
      -- an old peer of the site goes with its pump and its sessions
      let router := router.removePeer siteId
      let index := router.nextIndex
      let pump := Pump.withIndex P router.secret peerPub router.mtu index durationAtStart
      let (pump, init) := pump.initiateHandshake P m
      ({ router with
          peers := router.peers ++ [⟨siteId, pump, endpoint, cidrs, index⟩]
          nextIndex := succPeerIndex index },
        init.map fun b => (b, endpoint))

/-- Change the peer of a site, if there is one. -/
def modifyPeer (router : Router) (siteId : Int) (f : Peer → Peer) : Router :=
  { router with
    peers := Keyed.modifyFirst (fun p => decide (p.siteId = siteId)) f router.peers }

def setEndpoint (router : Router) (siteId : Int) (endpoint : SocketAddr) : Router :=
  router.modifyPeer siteId fun p => { p with endpoint := endpoint }

def setCidrs (router : Router) (siteId : Int) (cidrs : List Cidr) : Router :=
  router.modifyPeer siteId fun p => { p with cidrs := cidrs }

def addCidrs (router : Router) (siteId : Int) (cidrs : List Cidr) : Router :=
  router.modifyPeer siteId fun p => { p with cidrs := p.cidrs ++ cidrs }

def removeCidrs (router : Router) (siteId : Int) (drop : List Cidr) : Router :=
  router.modifyPeer siteId fun p =>
    { p with cidrs := p.cidrs.filter fun c => !drop.any fun d => sameCidr c d }

/-- One step of the search in `best_peer`: a longer matching prefix wins, the
earlier one on a tie. -/
def better (dst : IpAddr) (best : Option (Nat × UInt8)) (candidate : Nat × Cidr) :
    Option (Nat × UInt8) :=
  let (i, c) := candidate
  if c.contains dst ∧ (∀ b ∈ best, b.2 < c.prefixLen) then some (i, c.prefixLen) else best

/-- The position of the peer that owns `dst` by longest-prefix match. -/
def bestPeer (router : Router) (dst : IpAddr) : Option Nat :=
  let candidates := router.peers.zipIdx.flatMap fun (p, i) => p.cidrs.map fun c => (i, c)
  (candidates.foldl (better dst) none).map Prod.fst

/-- The endpoint a destination is routed to. -/
def routeTarget (router : Router) (dst : IpAddr) : Option SocketAddr :=
  ((router.bestPeer dst).bind fun i => router.peers[i]?).map Peer.endpoint

/-- Encrypt an outbound packet for the peer that owns its destination. -/
def routeOutbound (P : Primitives) (m : Moment) (router : Router) (ipPkt : Bytes) :
    Except Panic (Router × Option (Bytes × SocketAddr)) :=
  match (destIp ipPkt).bind router.bestPeer with
  | none => .ok (router, none)
  | some i =>
      match router.peers[i]? with
      | none => .ok (router, none)
      | some p =>
          match p.pump.encapsulate P m ipPkt with
          | .error panic => .error panic
          | .ok (pump, dg) =>
              .ok ({ router with peers := router.peers.set i { p with pump := pump } },
                dg.map fun b => (b, p.endpoint))

/-- The position of the peer whose index an inbound datagram carries. -/
def demux (router : Router) (datagram : Bytes) : Option Nat :=
  (peerIndexOf datagram).bind fun index =>
    router.peers.findIdx? fun p => decide (p.index = index)

/-- Feed a datagram to the pump of the peer at position `i`. -/
def feed (P : Primitives) (moments : Nat → Moment) (router : Router) (i : Nat)
    (datagram : Bytes) : Except Panic (Router × List Out) :=
  match router.peers[i]? with
  | none => .ok (router, [])
  | some p =>
      match p.pump.receive P moments datagram with
      | .error panic => .error panic
      | .ok (pump, results) =>
          .ok ({ router with peers := router.peers.set i { p with pump := pump } },
            results.filterMap (Out.ofInbound p.endpoint))

/-- Feed an inbound datagram to the peer it is for, and to none if its index is
unknown. -/
def handleInbound (P : Primitives) (moments : Nat → Moment) (router : Router)
    (datagram : Bytes) : Except Panic (Router × List Out) :=
  match router.demux datagram with
  | none => .ok (router, [])
  | some i => router.feed P moments i datagram

/-- Drive the timers of the given peers. -/
def tickPeers (P : Primitives) (moments : Nat → Moment) :
    Nat → List Peer → Except Panic (List Peer × List (Bytes × SocketAddr))
  | _, [] => .ok ([], [])
  | i, p :: rest =>
      match p.pump.updateTimers P (moments i) with
      | .error panic => .error panic
      | .ok (pump, dg) =>
          match tickPeers P moments (i + 1) rest with
          | .error panic => .error panic
          | .ok (rest, out) =>
              .ok ({ p with pump := pump } :: rest,
                (dg.map fun b => (b, p.endpoint)).toList ++ out)

def tick (P : Primitives) (moments : Nat → Moment) (router : Router) :
    Except Panic (Router × List (Bytes × SocketAddr)) :=
  match tickPeers P moments 0 router.peers with
  | .error panic => .error panic
  | .ok (peers, out) => .ok ({ router with peers := peers }, out)

/-- A call of the router, with the clock readings it will see. -/
inductive Call where
  | upsertPeer (m : Moment) (durationAtStart : Nat) (siteId : Int) (peerPubB64 : String)
      (endpoint : SocketAddr) (cidrs : List Cidr)
  | removePeer (siteId : Int)
  | setEndpoint (siteId : Int) (endpoint : SocketAddr)
  | setCidrs (siteId : Int) (cidrs : List Cidr)
  | addCidrs (siteId : Int) (cidrs : List Cidr)
  | removeCidrs (siteId : Int) (drop : List Cidr)
  | routeOutbound (m : Moment) (ipPkt : Bytes)
  | handleInbound (moments : Nat → Moment) (datagram : Bytes)
  | tick (moments : Nat → Moment)

/-- The router after a call. -/
def apply (P : Primitives) (decode : String → Except String Bytes) (router : Router) :
    Call → Except Panic Router
  | .upsertPeer m durationAtStart siteId peerPubB64 endpoint cidrs =>
      .ok (router.upsertPeer P decode m durationAtStart siteId peerPubB64 endpoint cidrs).1
  | .removePeer siteId => .ok (router.removePeer siteId)
  | .setEndpoint siteId endpoint => .ok (router.setEndpoint siteId endpoint)
  | .setCidrs siteId cidrs => .ok (router.setCidrs siteId cidrs)
  | .addCidrs siteId cidrs => .ok (router.addCidrs siteId cidrs)
  | .removeCidrs siteId drop => .ok (router.removeCidrs siteId drop)
  | .routeOutbound m ipPkt => (router.routeOutbound P m ipPkt).map Prod.fst
  | .handleInbound moments datagram => (router.handleInbound P moments datagram).map Prod.fst
  | .tick moments => (router.tick P moments).map Prod.fst

/-- The router after a sequence of calls. -/
def run (P : Primitives) (decode : String → Except String Bytes) :
    Router → List Call → Except Panic Router
  | router, [] => .ok router
  | router, call :: rest =>
      match router.apply P decode call with
      | .error panic => .error panic
      | .ok next => run P decode next rest

/-- The calls that carry traffic: they only run the pumps of the peers. -/
def Call.isTraffic : Call → Bool
  | .routeOutbound _ _ | .handleInbound _ _ | .tick _ => true
  | _ => false

/-! ## Traffic changes pumps only -/

section Traffic

variable {γ : Type} {f : Peer → γ}
  (hf : ∀ (p : Peer) (pump : Pump), f { p with pump := pump } = f p)
include hf

theorem map_set_pump {peers : List Peer} {i : Nat} {p : Peer} (pump : Pump)
    (hp : peers[i]? = some p) : (peers.set i { p with pump := pump }).map f = peers.map f := by
  obtain ⟨hi, hget⟩ := List.getElem?_eq_some_iff.mp hp
  rw [List.map_set, hf]
  apply List.ext_getElem?
  intro j
  rw [List.getElem?_set]
  split
  · next hj =>
      subst hj
      simp [hi, hget]
  · rfl

theorem tickPeers_map {P : Primitives} {moments : Nat → Moment} {i : Nat} {peers next : List Peer}
    {out : List (Bytes × SocketAddr)} (htick : tickPeers P moments i peers = .ok (next, out)) :
    next.map f = peers.map f := by
  induction peers generalizing i next out with
  | nil =>
      cases htick
      rfl
  | cons p peers ih =>
      simp only [tickPeers] at htick
      split at htick
      · cases htick
      · split at htick
        · cases htick
        · next hrest =>
            cases htick
            rw [List.map_cons, List.map_cons, ih hrest, hf]

/-- Everything that does not depend on the pumps is as before. -/
theorem traffic_map {P : Primitives} {decode : String → Except String Bytes}
    {router next : Router} {call : Call} (htraffic : call.isTraffic = true)
    (happly : router.apply P decode call = .ok next) :
    next.nextIndex = router.nextIndex ∧ next.peers.map f = router.peers.map f := by
  cases call with
  | routeOutbound m ipPkt =>
      simp only [apply, routeOutbound] at happly
      split at happly
      · cases happly
        exact ⟨rfl, rfl⟩
      · split at happly
        · cases happly
          exact ⟨rfl, rfl⟩
        · next hp =>
            split at happly
            · cases happly
            · cases happly
              exact ⟨rfl, map_set_pump hf _ hp⟩
  | handleInbound moments datagram =>
      simp only [apply, handleInbound, feed] at happly
      split at happly
      · cases happly
        exact ⟨rfl, rfl⟩
      · split at happly
        · cases happly
          exact ⟨rfl, rfl⟩
        · next hp =>
            split at happly
            · cases happly
            · cases happly
              exact ⟨rfl, map_set_pump hf _ hp⟩
  | tick moments =>
      simp only [apply, tick] at happly
      split at happly
      · cases happly
      · next htick =>
          cases happly
          exact ⟨rfl, tickPeers_map hf htick⟩
  | _ => cases htraffic

end Traffic

/-! ## Two sites -/

/-- A decoder that takes every text for the zero key. -/
def zeroKey (_ : String) : Except String Bytes := .ok (List.replicate 32 0)

def range (octet : UInt8) : Cidr := ⟨.v4 #v[10, 0, octet, 0], 24⟩

/-- Two sites with their ranges, and the handshake response of the first. -/
def twoSites : List Call :=
  [.upsertPeer ⟨0, []⟩ 0 1 "" .documentation [range 1],
    .upsertPeer ⟨0, []⟩ 0 2 "" .documentation [range 2],
    .handleInbound (fun _ => ⟨0, []⟩)
      ([2, 0, 0, 0, 7, 0, 0, 0, 1, 1, 0, 0] ++ List.replicate 80 0)]

/-- The router after these calls. -/
def served : Router :=
  match run Primitives.null zeroKey (Router.new [] 1280) twoSites with
  | .ok router => router
  | .error _ => Router.new [] 1280

theorem served_reachable : run Primitives.null zeroKey (Router.new [] 1280) twoSites = .ok served :=
  rfl

end Router

end Newt.Olm
