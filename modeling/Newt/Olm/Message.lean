import Newt.Olm.Router

/-! # Control messages of the client

The inbound control messages and `handle_message`. Decoding of JSON payloads,
name resolution, the UDP socket, and the backend enter as parameters: `Serde` for
the payload decoders, `Surroundings` for what the handling of one message meets
outside.
-/

namespace Newt.Olm

open Foundation Noise Wg

/-- The inbound topics of the control channel. -/
inductive Topic where
  | connect
  | error
  | terminate
  | peerAdd
  | peerRemove
  | peerUpdate
  | peerRelay
  | peerUnrelay
  | peerDataAdd
  | peerDataRemove
  | sync
  deriving DecidableEq, Repr

def Topic.text : Topic → String
  | .connect => "olm/wg/connect"
  | .error => "olm/error"
  | .terminate => "olm/terminate"
  | .peerAdd => "olm/wg/peer/add"
  | .peerRemove => "olm/wg/peer/remove"
  | .peerUpdate => "olm/wg/peer/update"
  | .peerRelay => "olm/wg/peer/relay"
  | .peerUnrelay => "olm/wg/peer/unrelay"
  | .peerDataAdd => "olm/wg/peer/data/add"
  | .peerDataRemove => "olm/wg/peer/data/remove"
  | .sync => "olm/sync"

def Topic.all : List Topic :=
  [.connect, .error, .terminate, .peerAdd, .peerRemove, .peerUpdate, .peerRelay, .peerUnrelay,
    .peerDataAdd, .peerDataRemove, .sync]

/-- The topic that `handle_message` matches. Other texts are ignored. -/
def Topic.ofText (typ : String) : Option Topic := Topic.all.find? fun topic => topic.text == typ

structure WsMessage (Json : Type) where
  typ : String
  data : Json
  deriving DecidableEq, Repr

/-- A site the client can reach. -/
structure SiteConfig where
  siteId : Int
  endpoint : String
  relayEndpoint : String
  publicKey : String
  remoteSubnets : List String
  allowedIps : List String
  deriving DecidableEq, Repr

namespace SiteConfig

/-- The relay endpoint when present, otherwise the direct endpoint. -/
def wgEndpoint (site : SiteConfig) : String :=
  if site.relayEndpoint ≠ "" then site.relayEndpoint else site.endpoint

/-- All destinations routed to this site. -/
def routedCidrs (site : SiteConfig) : List String := site.remoteSubnets ++ site.allowedIps

end SiteConfig

structure WgData where
  sites : List SiteConfig
  tunnelIp : String
  deriving DecidableEq, Repr

def WgData.default : WgData := ⟨[], ""⟩

/-- `olm/wg/peer/relay` and `olm/wg/peer/unrelay`: a site and its new endpoint. -/
structure PeerEndpoint where
  siteId : Int
  endpoint : String
  deriving DecidableEq, Repr

/-- `olm/wg/peer/data/add` and `olm/wg/peer/data/remove` -/
structure PeerData where
  siteId : Int
  remoteSubnets : List String
  deriving DecidableEq, Repr

/-- The decoders of the payloads, which fail on a JSON value of another shape. -/
structure Serde (Json : Type) where
  wgData : Json → Option WgData
  siteConfig : Json → Option SiteConfig
  peerRemove : Json → Option Int
  peerRelay : Json → Option PeerEndpoint
  peerUnrelay : Json → Option PeerEndpoint
  peerData : Json → Option PeerData
  syncData : Json → Option (List SiteConfig)

/-- What the handling of one message meets outside. Lookups, clock readings, and
sends are numbered by the position of the site in the message. -/
structure Surroundings (β : Type) where
  resolve : Nat → String → Option SocketAddr
  moment : Nat → Moment
  durationAtStart : Nat → Nat
  send : Nat → Except IoError Unit
  /-- Creating a backend may fail, also because the old one is still there. -/
  newBackend : Option β → IpAddr → Except IoError β
  /-- Programming a route may fail, which is logged and otherwise ignored. -/
  addRoutes : Nat → List Cidr → β → β

structure DataPlane (β : Type) where
  router : Router
  backend : β

/-- The configuration and key material of a client. -/
structure Client (Json : Type) where
  P : Primitives
  decode : String → Except String Bytes
  serde : Serde Json
  secret : Bytes
  mtu : Nat

def parseCidrs (specs : List String) : List Cidr := specs.filterMap Cidr.parse

namespace Client

variable {Json β : Type} (client : Client Json) (w : Surroundings β)

/-- The site part of `build_dataplane` and `upsert_site`: what a site with a
non-empty key and a resolvable endpoint puts into the router. -/
def upsertRouter (k : Nat) (router : Router) (site : SiteConfig) (ep : SocketAddr) :
    Router × Option (Bytes × SocketAddr) :=
  router.upsertPeer client.P client.decode (w.moment k) (w.durationAtStart k) site.siteId
    site.publicKey ep (parseCidrs site.routedCidrs)

/-- Add or update one site and return the initiation to send. -/
def upsertSite (k : Nat) (d : DataPlane β) (site : SiteConfig) :
    DataPlane β × Option (Bytes × SocketAddr) :=
  if site.publicKey = "" then (d, none)
  else
    match w.resolve k site.wgEndpoint with
    | none => (d, none)
    | some ep =>
        let (router, init) := client.upsertRouter w k d.router site ep
        -- the routes are added even when the key does not decode
        (⟨router, w.addRoutes k (parseCidrs site.routedCidrs) d.backend⟩, init)

/-- Send an initiation, if there is one. -/
def sendInit (k : Nat) (init : Option (Bytes × SocketAddr)) : Except IoError Unit :=
  match init with
  | none => .ok ()
  | some _ => w.send k

/-- The loop of `olm/sync`. A failed send ends it. -/
def syncSites : Nat → DataPlane β → List SiteConfig → DataPlane β × Except IoError Unit
  | _, d, [] => (d, .ok ())
  | k, d, site :: rest =>
      let (d, init) := client.upsertSite w k d site
      match sendInit w k init with
      -- the sites before a failed send stay changed
      | .error e => (d, .error e)
      | .ok () => syncSites (k + 1) d rest

/-- The loop of `build_dataplane`: the router, the initiations, and all routed
ranges. -/
def buildSites : Nat → Router → List SiteConfig →
    Router × List (Bytes × SocketAddr) × List Cidr
  | _, router, [] => (router, [], [])
  | k, router, site :: rest =>
      if site.publicKey = "" then buildSites (k + 1) router rest
      else
        match w.resolve k site.wgEndpoint with
        | none => buildSites (k + 1) router rest
        | some ep =>
            let (router, init) := client.upsertRouter w k router site ep
            let (router, inits, cidrs) := buildSites (k + 1) router rest
            (router, init.toList ++ inits, parseCidrs site.routedCidrs ++ cidrs)

def buildDataplane (old : Option β) (wg : WgData) :
    Except IoError (DataPlane β × List (Bytes × SocketAddr)) :=
  match IpAddr.parse (Text.splitFirst '/' wg.tunnelIp.toList) with
  | none => .error "bad olm tunnelIP"
  | some tunnelIp =>
      match w.newBackend old tunnelIp with
      | .error e => .error e
      | .ok backend =>
          let (router, inits, cidrs) :=
            client.buildSites w 0 (Router.new client.secret client.mtu) wg.sites
          .ok (⟨router, w.addRoutes 0 cidrs backend⟩, inits)

/-- Send the initiations of a new data plane in order, up to the first failure. -/
def sendInits : Nat → List (Bytes × SocketAddr) → Except IoError Unit
  | _, [] => .ok ()
  | k, _ :: rest =>
      match w.send k with
      | .error e => .error e
      | .ok () => sendInits (k + 1) rest

/-- Move a site to another endpoint, if the payload decodes and the endpoint
resolves. -/
def redirectPeer (d : DataPlane β) (payload : Option PeerEndpoint) : DataPlane β :=
  match payload with
  | none => d
  | some r =>
      match w.resolve 0 r.endpoint with
      | none => d
      | some ep => { d with router := d.router.setEndpoint r.siteId ep }

/-- Messages other than connect, error, and terminate act on a running data plane. -/
def handlePeerMessage (d : DataPlane β) (topic : Topic) (data : Json) :
    DataPlane β × Except IoError Unit :=
  match topic with
  | .peerAdd | .peerUpdate =>
      match client.serde.siteConfig data with
      | none => (d, .ok ())
      | some site =>
          let (d, init) := client.upsertSite w 0 d site
          (d, sendInit w 0 init)
  | .peerRemove =>
      match client.serde.peerRemove data with
      | none => (d, .ok ())
      | some siteId => ({ d with router := d.router.removePeer siteId }, .ok ())
  | .peerRelay => (redirectPeer w d (client.serde.peerRelay data), .ok ())
  | .peerUnrelay => (redirectPeer w d (client.serde.peerUnrelay data), .ok ())
  | .peerDataAdd =>
      match client.serde.peerData data with
      | none => (d, .ok ())
      | some r =>
          let cidrs := parseCidrs r.remoteSubnets
          (⟨d.router.addCidrs r.siteId cidrs, w.addRoutes 0 cidrs d.backend⟩, .ok ())
  | .peerDataRemove =>
      match client.serde.peerData data with
      | none => (d, .ok ())
      | some r =>
          ({ d with router := d.router.removeCidrs r.siteId (parseCidrs r.remoteSubnets) }, .ok ())
  | .sync =>
      match client.serde.syncData data with
      | none => (d, .ok ())
      | some sites => client.syncSites w 0 d sites
  | .connect | .error | .terminate => (d, .ok ())

/-- Handle one control message. The result is `true` when the session should
end. -/
def handleMessage (dp : Option (DataPlane β)) (msg : WsMessage Json) :
    Option (DataPlane β) × Except IoError Bool :=
  match Topic.ofText msg.typ with
  | none => (dp, .ok false)
  | some .connect =>
      let wg := (client.serde.wgData msg.data).getD .default
      match client.buildDataplane w (dp.map DataPlane.backend) wg with
      | .error e => (dp, .error e)
      | .ok (d, inits) =>
          -- the old data plane stays until all initiations are sent
          match sendInits w 0 inits with
          | .error e => (dp, .error e)
          | .ok () => (some d, .ok false)
  | some .error => (dp, .ok false)
  | some .terminate => (dp, .ok true)
  | some topic =>
      match dp with
      | none => (none, .ok false)
      | some d =>
          let (d, result) := client.handlePeerMessage w d topic msg.data
          (some d, result.map fun _ => false)

end Client

end Newt.Olm
