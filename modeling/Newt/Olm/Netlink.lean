import Newt.Core.Addr
import Newt.Foundation.Attributes

/-! # Requests to rtnetlink

The messages that bring a link up, set its MTU, assign an address and add a route.
A message is a header of 16 bytes, the fixed header of its type, and attributes.
Numbers are in the byte order of the machine.
-/

namespace Newt.Olm

open Foundation

abbrev Message := List UInt8

namespace Netlink

-- message types
def rtmNewlink : UInt16 := 16
def rtmNewaddr : UInt16 := 20
def rtmNewroute : UInt16 := 24
-- header flags
def nlmFRequest : UInt16 := 0x001
def nlmFAck : UInt16 := 0x004
def nlmFReplace : UInt16 := 0x100
def nlmFCreate : UInt16 := 0x400
-- attribute types
def iflaMtu : UInt16 := 4
def ifaAddress : UInt16 := 1
def ifaLocal : UInt16 := 2
def rtaDst : UInt16 := 1
def rtaOif : UInt16 := 4
-- routing constants
def rtTableMain : UInt8 := 254
def rtScopeUniverse : UInt8 := 0
def rtScopeLink : UInt8 := 253
def rtprotBoot : UInt8 := 3
def rtnUnicast : UInt8 := 1
def iffUp : UInt32 := 1
-- address families
def afUnspec : UInt8 := 0
def afInet : UInt8 := 2
def afInet6 : UInt8 := 10
-- the type of an answer that is an error or an acknowledgement
def nlmsgError : Nat := 2

def famBytes : IpAddr → UInt8 × List UInt8
  | .v4 octets => (afInet, octets.toList)
  | .v6 octets => (afInet6, octets.toList)

/-- `while buf.len() % 4 != 0 { buf.push(0) }` -/
def pushZeros (buf : List UInt8) : List UInt8 :=
  if buf.length % 4 ≠ 0 then pushZeros (buf ++ [0]) else buf
termination_by (4 - buf.length % 4) % 4
decreasing_by
  simp only [List.length_append, List.length_singleton]
  omega

def pushAttr (order : ByteOrder) (buf : List UInt8) (attrType : UInt16) (data : List UInt8) :
    List UInt8 :=
  let len := 4 + data.length
  pushZeros (buf ++ order.bytes 2 len ++ order.bytes 2 attrType.toNat ++ data)

/-- The answers of the socket to one request, and the texts of its error numbers. -/
structure Socket where
  sendto : Except IoError Unit
  /-- At most 4096 bytes. -/
  recv : Except IoError (List UInt8)
  fromRawOsError : Int → IoError

/-- An open socket with the number of its next request. -/
structure Handle where
  seq : UInt32
  deriving DecidableEq, Repr

/-- What a request leaves: the handle, the message that was sent, and the result. -/
structure Outcome where
  next : Handle
  sent : Message
  result : Except IoError Unit

variable (order : ByteOrder) (socket : Socket)

def readAck : Except IoError Unit :=
  match socket.recv with
  | .error e => .error e
  | .ok buf =>
      if buf.length < 20 then .error "short netlink ack"
      else if order.nat ((buf.drop 4).take 2) = nlmsgError then
        let err := BitVec.ofNat 32 (order.nat ((buf.drop 16).take 4))
        if err = 0 then .ok () else .error (socket.fromRawOsError (-err).toInt)
      else .ok ()

/-- The message of a request. The kernel fills in the process. -/
def message (seq : UInt32) (msgType flags : UInt16) (payload : List UInt8) : Message :=
  let total := 16 + payload.length
  order.bytes 4 total ++ order.bytes 2 msgType.toNat ++ order.bytes 2 flags.toNat ++
    order.bytes 4 seq.toNat ++ order.bytes 4 0 ++ payload

/-- Send one request and wait for its acknowledgement. -/
def request (handle : Handle) (msgType flags : UInt16) (payload : List UInt8) : Outcome :=
  { next := ⟨handle.seq + 1⟩
    sent := message order handle.seq msgType flags payload
    result :=
      match socket.sendto with
      | .error e => .error e
      | .ok () => readAck order socket }

/-- The fixed header of a link message: family, padding, type, index, flags, change. -/
def ifinfomsg (ifindex flags change : UInt32) : List UInt8 :=
  [afUnspec, 0] ++ order.bytes 2 0 ++ order.bytes 4 ifindex.toNat ++ order.bytes 4 flags.toNat ++
    order.bytes 4 change.toNat

def setMtu (handle : Handle) (ifindex mtu : UInt32) : Outcome :=
  let payload := ifinfomsg order ifindex 0 0
  let payload := pushAttr order payload iflaMtu (order.bytes 4 mtu.toNat)
  request order socket handle rtmNewlink (nlmFRequest ||| nlmFAck) payload

def linkUp (handle : Handle) (ifindex : UInt32) : Outcome :=
  request order socket handle rtmNewlink (nlmFRequest ||| nlmFAck)
    (ifinfomsg order ifindex iffUp iffUp)

/-- The fixed header of an address message: family, prefix, flags, scope, index. -/
def ifaddrmsg (family prefixLen : UInt8) (ifindex : UInt32) : List UInt8 :=
  [family, prefixLen, 0, rtScopeUniverse] ++ order.bytes 4 ifindex.toNat

def addAddr (handle : Handle) (ifindex : UInt32) (ip : IpAddr) (prefixLen : UInt8) : Outcome :=
  let (family, addr) := famBytes ip
  let payload := ifaddrmsg order family prefixLen ifindex
  let payload := pushAttr order payload ifaLocal addr
  let payload := pushAttr order payload ifaAddress addr
  request order socket handle rtmNewaddr (nlmFRequest ||| nlmFAck ||| nlmFCreate ||| nlmFReplace)
    payload

/-- The fixed header of a route message: family, both prefixes, tos, table, protocol,
scope, type, flags. -/
def rtmsg (family prefixLen : UInt8) : List UInt8 :=
  [family, prefixLen, 0, 0, rtTableMain, rtprotBoot, rtScopeLink, rtnUnicast] ++ order.bytes 4 0

def addRoute (handle : Handle) (ifindex : UInt32) (dst : IpAddr) (prefixLen : UInt8) : Outcome :=
  let (family, addr) := famBytes dst
  let payload := rtmsg order family prefixLen
  let payload := pushAttr order payload rtaDst addr
  let payload := pushAttr order payload rtaOif (order.bytes 4 ifindex.toNat)
  request order socket handle rtmNewroute (nlmFRequest ||| nlmFAck ||| nlmFCreate ||| nlmFReplace)
    payload

/-! ## What a reader of the messages finds -/

theorem pushZeros_eq (buf : List UInt8) :
    pushZeros buf = buf ++ List.replicate (Attribute.align buf.length - buf.length) 0 := by
  fun_induction pushZeros buf with
  | case1 buf hpad ih =>
      have hcount : Attribute.align buf.length - buf.length =
          Attribute.align (buf.length + 1) - (buf.length + 1) + 1 := by
        simp only [Attribute.align]
        omega
      rw [ih, List.length_append, List.length_singleton, hcount, List.replicate_succ,
        List.append_assoc, List.singleton_append]
  | case2 buf hdone =>
      have hzero : Attribute.align buf.length - buf.length = 0 := by
        simp only [Attribute.align]
        omega
      rw [hzero, List.replicate_zero, List.append_nil]

/-- On an aligned buffer the padding is that of the attribute. -/
theorem pushAttr_eq {buf : List UInt8} (haligned : buf.length % 4 = 0) (attr : Attribute) :
    pushAttr order buf attr.kind attr.data = buf ++ attr.encode order := by
  have hpad : Attribute.align (buf.length + attr.size) - (buf.length + attr.size) =
      Attribute.align attr.size - attr.size := by
    simp only [Attribute.align]
    omega
  have hlength : (buf ++ order.bytes 2 (4 + attr.data.length) ++ order.bytes 2 attr.kind.toNat ++
      attr.data).length = buf.length + attr.size := by
    simp only [List.length_append, ByteOrder.bytes_length, Attribute.size]
    omega
  simp only [pushAttr]
  rw [pushZeros_eq, hlength, hpad, Attribute.encode, Attribute.size]
  simp only [List.append_assoc]

/-- Push a list of attributes one after the other. -/
def pushAttrs (buf : List UInt8) (attrs : List Attribute) : List UInt8 :=
  attrs.foldl (fun buf attr => pushAttr order buf attr.kind attr.data) buf

theorem pushAttrs_eq {buf : List UInt8} (haligned : buf.length % 4 = 0) (attrs : List Attribute) :
    pushAttrs order buf attrs = buf ++ attrs.flatMap (Attribute.encode order) := by
  induction attrs generalizing buf with
  | nil => simp [pushAttrs]
  | cons attr rest ih =>
      have hnext : (buf ++ attr.encode order).length % 4 = 0 := by
        rw [List.length_append, Attribute.encode_length, Attribute.align]
        omega
      rw [pushAttrs, List.foldl_cons, pushAttr_eq order haligned attr]
      exact (ih hnext).trans (by rw [List.flatMap_cons, List.append_assoc])

theorem walk_pushAttrs {buf : List UInt8} (haligned : buf.length % 4 = 0) {attrs : List Attribute}
    (hdata : ∀ attr ∈ attrs, attr.data.length < 65532) :
    Attribute.walk order ((pushAttrs order buf attrs).drop buf.length) = some attrs := by
  rw [pushAttrs_eq order haligned, List.drop_left]
  apply Attribute.walk_flatMap_encode
  intro attr hattr
  have hlt := hdata attr hattr
  rw [Attribute.size]
  omega

/-- The message states its length, type and flags, the fixed header follows, and its
attributes reach exactly to its end. -/
structure Carries (msg : Message) (msgType flags : UInt16) (header : List UInt8)
    (attrs : List Attribute) : Prop where
  stated : order.nat (msg.take 4) = msg.length
  aligned : msg.length % 4 = 0
  typed : order.nat ((msg.drop 4).take 2) = msgType.toNat
  flagged : order.nat ((msg.drop 6).take 2) = flags.toNat
  fixed : (msg.drop 16).take header.length = header
  walked : Attribute.walk order (msg.drop (16 + header.length)) = some attrs

@[simp]
theorem message_length (seq : UInt32) (msgType flags : UInt16) (payload : List UInt8) :
    (message order seq msgType flags payload).length = 16 + payload.length := by
  simp only [message, List.length_append, ByteOrder.bytes_length]

theorem message_drop (seq : UInt32) (msgType flags : UInt16) (payload : List UInt8) :
    (message order seq msgType flags payload).drop 16 = payload :=
  List.drop_left' (by simp)

theorem carries_message (seq : UInt32) (msgType flags : UInt16) {header : List UInt8}
    {attrs : List Attribute} (haligned : header.length % 4 = 0)
    (hdata : ∀ attr ∈ attrs, attr.data.length < 65532)
    (htotal : 16 + (pushAttrs order header attrs).length < 2 ^ 32) :
    Carries order (message order seq msgType flags (pushAttrs order header attrs)) msgType flags
      header attrs where
  stated := by
    rw [message_length, message]
    simp [ByteOrder.nat_bytes]
    omega
  aligned := by
    have hattrs := Attribute.flatMap_encode_aligned order attrs
    rw [message_length, pushAttrs_eq order haligned, List.length_append]
    omega
  typed := by simp [message, ByteOrder.nat_bytes]
  flagged := by
    rw [show 6 = 4 + 2 from rfl, ← List.drop_drop]
    simp [message, ByteOrder.nat_bytes]
  fixed := by
    rw [message_drop, pushAttrs_eq order haligned, List.take_left]
  walked := by
    rw [← List.drop_drop, message_drop]
    exact walk_pushAttrs order haligned hdata

theorem famBytes_length (ip : IpAddr) : (famBytes ip).2.length ≤ 16 := by
  cases ip <;> simp [famBytes]

theorem setMtu_carries (handle : Handle) (ifindex mtu : UInt32) :
    Carries order (setMtu order socket handle ifindex mtu).sent rtmNewlink (nlmFRequest ||| nlmFAck)
      (ifinfomsg order ifindex 0 0) [⟨iflaMtu, order.bytes 4 mtu.toNat⟩] := by
  have haligned : (ifinfomsg order ifindex 0 0).length % 4 = 0 := by simp [ifinfomsg]
  have hsent : (setMtu order socket handle ifindex mtu).sent = message order handle.seq rtmNewlink
      (nlmFRequest ||| nlmFAck) (pushAttrs order (ifinfomsg order ifindex 0 0)
        [⟨iflaMtu, order.bytes 4 mtu.toNat⟩]) := rfl
  rw [hsent]
  refine carries_message order handle.seq _ _ haligned ?_ ?_
  · simp
  · rw [pushAttrs_eq order haligned]
    simp [ifinfomsg, Attribute.align, Attribute.size]

theorem linkUp_carries (handle : Handle) (ifindex : UInt32) :
    Carries order (linkUp order socket handle ifindex).sent rtmNewlink (nlmFRequest ||| nlmFAck)
      (ifinfomsg order ifindex iffUp iffUp) [] := by
  have hsent : (linkUp order socket handle ifindex).sent = message order handle.seq rtmNewlink
      (nlmFRequest ||| nlmFAck) (pushAttrs order (ifinfomsg order ifindex iffUp iffUp) []) := rfl
  rw [hsent]
  refine carries_message order handle.seq _ _ ?_ ?_ ?_
  · simp [ifinfomsg]
  · simp
  · simp [pushAttrs, ifinfomsg]

theorem addAddr_carries (handle : Handle) (ifindex : UInt32) (ip : IpAddr) (prefixLen : UInt8) :
    Carries order (addAddr order socket handle ifindex ip prefixLen).sent rtmNewaddr
      (nlmFRequest ||| nlmFAck ||| nlmFCreate ||| nlmFReplace)
      (ifaddrmsg order (famBytes ip).1 prefixLen ifindex)
      [⟨ifaLocal, (famBytes ip).2⟩, ⟨ifaAddress, (famBytes ip).2⟩] := by
  have hlength := famBytes_length ip
  have haligned : (ifaddrmsg order (famBytes ip).1 prefixLen ifindex).length % 4 = 0 := by
    simp [ifaddrmsg]
  have hsent : (addAddr order socket handle ifindex ip prefixLen).sent = message order handle.seq
      rtmNewaddr (nlmFRequest ||| nlmFAck ||| nlmFCreate ||| nlmFReplace)
      (pushAttrs order (ifaddrmsg order (famBytes ip).1 prefixLen ifindex)
        [⟨ifaLocal, (famBytes ip).2⟩, ⟨ifaAddress, (famBytes ip).2⟩]) := rfl
  rw [hsent]
  refine carries_message order handle.seq _ _ haligned ?_ ?_
  · simp
    omega
  · rw [pushAttrs_eq order haligned]
    simp [ifaddrmsg, Attribute.align, Attribute.size]
    omega

theorem addRoute_carries (handle : Handle) (ifindex : UInt32) (dst : IpAddr) (prefixLen : UInt8) :
    Carries order (addRoute order socket handle ifindex dst prefixLen).sent rtmNewroute
      (nlmFRequest ||| nlmFAck ||| nlmFCreate ||| nlmFReplace)
      (rtmsg order (famBytes dst).1 prefixLen)
      [⟨rtaDst, (famBytes dst).2⟩, ⟨rtaOif, order.bytes 4 ifindex.toNat⟩] := by
  have hlength := famBytes_length dst
  have haligned : (rtmsg order (famBytes dst).1 prefixLen).length % 4 = 0 := by simp [rtmsg]
  have hsent : (addRoute order socket handle ifindex dst prefixLen).sent = message order handle.seq
      rtmNewroute (nlmFRequest ||| nlmFAck ||| nlmFCreate ||| nlmFReplace)
      (pushAttrs order (rtmsg order (famBytes dst).1 prefixLen)
        [⟨rtaDst, (famBytes dst).2⟩, ⟨rtaOif, order.bytes 4 ifindex.toNat⟩]) := rfl
  rw [hsent]
  refine carries_message order handle.seq _ _ haligned ?_ ?_
  · simp
    omega
  · rw [pushAttrs_eq order haligned]
    simp [rtmsg, Attribute.align, Attribute.size]
    omega

/-- The layout of a link header, in either byte order. -/
theorem ifinfomsg_eq (ifindex flags change : UInt32) :
    ifinfomsg order ifindex flags change =
      [0, 0, 0, 0] ++ order.bytes 4 ifindex.toNat ++ order.bytes 4 flags.toNat ++
        order.bytes 4 change.toNat := by
  cases order <;> rfl

/-- The layout of a route header, in either byte order. -/
theorem rtmsg_eq (family prefixLen : UInt8) :
    rtmsg order family prefixLen = [family, prefixLen, 0, 0, 254, 3, 253, 1, 0, 0, 0, 0] := by
  cases order <;> rfl

/-- Every request carries what was asked for, in both byte orders: the length, type and
flags of the message, the fixed header byte by byte, and the attributes with the MTU, the
octets of the address and the index of the interface. A walk reads back all attributes
pushed onto an aligned buffer whose length fits its field. -/
theorem requests_carry (handle : Handle) :
    (∀ ifindex mtu, Carries order (setMtu order socket handle ifindex mtu).sent 16 0x005
      ([0, 0, 0, 0] ++ order.bytes 4 ifindex.toNat ++ order.bytes 4 0 ++ order.bytes 4 0)
      [⟨4, order.bytes 4 mtu.toNat⟩]) ∧
    (∀ ifindex, Carries order (linkUp order socket handle ifindex).sent 16 0x005
      ([0, 0, 0, 0] ++ order.bytes 4 ifindex.toNat ++ order.bytes 4 1 ++ order.bytes 4 1) []) ∧
    (∀ ifindex (octets : Ipv4Addr) prefixLen,
      Carries order (addAddr order socket handle ifindex (.v4 octets) prefixLen).sent 20 0x505
        ([2, prefixLen, 0, 0] ++ order.bytes 4 ifindex.toNat)
        [⟨2, octets.toList⟩, ⟨1, octets.toList⟩]) ∧
    (∀ ifindex (octets : Ipv6Addr) prefixLen,
      Carries order (addAddr order socket handle ifindex (.v6 octets) prefixLen).sent 20 0x505
        ([10, prefixLen, 0, 0] ++ order.bytes 4 ifindex.toNat)
        [⟨2, octets.toList⟩, ⟨1, octets.toList⟩]) ∧
    (∀ ifindex (octets : Ipv4Addr) prefixLen,
      Carries order (addRoute order socket handle ifindex (.v4 octets) prefixLen).sent 24 0x505
        [2, prefixLen, 0, 0, 254, 3, 253, 1, 0, 0, 0, 0]
        [⟨1, octets.toList⟩, ⟨4, order.bytes 4 ifindex.toNat⟩]) ∧
    (∀ ifindex (octets : Ipv6Addr) prefixLen,
      Carries order (addRoute order socket handle ifindex (.v6 octets) prefixLen).sent 24 0x505
        [10, prefixLen, 0, 0, 254, 3, 253, 1, 0, 0, 0, 0]
        [⟨1, octets.toList⟩, ⟨4, order.bytes 4 ifindex.toNat⟩]) ∧
    ∀ (buf : List UInt8) (attrs : List Attribute), buf.length % 4 = 0 →
      (∀ attr ∈ attrs, attr.data.length < 65532) →
      Attribute.walk order ((pushAttrs order buf attrs).drop buf.length) = some attrs := by
  refine ⟨?_, ?_, ?_, ?_, ?_, ?_, fun _ _ haligned hdata => walk_pushAttrs order haligned hdata⟩
  · intro ifindex mtu
    have hcarries := setMtu_carries order socket handle ifindex mtu
    rw [ifinfomsg_eq] at hcarries
    exact hcarries
  · intro ifindex
    have hcarries := linkUp_carries order socket handle ifindex
    rw [ifinfomsg_eq] at hcarries
    exact hcarries
  · intro ifindex octets prefixLen
    exact addAddr_carries order socket handle ifindex (.v4 octets) prefixLen
  · intro ifindex octets prefixLen
    exact addAddr_carries order socket handle ifindex (.v6 octets) prefixLen
  · intro ifindex octets prefixLen
    have hcarries := addRoute_carries order socket handle ifindex (.v4 octets) prefixLen
    rw [rtmsg_eq] at hcarries
    exact hcarries
  · intro ifindex octets prefixLen
    have hcarries := addRoute_carries order socket handle ifindex (.v6 octets) prefixLen
    rw [rtmsg_eq] at hcarries
    exact hcarries

end Netlink

end Newt.Olm
