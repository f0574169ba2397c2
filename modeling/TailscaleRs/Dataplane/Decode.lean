import TailscaleRs.Control.Node

namespace TailscaleRs.Dataplane

open Net (IpAddr Family)

variable (b : Bytes)

def byteAt (i : Nat) : UInt8 := b.getD i 0

def u16At (i : Nat) : UInt16 :=
  (byteAt b i).toUInt16 <<< 8 ||| (byteAt b (i + 1)).toUInt16

/-- `ipv4_at` and `ipv6_at`: the address at a position, if the packet reaches that far. -/
def addrAt (family : Family) (b : Bytes) (i : Nat) : Option IpAddr :=
  if sized : ((b.drop i).take family.size).length = family.size then
    some ⟨family, (b.drop i).take family.size, sized⟩
  else none

def ipFamily : Option Family :=
  match b with
  | [] => none
  | first :: _ => if first >>> 4 = 4 then some .v4 else if first >>> 4 = 6 then some .v6 else none

def getSrcAddr : Option IpAddr :=
  match ipFamily b with
  | some .v4 => addrAt .v4 b 12
  | some .v6 => addrAt .v6 b 8
  | none => none

def getDstAddr : Option IpAddr :=
  match ipFamily b with
  | some .v4 => addrAt .v4 b 16
  | some .v6 => addrAt .v6 b 24
  | none => none

namespace Etherparse

/-- Protocol numbers that name a header before the transport header. -/
def hopByHop : UInt8 := 0

def route : UInt8 := 43

def fragment : UInt8 := 44

def auth : UInt8 := 51

def destOptions : UInt8 := 60

/-- What follows the last header that is stepped over. -/
structure IpPayload where
  ipNumber : UInt8
  fragmented : Bool
  payload : Bytes

structure Ipv4Slice where
  sourceAddr : IpAddr
  destinationAddr : IpAddr
  fragmentsOffset : UInt16
  moreFragments : Bool
  payload : IpPayload

/-- The extension headers are listed by their numbers, in the order of the packet. -/
structure Ipv6Slice where
  nextHeader : UInt8
  sourceAddr : IpAddr
  destinationAddr : IpAddr
  extensions : List UInt8
  payload : IpPayload

inductive NetSlice where
  | ipv4 (slice : Ipv4Slice)
  | ipv6 (slice : Ipv6Slice)

inductive TransportSlice where
  | icmpv4 (slice : Bytes)
  | udp (slice : Bytes)
  | tcp (slice : Bytes)
  | icmpv6 (slice : Bytes)

structure SlicedPacket where
  net : NetSlice
  transport : Option TransportSlice

def NetSlice.payload : NetSlice → IpPayload
  | .ipv4 slice => slice.payload
  | .ipv6 slice => slice.payload

def headerLen4 : Nat := (byteAt b 0 &&& 0x0f).toNat * 4

/-- What an IPv4 slice says of the packet: the fields of the header, and the payload past an
authentication header. -/
structure Ipv4Slice.Of (slice : Ipv4Slice) : Prop where
  family : ipFamily b = some .v4
  source : addrAt .v4 b 12 = some slice.sourceAddr
  destination : addrAt .v4 b 16 = some slice.destinationAddr
  offset : slice.fragmentsOffset = u16At b 6 &&& 0x1fff
  fragmented : slice.payload.fragmented = (slice.moreFragments || slice.fragmentsOffset ≠ 0)
  plain : byteAt b 9 ≠ auth →
    slice.payload.ipNumber = byteAt b 9 ∧ slice.payload.payload <+: b.drop (headerLen4 b)
  stepped : byteAt b 9 = auth →
    slice.payload.ipNumber = byteAt b (headerLen4 b) ∧ slice.payload.payload <+:
      b.drop (headerLen4 b + ((byteAt b (headerLen4 b + 1)).toNat + 2) * 4)

/-- A header that names no extension header is followed by its payload. -/
structure Ipv6Slice.Of (slice : Ipv6Slice) : Prop where
  family : ipFamily b = some .v6
  source : addrAt .v6 b 8 = some slice.sourceAddr
  destination : addrAt .v6 b 24 = some slice.destinationAddr
  next : slice.nextHeader = byteAt b 6
  plain : byteAt b 6 ∉ [hopByHop, route, fragment, auth, destOptions] →
    slice.payload.ipNumber = byteAt b 6 ∧ slice.payload.fragmented = false ∧
      slice.payload.payload <+: b.drop 40

/-- The transport slice of a payload: none for a fragment, and maybe for what is neither UDP nor
TCP; the others hold the whole header. -/
inductive TransportOf : IpPayload → Option TransportSlice → Prop where
  | fragment (payload : IpPayload) (is : payload.fragmented = true) : TransportOf payload none
  | icmpv4 (body : Bytes) (long : 8 ≤ body.length) :
      TransportOf ⟨1, false, body⟩ (some (.icmpv4 body))
  | udp (body slice : Bytes) (front : slice <+: body) (long : 8 ≤ slice.length) :
      TransportOf ⟨17, false, body⟩ (some (.udp slice))
  | tcp (body : Bytes) (long : 20 ≤ body.length) : TransportOf ⟨6, false, body⟩ (some (.tcp body))
  | icmpv6 (body : Bytes) (long : 8 ≤ body.length) :
      TransportOf ⟨58, false, body⟩ (some (.icmpv6 body))
  | other (number : UInt8) (body : Bytes) (is : number ∉ [17, 6]) :
      TransportOf ⟨number, false, body⟩ none

end Etherparse

/-- The library that slices packets. -/
class Etherparse where
  fromIp : Bytes → Option Etherparse.SlicedPacket

/-- The library slices headers as the RFCs define them. -/
class Etherparse.Documented [Etherparse] : Prop where
  ipv4 {b : Bytes} {slice : Ipv4Slice} {transport : Option TransportSlice} :
    fromIp b = some ⟨.ipv4 slice, transport⟩ → slice.Of b
  ipv6 {b : Bytes} {slice : Ipv6Slice} {transport : Option TransportSlice} :
    fromIp b = some ⟨.ipv6 slice, transport⟩ → slice.Of b
  transport {b : Bytes} {pkt : SlicedPacket} :
    fromIp b = some pkt → TransportOf pkt.net.payload pkt.transport

open Net (IpAddr)
open Control (SocketAddr)
open TailscaleRs.Filter (IpProto L4Header)
open Etherparse

/-- The least offset of a later fragment, in blocks of eight bytes, that cannot reach into a
transport header. -/
def minFragBlks : UInt16 := (60 + 20) / 8

/-- The protocol of what is not classified, which is also that of hop-by-hop options. -/
def ipprotoUnknown : IpProto := ⟨0⟩

/-- The number that stands for a later fragment; on the wire it means nothing. -/
def ipprotoFragmentSentinel : IpProto := ⟨0xff⟩

def IpProto.ofByte (number : UInt8) : IpProto := ⟨number.toNat⟩

structure Ipv4Fragment where
  offsetBlocks : UInt16
  moreFragments : Bool
  deriving DecidableEq

inductive Ipv6Fragment where
  | unknown
  | later
  | first (proto : IpProto) (srcPort dstPort : UInt16) (l4 : L4Header)
  deriving DecidableEq

inductive Fragment where
  | v4 (fragment : Ipv4Fragment)
  | v6 (fragment : Ipv6Fragment)
  deriving DecidableEq

variable (sub : Bytes)

def tcpFlags : L4Header :=
  match sub[13]? with
  | some flags => .tcp flags
  | none => .unknown

/-- Type and code, of a message that has its eight bytes. -/
def icmpHeader : L4Header :=
  if 8 ≤ sub.length then .icmp (byteAt sub 0) (byteAt sub 1) else .unknown

def sctpPorts : Option (UInt16 × UInt16) :=
  if sub.length < 12 then none else some (u16At sub 0, u16At sub 2)

variable (proto : IpProto)

/-- The sub-protocol of a first fragment; a header cut short is not classified. -/
def decode6FirstFragment (sub : Bytes) : Ipv6Fragment :=
  let ported (minLen : Nat) (l4 : L4Header) : Ipv6Fragment :=
    if sub.length < minLen then .unknown else .first proto (u16At sub 0) (u16At sub 2) l4
  let portless (minLen : Nat) (l4 : L4Header) : Ipv6Fragment :=
    if sub.length < minLen then .unknown else .first proto 0 0 l4
  if proto = .icmpv6 then portless 4 (icmpHeader sub)
  else if proto = .tcp then ported 20 (tcpFlags sub)
  else if proto = .udp then ported 8 .unknown
  else if proto = .sctp then ported 12 .unknown
  else if proto = .tsmp then portless 7 .unknown
  else if proto = ipprotoFragmentSentinel then .unknown
  else .first proto 0 0 .unknown

variable [Etherparse] (b : Bytes)

def decode6Fragment : Ipv6Fragment :=
  if b.length < 40 then .unknown
  else if b.length < (u16At b 4).toNat + 40 then .unknown
  else
    let frag := b.drop 40
    if frag.length < 8 then .unknown
    else
      let fragOfs := u16At frag 2 >>> 3
      if fragOfs = 0 then decode6FirstFragment (IpProto.ofByte (byteAt frag 0)) (frag.drop 8)
      else if fragOfs < minFragBlks then .unknown
      else .later

/-- Ports and header of a first IPv4 fragment; none if the header is cut short. -/
def decode4FirstFragment (sub : Bytes) : Option (UInt16 × UInt16 × L4Header) :=
  let ported (minLen : Nat) (l4 : L4Header) : Option (UInt16 × UInt16 × L4Header) :=
    if sub.length < minLen then none else some (u16At sub 0, u16At sub 2, l4)
  if proto = .tcp then ported 20 (tcpFlags sub)
  else if proto = .udp then ported 8 .unknown
  else if proto = .sctp then (sctpPorts sub).map fun ports => (ports.1, ports.2, .unknown)
  else if proto = .icmp then if sub.length < 4 then none else some (0, 0, icmpHeader sub)
  else if proto = ipprotoFragmentSentinel then none
  else some (0, 0, .unknown)

/-- A fragment header somewhere in the chain. -/
def fragmentHeaderIsChained (ipv6 : Ipv6Slice) : Bool :=
  ipv6.extensions.any fun number => number = Etherparse.fragment

/-- The protocol that the base header names, and the fragment, of a packet that is sliced. -/
def classify : NetSlice → IpProto × IpAddr × IpAddr × Option Fragment
  | .ipv4 ipv4 =>
    (IpProto.ofByte ipv4.payload.ipNumber, ipv4.sourceAddr, ipv4.destinationAddr,
      some (.v4 ⟨ipv4.fragmentsOffset, ipv4.moreFragments⟩))
  | .ipv6 ipv6 =>
    let baseProto :=
      if IpProto.ofByte ipv6.nextHeader = ipprotoFragmentSentinel then ipprotoUnknown
      else IpProto.ofByte ipv6.nextHeader
    let frag : Option Ipv6Fragment :=
      if ipv6.nextHeader = Etherparse.fragment then some (decode6Fragment b)
      else if fragmentHeaderIsChained ipv6 then some .unknown
      else none
    let proto :=
      match frag with
      | some (.first proto _ _ _) => proto
      | some .later => ipprotoUnknown
      | some .unknown => ipprotoUnknown
      | none => baseProto
    (proto, ipv6.sourceAddr, ipv6.destinationAddr, frag.map .v6)

/-- The rest of the transport header, if the protocol is the one of the slice. -/
def transportHeader : Option TransportSlice → L4Header
  | some (.tcp slice) => if proto = .tcp then tcpFlags slice else .unknown
  | some (.icmpv4 slice) =>
    if proto = .icmp then .icmp (byteAt slice 0) (byteAt slice 1) else .unknown
  | some (.icmpv6 slice) =>
    if proto = .icmpv6 then .icmp (byteAt slice 0) (byteAt slice 1) else .unknown
  | _ => .unknown

def transportPorts : Option TransportSlice → UInt16 × UInt16
  | some (.udp slice) => (u16At slice 0, u16At slice 2)
  | some (.tcp slice) => (u16At slice 0, u16At slice 2)
  | _ => (0, 0)

structure Decoded where
  proto : IpProto
  src : SocketAddr
  dst : SocketAddr
  l4 : L4Header
  frag : Option Fragment
  deriving DecidableEq

/-- Header and ports of a first fragment, `some none` for a packet that is none. -/
def firstFragment4 (sub : Bytes) : Option Fragment → Option (Option (UInt16 × UInt16 × L4Header))
  | some (.v4 v4) =>
    if v4.moreFragments ∧ v4.offsetBlocks = 0 then (decode4FirstFragment proto sub).map some
    else some none
  | _ => some none

def headerOf (transport : Option TransportSlice) (first4 : Option (UInt16 × UInt16 × L4Header)) :
    Option Fragment → L4Header
  | some (.v6 (.first _ _ _ l4)) => l4
  | some (.v6 _) => .unknown
  | _ =>
    match first4 with
    | some (_, _, l4) => l4
    | none => transportHeader proto transport

/-- A fragment that the base header places after the first. -/
def isLater4 : Option Fragment → Bool
  | some (.v4 v4) => 0 < v4.offsetBlocks
  | _ => false

/-- Ports of a packet whose header is not in a fragment header's keeping. -/
def basePorts (sub : Bytes) (transport : Option TransportSlice)
    (first4 : Option (UInt16 × UInt16 × L4Header)) (later : Bool) : Option (UInt16 × UInt16) :=
  if !proto.isPortFul then some (0, 0)
  else if later then some (0, 0)
  else if proto = .sctp then sctpPorts sub
  else match first4 with
    | some (srcPort, dstPort, _) => some (srcPort, dstPort)
    | none => some (transportPorts transport)

/-- None for an SCTP header cut short. -/
def portsOf (sub : Bytes) (transport : Option TransportSlice)
    (first4 : Option (UInt16 × UInt16 × L4Header)) (frag : Option Fragment) :
    Option (UInt16 × UInt16) :=
  match frag with
  | some (.v6 (.first _ srcPort dstPort _)) => some (srcPort, dstPort)
  | _ => basePorts proto sub transport first4 (isLater4 frag)

/-- The first part of `filter_inbound_from_peer`; a packet it cannot read is dropped. -/
def decodeInbound : Option Decoded := do
  let pkt ← fromIp b
  let sub := pkt.net.payload.payload
  let (proto, src, dst, frag) := classify b pkt.net
  let first4 ← firstFragment4 proto sub frag
  let ports ← portsOf proto sub pkt.transport first4 frag
  return ⟨proto, ⟨src, ports.1⟩, ⟨dst, ports.2⟩, headerOf proto pkt.transport first4 frag, frag⟩

/-- A packet from the local device that carries the messages between nodes. -/
def outboundPacketCarriesTsmp : Bool :=
  match ipFamily b with
  | some .v4 => 20 ≤ b.length && byteAt b 9 = 99
  | some .v6 =>
    if b.length < 40 then false
    else if byteAt b 6 = 99 then true
    else if byteAt b 6 = Etherparse.fragment then b[40]? = some 99
    else false
  | none => false

/-- Protocol and addresses of an outbound packet, and the ports of a first IPv6 fragment. -/
def outboundBase : NetSlice → Option (IpProto × IpAddr × IpAddr × Option (UInt16 × UInt16))
  | .ipv4 ipv4 =>
    if 0 < ipv4.fragmentsOffset then none
    else some (IpProto.ofByte ipv4.payload.ipNumber, ipv4.sourceAddr, ipv4.destinationAddr, none)
  | .ipv6 ipv6 =>
    if ipv6.nextHeader = Etherparse.fragment then
      match decode6Fragment b with
      | .first proto srcPort dstPort _ =>
        some (proto, ipv6.sourceAddr, ipv6.destinationAddr, some (srcPort, dstPort))
      | _ => none
    else some (IpProto.ofByte ipv6.nextHeader, ipv6.sourceAddr, ipv6.destinationAddr, none)

/-- The ports of a tracked protocol: those of a first IPv6 fragment, or those of the header. -/
def outboundPorts (sub : Bytes) : Option (UInt16 × UInt16) → Option (UInt16 × UInt16)
  | some ports => if proto = .udp ∨ proto = .sctp then some ports else none
  | none =>
    if proto = .udp then if sub.length < 8 then none else some (u16At sub 0, u16At sub 2)
    else if proto = .sctp then sctpPorts sub
    else none

def outboundUdpOrSctpFlow : Option (IpProto × SocketAddr × SocketAddr) := do
  let pkt ← fromIp b
  let (proto, srcIp, dstIp, v6FirstFragmentPorts) ← outboundBase b pkt.net
  let ports ← outboundPorts proto pkt.net.payload.payload v6FirstFragmentPorts
  return (proto, ⟨srcIp, ports.1⟩, ⟨dstIp, ports.2⟩)

end TailscaleRs.Dataplane
