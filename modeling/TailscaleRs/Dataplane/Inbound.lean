import TailscaleRs.Dataplane.Decode
import TailscaleRs.Dataplane.FlowCache
import TailscaleRs.Tunnel.Types

namespace TailscaleRs.Dataplane

open Net (IpAddr)
open Control (SocketAddr)

namespace Tsmp

def ipProtoTsmp : UInt8 := 99

def typeRejectedConn : UInt8 := 0x21

def typeDiscoAdvertisement : UInt8 := 0x61

def minTsmpSize : Nat := 7

variable (b : Bytes)

/-- Addresses and body of an IPv4 packet of the protocol that is whole and no fragment. -/
def tsmpBody4 : Option (IpAddr × IpAddr × Bytes) := do
  let length := (u16At b 2).toNat
  let subofs := Etherparse.headerLen4 b
  if b.length < 20 ∨ byteAt b 9 ≠ ipProtoTsmp ∨ b.length < length ∨ length < subofs ∨
      u16At b 6 &&& 0x2000 ≠ 0 ∨ u16At b 6 &&& 0x1fff ≠ 0 ∨
      b.length - subofs < minTsmpSize then none
  else
    let src ← addrAt .v4 b 12
    let dst ← addrAt .v4 b 16
    return (src, dst, (b.take length).drop subofs)

def tsmpBody6 : Option (IpAddr × IpAddr × Bytes) := do
  let length := (u16At b 4).toNat + 40
  if b.length < 40 ∨ byteAt b 6 ≠ ipProtoTsmp ∨ b.length < length ∨
      b.length - 40 < minTsmpSize then none
  else
    let src ← addrAt .v6 b 8
    let dst ← addrAt .v6 b 24
    return (src, dst, (b.take length).drop 40)

def tsmpBody : Option (IpAddr × IpAddr × Bytes) :=
  match ipFamily b with
  | some .v4 => tsmpBody4 b
  | some .v6 => tsmpBody6 b
  | none => none

def u16Bytes (n : UInt16) : Bytes := [(n >>> 8).toUInt8, n.toUInt8]

/-- The sum of the bytes in pairs, a last odd one as the high half. -/
def sumPairs : Bytes → Nat
  | [] => 0
  | [last] => last.toNat * 256
  | first :: second :: rest => first.toNat * 256 + second.toNat + sumPairs rest

/-- The carries go back into the low half; the sum of a header has few of them. -/
def foldCarries : Nat → Nat → Nat
  | 0, sum => sum
  | rounds + 1, sum =>
    if sum / 65536 = 0 then sum else foldCarries rounds (sum / 65536 + sum % 65536)

def ip4Checksum (header : Bytes) : UInt16 :=
  ~~~ UInt16.ofNat (foldCarries 4 (sumPairs header))

variable (src dst payload : Bytes)

/-- A packet of the protocol with no options, hop limit 64, that is no fragment. -/
def generate4 : Bytes :=
  let header (checksum : UInt16) : Bytes :=
    [0x45, 0] ++ u16Bytes (UInt16.ofNat (20 + payload.length)) ++ [0, 0, 0, 0, 64, ipProtoTsmp] ++
      u16Bytes checksum ++ src ++ dst
  header (ip4Checksum (header 0)) ++ payload

def generate6 : Bytes :=
  [0x60, 0, 0, 0] ++ u16Bytes (UInt16.ofNat payload.length) ++ [ipProtoTsmp, 64] ++ src ++ dst ++
    payload

inductive MarshalError where
  | mixedAddressFamilies
  | missingRejectReason
  deriving DecidableEq

def generate (src dst : IpAddr) (body : Bytes) : Except MarshalError Bytes :=
  match src.family, dst.family with
  | .v4, .v4 => .ok (generate4 src.octets dst.octets body)
  | .v6, .v6 => .ok (generate6 src.octets dst.octets body)
  | _, _ => .error .mixedAddressFamilies

structure DiscoKeyAdvertisement where
  src : IpAddr
  dst : IpAddr
  key : Bytes
  deriving DecidableEq

variable (advert : DiscoKeyAdvertisement)

def DiscoKeyAdvertisement.keyIsZero : Bool :=
  advert.key = List.replicate 32 0

/-- A longer body is one too. -/
def DiscoKeyAdvertisement.parse (packet : Bytes) : Option DiscoKeyAdvertisement := do
  let (src, dst, body) ← tsmpBody packet
  if body.length < 33 ∨ byteAt body 0 ≠ typeDiscoAdvertisement then none
  else return ⟨src, dst, (body.take 33).drop 1⟩

def DiscoKeyAdvertisement.marshal : Except MarshalError Bytes :=
  generate advert.src advert.dst (typeDiscoAdvertisement :: advert.key)

structure RejectReason where
  code : UInt8
  deriving DecidableEq

def RejectReason.none : RejectReason := ⟨0⟩

def RejectReason.acls : RejectReason := ⟨0x41⟩

def RejectReason.shieldsUp : RejectReason := ⟨0x53⟩

def RejectReason.unknownAppConnectorTransitIp : RejectReason := ⟨0x54⟩

/-- A connection that a peer refused; its ends are those of the connection. -/
structure TailscaleRejectedHeader where
  ipSrc : IpAddr
  ipDst : IpAddr
  src : SocketAddr
  dst : SocketAddr
  proto : UInt8
  reason : RejectReason
  maybeBroken : Bool
  deriving DecidableEq

/-- The flags are read if they are there. -/
def TailscaleRejectedHeader.parse (packet : Bytes) : Option TailscaleRejectedHeader := do
  let (ipSrc, ipDst, body) ← tsmpBody packet
  if body.length < 7 ∨ byteAt body 0 ≠ typeRejectedConn then none
  else
    return ⟨ipSrc, ipDst, ⟨ipDst, u16At body 3⟩, ⟨ipSrc, u16At body 5⟩, byteAt body 1,
      ⟨byteAt body 2⟩, byteAt body 7 &&& 1 ≠ 0⟩

def TailscaleRejectedHeader.marshal (header : TailscaleRejectedHeader) :
    Except MarshalError Bytes :=
  if header.reason = .none then .error .missingRejectReason
  else generate header.ipSrc header.ipDst
    ([typeRejectedConn, header.proto, header.reason.code] ++ u16Bytes header.src.port ++
      u16Bytes header.dst.port ++ [if header.maybeBroken then 1 else 0])

end Tsmp

open TailscaleRs.Filter (IpProto L4Header PacketInfo)
open Tunnel (PeerId)

/-- `dyn Filter`: any verdict on a packet and the sender's capabilities. -/
structure PacketFilter where
  canAccess : PacketInfo → List String → Bool
  shieldsUp : Bool

def isMulticast (addr : IpAddr) : Bool :=
  match addr.family with
  | .v4 => byteAt addr.octets 0 >>> 4 = 0xe
  | .v6 => byteAt addr.octets 0 = 0xff

def isLinkLocal (addr : IpAddr) : Bool :=
  match addr.family with
  | .v4 => byteAt addr.octets 0 = 169 && byteAt addr.octets 1 = 254
  | .v6 => byteAt addr.octets 0 = 0xfe && byteAt addr.octets 1 &&& 0xc0 = 0x80

def allowedLinkLocalV4 : IpAddr := ⟨.v4, [169, 254, 169, 254], rfl⟩

/-- The destinations that no rule opens. -/
def dropBeforeRules (dst : IpAddr) : Bool :=
  isMulticast dst || isLinkLocal dst && dst ≠ allowedLinkLocalV4

/-- What is left to decide of a fragment before its protocol is looked at. -/
def fragmentVerdict (proto : IpProto) : Option Fragment → Option Bool
  | some (.v4 frag) =>
    if 0 < frag.offsetBlocks then some (minFragBlks ≤ frag.offsetBlocks)
    else if proto = .tsmp ∧ frag.moreFragments then some false
    else none
  | some (.v6 .unknown) => some false
  | some (.v6 .later) => some true
  | some (.v6 (.first _ _ _ _)) => none
  | none => none

def Decoded.info (packet : Decoded) : PacketInfo :=
  ⟨packet.src.ip, packet.dst.ip, packet.proto, packet.dst.port, packet.l4⟩

def inboundFilterVerdict (filter : PacketFilter) (flows : FlowCache) (packet : Decoded) :
    FlowCache × Bool :=
  if dropBeforeRules packet.dst.ip then (flows, false)
  else match fragmentVerdict packet.proto packet.frag with
    | some verdict => (flows, verdict)
    | none =>
      if packet.proto = ipprotoUnknown then (flows, false)
      else if packet.proto = .tsmp then (flows, true)
      else
        let cached := flows.admitsInbound packet.proto packet.src packet.dst
        if cached.2 then (cached.1, true)
        else if packet.info.isTcpNonSyn then (cached.1, true)
        else if packet.info.isIcmpEchoResponse || packet.info.isIcmpError then (cached.1, true)
        else (cached.1, filter.canAccess packet.info [])

structure RejectConfig where
  disabled : Bool
  peerapiPort : Option UInt16

/-- The answer to a SYN over IPv4 that was dropped. -/
def tsmpRejectForDrop (packet : Decoded) (shieldsUp : Bool) (cfg : RejectConfig) : Option Bytes :=
  if cfg.disabled then none
  else if packet.src.ip.family ≠ .v4 ∨ packet.dst.ip.family ≠ .v4 then none
  else if packet.proto ≠ .tcp ∨ !packet.l4.tcpSynFlagSet then none
  else if cfg.peerapiPort = some packet.dst.port then none
  else
    (Tsmp.TailscaleRejectedHeader.marshal
      ⟨packet.dst.ip, packet.src.ip, packet.src, packet.dst, 6,
        if shieldsUp then .shieldsUp else .acls, false⟩).toOption

structure InboundHarvest where
  learnedDiscoKeys : List (PeerId × Tsmp.DiscoKeyAdvertisement)
  rejectedFlows : List (PeerId × Tsmp.TailscaleRejectedHeader)
  rejectsToSend : List (PeerId × Bytes)

def InboundHarvest.empty : InboundHarvest := ⟨[], [], []⟩

/-- What the filter works on and what it has kept so far, with the peer it came from. -/
structure Filtering where
  flows : FlowCache
  harvest : InboundHarvest
  kept : List (PeerId × Bytes)

variable [Etherparse] (filter : PacketFilter) (cfg : RejectConfig) (peer : PeerId) (st : Filtering)
  (b : Bytes) (packet : Decoded)

/-- The verdict, and the answer if it is a drop. -/
def Filtering.judge : Filtering :=
  let verdict := inboundFilterVerdict filter st.flows packet
  if verdict.2 then ⟨verdict.1, st.harvest, st.kept ++ [(peer, b)]⟩
  else
    let rejects := (tsmpRejectForDrop packet filter.shieldsUp cfg).toList.map fun msg => (peer, msg)
    ⟨verdict.1, { st.harvest with rejectsToSend := st.harvest.rejectsToSend ++ rejects }, st.kept⟩

/-- An advertisement is consumed, and so is a reject unless it keeps the exchange going. -/
def Filtering.judgeTsmp : Filtering :=
  match Tsmp.DiscoKeyAdvertisement.parse b with
  | some advert =>
    if advert.keyIsZero then st
    else { st with harvest := { st.harvest with
      learnedDiscoKeys := st.harvest.learnedDiscoKeys ++ [(peer, advert)] } }
  | none =>
    match Tsmp.TailscaleRejectedHeader.parse b with
    | none => st.judge filter cfg peer b packet
    | some reject =>
      let noted := { st with harvest := { st.harvest with
        rejectedFlows := st.harvest.rejectedFlows ++ [(peer, reject)] } }
      if reject.reason = .unknownAppConnectorTransitIp then noted.judge filter cfg peer b packet
      else noted

def Filtering.one : Filtering :=
  match decodeInbound b with
  | none => st
  | some packet =>
    if packet.proto = .tsmp then st.judgeTsmp filter cfg peer b packet
    else st.judge filter cfg peer b packet

def filterInboundFromPeer (packets : List Bytes) (st : Filtering) : Filtering :=
  packets.foldl (Filtering.one filter cfg peer) st

end TailscaleRs.Dataplane
