import TailscaleRs.Bart.Refinement
import TailscaleRs.Dataplane.Inbound
import TailscaleRs.Tunnel.Endpoint

namespace TailscaleRs.Dataplane

open Net (IpAddr)
open Bart (BuiltTable)
open Time (Instant)
open Tunnel (PeerId Endpoint WgCrypto Halt Draws)

inductive InboundAction where
  | drop
  | toOverlay (transport : Nat)
  deriving DecidableEq

inductive OutboundAction where
  | drop
  | wireguard (peer : PeerId)
  | loopback (transport : Nat)
  deriving DecidableEq

structure AdvertisementTarget where
  nodeAddr : IpAddr
  wireguardOnly : Bool

/-- What this node announces of itself when a session is established. -/
structure DiscoAdvertisementState where
  discoKey : Bytes
  selfAddrs : List IpAddr
  peers : PeerId → Option AdvertisementTarget

def DiscoAdvertisementState.advertisementFor (state : DiscoAdvertisementState) (peer : PeerId) :
    Option Bytes := do
  if state.discoKey = List.replicate 32 0 then none
  else
    let target ← state.peers peer
    if target.wireguardOnly then none
    else
      let src ← state.selfAddrs.find? fun addr => addr.isIpv4 = target.nodeAddr.isIpv4
      (Tsmp.DiscoKeyAdvertisement.marshal ⟨src, target.nodeAddr, state.discoKey⟩).toOption

structure Settings where
  orOut : BuiltTable OutboundAction
  srcFilterIn : BuiltTable PeerId
  orIn : BuiltTable InboundAction
  packetFilter : PacketFilter
  discoAdvertisement : Option DiscoAdvertisementState
  peerapiPort : Option UInt16
  disableTsmpRejected : Bool

structure DataPlane where
  wireguard : Endpoint
  settings : Settings
  flows : FlowCache

abbrev Queues : Type := PeerId → Option (List Bytes)

def Queues.empty : Queues := fun _ => none

/-- What the second holds for a peer comes after what the first does. -/
def Queues.merge (first second : Queues) : Queues := fun peer =>
  match first peer, second peer with
  | none, none => none
  | before, behind => some (before.getD [] ++ behind.getD [])

/-- `into_group_map`, the groups in the order of their first packet. -/
def groupByPeer (packets : List (PeerId × Bytes)) : List (PeerId × List Bytes) :=
  (packets.map Prod.fst).dedup.map fun peer =>
    (peer, (packets.filter fun packet => packet.1 = peer).map Prod.snd)

structure OutboundResult where
  toPeers : Queues
  loopback : List (Nat × Bytes)

structure InboundResult where
  toLocal : List (Nat × Bytes)
  toPeers : Queues
  learnedDiscoKeys : List (PeerId × Tsmp.DiscoKeyAdvertisement)
  rejectedFlows : List (PeerId × Tsmp.TailscaleRejectedHeader)

namespace DataPlane

variable [Etherparse]

def recordFlow (flows : FlowCache) (b : Bytes) : FlowCache :=
  match outboundUdpOrSctpFlow b with
  | some (proto, src, dst) => flows.recordOutbound proto src dst
  | none => flows

def recordFlows (flows : FlowCache) (packets : List Bytes) : FlowCache :=
  packets.foldl recordFlow flows

/-- No message between nodes comes from the local device. -/
def retainOutbound (packets : List Bytes) : List Bytes :=
  packets.filter fun b => !outboundPacketCarriesTsmp b

variable (dp : DataPlane)

def outboundAction (b : Bytes) : Option OutboundAction := do
  let dst ← getDstAddr b
  dp.settings.orOut.lookup dst

def toWireguard (packets : List Bytes) : List (PeerId × Bytes) :=
  packets.filterMap fun b =>
    match dp.outboundAction b with
    | some (.wireguard peer) => some (peer, b)
    | _ => none

def toLoopback (packets : List Bytes) : List (Nat × Bytes) :=
  packets.filterMap fun b =>
    match dp.outboundAction b with
    | some (.loopback transport) => some (transport, b)
    | _ => none

variable (W : WgCrypto) (debug : Bool)

/-- Packets from the local device: messages between nodes are refused, flows noted, and the rest
is sent where the outbound router says. -/
def processOutbound (dp : DataPlane) (now : Instant) (draws : Draws) (packets : List Bytes) :
    Except Halt (DataPlane × OutboundResult) := do
  let packets := retainOutbound packets
  let flows := recordFlows dp.flows packets
  let (wireguard, out) ← dp.wireguard.call W debug
    ⟨now, draws, .send (groupByPeer (dp.toWireguard packets))⟩
  return (⟨wireguard, dp.settings, flows⟩, ⟨out.toPeers, dp.toLoopback packets⟩)

/-- The source of a packet belongs to the peer whose session it came through. -/
def sourceAllowed (peer : PeerId) (b : Bytes) : Bool :=
  match getSrcAddr b with
  | none => false
  | some src => dp.settings.srcFilterIn.lookup src = some peer

def rejectConfig : RejectConfig :=
  ⟨dp.settings.disableTsmpRejected, dp.settings.peerapiPort⟩

/-- The decrypted packets of the peers, in the order in which the map is walked. -/
def filterBatches (toLocal : Queues) (order : List PeerId) : Filtering :=
  order.foldl
    (fun st peer =>
      filterInboundFromPeer dp.settings.packetFilter dp.rejectConfig peer
        (((toLocal peer).getD []).filter (dp.sourceAllowed peer)) st)
    ⟨dp.flows, InboundHarvest.empty, []⟩

/-- The inbound router: what has no route, or one that drops, goes nowhere. -/
def route (packets : List Bytes) : List (Nat × Bytes) :=
  packets.filterMap fun b =>
    match getDstAddr b with
    | none => none
    | some dst =>
      match dp.settings.orIn.lookup dst with
      | some (.toOverlay transport) => some (transport, b)
      | _ => none

/-- The rejects go out through the tunnel, without the outbound filter. -/
def sendRejects (wireguard : Endpoint) (now : Instant) (draws : Draws)
    (rejects : List (PeerId × Bytes)) : Except Halt (Endpoint × Queues) := do
  if rejects.isEmpty then return (wireguard, Queues.empty)
  else
    let (wireguard, out) ← wireguard.call W debug ⟨now, draws, .send (groupByPeer rejects)⟩
    return (wireguard, out.toPeers)

/-- An advertisement for each new session; the draws are those of the calls in their order. -/
def advertise (now : Instant) (draws : Nat → Draws) (advert : DiscoAdvertisementState) :
    Nat → List PeerId → Endpoint → Queues → Except Halt (Endpoint × Queues)
  | _, [], wireguard, queued => .ok (wireguard, queued)
  | index, peer :: rest, wireguard, queued =>
    match advert.advertisementFor peer with
    | none => advertise now draws advert index rest wireguard queued
    | some msg => do
        let (wireguard, out) ← wireguard.call W debug
          ⟨now, draws index, .sendPriorityMessage peer msg⟩
        advertise now draws advert (index + 1) rest wireguard (queued.merge out.toPeers)

def announce (dp : DataPlane) (now : Instant) (draws : Nat → Draws) (established : List PeerId)
    (wireguard : Endpoint) : Except Halt (Endpoint × Queues) :=
  match dp.settings.discoAdvertisement with
  | none => .ok (wireguard, Queues.empty)
  | some advert => advertise W debug now draws advert 2 established wireguard Queues.empty

/-- `process_inbound_from`. The orders are those in which hash maps are walked. -/
def processInboundFrom (dp : DataPlane) (now : Instant) (draws : Nat → Draws)
    (origin : Option PeerId) (packets : List Bytes) (sessions : List Nat) (order : List PeerId) :
    Except Halt (DataPlane × InboundResult) := do
  let (wireguard, out) ← dp.wireguard.call W debug ⟨now, draws 0, .recvFrom origin packets sessions⟩
  let filtered := dp.filterBatches out.toLocal order
  let (wireguard, rejects) ←
    sendRejects W debug wireguard now (draws 1) filtered.harvest.rejectsToSend
  let (wireguard, adverts) ← dp.announce W debug now draws out.sessionsEstablished wireguard
  return (⟨wireguard, dp.settings, filtered.flows⟩,
    { toLocal := dp.route (filtered.kept.map Prod.snd)
      toPeers := Queues.merge adverts (Queues.merge out.toPeers rejects)
      learnedDiscoKeys := filtered.harvest.learnedDiscoKeys
      rejectedFlows := filtered.harvest.rejectedFlows })

end DataPlane

end TailscaleRs.Dataplane
