import TailscaleRs.Lib.Run
import TailscaleRs.Magicsock.Relay

namespace TailscaleRs.Magicsock

open Control (SocketAddr)
open Time (Instant Duration fromMillis)

def relayRefreshLead : Duration := fromMillis 3500

def maxInboundCallMeMaybeEndpoints : Nat := 16

structure RelayHandshakeCommon where
  vni : UInt32
  generation : UInt32
  remoteKey : DiscoPublicKey
  challenge : Bytes
  deriving DecidableEq

/-- `disco::Inbound`; the messages that a client drops wherever they arrive are one. -/
inductive Inbound
  | ping (sender : DiscoPublicKey) (txId : TxId) (claimedNodeKey : Option NodePublicKey)
  | pong (sender : DiscoPublicKey) (txId : TxId)
  | callMeMaybe (sender : DiscoPublicKey) (endpoints : List SocketAddr)
  | callMeMaybeVia (sender : DiscoPublicKey) (endpoint : RelayServerEndpoint)
  | bindUdpRelayEndpointChallenge (sender : DiscoPublicKey) (common : RelayHandshakeCommon)
  | other
  deriving DecidableEq

/-- What arrives on the socket, after the demultiplexing of `demux_datagram`. -/
inductive Datagram
  | disco (message : Option Inbound)
  | wireguard (payload : Bytes)
  | geneveDisco (vni : UInt32) (control : Bool) (message : Option Inbound)
  | geneveWireguard (vni : UInt32) (payload : Bytes)
  deriving DecidableEq

inductive RelayMessage
  | bind (server : DiscoPublicKey) (common : RelayHandshakeCommon)
  | answer (server : DiscoPublicKey) (common : RelayHandshakeCommon)
  | ping (peer : DiscoPublicKey) (txId : TxId)
  | pong (peer : DiscoPublicKey) (txId : TxId) (src : SocketAddr)
  | wireguard (payload : Bytes)
  deriving DecidableEq

inductive Output
  | ping (target : SocketAddr) (peer : DiscoPublicKey) (txId : TxId)
  | pong (target : SocketAddr) (peer : DiscoPublicKey) (txId : TxId)
  | wireguard (target : SocketAddr) (payload : Bytes)
  | relay (target : SocketAddr) (vni : UInt32) (message : RelayMessage)
  | derpPong (target : NodePublicKey) (peer : DiscoPublicKey) (txId : TxId)
  | deliver (fromDisco : DiscoPublicKey) (fromAddr : SocketAddr) (payload : Bytes)
  deriving DecidableEq

/-- What the surroundings of the socket give to one call: the clock, the netmap's answers, the
random transaction ids, the order of a walk through a hash map, and whether the first send of the
call ends without an error. -/
structure Env where
  now : Instant
  verify : Option (DiscoPublicKey → Option NodePublicKey → Bool)
  relayCapable : Option (NodePublicKey → Bool)
  txId : DiscoPublicKey → SocketAddr → TxId
  visit : Visit (Σ _ : DiscoPublicKey, RelayPath)
  delivered : Bool

/-- No verifier fails closed. -/
def Env.bound (env : Env) (sender : DiscoPublicKey) (node : Option NodePublicKey) : Bool :=
  env.verify.any fun verify => verify sender node

/-- The underlay socket. Disco frames stand opened: who sealed a message is a field of it, and a
frame that does not open is `none`. A datagram is an output when it is handed to the socket. -/
structure MagicSock where
  ourDisco : DiscoPublicKey
  enableIpv6 : Bool
  /-- The socket that is bound is dual-stack. -/
  sendsIpv6 : Bool
  silentDisco : Bool := false
  paths : KeyedMap DiscoPublicKey PeerPaths := ∅
  addrToDisco : KeyedMap SocketAddr DiscoPublicKey := ∅
  relayPaths : RelayPaths := {}
  handshakeGeneration : UInt32 := 0
  /-- The relayed pings that a handler has yet to send when it let go of the relay paths. -/
  pendingRelayPings : List (DiscoPublicKey × SocketAddr × UInt32) := []
  deriving DecidableEq

namespace MagicSock

def bind (ourDisco : DiscoPublicKey) (enableIpv6 sendsIpv6 : Bool) : MagicSock :=
  { ourDisco, enableIpv6, sendsIpv6 }

section Addresses

variable (sock : MagicSock) (addr : SocketAddr)

def isPingableCandidate : Bool :=
  match addr.ip.family with
  | .v4 =>
    !(addr.ip.isUnspecified || addr.ip.isLoopback || addr.ip.isLinkLocal ||
      addr.ip.isMulticast || addr.ip.isBroadcast || addr.ip.isPrivate)
  | .v6 =>
    if !sock.enableIpv6 || !sock.sendsIpv6 then false
    else
      !(addr.ip.isUnspecified || addr.ip.isLoopback || addr.ip.isMulticast ||
        addr.ip.isPrivate || addr.ip.isLinkLocal)

/-- As `isPingableCandidate`, but a private address passes. -/
def isLearnableCandidate : Bool :=
  match addr.ip.family with
  | .v4 =>
    !(addr.ip.isUnspecified || addr.ip.isLoopback || addr.ip.isLinkLocal ||
      addr.ip.isMulticast || addr.ip.isBroadcast)
  | .v6 =>
    if !sock.enableIpv6 || !sock.sendsIpv6 then false
    else
      !(addr.ip.isUnspecified || addr.ip.isLoopback || addr.ip.isMulticast ||
        addr.ip.isLinkLocal)

def relayAddrAllowed : Bool := sock.isPingableCandidate addr

def relayReplyTargetAllowed (src : SocketAddr) : Bool := sock.relayAddrAllowed src

end Addresses

section Owners

variable (sock : MagicSock) (peer : DiscoPublicKey)

/-- `peer_paths_entry`: the paths of the peer, new ones if there are none. -/
def peerPathsEntry : PeerPaths :=
  ((sock.paths.lookup peer).getD {}).setHeartbeatDisabled sock.silentDisco

variable (a2d : KeyedMap SocketAddr DiscoPublicKey) (ep : SocketAddr)

/-- An evicted address is the peer's no longer, unless it is another's. -/
def releaseEvicted : KeyedMap SocketAddr DiscoPublicKey :=
  if (a2d.lookup ep).any (· ≠ peer) then a2d else a2d.erase ep

/-- The first to name an address keeps it. -/
def attributeLearned : KeyedMap SocketAddr DiscoPublicKey :=
  if (a2d.lookup ep).any (· ≠ peer) then a2d else a2d.insert ep peer

def addPeerEndpoints (now : Instant) (peer : DiscoPublicKey) (endpoints : List SocketAddr) :
    MagicSock :=
  let eps := endpoints.filter sock.isLearnableCandidate
  if eps.isEmpty then sock
  else
    let learned := (sock.peerPathsEntry peer).addLearnedCandidatesAt eps now
    { sock with
      paths := sock.paths.insert peer learned.1
      addrToDisco := learned.2.accepted.foldl (attributeLearned peer)
        (learned.2.evicted.foldl (releaseEvicted peer) sock.addrToDisco) }

/-- A removed address keeps its attribution if it is another's. -/
def releaseRemoved (addr : SocketAddr) : KeyedMap SocketAddr DiscoPublicKey :=
  if a2d.lookup addr = some peer then a2d.erase addr else a2d

def setNetmapEndpoints (endpoints : List SocketAddr) : MagicSock :=
  let eps := endpoints.filter fun ep => sock.sendsIpv6 || ep.ip.isIpv4
  let reconciled := (sock.peerPathsEntry peer).reconcileNetmapCandidates eps
  { sock with
    paths := sock.paths.insert peer reconciled.1
    addrToDisco := reconciled.2.foldl (releaseRemoved peer)
      (eps.foldl (fun a2d ep => AList.insert ep peer a2d) sock.addrToDisco) }

/-- With whether the peer needs a probe now. -/
def changedActiveDisco (now : Instant) (previous current : DiscoPublicKey) : MagicSock × Bool :=
  if previous = current then (sock, false)
  else
    match sock.paths.lookup previous with
    | none => (sock, false)
    | some state =>
      match (sock.paths.erase previous).lookup current with
      | none =>
        ({ sock with
            paths := (sock.paths.erase previous).insert current state.invalidateDiscoPath
            addrToDisco := KeyedMap.mapVal
              (fun peer => if peer = previous then current else peer) sock.addrToDisco },
          true)
      | some pp => ({ sock with paths := sock.paths.erase previous }, (pp.bestAddr now).isNone)

def retainPeers (live : List DiscoPublicKey) : MagicSock :=
  { sock with
    paths := sock.paths.retain fun peer _ => peer ∈ live
    addrToDisco := sock.addrToDisco.retain fun _ peer => peer ∈ live }

end Owners

section Paths

variable (sock : MagicSock) (now : Instant) (peer : DiscoPublicKey)

def bestAddr : Option SocketAddr :=
  (sock.paths.lookup peer).bind fun pp => pp.bestAddr now

def relayPath : Option (SocketAddr × UInt32) :=
  (sock.relayPaths.get peer).bind fun path => path.usable now

def setSilentDisco (silent : Bool) : MagicSock :=
  if sock.silentDisco = silent then sock
  else
    { sock with
      silentDisco := silent
      paths := KeyedMap.mapVal (fun pp => pp.setHeartbeatDisabled silent) sock.paths }

def noteDataRecvActivity (src : SocketAddr) : MagicSock :=
  if sock.silentDisco then
    { sock with paths := sock.paths.alter peer fun pp => pp.noteRecvActivity src now }
  else sock

def notePeerActivity : MagicSock :=
  { sock with paths := sock.paths.insert peer ((sock.peerPathsEntry peer).noteActive now).1 }

/-- `rebind`, with whether the new socket is dual-stack; nothing changes here if none could be
bound. -/
def rebind (bound : Option Bool) : MagicSock :=
  match bound with
  | none => sock
  | some sendsIpv6 =>
    { sock with
      sendsIpv6
      paths := KeyedMap.mapVal PeerPaths.invalidateBest sock.paths }

def forgetRelayPath : MagicSock :=
  { sock with relayPaths := sock.relayPaths.remove peer }

end Paths

section Pings

variable (txId : SocketAddr → TxId)

/-- Each address gets a ping with its own transaction id. -/
def pingAll (now : Instant) (swept : PeerPaths × List SocketAddr) : PeerPaths :=
  swept.2.foldl (fun pp addr => pp.notePingSent (txId addr) addr now) swept.1

def emitDiscoPings (peer : DiscoPublicKey) (addrs : List SocketAddr) : List Output :=
  addrs.map fun addr => .ping addr peer (txId addr)

variable (sock : MagicSock) (env : Env)

/-- The pings to the addresses that `choose` takes from the paths of a peer, if it has any. -/
def pingPeer (peer : DiscoPublicKey) (choose : PeerPaths → PeerPaths × List SocketAddr) :
    MagicSock × List Output :=
  match sock.paths.lookup peer with
  | none => (sock, [])
  | some pp =>
    ({ sock with
        paths := sock.paths.insert peer (pingAll (env.txId peer) env.now (choose pp)) },
      emitDiscoPings (env.txId peer) peer (choose pp).2)

def sendDiscoveryPings (peer : DiscoPublicKey) : MagicSock × List Output :=
  sock.pingPeer env peer fun pp =>
    if (pp.bestAddr env.now).isSome then (pp, []) else pp.candidatesToPing env.now

def sendPingsToPeerNow (peer : DiscoPublicKey) : MagicSock × List Output :=
  sock.pingPeer env peer fun pp => pp.forcePingSweep env.now

/-- The confirmed best path is pinged, else the first known candidate. -/
def pingNow (peer : DiscoPublicKey) : MagicSock × List Output :=
  sock.pingPeer env peer fun pp =>
    let active := (pp.noteActive env.now).1
    (active, ((active.bestAddr env.now).or active.candidateAddrs.head?).toList)

def sendDirectPings : MagicSock × List Output :=
  ({ sock with
      paths := KeyedMap.mapWithKey
        (fun peer pp => pingAll (env.txId peer) env.now (pp.pingsDue env.now)) sock.paths },
    sock.paths.entries.flatMap fun entry =>
      emitDiscoPings (env.txId entry.1) entry.1 (entry.2.pingsDue env.now).2)

/-- `send_relay_pings` takes down which pings are due; each is then sent on its own. -/
def sendRelayPings : MagicSock :=
  { sock with
    pendingRelayPings :=
      sock.pendingRelayPings ++ sock.relayPaths.wantingPing env.now relayRefreshLead }

def sendRelayPing (peer : DiscoPublicKey) (addr : SocketAddr) (vni : UInt32) :
    MagicSock × List Output :=
  match sock.relayPaths.get peer with
  | none => (sock, [])
  | some path =>
    let noted := path.notePingSent (env.txId peer addr) addr env.now
    ({ sock with relayPaths := sock.relayPaths.alter peer fun _ => noted.1 },
      if noted.2 then [.relay addr vni (.ping peer (env.txId peer addr))] else [])

/-- One of the pending relayed pings is sent. -/
def resumeRelayPing (n : Nat) : MagicSock × List Output :=
  match sock.pendingRelayPings[n]? with
  | none => (sock, [])
  | some (peer, addr, vni) =>
    { sock with pendingRelayPings := sock.pendingRelayPings.eraseIdx n }.sendRelayPing env peer
      addr vni

end Pings

section Relays

/-- Never zero. -/
def nextHandshakeGeneration (generation : UInt32) : UInt32 :=
  if generation + 1 = 0 then 1 else generation + 1

variable (sock : MagicSock)

def startRelayHandshake (peer : DiscoPublicKey) (endpoint : RelayServerEndpoint) :
    MagicSock × List Output :=
  if !endpoint.isForPair sock.ourDisco peer then (sock, [])
  else
    let addrs := endpoint.addrPorts.filter sock.relayAddrAllowed
    if addrs.isEmpty then (sock, [])
    else
      let generation := nextHandshakeGeneration sock.handshakeGeneration
      match sock.relayPaths.insert peer { endpoint with addrPorts := addrs } generation with
      | none => ({ sock with handshakeGeneration := generation }, [])
      | some relayPaths =>
        ({ sock with handshakeGeneration := generation, relayPaths },
          addrs.map fun addr => .relay addr endpoint.vni
            (.bind endpoint.serverDisco ⟨endpoint.vni, generation, peer, List.replicate 32 0⟩))

def handleRelayChallenge (env : Env) (server : DiscoPublicKey) (challenge : RelayHandshakeCommon)
    (src : SocketAddr) (vni : UInt32) : MagicSock × List Output :=
  if challenge.vni ≠ vni then (sock, [])
  else
    match sock.relayPaths.peerForServer env.visit server vni with
    | none => (sock, [])
    | some peer =>
      match sock.relayPaths.get peer with
      | none => (sock, [])
      | some path =>
        if challenge.remoteKey ≠ peer then (sock, [])
        else if path.state = .answerSent then (sock, [])
        else
          ({ sock with
              relayPaths := sock.relayPaths.alter peer fun path => path.noteAnswered src
              pendingRelayPings := sock.pendingRelayPings ++
                if env.delivered then [(peer, src, vni)] else [] },
            [.relay src vni (.answer server ⟨vni, path.generation, peer, challenge.challenge⟩)])

def handleRelayPing (env : Env) (sender : DiscoPublicKey) (claimedNodeKey : Option NodePublicKey)
    (txId : TxId) (src : SocketAddr) (vni : UInt32) : MagicSock × List Output :=
  match sock.relayPaths.get sender, claimedNodeKey with
  | some path, some claimed =>
    if path.endpoint.vni = vni && env.bound sender (some claimed) then
      ({ sock with
          pendingRelayPings := sock.pendingRelayPings ++
            if env.delivered && path.binding = .handshake src then [(sender, src, vni)]
            else [] },
        [.relay src vni (.pong sender txId src)])
    else (sock, [])
  | _, _ => (sock, [])

/-- What a matched pong attributes: the address that pings go to and the source of the pong, if
the pong is of the address in use. -/
def attributePong (relay : RelayPaths) (sender : DiscoPublicKey) (path : RelayPath)
    (target src : SocketAddr) (now : Instant) (vni : UInt32) : RelayPaths :=
  match path.usable now with
  | none => relay
  | some (addr, _) =>
    if target ≠ addr then relay else relay.setConfirmedAddrs sender [addr, src] vni

def handleRelayPong (now : Instant) (sender : DiscoPublicKey) (txId : TxId) (src : SocketAddr)
    (vni : UInt32) : MagicSock :=
  match sock.relayPaths.get sender with
  | none => sock
  | some path =>
    if path.endpoint.vni = vni && path.acceptsPongFrom src then
      let noted := path.notePong txId now
      let relayPaths := sock.relayPaths.alter sender fun _ => noted.1
      match noted.2 with
      | none => { sock with relayPaths }
      | some (target, _) =>
        { sock with
          relayPaths := attributePong relayPaths sender noted.1 target src now vni }
    else sock

/-- Only what is replied to at its source is held to the filter of relay addresses. -/
def handleRelayDisco (env : Env) (message : Inbound) (src : SocketAddr) (vni : UInt32)
    (control : Bool) : MagicSock × List Output :=
  match message, control with
  | .bindUdpRelayEndpointChallenge sender common, true =>
    if sock.relayReplyTargetAllowed src then
      sock.handleRelayChallenge env sender common src vni
    else (sock, [])
  | .ping sender txId claimedNodeKey, false =>
    if sock.relayReplyTargetAllowed src then
      sock.handleRelayPing env sender claimedNodeKey txId src vni
    else (sock, [])
  | .pong sender txId, false => (sock.handleRelayPong env.now sender txId src vni, [])
  | _, _ => (sock, [])

end Relays

section Receive

variable (sock : MagicSock) (env : Env) (message : Inbound) (src : SocketAddr)

def handleDisco : MagicSock × List Output :=
  match message with
  | .ping sender txId (some claimed) =>
    if env.bound sender (some claimed) then
      (sock.addPeerEndpoints env.now sender [src], [.pong src sender txId])
    else (sock, [])
  | .pong sender txId =>
    ({ sock with paths := sock.paths.alter sender fun pp => (pp.notePong txId env.now).1 }, [])
  | _ => (sock, [])

def demuxDatagram (datagram : Datagram) : MagicSock × List Output :=
  match datagram with
  | .geneveDisco vni control (some message) => sock.handleRelayDisco env message src vni control
  | .geneveWireguard vni payload =>
    match sock.relayPaths.peerForAddr src vni with
    | none => (sock, [])
    | some fromDisco => (sock, [.deliver fromDisco src payload])
  | .wireguard payload =>
    match sock.addrToDisco.lookup src with
    | none => (sock, [])
    | some fromDisco =>
      (sock.noteDataRecvActivity env.now fromDisco src, [.deliver fromDisco src payload])
  | .disco (some message) => sock.handleDisco env message src
  | .geneveDisco _ _ none => (sock, [])
  | .disco none => (sock, [])

/-- A disco frame that a DERP server delivered from a node. -/
def handleRelayedDisco (src : NodePublicKey) : MagicSock × List Output :=
  match message with
  | .ping sender txId _ =>
    (sock, if env.bound sender (some src) then [.derpPong src sender txId] else [])
  | .callMeMaybe sender endpoints =>
    if env.bound sender (some src) then
      (sock.addPeerEndpoints env.now sender
        ((endpoints.take maxInboundCallMeMaybeEndpoints).map socketAddr)).sendPingsToPeerNow
          env sender
    else (sock, [])
  | .callMeMaybeVia sender endpoint =>
    if (env.relayCapable.any fun capable => capable src) && env.bound sender (some src) then
      sock.startRelayHandshake sender endpoint.fromWire
    else (sock, [])
  | _ => (sock, [])

def sendWireguard (peer : DiscoPublicKey) (payload : Bytes) : List Output :=
  match sock.bestAddr env.now peer with
  | some addr => [.wireguard addr payload]
  | none =>
    match sock.relayPath env.now peer with
    | some (addr, vni) => [.relay addr vni (.wireguard payload)]
    | none => []

end Receive

inductive Event
  | receive (src : SocketAddr) (datagram : Datagram)
  | relayed (message : Inbound) (src : NodePublicKey)
  | addPeerEndpoints (peer : DiscoPublicKey) (endpoints : List SocketAddr)
  | setNetmapEndpoints (peer : DiscoPublicKey) (endpoints : List SocketAddr)
  | changedActiveDisco (previous current : DiscoPublicKey)
  | retainPeers (live : List DiscoPublicKey)
  | setSilentDisco (silent : Bool)
  | rebind (bound : Option Bool)
  | notePeerActivity (peer : DiscoPublicKey)
  | sendDirectPings
  | sendRelayPings
  | resumeRelayPing (n : Nat)
  | sendDiscoveryPings (peer : DiscoPublicKey)
  | sendPingsToPeerNow (peer : DiscoPublicKey)
  | pingNow (peer : DiscoPublicKey)
  | sendWireguard (peer : DiscoPublicKey) (payload : Bytes)
  | forgetRelayPath (peer : DiscoPublicKey)
  deriving DecidableEq

variable (sock : MagicSock)

def handle (env : Env) : Event → MagicSock × List Output
  | .receive src datagram => sock.demuxDatagram env src datagram
  | .relayed message src => sock.handleRelayedDisco env message src
  | .addPeerEndpoints peer endpoints => (sock.addPeerEndpoints env.now peer endpoints, [])
  | .setNetmapEndpoints peer endpoints => (sock.setNetmapEndpoints peer endpoints, [])
  | .changedActiveDisco previous current =>
    ((sock.changedActiveDisco env.now previous current).1, [])
  | .retainPeers live => (sock.retainPeers live, [])
  | .setSilentDisco silent => (sock.setSilentDisco silent, [])
  | .rebind bound => (sock.rebind bound, [])
  | .notePeerActivity peer => (sock.notePeerActivity env.now peer, [])
  | .sendDirectPings => sock.sendDirectPings env
  | .sendRelayPings => (sock.sendRelayPings env, [])
  | .resumeRelayPing n => sock.resumeRelayPing env n
  | .sendDiscoveryPings peer => sock.sendDiscoveryPings env peer
  | .sendPingsToPeerNow peer => sock.sendPingsToPeerNow env peer
  | .pingNow peer => sock.pingNow env peer
  | .sendWireguard peer payload => (sock, sock.sendWireguard env peer payload)
  | .forgetRelayPath peer => (sock.forgetRelayPath peer, [])

abbrev Call : Type := Env × Event

def step (call : Call) : MagicSock := (sock.handle call.1 call.2).1

def outputs (call : Call) : List Output := (sock.handle call.1 call.2).2

end MagicSock

/-- Surroundings in which every binding holds and every send goes through. -/
def Env.trusting (now : Instant) (txId : TxId) : Env where
  now
  verify := some fun _ _ => true
  relayCapable := some fun _ => true
  txId := fun _ _ => txId
  visit := Visit.plain _
  delivered := true

def publicAddr (host : UInt8) : SocketAddr := ⟨⟨.v4, [198, 51, 100, host], rfl⟩, 41641⟩

def MagicSock.fresh (dualStack : Bool) : MagicSock := .bind [0] dualStack dualStack

def relayEndpoint (peer server : DiscoPublicKey) (vni : UInt32) (addrs : List SocketAddr) :
    RelayServerEndpoint :=
  ⟨server, ([0], peer), 1, vni, addrs⟩

end TailscaleRs.Magicsock
