import TailscaleRs.Magicsock.Path

namespace TailscaleRs.Magicsock

open List

open Control (SocketAddr)
open Time (Instant Duration fromSecs)

def maxRelayAddrPorts : Nat := 8
def maxRelayPingsInFlight : Nat := 10
def relayPingTimeout : Duration := fromSecs 5

/-- An order in which a hash map is walked: any, but every entry once. -/
structure Visit (α : Type) where
  order : List α → List α
  perm : ∀ entries, (order entries).Perm entries

def Visit.plain (α : Type) : Visit α := ⟨fun entries => entries, List.Perm.refl⟩

def Visit.front {α : Type} (early : α → Bool) : Visit α where
  order entries := entries.filter early ++ entries.filter (!early ·)
  perm entries := filter_append_perm early entries

/-- `Endpoint::socket_addr`: all addresses on the wire are IPv6; a mapped IPv4 one is
unwrapped. -/
def socketAddr (endpoint : SocketAddr) : SocketAddr :=
  { endpoint with ip := endpoint.ip.toCanonical }

structure RelayServerEndpoint where
  serverDisco : DiscoPublicKey
  clientDisco : DiscoPublicKey × DiscoPublicKey
  lamportId : UInt64
  vni : UInt32
  addrPorts : List SocketAddr
  deriving DecidableEq

namespace RelayServerEndpoint

/-- The announced endpoint with no more than the first relay addresses. -/
def fromWire (wire : RelayServerEndpoint) : RelayServerEndpoint :=
  { wire with addrPorts := (wire.addrPorts.take maxRelayAddrPorts).map socketAddr }

def isForPair (endpoint : RelayServerEndpoint) (us peer : DiscoPublicKey) : Bool :=
  (endpoint.clientDisco.1 = us && endpoint.clientDisco.2 = peer) ||
    (endpoint.clientDisco.1 = peer && endpoint.clientDisco.2 = us)

end RelayServerEndpoint

inductive HandshakeState
  | bindSent
  | answerSent
  deriving DecidableEq

inductive RelayBinding
  | unanswered
  | handshake (addr : SocketAddr)
  | confirmed
  deriving DecidableEq

structure ConfirmedRelay where
  addr : SocketAddr
  latency : Duration
  trustUntil : Instant
  deriving DecidableEq

structure RelayPath where
  endpoint : RelayServerEndpoint
  generation : UInt32
  state : HandshakeState := .bindSent
  inFlight : KeyedMap TxId InFlight := ∅
  confirmed : Option ConfirmedRelay := none
  answeredAddr : Option SocketAddr := none
  deriving DecidableEq

namespace RelayPath

variable (path : RelayPath)

def noteAnswered (addr : SocketAddr) : RelayPath :=
  { path with state := .answerSent, answeredAddr := some addr }

def binding : RelayBinding :=
  match path.confirmed, path.answeredAddr with
  | some _, _ => .confirmed
  | none, some addr => .handshake addr
  | none, none => .unanswered

def acceptsPongFrom (src : SocketAddr) : Bool :=
  match path.binding with
  | .confirmed => true
  | .handshake addr => addr = src
  | .unanswered => false

variable (now : Instant)

def outstanding : KeyedMap TxId InFlight :=
  path.inFlight.retain fun _ inflight => now - inflight.sent < relayPingTimeout

/-- With whether the ping was recorded and may be sent. -/
def notePingSent (txId : TxId) (target : SocketAddr) (now : Instant) : RelayPath × Bool :=
  if maxRelayPingsInFlight ≤ (path.outstanding now).entries.length then
    ({ path with inFlight := path.outstanding now }, false)
  else ({ path with inFlight := (path.outstanding now).insert txId ⟨target, now⟩ }, true)

/-- Whether a confirmed address stands against a pong of another one that is no faster. -/
def keepsIncumbent (confirmed : Option ConfirmedRelay) (target : SocketAddr) (latency : Duration) :
    Bool :=
  confirmed.any fun held => held.addr ≠ target && held.latency ≤ latency

/-- With where the ping went and the latency, if the transaction was in flight. -/
def notePong (txId : TxId) (now : Instant) : RelayPath × Option (SocketAddr × Duration) :=
  match path.inFlight.lookup txId with
  | none => (path, none)
  | some inflight =>
    let latency := now - inflight.sent
    ({ path with
        inFlight := path.inFlight.erase txId
        confirmed :=
          if keepsIncumbent path.confirmed inflight.target latency then path.confirmed
          else some ⟨inflight.target, latency, now + trustDuration⟩ },
      some (inflight.target, latency))

/-- The confirmed address and the VNI while the address is trusted. -/
def usable : Option (SocketAddr × UInt32) :=
  path.confirmed.bind fun held =>
    if now < held.trustUntil then some (held.addr, path.endpoint.vni) else none

def wantsPing (refreshLead : Duration) : Bool :=
  match path.confirmed with
  | some held => held.trustUntil - now ≤ refreshLead
  | none => path.state = .answerSent

/-- Where a refresh ping goes: the confirmed address, else the one whose challenge was answered. -/
def pingTarget : Option SocketAddr :=
  (path.confirmed.map (·.addr)).or path.answeredAddr

/-- The endpoint of a path is on this server and VNI. -/
def OnServer (serverDisco : DiscoPublicKey) (vni : UInt32) : Prop :=
  path.endpoint.serverDisco = serverDisco ∧ path.endpoint.vni = vni

end RelayPath

structure RelayPaths where
  byPeer : KeyedMap DiscoPublicKey RelayPath := ∅
  byAddrVni : KeyedMap (SocketAddr × UInt32) DiscoPublicKey := ∅
  deriving DecidableEq

namespace RelayPaths

variable (relay : RelayPaths) (peer : DiscoPublicKey)

def get : Option RelayPath :=
  relay.byPeer.lookup peer

def alter (f : RelayPath → RelayPath) : RelayPaths :=
  { relay with byPeer := KeyedMap.alter relay.byPeer peer f }

def forgetAddrs : RelayPaths :=
  { relay with byAddrVni := relay.byAddrVni.retain fun _ owner => owner ≠ peer }

/-- Nothing if the endpoint does not supersede the one that is there. -/
def insert (endpoint : RelayServerEndpoint) (generation : UInt32) : Option RelayPaths :=
  if (relay.get peer).any fun existing => endpoint.lamportId ≤ existing.endpoint.lamportId then
    none
  else
    some { relay.forgetAddrs peer with
      byPeer := AList.insert peer { endpoint, generation } relay.byPeer }

/-- The first entry of the walk whose endpoint is on this server and VNI. -/
def peerForServer (visit : Visit (Σ _ : DiscoPublicKey, RelayPath)) (serverDisco : DiscoPublicKey)
    (vni : UInt32) : Option DiscoPublicKey :=
  ((visit.order relay.byPeer.entries).find? fun entry =>
    entry.2.endpoint.serverDisco = serverDisco && entry.2.endpoint.vni = vni).map (·.1)

def peerForAddr (addr : SocketAddr) (vni : UInt32) : Option DiscoPublicKey :=
  relay.byAddrVni.lookup (addr, vni)

def setConfirmedAddrs (addrs : List SocketAddr) (vni : UInt32) : RelayPaths :=
  { relay with
    byAddrVni := addrs.foldl (fun map addr => AList.insert (addr, vni) peer map)
      (relay.forgetAddrs peer).byAddrVni }

def remove : RelayPaths :=
  { relay.forgetAddrs peer with byPeer := relay.byPeer.erase peer }

def wantingPing (now : Instant) (refreshLead : Duration) :
    List (DiscoPublicKey × SocketAddr × UInt32) :=
  (relay.byPeer.entries.filter fun entry => entry.2.wantsPing now refreshLead).filterMap
    fun entry => entry.2.pingTarget.map fun addr => (entry.1, addr, entry.2.endpoint.vni)

section Lookups

variable {relay changed : RelayPaths} {peer other : DiscoPublicKey}

theorem get_alter (f : RelayPath → RelayPath) :
    (relay.alter peer f).get other =
      if other = peer then (relay.get other).map f else relay.get other :=
  KeyedMap.lookup_alter relay.byPeer peer f

theorem get_insert {endpoint : RelayServerEndpoint} {generation : UInt32}
    (inserted : relay.insert peer endpoint generation = some changed) :
    changed.get other =
      if other = peer then some { endpoint, generation } else relay.get other := by
  rw [insert] at inserted
  split at inserted
  case isTrue => cases inserted
  case isFalse =>
    cases inserted
    show AList.lookup other (AList.insert peer _ relay.byPeer) = _
    by_cases is : other = peer
    · subst is
      rw [AList.lookup_insert, if_pos rfl]
    · rw [AList.lookup_insert_ne is, if_neg is]
      rfl

theorem get_remove :
    (relay.remove peer).get other = if other = peer then none else relay.get other := by
  show AList.lookup other (relay.byPeer.erase peer) = _
  by_cases is : other = peer
  · subst is
    rw [AList.lookup_erase, if_pos rfl]
  · rw [AList.lookup_erase_ne is, if_neg is]
    rfl

theorem mem_entries_iff {path : RelayPath} :
    (⟨peer, path⟩ : Σ _ : DiscoPublicKey, RelayPath) ∈ relay.byPeer.entries ↔
      relay.get peer = some path :=
  KeyedMap.mem_entries_iff

end Lookups

section Servers

variable {relay : RelayPaths} {visit : Visit (Σ _ : DiscoPublicKey, RelayPath)}
  {peer serverDisco : DiscoPublicKey} {path : RelayPath} {vni : UInt32}

theorem peerForServer_some (found : relay.peerForServer visit serverDisco vni = some peer) :
    ∃ path, relay.get peer = some path ∧ path.OnServer serverDisco vni := by
  obtain ⟨⟨key, path⟩, first, named⟩ := Option.map_eq_some_iff.mp found
  cases named
  have held := (visit.perm _).mem_iff.mp (mem_of_find?_eq_some first)
  have on := find?_some first
  rw [Bool.and_eq_true, decide_eq_true_eq, decide_eq_true_eq] at on
  exact ⟨path, mem_entries_iff.mp held, on⟩

/-- Of several handshakes on one server and VNI, each is the first of some walk. -/
theorem exists_visit_peerForServer (held : relay.get peer = some path)
    (on : path.OnServer serverDisco vni) :
    relay.peerForServer (Visit.front fun entry => entry.1 = peer) serverDisco vni = some peer := by
  have early : (⟨peer, path⟩ : Σ _ : DiscoPublicKey, RelayPath) ∈
      relay.byPeer.entries.filter fun entry => entry.1 = peer :=
    mem_filter.mpr ⟨mem_entries_iff.mpr held, decide_eq_true rfl⟩
  have found : ((relay.byPeer.entries.filter fun entry => entry.1 = peer).find? fun entry =>
      entry.2.endpoint.serverDisco = serverDisco && entry.2.endpoint.vni = vni).isSome := by
    rw [find?_isSome]
    refine ⟨_, early, ?_⟩
    rw [on.1, on.2, decide_eq_true rfl, decide_eq_true rfl]
    rfl
  obtain ⟨entry, first⟩ := Option.isSome_iff_exists.mp found
  have named : entry.1 = peer :=
    of_decide_eq_true (mem_filter.mp (mem_of_find?_eq_some first)).2
  show ((relay.byPeer.entries.filter _ ++ relay.byPeer.entries.filter _).find? _).map _ = _
  rw [find?_append, first, Option.some_or, Option.map_some, named]

end Servers

end RelayPaths

end TailscaleRs.Magicsock
