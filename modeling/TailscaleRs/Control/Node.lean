import Mathlib.Data.String.Basic
import TailscaleRs.Filter.Rule
import TailscaleRs.Lib.BigEndian

namespace TailscaleRs.Control

open Net (IpAddr IpNet)

/-- `DateTime<Utc>`: nanoseconds since the Unix epoch. -/
abbrev DateTime : Type := Int

def seconds (n : Int) : Int := n * 1000000000

structure SocketAddr where
  ip : IpAddr
  port : UInt16
  deriving DecidableEq

/-- The addresses of a node in the tailnet, one of each family. -/
structure TailnetAddress where
  ipv4 : IpNet
  ipv6 : IpNet
  isV4 : ipv4.addr.family = .v4
  isV6 : ipv6.addr.family = .v6
  deriving DecidableEq

def TailnetAddress.contains (address : TailnetAddress) (addr : IpAddr) : Bool :=
  match addr.family with
  | .v4 => address.ipv4.addr = addr
  | .v6 => address.ipv6.addr = addr

/-- `tailcfg.Node`, the fields that routing, the peer database and the lock read. -/
structure Node where
  id : Int
  stableId : String
  hostname : String
  tailnet : Option String
  tailnetAddress : TailnetAddress
  nodeKey : Bytes
  nodeKeyExpiry : Option DateTime
  expired : Bool
  online : Option Bool
  lastSeen : Option DateTime
  keySignature : Bytes
  discoKey : Option Bytes
  unsignedPeerApiOnly : Bool
  acceptedRoutes : List IpNet
  underlayAddresses : List SocketAddr
  derpRegion : Option Nat
  cap : Nat
  capMap : List (String × List String)
  serviceVips : List (String × List IpAddr)
  deriving DecidableEq

/-- A field-level patch; an absent field is left as it is. -/
structure PeerChange where
  id : Int
  derpRegion : Option Nat
  cap : Option Nat
  capMap : Option (List (String × List String))
  underlayAddresses : Option (List SocketAddr)
  nodeKey : Option Bytes
  keySignature : Option Bytes
  discoKey : Option Bytes
  nodeKeyExpiry : Option DateTime
  online : Option Bool
  lastSeen : Option DateTime
  deriving DecidableEq

inductive PeerUpdate where
  | full (peers : List Node)
  | delta (upsert : List Node) (remove : List Int)

/-- The rules of a netmap: the unnamed ruleset, and the named ones to store or remove. -/
structure FilterUpdate where
  packetFilter : Option Filter.Ruleset
  packetFilters : AList fun _ : String => Option Filter.Ruleset

/-- A response of control, the fields that the peer tracker and the filter updater read. -/
structure StateUpdate where
  node : Option Node
  peerUpdate : Option PeerUpdate
  peerPatches : List PeerChange
  packetfilter : Option FilterUpdate
  onlineChange : List (Int × Bool)
  peerSeenChange : List (Int × Bool)
  controlTime : Option DateTime

/-- `strip_suffix('.')`, the string itself where there is none. -/
def withoutRootDot (name : List Char) : List Char :=
  match name.reverse with
  | '.' :: rest => rest.reverse
  | _ => name

def asciiLower (name : List Char) : List Char := name.map Char.toLower

def isDefaultRoute (route : IpNet) : Bool := route.prefixLen = 0

def cgnat : IpNet := ⟨⟨.v4, [100, 64, 0, 0], rfl⟩, 10, by decide⟩

def chromeosVm : IpNet := ⟨⟨.v4, [100, 115, 92, 0], rfl⟩, 23, by decide⟩

def tailscaleUla : IpNet :=
  ⟨⟨.v6, [0xfd, 0x7a, 0x11, 0x5c, 0xa1, 0xe0, 0, 0, 0, 0, 0, 0, 0, 0, 0, 0], rfl⟩, 48, by decide⟩

/-- The address is of a range that tailnets assign to nodes. -/
def isTailscaleIp (addr : IpAddr) : Bool :=
  match addr.family with
  | .v4 => cgnat.contains addr && !chromeosVm.contains addr
  | .v6 => tailscaleUla.contains addr

namespace Node

variable (node : Node)

def fqdnOpt : Option (List Char) :=
  node.tailnet.map fun tailnet => node.hostname.toList ++ '.' :: tailnet.toList

/-- The name, with or without the tailnet or the root dot, in any case. -/
def matchesName (name : String) : Bool :=
  let name := withoutRootDot name.toList
  let bare :=
    match node.tailnet with
    | none => name
    | some tailnet =>
      let suffix := name.drop (name.length - tailnet.length)
      if asciiLower suffix = asciiLower tailnet.toList then
        let head := name.take (name.length - tailnet.length)
        if head.getLast? = some '.' then head.dropLast else name
      else name
  asciiLower bare = asciiLower node.hostname.toList

/-- Anything but a host route to a tailnet address or to one of the node's own. -/
def isSubnetRoute (route : IpNet) : Bool :=
  if route.prefixLen ≠ 8 * route.addr.family.size then true
  else !(isTailscaleIp route.addr || node.tailnetAddress.contains route.addr)

/-- The routes of a peer that go into the tables: none of an expired peer, a default route of
the exit node only, and subnet routes if they are accepted. -/
def routesToInstall (acceptRoutes : Bool) (exitNode : Option String) : List IpNet :=
  node.acceptedRoutes.filter fun route =>
    if node.expired then false
    else if isDefaultRoute route then exitNode = some node.stableId
    else acceptRoutes || !node.isSubnetRoute route

def hasNodeAttr (cap : String) : Bool := node.capMap.any fun entry => entry.1 = cap

def deltaUpdatesDisabled : Bool := node.hasNodeAttr "disable-delta-updates"

/-- The addresses of the services the node hosts, each once. -/
def serviceAddresses : List IpAddr :=
  (node.serviceVips.flatMap Prod.snd).foldl
    (fun out addr => if addr ∈ out then out else out ++ [addr]) []

end Node

inductive ExitNodeSelector where
  | stableId (id : String)
  | ip (addr : IpAddr)
  | name (text : String)

variable (selector : ExitNodeSelector)

def ExitNodeSelector.selects (node : Node) : Bool :=
  match selector with
  | .stableId id => node.stableId = id
  | .ip addr => node.tailnetAddress.contains addr
  | .name text => node.matchesName text

/-- The least stable id of those selected, whatever the order of the peers. -/
def ExitNodeSelector.resolve (peers : List Node) : Option String :=
  ((peers.filter selector.selects).map Node.stableId).min?

/-- A node that has a key, a name and addresses of its own, all told apart by a number. -/
def Node.numbered (n : UInt8) : Node where
  id := n.toNat
  stableId := String.ofList [Char.ofNat n.toNat]
  hostname := String.ofList [Char.ofNat n.toNat]
  tailnet := none
  tailnetAddress :=
    ⟨⟨⟨.v4, [100, 64, 0, n], rfl⟩, 32, Nat.le_refl 32⟩,
      ⟨⟨.v6, [0xfd, 0x7a, 0x11, 0x5c, 0xa1, 0xe0, 0, 0, 0, 0, 0, 0, 0, 0, 0, n], rfl⟩, 128,
        Nat.le_refl 128⟩, rfl, rfl⟩
  nodeKey := List.replicate 32 n
  nodeKeyExpiry := none
  expired := false
  online := none
  lastSeen := none
  keySignature := []
  discoKey := none
  unsignedPeerApiOnly := false
  acceptedRoutes := []
  underlayAddresses := []
  derpRegion := none
  cap := 0
  capMap := []
  serviceVips := []

end TailscaleRs.Control
