import TailscaleRs.Control.Node
import TailscaleRs.Filter.Verdict

namespace TailscaleRs.Filter

open Net (IpAddr IpNet)
open Bart (Panic)
open Control (Node PeerUpdate StateUpdate FilterUpdate)

/-- The map filter that decides, and the indexed filter it is compared with, after one history
of calls. -/
structure CheckingFilter where
  primary : MapFilter
  checked : BartFilter
  tracks : ∃ live, checked.Tracks primary.stored live

namespace CheckingFilter

def default : CheckingFilter := ⟨∅, BartFilter.empty, _, BartFilter.tracks_empty⟩

variable (filter : CheckingFilter) (op : StorageOp)

theorem onBart_ne_error {panic : Panic} : op.onBart filter.checked ≠ .error panic := by
  obtain ⟨live, tracks⟩ := filter.tracks
  obtain ⟨after, _, ran, _⟩ := op.onBart_tracks tracks
  rw [ran]
  exact nofun

theorem onBart_tracked {after : BartFilter} (ran : op.onBart filter.checked = .ok after) :
    ∃ live, after.Tracks (op.onMap filter.primary).stored live := by
  obtain ⟨live, tracks⟩ := filter.tracks
  obtain ⟨_, live', ran', tracks'⟩ := op.onBart_tracks tracks
  cases ran.symm.trans ran'
  exact ⟨live', tracks'⟩

def call : CheckingFilter :=
  match ran : op.onBart filter.checked with
  | .ok after => ⟨op.onMap filter.primary, after, filter.onBart_tracked op ran⟩
  | .error _ => absurd ran (filter.onBart_ne_error op)

@[simp] theorem primary_call : (filter.call op).primary = op.onMap filter.primary := by
  unfold call
  split
  · rfl
  · rename_i panic ran
    exact absurd ran (filter.onBart_ne_error op)

end CheckingFilter

inductive DynFilter where
  | map (filter : MapFilter)
  | checking (filter : CheckingFilter)
  | shieldsUp (inner : DynFilter) (selfAddrs : List IpAddr)

/-- Shields up, nothing for one of the node's own addresses is accepted. -/
def DynFilter.matches (info : PacketInfo) (caps : List String) : DynFilter → Bool
  | .map filter => filter.matches info caps
  | .checking filter => filter.primary.matches info caps
  | .shieldsUp inner selfAddrs => if info.dst ∈ selfAddrs then false else inner.matches info caps

def defaultRulesetName : String := "base"

/-- Under this name, no ruleset means that none is kept. -/
def clearMapKey : String := "*"

def shouldClearStorage (filters : AList fun _ : String => Option Ruleset) : Bool :=
  filters.lookup clearMapKey = some none

/-- The call for a named ruleset of an update. -/
def namedOp (entry : Σ _ : String, Option Ruleset) : StorageOp :=
  match entry.2 with
  | none => .remove entry.1
  | some ruleset => if ruleset.isEmpty then .remove entry.1 else .insert entry.1 ruleset

def storageOps (update : FilterUpdate) : List StorageOp :=
  (if shouldClearStorage update.packetFilters then [.clear]
    else (update.packetFilter.map (StorageOp.insert defaultRulesetName)).toList) ++
  (update.packetFilters.entries.filter
    fun entry => !(entry.1 = clearMapKey && entry.2.isNone)).map namedOp

def applyUpdate (storage : CheckingFilter) (update : FilterUpdate) : CheckingFilter :=
  (storageOps update).foldl CheckingFilter.call storage

def prefixesOverlap (first second : IpNet) : Bool :=
  first.containsNet second || second.containsNet first

/-- A rule with a destination has a source that meets a route of an unlocked peer. -/
def permitsUnlockedNodes (rules : Ruleset) (unlockedAllowedIps : List IpNet) : Bool :=
  if unlockedAllowedIps.isEmpty then false
  else rules.any fun rule =>
    !rule.dst.isEmpty &&
      rule.src.pfxs.any fun src => unlockedAllowedIps.any fun allowed => prefixesOverlap src allowed

structure Env where
  blockIncoming : Bool
  enableIpv6 : Bool

/-- The routes of the peers that the lock does not cover, by their id. -/
abbrev UnlockedPeers : Type := AList fun _ : Int => List IpNet

/-- The last two fields are watch cells; the filter in the first of them is also the one sent to
the dataplane. -/
structure PacketfilterUpdater where
  pfState : CheckingFilter
  selfAddrs : List IpAddr
  unlockedAllowedIps : UnlockedPeers
  unlockedNodesPermitted : Bool
  liveFilter : Option DynFilter
  invalidFilter : Bool

/-- The addresses at which the node takes packets for itself. -/
def selfNodeAddresses (node : Node) (enableIpv6 : Bool) : List IpAddr :=
  let addrs := [node.tailnetAddress.ipv4.addr] ++
    (if enableIpv6 then [node.tailnetAddress.ipv6.addr] else []) ++
    [⟨.v4, [100, 100, 100, 100], rfl⟩]
  node.serviceAddresses.foldl
    (fun addrs vip =>
      if vip.family = .v6 ∧ ¬enableIpv6 then addrs
      else if vip ∈ addrs then addrs else addrs ++ [vip])
    addrs

def trackPeers (unlocked : UnlockedPeers) : PeerUpdate → UnlockedPeers
  | .full peers =>
    (peers.filter Node.unsignedPeerApiOnly).foldl
      (fun unlocked peer => unlocked.insert peer.id peer.acceptedRoutes) ∅
  | .delta upsert remove =>
    let upserted := upsert.foldl
      (fun unlocked (peer : Node) =>
        if peer.unsignedPeerApiOnly then unlocked.insert peer.id peer.acceptedRoutes
        else unlocked.erase peer.id) unlocked
    remove.foldl (fun unlocked id => unlocked.erase id) upserted

namespace PacketfilterUpdater

def new : PacketfilterUpdater := ⟨CheckingFilter.default, [], ∅, false, none, false⟩

variable (updater : PacketfilterUpdater) (env : Env)

def wrapForPublication (inner : DynFilter) : DynFilter :=
  if env.blockIncoming then .shieldsUp inner updater.selfAddrs else inner

/-- Nothing is accepted under rules that let an unlocked peer in. -/
def publishedFilter : DynFilter :=
  if updater.unlockedNodesPermitted then updater.wrapForPublication env (.map ∅)
  else updater.wrapForPublication env (.checking updater.pfState)

variable (update : StateUpdate)

/-- Two maps with the same entries are equal, whatever the order. -/
def trackUnlockedPeers : PacketfilterUpdater × Bool :=
  let unlocked :=
    match update.peerUpdate with
    | none => updater.unlockedAllowedIps
    | some peerUpdate => trackPeers updater.unlockedAllowedIps peerUpdate
  ({ updater with unlockedAllowedIps := unlocked },
    !decide (unlocked.entries.Perm updater.unlockedAllowedIps.entries))

/-- A stored ruleset lets an unlocked peer in. -/
def permitted : Bool :=
  let allowed := updater.unlockedAllowedIps.entries.flatMap Sigma.snd
  updater.pfState.primary.entries.any fun entry => permitsUnlockedNodes entry.2 allowed

def reassessUnlockedNodes : PacketfilterUpdater × Bool :=
  if updater.permitted = updater.unlockedNodesPermitted then (updater, false)
  else
    ({ updater with
        unlockedNodesPermitted := updater.permitted
        invalidFilter := updater.permitted }, true)

def trackSelfAddrs : PacketfilterUpdater :=
  { updater with
    selfAddrs :=
      match env.blockIncoming, update.node with
      | true, some node => selfNodeAddresses node env.enableIpv6
      | _, _ => updater.selfAddrs }

def applyPacketfilter : PacketfilterUpdater × Bool :=
  ({ updater with
      pfState :=
        match update.packetfilter with
        | some rules => applyUpdate updater.pfState rules
        | none => updater.pfState },
    update.packetfilter.isSome)

/-- `handle(StateUpdate)`: a filter is published if the rules moved or the verdict on the
unlocked peers did. -/
def handle (updater : PacketfilterUpdater) (update : StateUpdate) : PacketfilterUpdater :=
  let tracked := (updater.trackSelfAddrs env update).trackUnlockedPeers update
  let applied := tracked.1.applyPacketfilter update
  if !applied.2 && !tracked.2 then applied.1
  else
    let assessed := applied.1.reassessUnlockedNodes
    if !applied.2 && !assessed.2 then assessed.1
    else { assessed.1 with liveFilter := some (assessed.1.publishedFilter env) }

end PacketfilterUpdater

end TailscaleRs.Filter
