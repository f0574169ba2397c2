import TailscaleRs.Dataplane.DataPlane
import TailscaleRs.Runtime.PeerDb

namespace TailscaleRs.Runtime

open List
open Net (IpNet)
open Bart (BuiltTable)
open TailscaleRs.Control (Node ExitNodeSelector)
open Dataplane (OutboundAction)
open Tunnel (PeerId shuffle shuffle_perm)

abbrev PeerWalk : Type := List ((_ : PeerId) × Node)

/-- The snapshot that both actors receive behind one `Arc`. The order in which its hash map is
walked is as fixed as the map. -/
structure PeerState where
  peers : AList fun _ : PeerId => Node
  order : List Nat

def PeerState.walk (state : PeerState) : PeerWalk := shuffle state.order state.peers.entries

def exitNodeId (selector : Option ExitNodeSelector) (walk : PeerWalk) : Option String :=
  selector.bind fun selector => selector.resolve (walk.map fun peer => peer.2)

section Tables

variable (acceptRoutes : Bool) (selector : Option ExitNodeSelector)

/-- The routes of all peers, each with what is made of the peer it leads to; the last of several
peers with a prefix has it. -/
def installRoutes {α : Type} (action : PeerId → α) (walk : PeerWalk) : BuiltTable α :=
  walk.foldl
    (fun table peer =>
      (peer.2.routesToInstall acceptRoutes (exitNodeId selector walk)).foldl
        (fun table route => table.insert route (action peer.1)) table)
    BuiltTable.empty

variable (walk : PeerWalk)

def overlayOutRoutes : BuiltTable OutboundAction :=
  installRoutes acceptRoutes selector OutboundAction.wireguard walk

def srcFilter : BuiltTable PeerId := installRoutes acceptRoutes selector id walk

/-- The routes of a walk in the order in which they are inserted. -/
def installs : List (IpNet × PeerId) :=
  walk.flatMap fun peer =>
    (peer.2.routesToInstall acceptRoutes (exitNodeId selector walk)).map fun route =>
      (route, peer.1)

def lastOwner (routes : List (IpNet × PeerId)) (net : IpNet) : Option PeerId :=
  (routes.reverse.find? fun route => route.1.trunc = net).map Prod.snd

end Tables

section Owners

variable {routes : List (IpNet × PeerId)} {net : IpNet} {id : PeerId}

theorem lastOwner_append (routes : List (IpNet × PeerId)) (route : IpNet × PeerId) (net : IpNet) :
    lastOwner (routes ++ [route]) net =
      if route.1.trunc = net then some route.2 else lastOwner routes net := by
  rw [lastOwner, reverse_append, reverse_singleton, singleton_append, find?_cons]
  split
  · rename_i is
    rw [if_pos (of_decide_eq_true is)]
    rfl
  · rename_i is
    rw [if_neg (of_decide_eq_false is), lastOwner]

theorem mem_of_lastOwner (found : lastOwner routes net = some id) :
    ∃ route, (route, id) ∈ routes ∧ route.trunc = net := by
  rw [lastOwner, Option.map_eq_some_iff] at found
  obtain ⟨route, found, rfl⟩ := found
  have here := find?_some found
  refine ⟨route.1, ?_, of_decide_eq_true here⟩
  exact mem_reverse.mp (mem_of_find?_eq_some found)

/-- No two peers have one prefix, up to host bits. -/
def Unconflicted (routes : List (IpNet × PeerId)) : Prop :=
  ∀ first ∈ routes, ∀ second ∈ routes, first.1.trunc = second.1.trunc → first.2 = second.2

theorem lastOwner_iff (unconflicted : Unconflicted routes) :
    lastOwner routes net = some id ↔ ∃ route, (route, id) ∈ routes ∧ route.trunc = net := by
  refine ⟨mem_of_lastOwner, ?_⟩
  rintro ⟨route, member, rfl⟩
  cases found : lastOwner routes route.trunc with
  | none =>
    rw [lastOwner, Option.map_eq_none_iff, find?_eq_none] at found
    exact absurd (decide_eq_true rfl) (found (route, id) (mem_reverse.mpr member))
  | some owner =>
    obtain ⟨other, member', same⟩ := mem_of_lastOwner found
    exact congrArg some (unconflicted _ member' _ member same)

theorem insert_routes {α : Type} (action : PeerId → α) (routes : List (IpNet × PeerId))
    (net : IpNet) :
    (routes.foldl (fun table route => table.insert route.1 (action route.2))
      BuiltTable.empty).routes net = (lastOwner routes net).map action := by
  induction routes using reverseRecOn with
  | nil => rfl
  | append_singleton routes route ih =>
    rw [foldl_append, foldl_cons, foldl_nil, BuiltTable.insert_routes, lastOwner_append]
    by_cases is : route.1.trunc = net
    · rw [if_pos is, ← is, Function.update_self]
      rfl
    · rw [if_neg is, Function.update_of_ne (Ne.symm is), ih]

theorem installRoutes_routes {α : Type} (acceptRoutes : Bool) (selector : Option ExitNodeSelector)
    (action : PeerId → α) (walk : PeerWalk) (net : IpNet) :
    (installRoutes acceptRoutes selector action walk).routes net =
      (lastOwner (installs acceptRoutes selector walk) net).map action := by
  rw [← insert_routes, installs, foldl_flatMap]
  simp only [foldl_map]
  rfl

end Owners

section Walks

variable {acceptRoutes : Bool} {selector : Option ExitNodeSelector} {walk other : PeerWalk}

/-- The least of the selected stable ids does not depend on the order of the walk. -/
theorem exitNodeId_perm (perm : walk.Perm other) :
    exitNodeId selector walk = exitNodeId selector other := by
  cases selector with
  | none => rfl
  | some selector =>
    have listed : (((walk.map fun peer => peer.2).filter selector.selects).map
        Node.stableId).Perm
        (((other.map fun peer => peer.2).filter selector.selects).map Node.stableId) :=
      ((perm.map _).filter _).map _
    show min? _ = min? _
    apply Option.ext
    intro id
    rw [min?_eq_some_iff, min?_eq_some_iff]
    simp only [listed.mem_iff]

theorem mem_installs {route : IpNet} {id : PeerId} :
    (route, id) ∈ installs acceptRoutes selector walk ↔
      ∃ node, ⟨id, node⟩ ∈ walk ∧
        route ∈ node.routesToInstall acceptRoutes (exitNodeId selector walk) := by
  rw [installs, mem_flatMap]
  constructor
  · rintro ⟨⟨owner, node⟩, member, listed⟩
    obtain ⟨_, installed, is⟩ := mem_map.mp listed
    cases is
    exact ⟨node, member, installed⟩
  · rintro ⟨node, member, installed⟩
    exact ⟨⟨id, node⟩, member, mem_map_of_mem installed⟩

theorem mem_installs_perm (perm : walk.Perm other) (install : IpNet × PeerId) :
    install ∈ installs acceptRoutes selector walk ↔
      install ∈ installs acceptRoutes selector other := by
  rw [mem_installs, mem_installs, exitNodeId_perm perm]
  simp only [perm.mem_iff]

theorem lastOwner_perm (perm : walk.Perm other)
    (unconflicted : Unconflicted (installs acceptRoutes selector walk)) (net : IpNet) :
    lastOwner (installs acceptRoutes selector walk) net =
      lastOwner (installs acceptRoutes selector other) net := by
  have same := @mem_installs_perm acceptRoutes selector walk other perm
  have unconflicted' : Unconflicted (installs acceptRoutes selector other) :=
    fun first member second member' =>
      unconflicted first ((same _).mpr member) second ((same _).mpr member')
  apply Option.ext
  intro id
  rw [lastOwner_iff unconflicted, lastOwner_iff unconflicted']
  simp only [same]

/-- The owner of a prefix is a peer that is not expired, and of a default route the exit node. -/
theorem owner_installs {net : IpNet} {id : PeerId}
    (found : lastOwner (installs acceptRoutes selector walk) net = some id) :
    ∃ node, ⟨id, node⟩ ∈ walk ∧ node.expired = false ∧
      (net.prefixLen = 0 → exitNodeId selector walk = some node.stableId) := by
  obtain ⟨route, member, rfl⟩ := mem_of_lastOwner found
  obtain ⟨node, listed, installed⟩ := mem_installs.mp member
  have passed := (mem_filter.mp installed).2
  refine ⟨node, listed, ?_, ?_⟩
  · cases expired : node.expired with
    | false => rfl
    | true => simp [expired] at passed
  · intro (default : route.prefixLen = 0)
    cases expired : node.expired with
    | true => simp [expired] at passed
    | false => simpa [expired, Control.isDefaultRoute, default] using passed

end Walks

section Tables

/-- The outbound table sends an address to a peer exactly if the source filter takes the address
as that peer's. -/
def Coupled (out : BuiltTable OutboundAction) (filter : BuiltTable PeerId) : Prop :=
  ∀ ip id, out.lookup ip = some (.wireguard id) ↔ filter.lookup ip = some id

/-- Entries belong to stored peers that are not expired, and default routes to the exit node. -/
def OwnedByLive (peers : AList fun _ : PeerId => Node) (selector : Option ExitNodeSelector)
    (owned : IpNet → PeerId → Prop) : Prop :=
  ∀ net id, owned net id →
    ∃ node, peers.lookup id = some node ∧ node.expired = false ∧
      (net.prefixLen = 0 → exitNodeId selector peers.entries = some node.stableId)

variable {peers : AList fun _ : PeerId => Node} {selector : Option ExitNodeSelector}

theorem ownedByLive_of_walk {acceptRoutes : Bool} {picks : List Nat} {owned : IpNet → PeerId → Prop}
    (entries : ∀ net id, owned net id → lastOwner
      (installs acceptRoutes selector (shuffle picks peers.entries)) net = some id) :
    OwnedByLive peers selector owned := by
  intro net id owns
  have perm := shuffle_perm picks peers.entries
  obtain ⟨node, member, live, exit⟩ := owner_installs (entries net id owns)
  rw [exitNodeId_perm perm] at exit
  exact ⟨node, AList.mem_lookup_iff.mpr (perm.mem_iff.mp member), live, exit⟩

theorem coupled_of_owners {acceptRoutes : Bool} {walk other : PeerWalk}
    (owners : ∀ net, lastOwner (installs acceptRoutes selector walk) net =
      lastOwner (installs acceptRoutes selector other) net) :
    Coupled (overlayOutRoutes acceptRoutes selector walk)
      (srcFilter acceptRoutes selector other) := by
  intro ip owner
  apply BuiltTable.lookup_map
  · exact fun _ _ same => OutboundAction.wireguard.inj same
  · intro net
    rw [overlayOutRoutes, srcFilter, installRoutes_routes, installRoutes_routes, owners,
      Option.map_id_apply]

/-- The tables made of one snapshot are coupled, whichever prefixes peers share; entries belong to
peers that are not expired, and default routes to the exit node. Where no two peers install one
prefix, walks in different orders would do. -/
theorem tables_coupled (state : PeerState) (acceptRoutes : Bool)
    (selector : Option ExitNodeSelector) :
    Coupled (overlayOutRoutes acceptRoutes selector state.walk)
      (srcFilter acceptRoutes selector state.walk) ∧
    OwnedByLive state.peers selector (fun net id =>
      (overlayOutRoutes acceptRoutes selector state.walk).routes net = some (.wireguard id)) ∧
    OwnedByLive state.peers selector (fun net id =>
      (srcFilter acceptRoutes selector state.walk).routes net = some id) ∧
    (Unconflicted (installs acceptRoutes selector state.peers.entries) → ∀ order,
      Coupled (overlayOutRoutes acceptRoutes selector state.walk)
        (srcFilter acceptRoutes selector (PeerState.walk { state with order }))) := by
  refine ⟨coupled_of_owners fun _ => rfl, ?_, ?_, fun unconflicted order => ?_⟩
  · apply ownedByLive_of_walk
    intro net id owns
    rw [overlayOutRoutes, installRoutes_routes, Option.map_eq_some_iff] at owns
    obtain ⟨owner, found, is⟩ := owns
    cases is
    exact found
  · apply ownedByLive_of_walk
    intro net id owns
    rwa [srcFilter, installRoutes_routes, Option.map_id_apply] at owns
  · refine coupled_of_owners fun net => ?_
    rw [PeerState.walk, PeerState.walk,
      ← lastOwner_perm (shuffle_perm state.order state.peers.entries).symm unconflicted,
      lastOwner_perm (shuffle_perm order state.peers.entries).symm unconflicted]

end Tables

/-- Two peers that both install the address of the first. -/
def toyPair (order : List Nat) : PeerState where
  peers := (((∅ : AList fun _ : PeerId => Node).insert ⟨2⟩
    { Node.numbered 2 with acceptedRoutes := [(Node.numbered 1).tailnetAddress.ipv4] }).insert ⟨1⟩
    { Node.numbered 1 with acceptedRoutes := [(Node.numbered 1).tailnetAddress.ipv4] })
  order := order

/-- The peer that the walk visits last has the address in both tables. -/
theorem tables_coupled_toyPair :
    (overlayOutRoutes false none (toyPair [0]).walk).lookup
        (Node.numbered 1).tailnetAddress.ipv4.addr = some (.wireguard ⟨2⟩) ∧
      (srcFilter false none (toyPair [0]).walk).lookup
        (Node.numbered 1).tailnetAddress.ipv4.addr = some ⟨2⟩ := by
  have sent : (overlayOutRoutes false none (toyPair [0]).walk).lookup
      (Node.numbered 1).tailnetAddress.ipv4.addr = some (.wireguard ⟨2⟩) := by
    decide +kernel
  exact ⟨sent, ((tables_coupled (toyPair [0]) false none).1 _ _).mp sent⟩

end TailscaleRs.Runtime
