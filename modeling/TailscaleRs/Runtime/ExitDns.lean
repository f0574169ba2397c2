import TailscaleRs.Lib.Run
import TailscaleRs.Runtime.RouteTables

namespace TailscaleRs.Runtime

open TailscaleRs.Control (Node ExitNodeSelector SocketAddr isDefaultRoute)
open Tunnel (PeerId)

structure ApiNode extends Node where
  isWireguardOnly : Bool
  peerapiPort : Option UInt16
  peerapiDnsProxy : Bool

def peerCanProxyDns : Nat := 26

def ApiNode.peerapiDohAddr (node : ApiNode) : Option SocketAddr :=
  if node.isWireguardOnly || node.expired then none
  else do
    let port ← node.peerapiPort
    if node.peerapiDnsProxy || peerCanProxyDns ≤ node.cap then
      some ⟨node.tailnetAddress.ipv4.addr, port⟩
    else none

/-- The peers of a `PeerState`, in the order in which its map is walked. -/
abbrev ApiPeers : Type := List ((_ : PeerId) × ApiNode)

def ApiPeers.walk (peers : ApiPeers) : PeerWalk := peers.map fun peer => ⟨peer.1, peer.2.toNode⟩

def ApiPeers.named (peers : ApiPeers) (id : String) : Option ApiNode :=
  (peers.map Sigma.snd).find? fun node => node.stableId = id

section Selection

variable (accepts : PeerId → Bool) (selector : Option ExitNodeSelector) (peers : ApiPeers)

/-- `exit_node_satisfied`: some route installed is a default route. The cell of accepted routes is
read anew for every peer. -/
def exitNodeSatisfied : Bool :=
  selector.isNone || peers.any fun peer =>
    (peer.2.routesToInstall (accepts peer.1) (exitNodeId selector peers.walk)).any isDefaultRoute

def activeExitId : Option String :=
  if exitNodeSatisfied accepts selector peers then exitNodeId selector peers.walk else none

/-- A live peer of that id advertises a default route. -/
def ApiPeers.offers (id : String) : Bool :=
  peers.any fun peer => peer.2.stableId = id && !peer.2.expired &&
    peer.2.acceptedRoutes.any isDefaultRoute

/-- The peer that a selector names, if it offers to be an exit node. -/
def ApiPeers.exitNode (selector : Option ExitNodeSelector) : Option String :=
  (exitNodeId selector peers.walk).filter peers.offers

def ApiPeers.dohAddr (id : String) : Option SocketAddr :=
  (peers.named id).bind ApiNode.peerapiDohAddr

/-- What is accepted has no part in it: default routes are of the exit node only. -/
theorem activeExitId_eq (accepts : PeerId → Bool) (selector : Option ExitNodeSelector)
    (peers : ApiPeers) : activeExitId accepts selector peers = peers.exitNode selector := by
  cases selector with
  | none => rfl
  | some selector =>
    rw [activeExitId, exitNodeSatisfied, ApiPeers.exitNode]
    cases exitNodeId (some selector) peers.walk with
    | none => split <;> rfl
    | some id =>
      have offered : (peers.any fun peer =>
          (peer.2.routesToInstall (accepts peer.1) (some id)).any isDefaultRoute) =
            peers.offers id := by
        rw [ApiPeers.offers]
        congr 1
        funext peer
        rw [Bool.eq_iff_iff]
        simp only [Node.routesToInstall, List.any_filter, List.any_eq_true, Bool.and_eq_true]
        grind
      rw [Option.isNone_some, Bool.false_or, offered, Option.filter_some]

end Selection

inductive RouterMessage where
  | peerState (peers : ApiPeers)
  | recomputeRoutes

/-- The fields of `RouteUpdater` that the choice of the exit node reads. -/
structure RouteUpdater where
  lastPeerState : Option ApiPeers
  lastExitNodeId : Option String

namespace RouteUpdater

variable (router : RouteUpdater) (accepts : PeerId → Bool) (selector : Option ExitNodeSelector)

/-- The part of `rebuild_and_publish` about the exit node, with what is published of it. -/
def rebuildAndPublish : RouteUpdater × List (Option ApiNode) :=
  match router.lastPeerState with
  | none => (router, [])
  | some peers =>
    let active := activeExitId accepts selector peers
    if active = router.lastExitNodeId then (router, [])
    else ({ router with lastExitNodeId := active }, [active.bind peers.named])

def handle : RouterMessage → RouteUpdater × List (Option ApiNode)
  | .peerState peers =>
    rebuildAndPublish { router with lastPeerState := some peers } accepts selector
  | .recomputeRoutes => router.rebuildAndPublish accepts selector

def peers : ApiPeers := router.lastPeerState.getD []

end RouteUpdater

def exitDohOf (node : Option ApiNode) : Option SocketAddr := node.bind ApiNode.peerapiDohAddr

/-- The peer tracker, the route updater and the MagicDNS actor, with the messages between them in
the order in which they are handled. -/
structure ExitDns where
  exitNode : Option ExitNodeSelector
  /-- the latest peer state published -/
  peers : ApiPeers
  /-- calls of `set_exit_node` whose `RepublishState` the tracker has still to handle -/
  republishing : Nat
  routerInbox : List RouterMessage
  router : RouteUpdater
  dnsInbox : List (Option ApiNode)
  exitDoh : Option SocketAddr

inductive DnsEvent where
  | peerState (peers : ApiPeers)
  | setExitNode (selector : Option ExitNodeSelector)
  | republish (peers : ApiPeers)
  | recompute
  | route (accepts : PeerId → Bool)
  | activeExitNode

namespace ExitDns

def start (selector : Option ExitNodeSelector) : ExitDns :=
  ⟨selector, [], 0, [], ⟨none, none⟩, [], none⟩

variable (s : ExitDns)

def publish (peers : ApiPeers) : ExitDns :=
  { s with peers, routerInbox := s.routerInbox ++ [.peerState peers] }

def step : DnsEvent → ExitDns
  | .peerState peers => s.publish peers
  | .setExitNode selector => { s with exitNode := selector, republishing := s.republishing + 1 }
  | .republish peers =>
    if s.republishing = 0 then s
    else { s.publish peers with republishing := s.republishing - 1 }
  | .recompute => { s with routerInbox := s.routerInbox ++ [.recomputeRoutes] }
  | .route accepts =>
    match s.routerInbox with
    | [] => s
    | message :: rest =>
      let (router, published) := s.router.handle accepts s.exitNode message
      { s with routerInbox := rest, router, dnsInbox := s.dnsInbox ++ published }
  | .activeExitNode =>
    match s.dnsInbox with
    | [] => s
    | node :: rest => { s with dnsInbox := rest, exitDoh := exitDohOf node }

/-- Everything sent is handled. -/
def Idle : Prop := s.republishing = 0 ∧ s.routerInbox = [] ∧ s.dnsInbox = []

/-- The view delegates to the active exit node of the latest peer state. -/
def Tracks : Prop := s.exitDoh = (s.peers.exitNode s.exitNode).bind s.peers.dohAddr

/-- The peer state that the route updater handles next, if that is its next message. -/
def next : Option ApiPeers :=
  match s.routerInbox with
  | .peerState peers :: _ => some peers
  | _ => none

/-- A peer that stays the active exit node keeps its DoH address. -/
def steady : DnsEvent → Bool
  | .route _ => s.next.all fun peers =>
    peers.exitNode s.exitNode ≠ s.router.lastExitNodeId ||
      s.router.lastExitNodeId.bind peers.dohAddr =
        s.router.lastExitNodeId.bind s.router.peers.dohAddr
  | _ => true

end ExitDns

/-- The peers that the route updater goes by after a message. -/
def RouterMessage.after (peers : ApiPeers) : RouterMessage → ApiPeers
  | .peerState newer => newer
  | .recomputeRoutes => peers

namespace ExitDns

variable {s : ExitDns}

/-- How far the actors are behind one another. -/
structure Following (s : ExitDns) : Prop where
  told : s.dnsInbox.foldl (fun _ => exitDohOf) s.exitDoh =
    s.router.lastExitNodeId.bind s.router.peers.dohAddr
  newest : s.routerInbox.foldl RouterMessage.after s.router.peers = s.peers
  resolved : 0 < s.republishing ∨ (∃ peers, .peerState peers ∈ s.routerInbox) ∨
    s.router.lastExitNodeId = s.router.peers.exitNode s.exitNode

namespace Following

theorem rebuilt {router : RouteUpdater} {peers : ApiPeers} (accepts : PeerId → Bool)
    (held : router.lastPeerState = some peers)
    (told : peers.exitNode s.exitNode = router.lastExitNodeId →
      s.dnsInbox.foldl (fun _ => exitDohOf) s.exitDoh = router.lastExitNodeId.bind peers.dohAddr)
    {rest : List RouterMessage} (newest : rest.foldl RouterMessage.after peers = s.peers) :
    Following { s with
      routerInbox := rest
      router := (router.rebuildAndPublish accepts s.exitNode).1
      dnsInbox := s.dnsInbox ++ (router.rebuildAndPublish accepts s.exitNode).2 } := by
  have known : router.peers = peers := by rw [RouteUpdater.peers, held, Option.getD_some]
  rw [RouteUpdater.rebuildAndPublish, held]
  dsimp only
  rw [activeExitId_eq]
  split
  case isTrue same =>
    rw [← known] at told newest same
    exact ⟨by rw [List.append_nil]; exact told same, newest, .inr (.inr same.symm)⟩
  case isFalse =>
    rw [← known] at newest ⊢
    refine ⟨?_, newest, .inr (.inr rfl)⟩
    rw [List.foldl_concat]
    exact Option.bind_assoc ..

variable (following : Following s)
include following

theorem tracks (idle : s.Idle) : s.Tracks := by
  obtain ⟨asked, routed, viewed⟩ := idle
  have told := following.told
  have newest := following.newest
  have resolved := following.resolved
  simp only [asked, routed, viewed, List.foldl_nil, List.not_mem_nil, Nat.lt_irrefl, exists_false,
    false_or] at told newest resolved
  rw [Tracks, told, resolved, newest]

theorem publish (peers : ApiPeers) (republishing : Nat) :
    Following { s.publish peers with republishing } where
  told := following.told
  newest := List.foldl_concat ..
  resolved := .inr (.inl ⟨peers, List.mem_concat_self ..⟩)

theorem route (accepts : PeerId → Bool) (steady : s.steady (.route accepts) = true) :
    Following (s.step (.route accepts)) := by
  rw [step]
  split
  · exact following
  · rename_i message rest inbox
    obtain ⟨told, newest, resolved⟩ := following
    rw [inbox] at newest resolved
    cases message with
    | peerState peers =>
      rw [ExitDns.steady, next, inbox] at steady
      have held : RouteUpdater.lastPeerState { s.router with lastPeerState := some peers } =
        some peers := rfl
      refine rebuilt accepts held (fun same => ?_) newest
      rw [told]
      exact (by simpa [same] using steady : _ = _).symm
    | recomputeRoutes =>
      rw [RouteUpdater.handle]
      cases held : s.router.lastPeerState with
      | none =>
        rw [RouteUpdater.rebuildAndPublish, held]
        dsimp only
        rw [List.append_nil]
        exact ⟨told, newest, by simpa using resolved⟩
      | some peers =>
        rw [RouteUpdater.peers, held] at told newest
        exact rebuilt accepts held (fun _ => told) newest

theorem step (event : DnsEvent) (steady : s.steady event = true) : Following (s.step event) := by
  cases event with
  | peerState peers => exact following.publish peers s.republishing
  | setExitNode selector =>
    exact ⟨following.told, following.newest, .inl (Nat.succ_pos _)⟩
  | republish peers =>
    rw [ExitDns.step]
    split
    · exact following
    · exact following.publish peers _
  | recompute =>
    obtain ⟨told, newest, resolved⟩ := following
    refine ⟨told, ?_, ?_⟩
    · rw [ExitDns.step, List.foldl_concat, newest]
      rfl
    · simpa [ExitDns.step] using resolved
  | route accepts => exact following.route accepts steady
  | activeExitNode =>
    rw [ExitDns.step]
    split
    · exact following
    · rename_i node rest inbox
      have told := following.told
      rw [inbox] at told
      exact ⟨told, following.newest, following.resolved⟩

end Following

variable (selector : Option ExitNodeSelector)

theorem following_start : (start selector).Following := by
  refine ⟨rfl, rfl, .inr (.inr ?_)⟩
  cases selector <;> rfl

/-- In every run in which a peer that stays the active exit node keeps its DoH address, the view
delegates to the active exit node of the latest peer state whenever all is handled. -/
theorem exit_dns_tracks (events : List DnsEvent)
    (steady : Along step (fun s event => s.steady event = true) (start selector) events)
    (idle : (run step (start selector) events).Idle) :
    (run step (start selector) events).Tracks :=
  (run_invariant step _ Following (fun _ event following steady => following.step event steady)
    (start selector) events (following_start selector) steady).tracks idle

def toyExit (port : UInt16) : ApiPeers :=
  [⟨⟨1⟩, {
    toNode := { Node.numbered 1 with
      acceptedRoutes := [⟨⟨.v4, [0, 0, 0, 0], rfl⟩, 0, Nat.zero_le 32⟩]
      cap := 26 }
    isWireguardOnly := false
    peerapiPort := some port
    peerapiDnsProxy := false }⟩]

/-- The peers are published and handled, and the exit node is selected; then come other peers. -/
def toySelected (peers : ApiPeers) : List DnsEvent :=
  [.peerState (toyExit 1), .route fun _ => false,
    .setExitNode (some (.stableId (Node.numbered 1).stableId)), .republish (toyExit 1),
    .route fun _ => false, .recompute, .activeExitNode, .route fun _ => true,
    .peerState peers, .route fun _ => false, .activeExitNode]

theorem exit_dns_tracks_toySelected :
    (run step (start none) (toySelected (toyExit 1))).Tracks ∧
      (run step (start none) (toySelected (toyExit 1))).exitDoh =
        some ⟨(Node.numbered 1).tailnetAddress.ipv4.addr, 1⟩ :=
  ⟨exit_dns_tracks none _ (by decide +kernel) ⟨rfl, rfl, rfl⟩, by decide +kernel⟩

/-- The exit node moves its peerAPI to another port under the same stable id: the view keeps the
old port. -/
theorem exit_dns_stale :
    (run step (start none) (toySelected (toyExit 2))).Idle ∧
      ¬ (run step (start none) (toySelected (toyExit 2))).Tracks := by
  refine ⟨⟨rfl, rfl, rfl⟩, ?_⟩
  rw [Tracks]
  decide +kernel

end ExitDns
end TailscaleRs.Runtime
