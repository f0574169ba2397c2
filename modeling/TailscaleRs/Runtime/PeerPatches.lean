import TailscaleRs.Runtime.PeerDbSound
import TailscaleRs.Tka.Authorize

namespace TailscaleRs.Runtime

open TailscaleRs.Control (Node PeerChange DateTime SocketAddr seconds)
open Tunnel (PeerId)
open Bart (Panic)
open Tka (Authority Crypto)
open OwnedIndex (Owned Replaced keysAt mem_keysAt)

namespace PeerDb

variable {checks : Bool} {db : PeerDb}

def stableKeys (node : Node) : List String := [node.stableId]

/-- Each stored peer is found by its stable id, and nothing else is. -/
def Identified (db : PeerDb) : Prop := Owned db.indexState.stableidIdx stableKeys db.holder

theorem Identified.lookup (identified : db.Identified) {id : PeerId} {node : Node}
    (held : db.peers.lookup id = some node) : db.lookup (.stableId node.stableId) = some id :=
  (identified id _).mp (mem_keysAt.mpr ⟨node, held, List.mem_cons_self⟩)

theorem identified_empty : PeerDb.empty.Identified := by
  intro id stableId
  simp [keysAt, holder, PeerDb.empty, IndexState.empty]

theorem Identified.upsert (identified : db.Identified) (new : Node) :
    TailscaleRs.Yields (fun after => after.1.Identified) (db.upsert checks new) := by
  have numbered : TailscaleRs.Yields (fun given => ∀ other,
      db.indexState.stableidIdx new.stableId = some other → other = given.1)
      (db.idFor checks new.stableId) := by
    unfold idFor
    grind [Safe]
  refine numbered.bind fun (id, _) numbered => ?_
  dsimp only at numbered ⊢
  split
  case isTrue => exact identified
  case isFalse =>
    have indexed : TailscaleRs.Yields
        (fun state => Replaced db.indexState.stableidIdx state.stableidIdx stableKeys db.holder id
          new) (db.indexState.upsert id (db.holder id) new) := by
      refine Safe.skip fun _ => Safe.bind (maybeUpdateIdx_safe ?_).yields fun _ replaced => ?_
      · intro node same
        rw [same]
      · iterate 5 refine Safe.skip fun _ => ?_
        exact replaced
    refine indexed.bind fun _ replaced => ?_
    show Owned _ stableKeys fun other => (db.peers.insert id new).lookup other
    rw [holder_insert]
    exact identified.replaced (by simpa [stableKeys] using numbered) replaced

theorem Identified.take (identified : db.Identified) (id : PeerId) :
    TailscaleRs.Yields (fun after => after.1.Identified) (db.take id) := by
  unfold PeerDb.take
  split
  case h_1 => exact identified
  case h_2 node held =>
    have keys : keysAt stableKeys db.holder id = [node.stableId] := by
      rw [keysAt, holder, held]
      rfl
    have indexed : TailscaleRs.Yields (fun state => Owned state.stableidIdx stableKeys
        (Function.update db.holder id none)) (db.indexState.remove id node) := by
      refine Safe.skip fun _ => Safe.skip fun _ => ?_
      exact keys ▸ identified.retract id
    refine indexed.bind fun _ owned => ?_
    show Owned _ stableKeys fun other => (db.peers.erase id).lookup other
    rw [holder_erase]
    exact owned

theorem Identified.remove (identified : db.Identified) (field : IndexedField) :
    TailscaleRs.Yields (fun after => after.1.Identified) (db.remove field) := by
  unfold PeerDb.remove
  split
  · exact identified
  · exact identified.take _

end PeerDb

/-- What flagging a peer as expired destroys. -/
structure PristinePeer where
  nodeKey : Bytes
  underlayAddresses : List SocketAddr
  derpRegion : Option Nat

structure ExpiryManager where
  previouslyExpired : String → Option PristinePeer
  clockDelta : Int

def flagExpiredPeersEpoch : DateTime := seconds 1673373066

def nodePublicWithBadOldPrefix (key : Bytes) : Bytes := [109, 167, 116, 213, 215, 116] ++ key.drop 6

/-- The peer is rewritten if it has expired, and back again if it has not. -/
def ExpiryManager.flagExpiredPeer (manager : ExpiryManager) (peer : Node) (localNow : DateTime) :
    ExpiryManager × Option Node :=
  let controlNow := localNow + manager.clockDelta
  let remember (pristine : Option PristinePeer) : ExpiryManager :=
    { manager with
      previouslyExpired := Function.update manager.previouslyExpired peer.stableId pristine }
  if controlNow < flagExpiredPeersEpoch then (manager, none)
  else if peer.nodeKeyExpiry.all (controlNow < ·) then
    match manager.previouslyExpired peer.stableId with
    | none => (manager, none)
    | some pristine =>
      if peer.nodeKey ≠ nodePublicWithBadOldPrefix pristine.nodeKey then (remember none, none)
      else (remember none, some { peer with
        nodeKey := pristine.nodeKey
        expired := false
        underlayAddresses :=
          if peer.underlayAddresses = [] then pristine.underlayAddresses
          else peer.underlayAddresses
        derpRegion := peer.derpRegion.or pristine.derpRegion })
  else if peer.expired then (manager, none)
  else (remember (some ⟨peer.nodeKey, peer.underlayAddresses, peer.derpRegion⟩), some { peer with
    expired := true
    underlayAddresses := []
    derpRegion := none
    nodeKey := nodePublicWithBadOldPrefix peer.nodeKey })

/-- The disco keys of a peer by the source they were learned from. -/
structure EndpointDisco where
  control : Option Bytes := none
  tsmp : Option Bytes := none
  tsmpActive : Bool := false

namespace EndpointDisco

variable (disco : EndpointDisco)

def key : Option Bytes := if disco.tsmpActive then disco.tsmp else disco.control

def updateFromControl (key : Option Bytes) : EndpointDisco :=
  { disco with control := key, tsmpActive := disco.tsmpActive || key.isNone }

def inactiveKey : Option Bytes :=
  (if disco.tsmpActive then disco.control else disco.tsmp).filter (some · ≠ disco.key)

def isEmpty : Bool := disco.control.isNone && disco.tsmp.isNone

end EndpointDisco

structure PeerTracker where
  peerDb : PeerDb
  endpointDisco : Bytes → Option EndpointDisco
  expiry : ExpiryManager
  tkaAuthority : Option Authority

namespace PeerTracker

variable (C : Crypto) (checks : Bool) (tracker : PeerTracker) (node : Node) (now : DateTime)

/-- An authority without keys is not enforced. -/
def tkaAdmits : Bool :=
  match tracker.tkaAuthority with
  | none => true
  | some authority => authority.state.keys.isEmpty || !node.keySignature.isEmpty &&
      (authority.nodeKeyAuthorizedWithDetails C node.nodeKey node.keySignature).toBool

def controlDiscoKey (nodeKey : Bytes) : Option Bytes :=
  (tracker.endpointDisco nodeKey).bind EndpointDisco.control

def storeDisco (disco : EndpointDisco) : Except Panic (PeerTracker × PeerId) := do
  let (peerDb, id) ← tracker.peerDb.upsert checks { node with discoKey := disco.key }
  return ({ tracker with peerDb := peerDb.setInactiveDiscoKey id disco.inactiveKey }, id)

def upsertFromControl : Except Panic (PeerTracker × PeerId) :=
  let (expiry, flagged) := tracker.expiry.flagExpiredPeer node now
  let node := flagged.getD node
  -- the all-zero key means that there is none
  let fromControl := node.discoKey.filter (· ≠ List.replicate 32 0)
  let old := (tracker.endpointDisco node.nodeKey).getD {}
  let disco := if old.control ≠ fromControl then old.updateFromControl fromControl else old
  let endpointDisco := Function.update tracker.endpointDisco node.nodeKey
    (if disco.isEmpty then none else some disco)
  { tracker with expiry, endpointDisco }.storeDisco checks node disco

variable (patch : PeerChange)

/-- The disco key is the one that control last gave, not one that was learned since. -/
def patched : Node :=
  { node with
    underlayAddresses := patch.underlayAddresses.getD node.underlayAddresses
    derpRegion := patch.derpRegion.or node.derpRegion
    cap := patch.cap.getD node.cap
    capMap := patch.capMap.getD node.capMap
    discoKey := patch.discoKey.or (tracker.controlDiscoKey node.nodeKey)
    nodeKeyExpiry := patch.nodeKeyExpiry.or node.nodeKeyExpiry
    online := patch.online.or node.online
    lastSeen := patch.lastSeen.or node.lastSeen
    nodeKey := patch.nodeKey.getD node.nodeKey
    expired := patch.nodeKey.isNone && node.expired
    keySignature := patch.keySignature.getD node.keySignature }

/-- One turn of the loop: a peer that the lock does not admit any more is evicted. -/
def applyPatch : PeerTracker × List PeerId × List PeerId → PeerChange →
    Except Panic (PeerTracker × List PeerId × List PeerId)
  | (tracker, upserts, deletions), patch =>
    match tracker.peerDb.get (.nodeId patch.id) with
    | none => .ok (tracker, upserts, deletions)
    | some (_, existing) =>
      let node := tracker.patched existing patch
      if tracker.tkaAdmits C node then do
        let (tracker, id) ← tracker.upsertFromControl checks node now
        return (tracker, id :: upserts, deletions)
      else do
        let (peerDb, removed) ← tracker.peerDb.remove (.nodeId patch.id)
        return ({ tracker with peerDb }, upserts, (removed.map Prod.fst).toList ++ deletions)

def pruneEndpointDisco : PeerTracker :=
  { tracker with
    endpointDisco := fun key =>
      if (tracker.peerDb.lookup (.nodeKey key)).isSome then tracker.endpointDisco key else none }

/-- The peers upserted and those deleted are returned too. -/
def applyPeerPatches (patches : List PeerChange) :
    Except Panic (PeerTracker × List PeerId × List PeerId) := do
  let (tracker, upserts, deletions) ← patches.foldlM (applyPatch C checks now) (tracker, [], [])
  return (tracker.pruneEndpointDisco, upserts, deletions)

/-- The key that control gave for a peer, where the one stored was broken for its expiry. -/
def realKey : Bytes :=
  match tracker.expiry.previouslyExpired node.stableId with
  | none => node.nodeKey
  | some pristine =>
    if node.nodeKey = nodePublicWithBadOldPrefix pristine.nodeKey then pristine.nodeKey
    else node.nodeKey

variable (id : PeerId) (stableId : String)

def Stores : Prop := ∃ node, tracker.peerDb.peers.lookup id = some node ∧ node.stableId = stableId

variable {C checks tracker node now patch id} {old : Node}

theorem maybeUpdateIdx_returns {T K : Type} [DecidableEq T] [DecidableEq K] {old : Option Node}
    {accessor : Node → T} {keys : Node → List K} {idx : OwnedIndex K PeerId} :
    Returns (fun _ => True) (maybeUpdateIdx node old accessor keys idx id) := by
  unfold maybeUpdateIdx maybeUpdate
  split
  · trivial
  · split <;> trivial

theorem flagExpiredPeer_keeps (node : Node) (now : DateTime) {manager : ExpiryManager} :
    let flagged := (manager.flagExpiredPeer node now).2.getD node
    flagged.stableId = node.stableId ∧ node.tailnetAddress = flagged.tailnetAddress ∧
      node.acceptedRoutes = flagged.acceptedRoutes := by
  unfold ExpiryManager.flagExpiredPeer
  grind

theorem upsertFromControl_identified (identified : tracker.peerDb.Identified) :
    Yields (·.1.peerDb.Identified) (tracker.upsertFromControl checks node now) :=
  (PeerDb.Identified.upsert identified _).bind fun _ kept => kept

/-- A patched peer is stored again or removed, and stays or ceases to be found. -/
theorem applyPeerPatches_identified (identified : tracker.peerDb.Identified)
    (patches : List PeerChange) :
    Yields (·.1.peerDb.Identified) (tracker.applyPeerPatches C checks now patches) := by
  have walked : Yields (·.1.peerDb.Identified)
      (patches.foldlM (applyPatch C checks now) (tracker, [], [])) := by
    refine Safe.foldlM _ (fun (tracker, _, _) patch _ identified => ?_) _ identified
    rw [applyPatch]
    split
    · exact identified
    · dsimp only
      split
      · exact (upsertFromControl_identified identified).bind fun _ kept => kept
      · exact (PeerDb.Identified.remove identified _).bind fun _ kept => kept
  exact walked.bind fun _ kept => kept

section Stored

variable {db : PeerDb} (is : tracker.peerDb = db) (held : db.peers.lookup id = some old)
  (known : db.lookup (.stableId node.stableId) = some id)
  (address : old.tailnetAddress = node.tailnetAddress)
  (routes : old.acceptedRoutes = node.acceptedRoutes)
include is held known address routes

/-- Nothing is taken from the tables of addresses and routes. -/
theorem storeDisco_stored (disco : EndpointDisco) :
    ∃ after, tracker.storeDisco checks node disco = .ok (after, id) ∧
      after.Stores id node.stableId := by
  have numbered : db.idFor checks node.stableId = .ok (id, db.nextId) := by
    rw [PeerDb.idFor, show db.indexState.stableidIdx node.stableId = some id from known]
  have indexed : Returns (fun _ => True)
      (db.indexState.upsert id (some old) { node with discoKey := disco.key }) := by
    iterate 5 refine maybeUpdateIdx_returns.bind fun _ _ => ?_
    rw [maybeUpdate, if_pos address, maybeUpdate, if_pos routes]
    trivial
  obtain ⟨state, entered, -⟩ := indexed.returns
  rw [storeDisco, is, PeerDb.upsert, numbered, ok_bind]
  dsimp only
  split
  case isTrue same => exact ⟨_, rfl, _, same, rfl⟩
  case isFalse =>
    rw [held, entered]
    exact ⟨_, rfl, _, AList.lookup_insert _, rfl⟩

theorem upsertFromControl_stored :
    ∃ after, tracker.upsertFromControl checks node now = .ok (after, id) ∧
      after.Stores id node.stableId := by
  obtain ⟨stable, address', routes'⟩ := flagExpiredPeer_keeps node now
  rw [← stable] at known ⊢
  refine storeDisco_stored ?_ held known (address.trans address') (routes.trans routes') _
  exact is

end Stored

/-- A patch without a key or a signature keeps an authorized peer under its id, exactly if the key
that is stored is the real one. -/
theorem patch_keeps_iff (authority : Authority) (enforced : tracker.tkaAuthority = some authority)
    (keyed : authority.state.keys ≠ [])
    (stored : tracker.peerDb.get (.nodeId patch.id) = some (id, node))
    (identified : tracker.peerDb.Identified)
    (authorized : authority.nodeKeyAuthorized C (tracker.realKey node) node.keySignature = .ok ())
    (plain : patch.nodeKey = none ∧ patch.keySignature = none) :
    (∃ after, tracker.applyPeerPatches C checks now [patch] = .ok after ∧
      after.1.Stores id node.stableId) ↔ node.nodeKey = tracker.realKey node := by
  rw [Authority.nodeKeyAuthorized, bind_ok] at authorized
  obtain ⟨details, authorized, -⟩ := authorized
  have signed : node.keySignature ≠ [] := by
    intro empty
    rw [empty] at authorized
    cases authorized
  have admits : tracker.tkaAdmits C (tracker.patched node patch) = true ↔
      node.nodeKey = tracker.realKey node := by
    simp only [tkaAdmits, enforced, patched, plain.1, plain.2, Option.getD_none]
    constructor
    · intro admitted
      cases verdict : authority.nodeKeyAuthorizedWithDetails C node.nodeKey node.keySignature with
      | error e => simp [verdict, Except.toBool, keyed] at admitted
      -- a signature is good for one key only
      | ok _ => exact Authority.nodeKeyAuthorized_unique authorized verdict
    · intro same
      rw [same, authorized]
      simp [signed, Except.toBool]
  have ⟨found, held⟩ : tracker.peerDb.lookup (.nodeId patch.id) = some id ∧
      tracker.peerDb.peers.lookup id = some node := by
    simp [PeerDb.get, Option.bind_eq_some_iff] at stored
    grind
  have known := identified.lookup held
  rw [← admits]
  simp only [applyPeerPatches, List.foldlM_cons, List.foldlM_nil, bind_pure, applyPatch, stored]
  by_cases admitted : tracker.tkaAdmits C (tracker.patched node patch) = true
  · obtain ⟨after, ran, kept⟩ : ∃ after,
        tracker.upsertFromControl checks (tracker.patched node patch) now = .ok (after, id) ∧
          after.Stores id node.stableId :=
      upsertFromControl_stored rfl held known rfl rfl
    rw [if_pos admitted, ran]
    exact iff_of_true ⟨_, rfl, kept⟩ admitted
  · rw [if_neg admitted, PeerDb.remove, found]
    refine iff_of_false ?_ admitted
    rintro ⟨after, ran, new, kept, -⟩
    simp only [PeerDb.take, held] at ran
    cases left : tracker.peerDb.indexState.remove id node with
    | error _ => simp [left] at ran
    | ok state =>
      rw [left] at ran
      cases ran
      simp [pruneEndpointDisco, AList.lookup_erase] at kept

def toyAuthority : Authority := ⟨Tka.toyGenesis.hash .toy, ⟨[(Tka.toyKey 1).toKey]⟩⟩

/-- A signed peer whose key has an expiry. -/
def toyPeer (expiry : Option DateTime) : Node :=
  { Node.numbered 6 with keySignature := Tka.toyRotation.serialize, nodeKeyExpiry := expiry }

/-- The peer is installed, and flagged if it has expired. -/
def toyTracker (expiry : Option DateTime) : PeerTracker :=
  let tracker : PeerTracker := ⟨.empty, fun _ => none, ⟨fun _ => none, 0⟩, some toyAuthority⟩
  match tracker.upsertFromControl true (toyPeer expiry) flagExpiredPeersEpoch with
  | .ok (installed, _) => installed
  | .error _ => tracker

/-- The peer comes online. -/
def toyPatch : PeerChange := ⟨6, none, none, none, none, none, none, none, none, some true, none⟩

theorem toyTracker_identified (expiry : Option DateTime) :
    (toyTracker expiry).peerDb.Identified := by
  unfold toyTracker
  dsimp only
  split
  case h_1 ran => exact (upsertFromControl_identified PeerDb.identified_empty).out ran
  case h_2 => exact PeerDb.identified_empty

theorem patch_keeps_iff_toyPatch : ∃ after,
    (toyTracker none).applyPeerPatches .toy true flagExpiredPeersEpoch [toyPatch] = .ok after ∧
      after.1.Stores ⟨0⟩ (toyPeer none).stableId :=
  (patch_keeps_iff toyAuthority (by decide +kernel) (by decide) (by decide +kernel)
    (toyTracker_identified none) (by decide +kernel) ⟨rfl, rfl⟩).mpr (by decide +kernel)

/-- A patch that says that a flagged peer is online evicts it, although it is authorized. -/
theorem patch_evicts_flagged :
    let tracker := toyTracker (some 0)
    (tracker.peerDb.peers.lookup ⟨0⟩).map tracker.realKey = some (toyPeer none).nodeKey ∧
      toyAuthority.nodeKeyAuthorized .toy (toyPeer none).nodeKey (toyPeer none).keySignature =
        .ok () ∧
      (tracker.applyPeerPatches .toy true flagExpiredPeersEpoch [toyPatch]).toOption.map
        (fun after => (after.1.peerDb.peers.lookup ⟨0⟩, after.2)) = some (none, [], [⟨0⟩]) := by
  decide +kernel

end PeerTracker

end TailscaleRs.Runtime
