import TailscaleRs.Bart.Refinement
import TailscaleRs.Control.Node
import TailscaleRs.Lib.OwnedIndex
import TailscaleRs.Tunnel.Endpoint

namespace TailscaleRs.Runtime

open Net (IpAddr IpNet)
open Bart (BuiltTable Modifier Panic)
open TailscaleRs.Control (Node withoutRootDot asciiLower)
open Tunnel (PeerId shuffle)
open OwnedIndex (retract claim)

/-- A name as the key of an index: in lower case, without the root dot. -/
def canonName (name : List Char) : List Char := asciiLower (withoutRootDot name)

def nameKeys (node : Node) : List (List Char) :=
  canonName node.hostname.toList :: node.fqdnOpt.toList.map canonName

def tailnetNets (node : Node) : List IpNet := [node.tailnetAddress.ipv4, node.tailnetAddress.ipv6]

structure IndexState where
  nkIdx : OwnedIndex Bytes PeerId
  discoIdx : OwnedIndex Bytes PeerId
  inactiveDiscoIdx : OwnedIndex Bytes PeerId
  inactiveDisco : PeerId → Option Bytes
  stableidIdx : OwnedIndex String PeerId
  controlIdx : OwnedIndex Int PeerId
  nameIdx : OwnedIndex (List Char) PeerId
  ipIdx : BuiltTable PeerId
  routeIdx : BuiltTable (List PeerId)

def IndexState.empty : IndexState where
  nkIdx := fun _ => none
  discoIdx := fun _ => none
  inactiveDiscoIdx := fun _ => none
  inactiveDisco := fun _ => none
  stableidIdx := fun _ => none
  controlIdx := fun _ => none
  nameIdx := fun _ => none
  ipIdx := BuiltTable.empty
  routeIdx := BuiltTable.empty

structure PeerDb where
  peers : AList fun _ : PeerId => Node
  indexState : IndexState
  nextId : UInt32

def PeerDb.empty : PeerDb := ⟨∅, IndexState.empty, 0⟩

section Indexes

variable (idx : BuiltTable PeerId)

/-- The prefix is not truncated for the lookup, as it is for the removal. -/
def deleteIpIfOwned (net : IpNet) (id : PeerId) : Except Panic (BuiltTable PeerId) := do
  let owner ← idx.table.lookupPrefixExact net
  return if owner = some id then idx.remove net else idx

def deleteIpsIfOwned (nets : List IpNet) (id : PeerId) : Except Panic (BuiltTable PeerId) :=
  nets.foldlM (fun idx net => deleteIpIfOwned idx net id) idx

def insertIps (nets : List IpNet) (id : PeerId) : BuiltTable PeerId :=
  nets.foldl (fun idx net => idx.insert net id) idx

variable (id : PeerId)

/-- Take a peer from the row of a route, and the route with its last peer. -/
def leaveRoute : Modifier (List PeerId) where
  absent := .noop
  present row :=
    (row.filter (· ≠ id), if (row.filter (· ≠ id)).isEmpty then .remove else .noop)

variable (idx : BuiltTable (List PeerId)) (route : IpNet)

/-- The closure asserts that the row it is given names the peer. -/
def removeRoute : Except Panic (BuiltTable (List PeerId)) :=
  match idx.routes route.trunc with
  | none => .ok (idx.modify route (leaveRoute id))
  | some row => if id ∈ row then .ok (idx.modify route (leaveRoute id)) else .error .assertion

def enterRoute : Modifier (List PeerId) where
  absent := .insert [id]
  present row := (row ++ [id], .noop)

def insertRoute : BuiltTable (List PeerId) :=
  idx.modify route (enterRoute id)

/-- Nothing if what the accessor reads is as before; else the old node is taken from the index,
if there was one, and the new one entered. -/
def maybeUpdate {T Idx : Type} [DecidableEq T] (new : Node) (old : Option Node)
    (accessor : Node → T) (remove insert : Node → Idx → Except Panic Idx) (idx : Idx) :
    Except Panic Idx :=
  match old with
  | none => insert new idx
  | some old =>
    if accessor old = accessor new then .ok idx
    else do
      let idx ← remove old idx
      insert new idx

/-- The indexes that are maps, on the keys of a node. -/
def maybeUpdateIdx {T K : Type} [DecidableEq T] [DecidableEq K] (new : Node) (old : Option Node)
    (accessor : Node → T) (keys : Node → List K) (idx : OwnedIndex K PeerId) (id : PeerId) :
    Except Panic (OwnedIndex K PeerId) :=
  maybeUpdate new old accessor (fun node idx => .ok (retract idx (keys node) id))
    (fun node idx => .ok (claim idx (keys node) id)) idx

end Indexes

namespace IndexState

variable (state : IndexState) (id : PeerId)

def upsert (old : Option Node) (new : Node) : Except Panic IndexState := do
  let nkIdx ← maybeUpdateIdx new old Node.nodeKey (fun node => [node.nodeKey]) state.nkIdx id
  let stableidIdx ←
    maybeUpdateIdx new old Node.stableId (fun node => [node.stableId]) state.stableidIdx id
  let controlIdx ← maybeUpdateIdx new old Node.id (fun node => [node.id]) state.controlIdx id
  let discoIdx ←
    maybeUpdateIdx new old Node.discoKey (fun node => node.discoKey.toList) state.discoIdx id
  let nameIdx ← maybeUpdateIdx new old (fun node => (node.hostname, node.tailnet)) nameKeys
    state.nameIdx id
  let ipIdx ← maybeUpdate new old Node.tailnetAddress
    (fun node idx => deleteIpsIfOwned idx (tailnetNets node) id)
    (fun node idx => .ok (insertIps idx (tailnetNets node) id)) state.ipIdx
  let routeIdx ← maybeUpdate new old Node.acceptedRoutes
    (fun node idx => node.acceptedRoutes.foldlM (removeRoute id) idx)
    (fun node idx => .ok (node.acceptedRoutes.foldl (insertRoute id) idx)) state.routeIdx
  return { state with
    nkIdx, stableidIdx, controlIdx, discoIdx, nameIdx, ipIdx, routeIdx }

def dropInactive : IndexState :=
  { state with
    inactiveDisco := Function.update state.inactiveDisco id none
    inactiveDiscoIdx := retract state.inactiveDiscoIdx (state.inactiveDisco id).toList id }

def remove (node : Node) : Except Panic IndexState := do
  let ipIdx ← deleteIpsIfOwned state.ipIdx (tailnetNets node) id
  let routeIdx ← node.acceptedRoutes.foldlM (removeRoute id) state.routeIdx
  return { state.dropInactive id with
    nkIdx := retract state.nkIdx [node.nodeKey] id
    stableidIdx := retract state.stableidIdx [node.stableId] id
    controlIdx := retract state.controlIdx [node.id] id
    ipIdx
    nameIdx := retract state.nameIdx (nameKeys node) id
    routeIdx
    discoIdx := retract state.discoIdx node.discoKey.toList id }

def setInactiveDiscoKey (key : Option Bytes) : IndexState :=
  { state.dropInactive id with
    inactiveDisco := Function.update (state.dropInactive id).inactiveDisco id key
    inactiveDiscoIdx := claim (state.dropInactive id).inactiveDiscoIdx key.toList id }

end IndexState

inductive IndexedField where
  | peerId (id : PeerId)
  | nodeKey (key : Bytes)
  | discoKey (key : Bytes)
  | stableId (id : String)
  | nodeId (id : Int)
  | name (text : String)
  | ip (addr : IpAddr)

namespace PeerDb

variable (db : PeerDb)

def lookup : IndexedField → Option PeerId
  | .peerId id => if (db.peers.lookup id).isSome then some id else none
  | .nodeKey key => db.indexState.nkIdx key
  | .discoKey key => db.indexState.discoIdx key
  | .stableId id => db.indexState.stableidIdx id
  | .nodeId id => db.indexState.controlIdx id
  | .name text => db.indexState.nameIdx (canonName text.toList)
  | .ip addr => db.indexState.ipIdx.lookup addr

/-- The id of a node: the one its stable id has, or the next one. With overflow checks the last
one is not given out. -/
def idFor (checks : Bool) (db : PeerDb) (stableId : String) : Except Panic (PeerId × UInt32) :=
  match db.indexState.stableidIdx stableId with
  | some id => .ok (id, db.nextId)
  | none =>
    if checks ∧ db.nextId = UInt32.ofNat (2 ^ 32 - 1) then .error .overflow
    else .ok (⟨db.nextId⟩, db.nextId + 1)

def upsert (checks : Bool) (db : PeerDb) (new : Node) : Except Panic (PeerDb × PeerId) := do
  let (id, nextId) ← db.idFor checks new.stableId
  if db.peers.lookup id = some new then return ({ db with nextId }, id)
  else
    let indexState ← db.indexState.upsert id (db.peers.lookup id) new
    return (⟨db.peers.insert id new, indexState, nextId⟩, id)

def take (id : PeerId) : Except Panic (PeerDb × Option (PeerId × Node)) :=
  match db.peers.lookup id with
  | none => .ok (db, none)
  | some node => do
      let indexState ← db.indexState.remove id node
      return ({ db with peers := db.peers.erase id, indexState }, some (id, node))

def remove (field : IndexedField) : Except Panic (PeerDb × Option (PeerId × Node)) :=
  match db.lookup field with
  | none => .ok (db, none)
  | some id => db.take id

def get (field : IndexedField) : Option (PeerId × Node) := do
  let id ← db.lookup field
  let node ← db.peers.lookup id
  return (id, node)

/-- A peer that a row names is stored. -/
def routeMatch (id : PeerId) : Except Panic (PeerId × Node) :=
  match db.peers.lookup id with
  | none => .error .unwrapNone
  | some node => .ok (id, node)

/-- The peers with the closest matching route. -/
def getRoute (route : IpNet) : Except Panic (List (PeerId × Node)) :=
  ((db.indexState.routeIdx.lookupPrefix route).getD []).mapM db.routeMatch

def setInactiveDiscoKey (id : PeerId) (key : Option Bytes) : PeerDb :=
  { db with indexState := db.indexState.setInactiveDiscoKey id key }

variable (keep : PeerId → Node → Bool)

def retainOne (db : PeerDb) (id : PeerId) : Except Panic PeerDb :=
  match db.peers.lookup id with
  | none => .ok db
  | some node =>
    if keep id node then .ok db
    else do
      let (db, _) ← db.take id
      return db

/-- Remove the peers that the predicate does not hold of; the picks are the order in which the
map is walked. -/
def retain (picks : List Nat) : Except Panic PeerDb :=
  (shuffle picks db.peers.keys).foldlM (retainOne keep) db

end PeerDb

inductive DbCall where
  | upsert (node : Node)
  | remove (field : IndexedField)
  | retain (keep : PeerId → Node → Bool) (picks : List Nat)
  | setInactiveDiscoKey (id : PeerId) (key : Option Bytes)

def PeerDb.call (checks : Bool) (db : PeerDb) : DbCall → Except Panic PeerDb
  | .upsert node => do
      let (db, _) ← db.upsert checks node
      return db
  | .remove field => do
      let (db, _) ← db.remove field
      return db
  | .retain keep picks => db.retain keep picks
  | .setInactiveDiscoKey id key => .ok (db.setInactiveDiscoKey id key)

end TailscaleRs.Runtime
