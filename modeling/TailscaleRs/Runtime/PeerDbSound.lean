import TailscaleRs.Lib.Outcome
import TailscaleRs.Runtime.PeerDb

namespace TailscaleRs.Runtime

open Function List AList TailscaleRs.Control
open Net (IpNet)
open Bart (BuiltTable Modifier Panic)
open Tunnel (PeerId)
open OwnedIndex (retract claim keysAt rowAt enter leave Counted)
open OwnedIndex (mem_keysAt)

def routeNets (node : Node) : List IpNet := node.acceptedRoutes.map IpNet.trunc

section Tables

variable {idx : BuiltTable PeerId} {id : PeerId}

theorem deleteIpIfOwned_safe (idx : BuiltTable PeerId) {net : IpNet} (truncated : net.Truncated)
    (id : PeerId) :
    Returns (fun after => after.routes = OwnedIndex.deleteIfOwned idx.routes net id)
      (deleteIpIfOwned idx net id) := by
  rw [deleteIpIfOwned, idx.holds.represents.lookupPrefixExact net truncated, ok_bind,
    OwnedIndex.deleteIfOwned]
  show BuiltTable.routes (if _ then _ else _) = _
  split
  · rw [BuiltTable.remove_routes, truncated]
  · rfl

theorem deleteIpsIfOwned_safe (idx : BuiltTable PeerId) (nets : List IpNet)
    (truncated : ∀ net ∈ nets, net.Truncated) (id : PeerId) :
    Returns (fun after => after.routes = retract idx.routes nets id)
      (deleteIpsIfOwned idx nets id) := by
  induction nets generalizing idx with
  | nil => exact rfl
  | cons net rest ih =>
    apply (deleteIpIfOwned_safe idx (truncated net mem_cons_self) id).bind
    intro mid is
    rw [retract, foldl_cons, ← is]
    exact ih mid fun other member => truncated other (mem_cons_of_mem net member)

theorem insertIps_routes (idx : BuiltTable PeerId) (nets : List IpNet)
    (truncated : ∀ net ∈ nets, net.Truncated) (id : PeerId) :
    (insertIps idx nets id).routes = claim idx.routes nets id := by
  induction nets generalizing idx with
  | nil => rfl
  | cons net rest ih =>
    have here : net.trunc = net := truncated net mem_cons_self
    rw [insertIps, foldl_cons, ← insertIps,
      ih _ fun other member => truncated other (mem_cons_of_mem net member),
      BuiltTable.insert_routes, here]
    rfl

variable (idx : BuiltTable (List PeerId)) (route : IpNet)

theorem modify_leaveRoute {id : PeerId} :
    (idx.modify route (leaveRoute id)).routes = leave id idx.routes route.trunc := by
  rw [BuiltTable.modify_routes, leave, rowAt]
  cases idx.routes route.trunc with
  | none => rfl
  | some row =>
    simp only [Modifier.effect, leaveRoute, Option.getD_some]
    generalize row.filter (· ≠ id) = rest
    cases rest <;> rfl

theorem insertRoutes_routes (routes : List IpNet) (id : PeerId) :
    (routes.foldl (insertRoute id) idx).routes =
      (routes.map IpNet.trunc).foldl (enter id) idx.routes := by
  induction routes generalizing idx with
  | nil => rfl
  | cons route rest ih =>
    rw [foldl_cons, ih, map_cons, foldl_cons, insertRoute, BuiltTable.modify_routes, enter, rowAt]
    cases idx.routes route.trunc <;> rfl

/-- The rows of the routes to be removed name the peer, and those of a route that is to be
removed twice name no other. -/
structure Removable (rows : OwnedIndex IpNet (List PeerId)) (id : PeerId) (nets : List IpNet) :
    Prop where
  named : ∀ net ∈ nets, rows net = none ∨ id ∈ rowAt rows net
  alone : ∀ net, 2 ≤ nets.count net → ∀ other ∈ rowAt rows net, other = id

theorem Removable.leave {rows : OwnedIndex IpNet (List PeerId)} {net : IpNet} {rest : List IpNet}
    (removable : Removable rows id (net :: rest)) :
    Removable (leave id rows net) id rest where
  named := by
    intro other member
    by_cases is : other = net
    · subst is
      have twice : 2 ≤ (other :: rest).count other := by
        rw [count_cons_self]
        have := count_pos_iff.mpr member
        omega
      have emptied : (rowAt rows other).filter (· ≠ id) = [] := by
        rw [filter_eq_nil_iff]
        intro owner within
        simp [removable.alone other twice owner within]
      left
      rw [OwnedIndex.leave, emptied, update_self]
      rfl
    · rw [OwnedIndex.leave, update_of_ne is, rowAt, update_of_ne is, ← rowAt]
      exact removable.named other (mem_cons_of_mem net member)
  alone := by
    intro other twice owner within
    have more : 2 ≤ (net :: rest).count other :=
      Nat.le_trans twice count_le_count_cons
    apply removable.alone other more owner
    rw [OwnedIndex.rowAt_leave] at within
    split at within
    · rename_i is
      rw [is]
      exact mem_of_mem_filter within
    · exact within

theorem removeRoute_safe
    (named : idx.routes route.trunc = none ∨ id ∈ rowAt idx.routes route.trunc) :
    Returns (fun after => after.routes = leave id idx.routes route.trunc)
      (removeRoute id idx route) := by
  rw [removeRoute]
  cases row : idx.routes route.trunc with
  | none => exact modify_leaveRoute idx route
  | some ids =>
    rw [rowAt, row] at named
    have member : id ∈ ids := named.resolve_left (by simp)
    dsimp only
    rw [if_pos member]
    exact modify_leaveRoute idx route

theorem removeRoutes_safe (routes : List IpNet)
    (removable : Removable idx.routes id (routes.map IpNet.trunc)) :
    Returns (fun after => after.routes = (routes.map IpNet.trunc).foldl (leave id) idx.routes)
      (routes.foldlM (removeRoute id) idx) := by
  induction routes generalizing idx with
  | nil => exact rfl
  | cons route rest ih =>
    apply (removeRoute_safe idx route (removable.named _ mem_cons_self)).bind
    intro mid is
    rw [map_cons, foldl_cons, ← is]
    apply ih mid
    rw [is]
    exact removable.leave

end Tables

/-- The rule of `maybe_update`: what is true of the index with the old node, without it and with
the new one. -/
theorem maybeUpdate_safe {T Idx : Type} [DecidableEq T] {new : Node} {old : Option Node}
    {accessor : Node → T} {remove insert : Node → Idx → Except Panic Idx} {idx : Idx}
    {after : Idx → Prop} (mid : Idx → Prop) (absent : old = none → mid idx)
    (removes : ∀ node, old = some node → Returns mid (remove node idx))
    (inserts : ∀ between, mid between → Returns after (insert new between))
    (keeps : ∀ node, old = some node → accessor node = accessor new → after idx) :
    Returns after (maybeUpdate new old accessor remove insert idx) := by
  cases old with
  | none => exact inserts idx (absent rfl)
  | some node =>
    rw [maybeUpdate]
    split
    · rename_i same
      exact keeps node rfl same
    · exact (removes node rfl).bind inserts

section Holders

variable {holder : PeerId → Option Node} {id : PeerId} {old : Option Node} {new : Node}

theorem keysAt_of_eq {K : Type} {keys : Node → List K} {node : Node}
    (held : holder id = some node) :
    keysAt keys holder id = keys node := by
  rw [keysAt, held]
  rfl

theorem maybeUpdateIdx_safe {T K : Type} [DecidableEq T] [DecidableEq K] {accessor : Node → T}
    {keys : Node → List K} {idx : OwnedIndex K PeerId} {id : PeerId} {new : Node}
    (agree : ∀ node, accessor node = accessor new → keys node = keys new) :
    Returns (fun after => OwnedIndex.Replaced idx after keys holder id new)
      (maybeUpdateIdx new (holder id) accessor keys idx id) := by
  apply maybeUpdate_safe fun mid => mid = retract idx (keysAt keys holder id) id
  · intro absent
    rw [keysAt, absent]
    rfl
  · intro node held
    rw [keysAt_of_eq held]
    rfl
  · rintro _ rfl
    exact .inr rfl
  · exact fun node held same => .inl ⟨rfl, node, held, agree node same⟩

theorem maybeUpdateIps_safe {idx : BuiltTable PeerId} (id : PeerId)
    (old : ∀ node, holder id = some node → ∀ net ∈ tailnetNets node, net.Truncated)
    (truncated : ∀ net ∈ tailnetNets new, net.Truncated) :
    Returns (fun after => OwnedIndex.Replaced idx.routes after.routes tailnetNets holder id new)
      (maybeUpdate new (holder id) Node.tailnetAddress
        (fun node idx => deleteIpsIfOwned idx (tailnetNets node) id)
        (fun node idx => .ok (insertIps idx (tailnetNets node) id)) idx) := by
  apply maybeUpdate_safe fun mid : BuiltTable PeerId =>
    mid.routes = retract idx.routes (keysAt tailnetNets holder id) id
  · intro absent
    rw [keysAt, absent]
    rfl
  · intro node held
    rw [keysAt_of_eq held]
    exact deleteIpsIfOwned_safe idx _ (old node held) id
  · intro mid is
    refine .inr ?_
    rw [insertIps_routes mid _ truncated id, is]
  · intro node held same
    exact .inl ⟨rfl, node, held, by rw [tailnetNets, tailnetNets, same]⟩

end Holders

namespace IndexState

/-- A property of each index that has one owner for a key, with the keys of a node. -/
@[mk_iff] structure Each (state : IndexState)
    (P : (K : Type) → OwnedIndex K PeerId → (Node → List K) → Prop) : Prop where
  nk : P Bytes state.nkIdx fun node => [node.nodeKey]
  disco : P Bytes state.discoIdx fun node => node.discoKey.toList
  stableid : P String state.stableidIdx fun node => [node.stableId]
  control : P Int state.controlIdx fun node => [node.id]
  name : P (List Char) state.nameIdx nameKeys
  ip : P IpNet state.ipIdx.routes tailnetNets

/-- What becomes of each of these indexes. -/
structure Becomes (before after : IndexState)
    (R : (K : Type) → [DecidableEq K] → OwnedIndex K PeerId → OwnedIndex K PeerId →
      (Node → List K) → Prop) : Prop where
  nk : R Bytes before.nkIdx after.nkIdx fun node => [node.nodeKey]
  disco : R Bytes before.discoIdx after.discoIdx fun node => node.discoKey.toList
  stableid : R String before.stableidIdx after.stableidIdx fun node => [node.stableId]
  control : R Int before.controlIdx after.controlIdx fun node => [node.id]
  name : R (List Char) before.nameIdx after.nameIdx nameKeys
  ip : R IpNet before.ipIdx.routes after.ipIdx.routes tailnetNets

variable {P Q : (K : Type) → OwnedIndex K PeerId → (Node → List K) → Prop}

theorem Each.becomes {before after : IndexState}
    {R : (K : Type) → [DecidableEq K] → OwnedIndex K PeerId → OwnedIndex K PeerId →
      (Node → List K) → Prop}
    (each : before.Each P) (becomes : before.Becomes after R)
    (rule : ∀ (K : Type) [DecidableEq K] (idx idx' : OwnedIndex K PeerId) (keys : Node → List K),
      P K idx keys → R K idx idx' keys → Q K idx' keys) : after.Each Q where
  nk := rule _ _ _ _ each.nk becomes.nk
  disco := rule _ _ _ _ each.disco becomes.disco
  stableid := rule _ _ _ _ each.stableid becomes.stableid
  control := rule _ _ _ _ each.control becomes.control
  name := rule _ _ _ _ each.name becomes.name
  ip := rule _ _ _ _ each.ip becomes.ip

theorem Each.and {state : IndexState} (first : state.Each P) (second : state.Each Q) :
    state.Each fun K idx keys => P K idx keys ∧ Q K idx keys where
  nk := ⟨first.nk, second.nk⟩
  disco := ⟨first.disco, second.disco⟩
  stableid := ⟨first.stableid, second.stableid⟩
  control := ⟨first.control, second.control⟩
  name := ⟨first.name, second.name⟩
  ip := ⟨first.ip, second.ip⟩

/-- Every entry of every index names a stored peer that carries the value, and the entries of a
route name a peer as often as it lists the route. -/
structure Sound (state : IndexState) (holder : PeerId → Option Node) : Prop where
  each : state.Each fun _ idx keys => OwnedIndex.Sound idx keys holder
  route : Counted state.routeIdx.routes routeNets holder
  inactive : OwnedIndex.Sound state.inactiveDiscoIdx (fun key => [key]) state.inactiveDisco
  registered : ∀ id, state.inactiveDisco id ≠ none → holder id ≠ none

end IndexState

/-- The tailnet addresses have no host bits. -/
def Addressed (holder : PeerId → Option Node) : Prop :=
  ∀ id node, holder id = some node → ∀ net ∈ tailnetNets node, net.Truncated

/-- No peer lists a route twice that another lists too. -/
def RepeatsUnshared (holder : PeerId → Option Node) : Prop :=
  ∀ id net, 2 ≤ (keysAt routeNets holder id).count net →
    ∀ other, net ∈ keysAt routeNets holder other → other = id

namespace IndexState

variable {state : IndexState} {holder : PeerId → Option Node} {id : PeerId} {node new : Node}

variable (sound : state.Sound holder)
include sound

variable (unshared : RepeatsUnshared holder)
include unshared

theorem Sound.removable (held : holder id = some node) :
    Removable state.routeIdx.routes id (node.acceptedRoutes.map IpNet.trunc) where
  named := by
    intro net member
    right
    rw [sound.route.mem_row, keysAt_of_eq held]
    exact member
  alone := by
    intro net twice other within
    rw [sound.route.mem_row] at within
    refine unshared id net ?_ other within
    rw [keysAt_of_eq held]
    exact twice

theorem Sound.removeRoutes (held : holder id = some node) :
    Returns (fun after => Counted after.routes routeNets (update holder id none))
      (node.acceptedRoutes.foldlM (removeRoute id) state.routeIdx) := by
  have left := sound.route.leaves id
  rw [keysAt_of_eq held] at left
  refine (removeRoutes_safe state.routeIdx _ (sound.removable unshared held)).mono ?_
  intro after is
  rw [is]
  exact left

theorem Sound.maybeUpdateRoutes (id : PeerId) (new : Node) :
    Returns (fun after => Counted after.routes routeNets (update holder id (some new)))
      (maybeUpdate new (holder id) Node.acceptedRoutes
        (fun node idx => node.acceptedRoutes.foldlM (removeRoute id) idx)
        (fun node idx => .ok (node.acceptedRoutes.foldl (insertRoute id) idx))
        state.routeIdx) := by
  apply maybeUpdate_safe fun mid : BuiltTable (List PeerId) =>
    Counted mid.routes routeNets (update holder id none)
  · intro absent
    rw [← absent, update_eq_self]
    exact sound.route
  · exact fun node held => sound.removeRoutes unshared held
  · intro mid between
    have entered := between.enters new
    rw [routeNets, ← insertRoutes_routes mid _ id] at entered
    exact entered
  · intro node held same net owner
    rw [OwnedIndex.keysAt_replace held (by rw [routeNets, routeNets, same])]
    exact sound.route net owner

omit unshared

theorem Sound.dropInactive (id : PeerId) :
    OwnedIndex.Sound (state.dropInactive id).inactiveDiscoIdx (fun key => [key])
      (update state.inactiveDisco id none) := by
  have left := sound.inactive.retract id
  have keys : keysAt (fun key => [key]) state.inactiveDisco id =
      (state.inactiveDisco id).toList := by
    rw [keysAt]
    cases state.inactiveDisco id <;> rfl
  rw [keys] at left
  exact left

/-- The effect of an upsert on the indexes. -/
theorem upsert_safe (addressed : Addressed holder) (unshared : RepeatsUnshared holder) (id : PeerId)
    (truncated : ∀ net ∈ tailnetNets new, net.Truncated) :
    Returns (fun after => after.Sound (update holder id (some new)) ∧
        state.Becomes after fun _ _ idx idx' keys =>
          OwnedIndex.Replaced idx idx' keys holder id new)
      (state.upsert id (holder id) new) := by
  apply (maybeUpdateIdx_safe fun node same => by rw [same]).bind
  intro nkIdx nk
  apply (maybeUpdateIdx_safe fun node same => by rw [same]).bind
  intro stableidIdx stableid
  apply (maybeUpdateIdx_safe fun node same => by rw [same]).bind
  intro controlIdx control
  apply (maybeUpdateIdx_safe fun node same => by rw [same]).bind
  intro discoIdx disco
  apply (maybeUpdateIdx_safe fun node same => by
    obtain ⟨hostname, tailnet⟩ := Prod.mk.inj same
    rw [nameKeys, nameKeys, Node.fqdnOpt, Node.fqdnOpt, hostname, tailnet]).bind
  intro nameIdx name
  apply (maybeUpdateIps_safe id (addressed id) truncated).bind
  intro ipIdx ip
  apply (sound.maybeUpdateRoutes unshared id new).bind
  intro routeIdx route
  refine (and_iff_right_of_imp fun becomes => ⟨?_, route, sound.inactive, ?_⟩).mpr
    ⟨nk, disco, stableid, control, name, ip⟩
  · exact sound.each.becomes becomes fun _ _ _ _ _ entries replaced => entries.replaced replaced
  · intro owner known
    by_cases is : owner = id
    · subst is
      simp
    · rw [update_of_ne is]
      exact sound.registered owner known

theorem remove_safe (addressed : Addressed holder) (unshared : RepeatsUnshared holder)
    (held : holder id = some node) :
    Returns (fun after => after.Sound (update holder id none) ∧
        state.Becomes after fun _ _ idx idx' keys =>
          idx' = retract idx (keysAt keys holder id) id)
      (state.remove id node) := by
  apply (deleteIpsIfOwned_safe state.ipIdx _ (addressed id node held) id).bind
  intro ipIdx ip
  apply (sound.removeRoutes unshared held).bind
  intro routeIdx route
  refine (and_iff_right_of_imp fun becomes => ⟨?_, route, sound.dropInactive id, ?_⟩).mpr ?_
  · constructor <;> rw [keysAt_of_eq held]
    exact ip
  · refine sound.each.becomes becomes ?_
    rintro K _ idx _ keys entries rfl
    exact entries.retract id
  · intro owner (known : update state.inactiveDisco id none owner ≠ none)
    by_cases is : owner = id
    · subst is
      exact absurd (update_self owner none state.inactiveDisco) known
    · rw [update_of_ne is] at known ⊢
      exact sound.registered owner known

omit sound

theorem setInactiveDiscoKey_inactiveDisco (state : IndexState) (id : PeerId) (key : Option Bytes) :
    (state.setInactiveDiscoKey id key).inactiveDisco = update state.inactiveDisco id key :=
  update_idem _ _ _

theorem setInactiveDiscoKey_sound (sound : state.Sound holder) (id : PeerId) (key : Option Bytes)
    (stored : key ≠ none → holder id ≠ none) : (state.setInactiveDiscoKey id key).Sound holder where
  each := ⟨sound.each.nk, sound.each.disco, sound.each.stableid, sound.each.control,
    sound.each.name, sound.each.ip⟩
  route := sound.route
  inactive := by
    have dropped := sound.dropInactive id
    rw [setInactiveDiscoKey_inactiveDisco]
    cases key with
    | none => exact dropped
    | some key => exact dropped.claim key
  registered := by
    intro owner known
    rw [setInactiveDiscoKey_inactiveDisco] at known
    by_cases is : owner = id
    · subst is
      rw [update_self] at known
      exact stored known
    · rw [update_of_ne is] at known
      exact sound.registered owner known

end IndexState

namespace PeerDb

variable {db : PeerDb} {checks : Bool}

def holder (db : PeerDb) (id : PeerId) : Option Node := db.peers.lookup id

variable {peers : AList fun _ : PeerId => Node}

theorem holder_insert (id : PeerId) (node : Node) :
    (fun other => (peers.insert id node).lookup other) =
      update (fun other => peers.lookup other) id (some node) := by
  funext other
  by_cases is : other = id
  · subst is
    rw [lookup_insert, update_self]
  · rw [lookup_insert_ne is, update_of_ne is]

theorem holder_erase (id : PeerId) :
    (fun other => (peers.erase id).lookup other) =
      update (fun other => peers.lookup other) id none := by
  funext other
  by_cases is : other = id
  · subst is
    rw [lookup_erase, update_self]
  · rw [lookup_erase_ne is, update_of_ne is]

structure Consistent (db : PeerDb) : Prop where
  sound : db.indexState.Sound db.holder
  addressed : Addressed db.holder

theorem consistent_empty : empty.Consistent where
  sound.each :=
    ⟨OwnedIndex.sound_empty, OwnedIndex.sound_empty, OwnedIndex.sound_empty,
      OwnedIndex.sound_empty, OwnedIndex.sound_empty, OwnedIndex.sound_empty⟩
  sound.route := fun _ _ => rfl
  sound.inactive := OwnedIndex.sound_empty
  sound.registered := fun _ known => absurd rfl known
  addressed := by
    intro id node held
    cases held

/-- No stored peer lists a route twice that another lists too. -/
def RoutesApart (db : PeerDb) : Prop :=
  ∀ first ∈ db.peers.entries, ∀ other ∈ db.peers.entries, ∀ net ∈ routeNets other.2,
    2 ≤ (routeNets first.2).count net → other.1 = first.1

instance routesApartDecidable (db : PeerDb) : Decidable db.RoutesApart :=
  inferInstanceAs (Decidable (∀ first ∈ db.peers.entries, ∀ other ∈ db.peers.entries,
    ∀ net ∈ routeNets other.2, _ → _))

theorem RoutesApart.holder (apart : db.RoutesApart) : RepeatsUnshared db.holder := by
  intro id net twice other member
  have listed : net ∈ keysAt routeNets db.holder id := by
    rw [← count_pos_iff]
    omega
  obtain ⟨node, held, _⟩ := mem_keysAt.mp listed
  obtain ⟨otherNode, held', member⟩ := mem_keysAt.mp member
  rw [keysAt_of_eq held] at twice
  exact apart ⟨id, node⟩ (mem_lookup_iff.mp held) ⟨other, otherNode⟩
    (mem_lookup_iff.mp held') net member twice

/-- What is asked of a call: no stored peer lists a route twice that another lists too, a new
node's tailnet address has no host bits and there is an id for it, and another disco key is
registered of a stored peer. -/
def Regular (checks : Bool) (db : PeerDb) : DbCall → Prop
  | .upsert node => db.RoutesApart ∧ (∀ net ∈ tailnetNets node, net.Truncated) ∧
      (checks = true → db.lookup (.stableId node.stableId) = none →
        db.nextId ≠ UInt32.ofNat (2 ^ 32 - 1))
  | .remove _ => db.RoutesApart
  | .retain _ _ => db.RoutesApart
  | .setInactiveDiscoKey id key => key ≠ none → db.holder id ≠ none

instance regularDecidable (checks : Bool) (db : PeerDb) (call : DbCall) :
    Decidable (db.Regular checks call) :=
  match call with
  | .upsert node => inferInstanceAs (Decidable (_ ∧ (∀ net ∈ tailnetNets node, _) ∧ (_ → _ → _)))
  | .remove _ => inferInstanceAs (Decidable db.RoutesApart)
  | .retain _ _ => inferInstanceAs (Decidable db.RoutesApart)
  | .setInactiveDiscoKey _ _ => inferInstanceAs (Decidable (_ → _))

/-- The id that an upsert stores a node under. -/
def idOf (db : PeerDb) (node : Node) : PeerId :=
  (db.lookup (.stableId node.stableId)).getD ⟨db.nextId⟩

theorem idFor_safe (node : Node)
    (available : checks = true → db.lookup (.stableId node.stableId) = none →
      db.nextId ≠ UInt32.ofNat (2 ^ 32 - 1)) :
    Returns (fun id => id.1 = db.idOf node) (db.idFor checks node.stableId) := by
  rw [idFor, idOf, lookup]
  cases known : db.indexState.stableidIdx node.stableId with
  | some id => exact rfl
  | none =>
    have left : ¬ (checks = true ∧ db.nextId = UInt32.ofNat (2 ^ 32 - 1)) :=
      fun both => available both.1 known both.2
    rw [if_neg left]
    exact rfl

variable {holder : PeerId → Option Node}

theorem addressed_update (addressed : Addressed holder) {id : PeerId} (value : Option Node)
    (truncated : ∀ node, value = some node → ∀ net ∈ tailnetNets node, net.Truncated) :
    Addressed (update holder id value) := by
  intro other node held
  by_cases is : other = id
  · subst is
    rw [update_self] at held
    exact truncated node held
  · rw [update_of_ne is] at held
    exact addressed other node held

/-- The effect of an upsert: the node is stored under its id, all else is as it was. -/
structure Upserted (db : PeerDb) (node : Node) (after : PeerDb × PeerId) : Prop where
  id : after.2 = db.idOf node
  consistent : after.1.Consistent
  holder : after.1.holder = update db.holder after.2 (some node)
  becomes : db.indexState.Becomes after.1.indexState fun _ _ idx idx' keys =>
    OwnedIndex.Replaced idx idx' keys db.holder after.2 node

theorem upsert_safe (consistent : db.Consistent) {node : Node}
    (regular : db.Regular checks (.upsert node)) :
    Returns (db.Upserted node) (db.upsert checks node) := by
  obtain ⟨apart, truncated, available⟩ := regular
  apply (idFor_safe node available).bind
  rintro ⟨id, nextId⟩ is
  dsimp only
  split
  · rename_i same
    have unchanged {K : Type} [DecidableEq K] (idx : OwnedIndex K PeerId) (keys : Node → List K) :
        OwnedIndex.Replaced idx idx keys db.holder id node := .inl ⟨rfl, node, same, rfl⟩
    refine ⟨is, ⟨consistent.sound, consistent.addressed⟩, ?_, ?_⟩
    · exact (update_eq_self_iff.mpr same.symm).symm
    · constructor <;> exact unchanged _ _
  · apply (IndexState.upsert_safe consistent.sound consistent.addressed apart.holder id
      truncated).bind
    rintro indexState ⟨sound, becomes⟩
    have stored : (fun other => (db.peers.insert id node).lookup other) =
        update db.holder id (some node) := holder_insert id node
    refine ⟨is, ⟨?_, ?_⟩, stored, becomes⟩
    · show indexState.Sound fun other => (db.peers.insert id node).lookup other
      rw [stored]
      exact sound
    · show Addressed fun other => (db.peers.insert id node).lookup other
      rw [stored]
      refine addressed_update consistent.addressed _ ?_
      intro other is
      cases is
      exact truncated

structure Taken (db : PeerDb) (id : PeerId) (after : PeerDb) : Prop where
  consistent : after.Consistent
  holder : after.holder = update db.holder id none
  becomes : db.indexState.Becomes after.indexState fun _ _ idx idx' keys =>
    idx' = retract idx (keysAt keys db.holder id) id

theorem take_safe (consistent : db.Consistent) (unshared : RepeatsUnshared db.holder)
    {id : PeerId} : Returns (fun after => db.Taken id after.1) (db.take id) := by
  rw [take]
  cases held : db.peers.lookup id with
  | none =>
    have nothing {K : Type} (keys : Node → List K) : keysAt keys db.holder id = [] := by
      rw [keysAt, holder, held]
      rfl
    refine ⟨consistent, (update_eq_self_iff.mpr held.symm).symm, ?_⟩
    constructor <;> rw [nothing] <;> rfl
  | some node =>
    apply (IndexState.remove_safe consistent.sound consistent.addressed unshared held).bind
    rintro indexState ⟨sound, becomes⟩
    have erased : (fun other => (db.peers.erase id).lookup other) =
        update db.holder id none := holder_erase id
    refine ⟨⟨?_, ?_⟩, erased, becomes⟩
    · show indexState.Sound fun other => (db.peers.erase id).lookup other
      rw [erased]
      exact sound
    · show Addressed fun other => (db.peers.erase id).lookup other
      rw [erased]
      refine addressed_update consistent.addressed _ ?_
      intro other is
      cases is

theorem unshared_update_none (unshared : RepeatsUnshared holder) {id : PeerId} :
    RepeatsUnshared (update holder id none) := by
  intro first net twice other member
  have apart : first ≠ id := by
    rintro rfl
    rw [OwnedIndex.keysAt_update_self] at twice
    simp at twice
  have apart' : other ≠ id := by
    rintro rfl
    rw [OwnedIndex.keysAt_update_self] at member
    cases member
  rw [OwnedIndex.keysAt_update_of_ne apart] at twice
  rw [OwnedIndex.keysAt_update_of_ne apart'] at member
  exact unshared first net twice other member

theorem retainOne_consistent (keep : PeerId → Node → Bool) (consistent : db.Consistent)
    (unshared : RepeatsUnshared db.holder) (id : PeerId) :
    Returns (fun after => after.Consistent ∧ RepeatsUnshared after.holder)
      (db.retainOne keep id) := by
  rw [retainOne]
  split
  · exact ⟨consistent, unshared⟩
  · split
    · exact ⟨consistent, unshared⟩
    · apply (take_safe consistent unshared).bind
      intro after taken
      refine ⟨taken.consistent, ?_⟩
      rw [taken.holder]
      exact unshared_update_none unshared

theorem call_consistent (consistent : db.Consistent) {call : DbCall}
    (regular : db.Regular checks call) :
    Returns Consistent (db.call checks call) := by
  cases call with
  | upsert node =>
    apply (upsert_safe consistent regular).bind
    exact fun after upserted => upserted.consistent
  | remove field =>
    have removed : Returns (fun after => after.1.Consistent) (db.remove field) := by
      rw [remove]
      split
      · exact consistent
      · exact (take_safe consistent regular.holder).mono fun after taken => taken.consistent
    exact removed.bind fun after kept => kept
  | retain keep picks =>
    have initial : db.Consistent ∧ RepeatsUnshared db.holder :=
      ⟨consistent, regular.holder⟩
    have walked : Returns
        (fun after => after.Consistent ∧ RepeatsUnshared after.holder) (db.retain keep picks) :=
      Safe.foldlM _ (fun mid id _ both => retainOne_consistent keep both.1 both.2 id) db initial
    exact walked.mono fun after kept => kept.1
  | setInactiveDiscoKey id key =>
    exact ⟨IndexState.setInactiveDiscoKey_sound consistent.sound id key regular,
      consistent.addressed⟩

/-- Every entry of every index names a stored peer whose node carries the value; the node of a peer
does not carry its other disco key, which is registered on its own. -/
structure NamesCarriers (db : PeerDb) : Prop where
  nodeKey : ∀ key id, db.indexState.nkIdx key = some id →
    ∃ node, db.peers.lookup id = some node ∧ node.nodeKey = key
  discoKey : ∀ key id, db.indexState.discoIdx key = some id →
    ∃ node, db.peers.lookup id = some node ∧ node.discoKey = some key
  inactiveDiscoKey : ∀ key id, db.indexState.inactiveDiscoIdx key = some id →
    ∃ node, db.peers.lookup id = some node ∧ db.indexState.inactiveDisco id = some key
  stableId : ∀ stableId id, db.indexState.stableidIdx stableId = some id →
    ∃ node, db.peers.lookup id = some node ∧ node.stableId = stableId
  nodeId : ∀ nodeId id, db.indexState.controlIdx nodeId = some id →
    ∃ node, db.peers.lookup id = some node ∧ node.id = nodeId
  name : ∀ name id, db.indexState.nameIdx name = some id →
    ∃ node, db.peers.lookup id = some node ∧ name ∈ nameKeys node
  ip : ∀ net id, db.indexState.ipIdx.routes net = some id →
    ∃ node, db.peers.lookup id = some node ∧ net ∈ tailnetNets node
  route : ∀ net row id, db.indexState.routeIdx.routes net = some row → id ∈ row →
    ∃ node, db.peers.lookup id = some node ∧ net ∈ node.acceptedRoutes.map IpNet.trunc

theorem Consistent.namesCarriers (consistent : db.Consistent) : db.NamesCarriers := by
  obtain ⟨sound, _⟩ := consistent
  constructor
  · intro key id found
    obtain ⟨node, held, member⟩ := mem_keysAt.mp (sound.each.nk key id found)
    exact ⟨node, held, (mem_singleton.mp member).symm⟩
  · intro key id found
    obtain ⟨node, held, member⟩ := mem_keysAt.mp (sound.each.disco key id found)
    exact ⟨node, held, Option.mem_toList.mp member⟩
  · intro key id found
    obtain ⟨other, known, member⟩ := mem_keysAt.mp (sound.inactive key id found)
    have stored : db.peers.lookup id ≠ none := sound.registered id (by simp [known])
    obtain ⟨node, held⟩ := Option.ne_none_iff_exists'.mp stored
    rw [mem_singleton.mp member]
    exact ⟨node, held, known⟩
  · intro stableId id found
    obtain ⟨node, held, member⟩ := mem_keysAt.mp (sound.each.stableid stableId id found)
    exact ⟨node, held, (mem_singleton.mp member).symm⟩
  · intro nodeId id found
    obtain ⟨node, held, member⟩ := mem_keysAt.mp (sound.each.control nodeId id found)
    exact ⟨node, held, (mem_singleton.mp member).symm⟩
  · exact fun name id found => mem_keysAt.mp (sound.each.name name id found)
  · exact fun net id found => mem_keysAt.mp (sound.each.ip net id found)
  · intro net row id found member
    have within : id ∈ rowAt db.indexState.routeIdx.routes net := by
      rw [rowAt, found]
      exact member
    exact mem_keysAt.mp (sound.route.mem_row.mp within)

/-- No call of a regular run panics, and in the database it leads to every entry of every index
names a stored peer that carries the value. -/
theorem entries_name_carriers (checks : Bool) (calls : List DbCall)
    (regular : AlongM (call checks) (Regular checks) empty calls) :
    Returns NamesCarriers (calls.foldlM (call checks) empty) :=
  (Safe.foldlM_along calls (fun _ _ meets kept => call_consistent kept meets) empty
    consistent_empty regular).mono fun _ consistent => consistent.namesCarriers

/-- Peers that share all but their stable id and their routes. -/
def toyRouter (n : UInt8) (routes : List IpNet) : Node :=
  { Node.numbered 1 with stableId := (Node.numbered n).stableId, acceptedRoutes := routes }

/-- A peer takes all over from another, which then leaves; the successor lists a route twice that
no other has, and leaves too. -/
def toyChurn : List DbCall :=
  [.upsert (toyRouter 1 [cgnat]),
    .upsert (toyRouter 2 [cgnat, chromeosVm, chromeosVm]),
    .setInactiveDiscoKey ⟨1⟩ (some [7]),
    .remove (.stableId (Node.numbered 1).stableId),
    .retain (fun _ _ => false) []]

/-- Two peers share a route that one of them lists twice, and that one leaves. -/
def toyRepeat : List DbCall :=
  [.upsert (toyRouter 1 [cgnat, cgnat]), .upsert (toyRouter 2 [cgnat]),
    .remove (.stableId (Node.numbered 1).stableId)]

theorem entries_name_carriers_toyChurn :
    AlongM (call true) (Regular true) empty toyChurn ∧
      Returns NamesCarriers (toyChurn.foldlM (call true) empty) := by
  have regular : AlongM (call true) (Regular true) empty toyChurn := by
    decide +kernel
  generalize toyChurn = calls at regular ⊢
  exact ⟨regular, entries_name_carriers true calls regular⟩

/-- The second removal of the route finds a row that names only the other peer. -/
theorem repeated_route_panics :
    ¬Returns NamesCarriers (toyRepeat.foldlM (call true) empty) := by
  intro safe
  have returned := safe.mono fun _ _ => trivial
  revert returned
  decide +kernel

end PeerDb

end TailscaleRs.Runtime
