import TailscaleRs.Runtime.PeerDbSound

namespace TailscaleRs.Runtime

open Function AList OwnedIndex
open Net (IpAddr IpNet)
open Bart (BuiltTable Covers)
open TailscaleRs.Control (Node)
open Tunnel (PeerId shuffle_perm)
open PeerDb (empty call)

namespace PeerDb

variable {db : PeerDb} {checks : Bool}

/-- Every value of a stored peer is found under some peer. -/
structure Covered (db : PeerDb) : Prop where
  consistent : db.Consistent
  covers : db.indexState.Each fun _ idx keys => CoversAll idx keys db.holder

theorem covered_empty : empty.Covered where
  consistent := consistent_empty
  covers := by
    have nothing {K : Type} (idx : OwnedIndex K PeerId) (keys : Node → List K) :
        CoversAll idx keys empty.holder := by
      intro id key _ member
      cases member
    constructor <;> exact nothing _ _

/-- The index does not give a peer out for a value of another, unless the node that takes its
place has the value too. -/
def Yields (db : PeerDb) (id : PeerId) (new : Option Node) (K : Type) (idx : OwnedIndex K PeerId)
    (keys : Node → List K) : Prop :=
  ∀ other ∈ db.peers.entries, other.1 ≠ id → ∀ key ∈ keys other.2, idx key = some id →
    key ∈ new.elim [] keys

/-- The index gives out peers that stay for the values of those that stay. -/
def YieldsAll (db : PeerDb) (keep : PeerId → Node → Bool) (K : Type) (idx : OwnedIndex K PeerId)
    (keys : Node → List K) : Prop :=
  ∀ stays ∈ db.peers.entries, keep stays.1 stays.2 = true → ∀ key ∈ keys stays.2,
    ∀ owner ∈ db.peers.entries, idx key = some owner.1 → keep owner.1 owner.2 = true

/-- What is asked of a call beyond that it is regular: it takes no value from the peer that its
index gives out while another stored peer carries it. -/
def Orderly (checks : Bool) (db : PeerDb) (call : DbCall) : Prop :=
  db.Regular checks call ∧
    match call with
    | .upsert node => db.indexState.Each (db.Yields (db.idOf node) (some node))
    | .remove field => ∀ id ∈ db.lookup field, db.indexState.Each (db.Yields id none)
    | .retain keep _ => db.indexState.Each (db.YieldsAll keep)
    | .setInactiveDiscoKey _ _ => True

theorem Yields.holder {id : PeerId} {new : Option Node} {K : Type} {idx : OwnedIndex K PeerId}
    {keys : Node → List K} (yields : db.Yields id new K idx keys) (other : PeerId) (key : K)
    (apart : other ≠ id) (member : key ∈ keysAt keys db.holder other) (owned : idx key = some id) :
    key ∈ new.elim [] keys := by
  obtain ⟨node, held, member⟩ := mem_keysAt.mp member
  exact yields ⟨other, node⟩ (mem_lookup_iff.mp held) apart key member owned

section Calls

variable {id : PeerId}

theorem take_covered (covered : db.Covered) {after : PeerDb}
    (yields : db.indexState.Each (db.Yields id none)) (taken : db.Taken id after) :
    after.Covered where
  consistent := taken.consistent
  covers := by
    rw [taken.holder]
    refine (covered.covers.and yields).becomes taken.becomes ?_
    rintro K _ idx _ keys ⟨covers, yields⟩ rfl
    have others : OwnedIndex.Covers idx keys db.holder (· ≠ id) [] :=
      covers.setAside yields.holder
    apply (others.retract fun apart => apart rfl).all
    intro other same
    rw [not_not.mp same, update_self]

end Calls

section Retain

variable (keep : PeerId → Node → Bool)

/-- A peer that is kept, if it is stored at all. -/
def Kept (db : PeerDb) (id : PeerId) : Prop :=
  ∀ node, db.holder id = some node → keep id node = true

/-- The walk of `retain` over a database, at some point: peers have only been removed, and what
is kept is found under what is kept. -/
structure Walk (db mid : PeerDb) : Prop where
  consistent : mid.Consistent
  unshared : RepeatsUnshared mid.holder
  shrinks : ∀ id node, mid.holder id = some node → db.holder id = some node
  covers : mid.indexState.Each fun _ idx keys =>
    OwnedIndex.Covers idx keys mid.holder (db.Kept keep) []

theorem YieldsAll.covers (consistent : db.Consistent)
    (covers : db.indexState.Each fun _ idx keys => CoversAll idx keys db.holder)
    (yields : db.indexState.Each (db.YieldsAll keep)) :
    db.indexState.Each fun _ idx keys =>
      OwnedIndex.Covers idx keys db.holder (db.Kept keep) [] := by
  have kept {K : Type} {idx : OwnedIndex K PeerId} {keys : Node → List K}
      (sound : OwnedIndex.Sound idx keys db.holder) (covers : CoversAll idx keys db.holder)
      (yields : db.YieldsAll keep K idx keys) :
      OwnedIndex.Covers idx keys db.holder (db.Kept keep) [] := by
    intro id key stays member
    rcases covers id key trivial member with none | ⟨owner, _, found⟩
    · cases none
    · refine .inr ⟨owner, ?_, found⟩
      obtain ⟨node, held, member⟩ := mem_keysAt.mp member
      intro ownerNode owned
      exact yields ⟨id, node⟩ (mem_lookup_iff.mp held) (stays node held) key member
        ⟨owner, ownerNode⟩ (mem_lookup_iff.mp owned) found
  have sound := consistent.sound.each
  exact ⟨kept sound.nk covers.nk yields.nk, kept sound.disco covers.disco yields.disco,
    kept sound.stableid covers.stableid yields.stableid,
    kept sound.control covers.control yields.control, kept sound.name covers.name yields.name,
    kept sound.ip covers.ip yields.ip⟩

variable {keep} {mid : PeerDb}

theorem retainOne_walk (walk : db.Walk keep mid) (id : PeerId) :
    Returns (fun after => db.Walk keep after ∧
        (∀ other node, after.holder other = some node → mid.holder other = some node) ∧
        (¬ db.Kept keep id → after.holder id = none))
      (mid.retainOne keep id) := by
  rw [retainOne]
  cases held : mid.peers.lookup id with
  | none => exact ⟨walk, fun _ _ same => same, fun _ => held⟩
  | some node =>
    have before := walk.shrinks id node held
    dsimp only
    split
    · rename_i keeps
      refine ⟨walk, fun _ _ same => same, fun dropped => absurd ?_ dropped⟩
      intro other same
      rw [before] at same
      cases same
      exact keeps
    · rename_i drops
      have dropped : ¬ db.Kept keep id := fun kept => drops (kept node before)
      apply (take_safe walk.consistent walk.unshared).bind
      rintro ⟨after, _⟩ taken
      have smaller : ∀ other node, after.holder other = some node →
          mid.holder other = some node := by
        intro other node stored
        rw [taken.holder] at stored
        by_cases is : other = id
        · subst is
          rw [update_self] at stored
          cases stored
        · rwa [update_of_ne is] at stored
      refine ⟨⟨taken.consistent, ?_, fun other node stored =>
        walk.shrinks other node (smaller other node stored), ?_⟩, smaller, fun _ => ?_⟩
      · rw [taken.holder]
        exact unshared_update_none walk.unshared
      · show after.indexState.Each _
        rw [taken.holder]
        refine walk.covers.becomes taken.becomes ?_
        rintro K _ idx _ keys covers rfl
        exact covers.retract dropped
      · show after.holder id = none
        rw [taken.holder, update_self]

theorem walk_order {order : List PeerId} (walk : db.Walk keep mid) :
    Returns (fun after => db.Walk keep after ∧
        (∀ other node, after.holder other = some node → mid.holder other = some node) ∧
        ∀ id ∈ order, ¬ db.Kept keep id → after.holder id = none)
      (order.foldlM (retainOne keep) mid) := by
  induction order generalizing mid with
  | nil => exact ⟨walk, fun _ _ same => same, fun _ member => absurd member List.not_mem_nil⟩
  | cons id rest ih =>
    apply (retainOne_walk walk id).bind
    rintro next ⟨walk, smaller, gone⟩
    refine (ih walk).mono ?_
    rintro after ⟨walk, smaller', gone'⟩
    refine ⟨walk, fun other node same => smaller other node (smaller' other node same), ?_⟩
    intro other member dropped
    rcases List.mem_cons.mp member with rfl | member
    · -- what is gone does not come back on the rest of the walk
      cases stored : after.holder other with
      | none => rfl
      | some node =>
        have back := smaller' other node stored
        rw [gone dropped] at back
        cases back
    · exact gone' other member dropped

theorem retain_covered (covered : db.Covered) (apart : db.RoutesApart)
    (yields : db.indexState.Each (db.YieldsAll keep)) {picks : List Nat} :
    Returns Covered (db.retain keep picks) := by
  have walk : db.Walk keep db := ⟨covered.consistent, apart.holder, fun _ _ same => same,
    YieldsAll.covers keep covered.consistent covered.covers yields⟩
  refine (walk_order walk).mono ?_
  rintro after ⟨walk, smaller, gone⟩
  have dropped : ∀ id, ¬ db.Kept keep id → after.holder id = none := by
    intro id drops
    cases stored : db.holder id with
    | none =>
      refine absurd ?_ drops
      intro node same
      rw [stored] at same
      cases same
    | some node =>
      refine gone id ?_ drops
      rw [(shuffle_perm picks db.peers.keys).mem_iff]
      exact lookup_isSome.mp (Option.isSome_of_eq_some stored)
  have covers := walk.covers
  refine ⟨walk.consistent, ?_⟩
  exact ⟨covers.nk.all dropped, covers.disco.all dropped, covers.stableid.all dropped,
    covers.control.all dropped, covers.name.all dropped, covers.ip.all dropped⟩

end Retain

theorem call_covered (covered : db.Covered) (call : DbCall) (orderly : db.Orderly checks call) :
    Returns Covered (db.call checks call) := by
  cases call with
  | upsert node =>
    apply (upsert_safe covered.consistent orderly.1).bind
    intro after upserted
    refine ⟨upserted.consistent, ?_⟩
    rw [upserted.holder]
    refine (covered.covers.and orderly.2).becomes upserted.becomes ?_
    rintro K _ idx idx' keys ⟨covers, yields⟩ replaced
    rw [← upserted.id] at yields
    exact covers.replaced yields.holder replaced
  | remove field =>
    obtain ⟨apart, yields⟩ := orderly
    have removed : Returns (fun after => after.1.Covered) (db.remove field) := by
      rw [remove]
      cases found : db.lookup field with
      | none => exact covered
      | some id =>
        refine (take_safe covered.consistent (RoutesApart.holder apart)).mono ?_
        exact fun after taken => take_covered covered (yields id found) taken
    exact removed.bind fun after kept => kept
  | retain keep picks => exact retain_covered covered orderly.1 orderly.2
  | setInactiveDiscoKey id key =>
    have kept := call_consistent covered.consistent orderly.1
    have covers := covered.covers
    exact ⟨kept, covers.nk, covers.disco, covers.stableid, covers.control, covers.name, covers.ip⟩

/-- The prefixes have an address in common. -/
def Overlap (net other : IpNet) : Prop :=
  net.containsNet other = true ∨ other.containsNet net = true

/-- Two nodes with no value in common that peers are looked up by, but for routes. -/
@[mk_iff] structure Distinct (first other : Node) : Prop where
  nodeKey : first.nodeKey ≠ other.nodeKey
  discoKey : first.discoKey ≠ none → first.discoKey ≠ other.discoKey
  stableId : first.stableId ≠ other.stableId
  nodeId : first.id ≠ other.id
  name : ∀ name ∈ nameKeys first, name ∉ nameKeys other
  ip : ∀ net ∈ tailnetNets first, ∀ net' ∈ tailnetNets other, ¬ Overlap net net'

def NoneShared (db : PeerDb) : Prop :=
  ∀ first ∈ db.peers.entries, ∀ other ∈ db.peers.entries, first.1 ≠ other.1 →
    Distinct first.2 other.2

/-- A peer is found by each value of its node. -/
structure Finds (db : PeerDb) (id : PeerId) (node : Node) : Prop where
  nodeKey : db.lookup (.nodeKey node.nodeKey) = some id
  discoKey : ∀ key, node.discoKey = some key → db.lookup (.discoKey key) = some id
  stableId : db.lookup (.stableId node.stableId) = some id
  nodeId : db.lookup (.nodeId node.id) = some id
  name : ∀ text : String, canonName text.toList ∈ nameKeys node → db.lookup (.name text) = some id
  ip : ∀ net ∈ tailnetNets node, ∀ addr, net.contains addr = true → db.lookup (.ip addr) = some id
  route : ∀ route ∈ node.acceptedRoutes, ∃ found, db.getRoute route = .ok found ∧ (id, node) ∈ found

def AllFound (db : PeerDb) : Prop := ∀ id node, db.peers.lookup id = some node → db.Finds id node

section Lookups

variable {id : PeerId} {node : Node}

theorem NoneShared.distinct (unshared : db.NoneShared) {other : PeerId} {otherNode : Node}
    (held : db.peers.lookup id = some node) (held' : db.peers.lookup other = some otherNode)
    (apart : id ≠ other) : Distinct node otherNode :=
  unshared ⟨id, node⟩ (mem_lookup_iff.mp held) ⟨other, otherNode⟩ (mem_lookup_iff.mp held') apart

theorem Covered.found {K : Type} {idx : OwnedIndex K PeerId} {keys : Node → List K}
    (covers : CoversAll idx keys db.holder) (sound : OwnedIndex.Sound idx keys db.holder)
    (unshared : db.NoneShared) (held : db.peers.lookup id = some node) {key : K}
    (member : key ∈ keys node) (distinct : ∀ other, Distinct node other → key ∉ keys other) :
    idx key = some id := by
  apply covers.found sound
  · exact mem_keysAt.mpr ⟨node, held, member⟩
  · intro other shared
    obtain ⟨otherNode, held', member'⟩ := mem_keysAt.mp shared
    by_contra apart
    exact distinct otherNode (unshared.distinct held held' (Ne.symm apart)) member'

/-- The longest prefix that contains an address of the peer is one of the peer. -/
theorem Covered.lookup_ip (covered : db.Covered) (unshared : db.NoneShared)
    (held : db.peers.lookup id = some node) {net : IpNet} (member : net ∈ tailnetNets node)
    {addr : IpAddr} (inside : net.contains addr = true) :
    db.indexState.ipIdx.lookup addr = some id := by
  have entered : db.indexState.ipIdx.routes net = some id := by
    apply Covered.found covered.covers.ip covered.consistent.sound.each.ip unshared held member
    intro other distinct shared
    apply distinct.ip net member net shared
    left
    exact IpNet.nested_of_common net net addr inside inside (Nat.le_refl _)
  have longest := (db.indexState.ipIdx.lookup_longest addr).2
  cases found : db.indexState.ipIdx.lookup addr with
  | none =>
    rw [found] at longest
    rw [longest net inside] at entered
    cases entered
  | some owner =>
    rw [found] at longest
    obtain ⟨other, inside', entered', _⟩ := longest
    obtain ⟨ownerNode, held', member'⟩ :=
      mem_keysAt.mp (covered.consistent.sound.each.ip other owner entered')
    by_contra differs
    have apart : id ≠ owner := fun same => differs (by rw [same])
    apply (unshared.distinct held held' apart).ip net member other member'
    rcases Nat.le_total net.prefixLen other.prefixLen with shorter | shorter
    · exact .inl (IpNet.nested_of_common net other addr inside inside' shorter)
    · exact .inr (IpNet.nested_of_common other net addr inside' inside shorter)

theorem lookupPrefix_own (built : BuiltTable (List PeerId)) {route : IpNet} (row : List PeerId)
    (entered : built.routes route.trunc = some row) : built.lookupPrefix route = some row := by
  have own : Covers route.trunc route :=
    ⟨Nat.le_refl _, by rw [IpNet.contains_trunc, IpNet.contains, decide_eq_true_iff]⟩
  have longest := (built.lookupPrefix_longest route).2
  cases found : built.lookupPrefix route with
  | none =>
    rw [found] at longest
    rw [longest route.trunc own] at entered
    cases entered
  | some other =>
    rw [found] at longest
    obtain ⟨net, covers, entered', longer⟩ := longest
    have length : net.prefixLen = route.prefixLen :=
      Nat.le_antisymm covers.1 (longer route.trunc own (by simp [entered]))
    have truncated : net.trunc = net := built.holds.truncated net (by simp [entered'])
    have inside := covers.2
    rw [IpNet.contains, decide_eq_true_iff, length] at inside
    have same : net = route.trunc := by
      rw [← truncated]
      apply IpNet.ext
      · show net.addr.truncate net.prefixLen = route.addr.truncate route.prefixLen
        rw [length, inside]
      · exact length
    rw [same, entered] at entered'
    exact entered'.symm

theorem Consistent.getRoute (consistent : db.Consistent) (held : db.peers.lookup id = some node)
    {route : IpNet} (member : route ∈ node.acceptedRoutes) :
    ∃ found, db.getRoute route = .ok found ∧ (id, node) ∈ found := by
  have counted := consistent.sound.route
  have within : id ∈ rowAt db.indexState.routeIdx.routes route.trunc := by
    rw [counted.mem_row]
    exact mem_keysAt.mpr ⟨node, held, List.mem_map_of_mem member⟩
  cases entered : db.indexState.routeIdx.routes route.trunc with
  | none =>
    rw [rowAt, entered] at within
    cases within
  | some row =>
    rw [rowAt, entered] at within
    rw [PeerDb.getRoute, lookupPrefix_own _ row entered]
    have stored : ∀ other ∈ row, ∃ otherNode, db.peers.lookup other = some otherNode := by
      intro other listed
      have carried : other ∈ rowAt db.indexState.routeIdx.routes route.trunc := by
        rw [rowAt, entered]
        exact listed
      obtain ⟨otherNode, held', _⟩ := mem_keysAt.mp (counted.mem_row.mp carried)
      exact ⟨otherNode, held'⟩
    obtain ⟨found, ran, each⟩ := mapM_total db.routeMatch row fun other listed => by
      obtain ⟨otherNode, held'⟩ := stored other listed
      exact ⟨(other, otherNode), by rw [routeMatch, held']⟩
    exact ⟨found, ran, each id within (id, node) (by rw [routeMatch, held])⟩

theorem Covered.finds (covered : db.Covered) (unshared : db.NoneShared)
    (held : db.peers.lookup id = some node) : db.Finds id node := by
  have covers := covered.covers
  have sound := covered.consistent.sound.each
  constructor
  · refine Covered.found covers.nk sound.nk unshared held List.mem_cons_self ?_
    intro other distinct shared
    exact distinct.nodeKey (List.mem_singleton.mp shared)
  · intro key is
    refine Covered.found covers.disco sound.disco unshared held (Option.mem_toList.mpr is) ?_
    intro other distinct shared
    apply distinct.discoKey (by simp [is])
    rw [is, Option.mem_toList.mp shared]
  · refine Covered.found covers.stableid sound.stableid unshared held List.mem_cons_self ?_
    intro other distinct shared
    exact distinct.stableId (List.mem_singleton.mp shared)
  · refine Covered.found covers.control sound.control unshared held List.mem_cons_self ?_
    intro other distinct shared
    exact distinct.nodeId (List.mem_singleton.mp shared)
  · intro text named
    exact Covered.found covers.name sound.name unshared held named
      fun other distinct shared => distinct.name _ named shared
  · exact fun net member addr inside => covered.lookup_ip unshared held member inside
  · exact fun route member => covered.consistent.getRoute held member

end Lookups

/-- No call of an orderly run panics, and if the database it leads to has no value twice, every
stored peer is found by each value of its node and by its routes. -/
theorem peers_found (checks : Bool) (calls : List DbCall)
    (orderly : AlongM (call checks) (Orderly checks) empty calls) :
    Returns (fun db => db.NoneShared → db.AllFound) (calls.foldlM (call checks) empty) := by
  have covered : Returns Covered (calls.foldlM (call checks) empty) :=
    Safe.foldlM_along calls (fun _ call meets kept => call_covered kept call meets) empty
      covered_empty orderly
  exact covered.mono fun _ covered unshared _ _ held => covered.finds unshared held

/-- A property that can be decided of any index can be decided of each. -/
def eachDecidable (state : IndexState)
    (P : (K : Type) → OwnedIndex K PeerId → (Node → List K) → Prop)
    (decides : (K : Type) → [DecidableEq K] → (idx : OwnedIndex K PeerId) →
      (keys : Node → List K) → Decidable (P K idx keys)) : Decidable (state.Each P) :=
  haveI := @decides
  decidable_of_iff _ (state.each_iff P).symm

instance yieldsDecidable (db : PeerDb) (id : PeerId) (new : Option Node) :
    Decidable (db.indexState.Each (db.Yields id new)) :=
  eachDecidable db.indexState (db.Yields id new) fun _ _ _ keys =>
    inferInstanceAs (Decidable (∀ other ∈ db.peers.entries, other.1 ≠ id → ∀ key ∈ keys other.2, _))

instance yieldsAllDecidable (db : PeerDb) (keep : PeerId → Node → Bool) :
    Decidable (db.indexState.Each (db.YieldsAll keep)) :=
  eachDecidable db.indexState (db.YieldsAll keep) fun _ _ _ keys =>
    inferInstanceAs (Decidable (∀ stays ∈ db.peers.entries, keep stays.1 stays.2 = true →
      ∀ key ∈ keys stays.2, ∀ owner ∈ db.peers.entries, _ → _))

instance orderlyDecidable (checks : Bool) (db : PeerDb) (call : DbCall) :
    Decidable (db.Orderly checks call) :=
  match call with
  | .upsert node => inferInstanceAs (Decidable (_ ∧ db.indexState.Each (db.Yields _ (some node))))
  | .remove field => inferInstanceAs (Decidable (_ ∧ ∀ id ∈ db.lookup field, _))
  | .retain keep _ => inferInstanceAs (Decidable (_ ∧ db.indexState.Each (db.YieldsAll keep)))
  | .setInactiveDiscoKey _ _ => inferInstanceAs (Decidable (_ ∧ True))

instance overlapDecidable (net other : IpNet) : Decidable (Overlap net other) :=
  inferInstanceAs (Decidable (_ ∨ _))

instance distinctDecidable (first other : Node) : Decidable (Distinct first other) :=
  decidable_of_iff _ (distinct_iff first other).symm

instance noneSharedDecidable (db : PeerDb) : Decidable db.NoneShared :=
  inferInstanceAs (Decidable (∀ first ∈ db.peers.entries, ∀ other ∈ db.peers.entries, _ → _))

/-- A peer takes all over from another, which then leaves. -/
def toyHandover : List DbCall :=
  [.upsert (toyRouter 1 [Control.cgnat]), .upsert (toyRouter 2 [Control.cgnat]),
    .remove (.stableId (Node.numbered 1).stableId)]

/-- A second peer with the name of the first, which is then renamed. -/
def toyNamesake : List DbCall :=
  [.upsert (Node.numbered 1),
    .upsert { Node.numbered 2 with hostname := (Node.numbered 1).hostname },
    .upsert (Node.numbered 2)]

theorem peers_found_toyHandover :
    AlongM (call true) (Orderly true) empty toyHandover ∧
      Returns (fun db => db.NoneShared → db.AllFound) (toyHandover.foldlM (call true) empty) := by
  have orderly : AlongM (call true) (Orderly true) empty toyHandover := by
    decide +kernel
  generalize toyHandover = calls at orderly ⊢
  exact ⟨orderly, peers_found true calls orderly⟩

/-- The first peer is stored, no value is stored twice, and its name leads nowhere. -/
theorem renamed_namesake_hides_peer :
    ¬Returns (fun db => db.NoneShared → db.AllFound) (toyNamesake.foldlM (call true) empty) := by
  have hidden : Returns (fun db => db.NoneShared ∧ db.peers.lookup ⟨0⟩ = some (Node.numbered 1) ∧
        db.lookup (.name (Node.numbered 1).hostname) = none)
      (toyNamesake.foldlM (call true) empty) := by
    decide +kernel
  refine (hidden.mono ?_).refutes
  rintro db ⟨unshared, held, missing⟩ found
  have named := (found unshared ⟨0⟩ (Node.numbered 1) held).name (Node.numbered 1).hostname
    List.mem_cons_self
  rw [missing] at named
  cases named

end PeerDb

end TailscaleRs.Runtime
