import TailscaleRs.Control.Node
import TailscaleRs.Lib.Recency

namespace TailscaleRs.Dataplane

open List
open Control (SocketAddr)
open TailscaleRs.Filter (IpProto)

def lruMax : Nat := 512

structure Tuple where
  proto : IpProto
  src : SocketAddr
  dst : SocketAddr
  deriving DecidableEq

def isTracked (proto : IpProto) : Bool := proto = .udp || proto = .sctp

/-- The flows with the stamps they hold, by flow and in the order of the stamps. -/
structure FlowCache where
  byTuple : AList fun _ : Tuple => Nat
  byRecency : List (Nat × Tuple)
  nextStamp : Nat

def insertStamp (stamp : Nat) (tuple : Tuple) : List (Nat × Tuple) → List (Nat × Tuple)
  | [] => [(stamp, tuple)]
  | entry :: rest =>
    if stamp < entry.1 then (stamp, tuple) :: entry :: rest
    else if stamp = entry.1 then (stamp, tuple) :: rest
    else entry :: insertStamp stamp tuple rest

def removeStamp (stamp : Nat) (entries : List (Nat × Tuple)) : List (Nat × Tuple) :=
  entries.filter fun entry => entry.1 ≠ stamp

namespace FlowCache

def empty : FlowCache := ⟨∅, [], 0⟩

/-- The oldest flows go until as many are left as are kept. -/
def evict (byTuple : AList fun _ : Tuple => Nat) :
    List (Nat × Tuple) → (AList fun _ : Tuple => Nat) × List (Nat × Tuple)
  | [] => (byTuple, [])
  | oldest :: rest =>
    if byTuple.entries.length > lruMax then evict (byTuple.erase oldest.2) rest
    else (byTuple, oldest :: rest)

variable (cache : FlowCache) (tuple : Tuple)

/-- The flows in order without the stamp that a flow holds so far. -/
def others : List (Nat × Tuple) :=
  match cache.byTuple.lookup tuple with
  | some previous => removeStamp previous cache.byRecency
  | none => cache.byRecency

def add : FlowCache :=
  let stamp := cache.nextStamp
  let kept := evict (cache.byTuple.insert tuple stamp)
    (insertStamp stamp tuple (cache.others tuple))
  ⟨kept.1, kept.2, stamp + 1⟩

/-- A flow that is found is the most recent again. -/
def get : FlowCache × Bool :=
  match cache.byTuple.lookup tuple with
  | none => (cache, false)
  | some previous =>
    let stamp := cache.nextStamp
    (⟨cache.byTuple.insert tuple stamp,
      insertStamp stamp tuple (removeStamp previous cache.byRecency), stamp + 1⟩, true)

/-- The reply to the packet is stored, with the ends exchanged. -/
def recordOutbound (proto : IpProto) (src dst : SocketAddr) : FlowCache :=
  if isTracked proto then cache.add ⟨proto, dst, src⟩ else cache

def admitsInbound (proto : IpProto) (src dst : SocketAddr) : FlowCache × Bool :=
  if isTracked proto then cache.get ⟨proto, src, dst⟩ else (cache, false)

/-- The two indexes hold the flows of a list, whose last is the one with the least stamp. -/
structure Ordered (cache : FlowCache) (flows : List Tuple) : Prop where
  tuples : cache.byRecency.map Prod.snd = flows.reverse
  stamps : (cache.byRecency.map Prod.fst).Pairwise (· < ·)
  fresh : ∀ entry ∈ cache.byRecency, entry.1 < cache.nextStamp
  indexed : ∀ tuple stamp, cache.byTuple.lookup tuple = some stamp ↔
    (stamp, tuple) ∈ cache.byRecency
  distinct : flows.Nodup

variable {cache : FlowCache} {flows : List Tuple}

theorem Ordered.lookup_isSome (ordered : cache.Ordered flows) (tuple : Tuple) :
    (cache.byTuple.lookup tuple).isSome ↔ tuple ∈ flows := by
  rw [← mem_reverse, ← ordered.tuples, Option.isSome_iff_exists]
  simp [ordered.indexed]

theorem insertStamp_fresh (stamp : Nat) (tuple : Tuple) (entries : List (Nat × Tuple))
    (fresh : ∀ entry ∈ entries, entry.1 < stamp) :
    insertStamp stamp tuple entries = entries ++ [(stamp, tuple)] := by
  induction entries with
  | nil => rfl
  | cons entry rest ih =>
    have older : entry.1 < stamp := fresh entry mem_cons_self
    rw [insertStamp, if_neg (by omega), if_neg (by omega),
      ih fun other member => fresh other (mem_cons_of_mem entry member), cons_append]

variable (ordered : cache.Ordered flows)
include ordered

theorem Ordered.same_entry {stamp stamp' : Nat} {tuple tuple' : Tuple}
    (first : (stamp, tuple) ∈ cache.byRecency) (second : (stamp', tuple') ∈ cache.byRecency) :
    stamp = stamp' ↔ tuple = tuple' := by
  constructor
  · intro same
    have nodup : (cache.byRecency.map Prod.fst).Nodup := ordered.stamps.imp Nat.ne_of_lt
    exact congrArg Prod.snd (inj_on_of_nodup_map nodup first second same)
  · intro same
    have held := (ordered.indexed tuple stamp).mpr first
    rw [same, (ordered.indexed tuple' stamp').mpr second] at held
    exact (Option.some.inj held).symm

theorem Ordered.others_eq (tuple : Tuple) :
    cache.others tuple = cache.byRecency.filter fun entry => entry.2 ≠ tuple := by
  unfold others
  split
  · rename_i previous held
    have entry := (ordered.indexed tuple previous).mp held
    apply filter_congr
    intro other member
    have same := ordered.same_entry (show (other.1, other.2) ∈ cache.byRecency from member) entry
    simp only [ne_eq, decide_not, same]
  · rename_i absent
    symm
    rw [filter_eq_self]
    intro other member
    have different : other.2 ≠ tuple := by
      intro same
      have held := (ordered.indexed other.2 other.1).mpr member
      rw [same, absent] at held
      cases held
    simpa using different

theorem Ordered.restamp (tuple : Tuple) :
    Ordered ⟨cache.byTuple.insert tuple cache.nextStamp,
      insertStamp cache.nextStamp tuple (cache.others tuple), cache.nextStamp + 1⟩
      (touch tuple flows) := by
  have older : ∀ entry ∈ cache.others tuple, entry.1 < cache.nextStamp := by
    rw [ordered.others_eq]
    exact fun entry member => ordered.fresh entry (mem_of_mem_filter member)
  rw [insertStamp_fresh _ _ _ older, ordered.others_eq]
  constructor
  · show map Prod.snd (_ ++ [_]) = _
    rw [map_append, touch, reverse_cons, ← filter_reverse, ← ordered.tuples, filter_map]
    rfl
  · show (map Prod.fst (_ ++ [_])).Pairwise _
    rw [map_append, pairwise_append]
    refine ⟨ordered.stamps.sublist (filter_sublist.map _), pairwise_singleton _ _, ?_⟩
    intro stamp earlier last isLast
    obtain ⟨entry, member, rfl⟩ := mem_map.mp earlier
    rw [mem_singleton.mp isLast]
    exact ordered.fresh entry (mem_of_mem_filter member)
  · intro entry member
    rcases mem_append.mp member with earlier | last
    · exact Nat.lt_succ_of_lt (ordered.fresh entry (mem_of_mem_filter earlier))
    · rw [mem_singleton.mp last]
      exact Nat.lt_succ_self _
  · intro other stamp
    by_cases same : other = tuple
    · subst same
      simp [AList.lookup_insert, eq_comm]
    · rw [AList.lookup_insert_ne same, ordered.indexed]
      simp [same]
  · exact nodup_touch ordered.distinct

theorem Ordered.length_eq : cache.byTuple.entries.length = flows.length := by
  have perm : cache.byTuple.keys.Perm flows := by
    rw [perm_ext_iff_of_nodup cache.byTuple.keys_nodup ordered.distinct]
    intro tuple
    rw [← ordered.lookup_isSome, AList.lookup_isSome, AList.mem_keys]
  rw [← perm.length_eq, AList.keys, keys, length_map]

omit ordered

variable {byTuple : AList fun _ : Tuple => Nat} {nextStamp : Nat}

theorem Ordered.dropOldest {oldest : Nat × Tuple} {rest : List (Nat × Tuple)}
    (ordered : Ordered ⟨byTuple, oldest :: rest, nextStamp⟩ flows) :
    Ordered ⟨byTuple.erase oldest.2, rest, nextStamp⟩ flows.dropLast := by
  have split : flows = (rest.map Prod.snd).reverse ++ [oldest.2] := by
    rw [← reverse_inj, ← ordered.tuples]
    simp
  have older := (pairwise_cons.mp ordered.stamps).1
  have absent : ∀ stamp, (stamp, oldest.2) ∉ rest := by
    intro stamp member
    have same := (ordered.same_entry (mem_cons_of_mem oldest member)
      (mem_cons_self (a := oldest))).mpr rfl
    have later := older stamp (mem_map.mpr ⟨_, member, rfl⟩)
    omega
  constructor
  · show rest.map Prod.snd = _
    rw [split, dropLast_concat, reverse_reverse]
  · exact (pairwise_cons.mp ordered.stamps).2
  · exact fun entry member => ordered.fresh entry (mem_cons_of_mem oldest member)
  · intro tuple stamp
    by_cases same : tuple = oldest.2
    · rw [same, AList.lookup_erase]
      exact ⟨nofun, fun member => absurd member (absent stamp)⟩
    · rw [AList.lookup_erase_ne same]
      refine (ordered.indexed tuple stamp).trans ?_
      have other : (stamp, tuple) ≠ oldest := fun equal => same (congrArg Prod.snd equal)
      simp [mem_cons, other]
  · exact ordered.distinct.sublist (dropLast_sublist flows)

theorem Ordered.evict (entries : List (Nat × Tuple))
    (ordered : Ordered ⟨byTuple, entries, nextStamp⟩ flows) :
    Ordered ⟨(evict byTuple entries).1, (evict byTuple entries).2, nextStamp⟩
      (flows.take lruMax) := by
  induction entries generalizing byTuple flows with
  | nil =>
    have none : flows = [] := reverse_eq_nil_iff.mp ordered.tuples.symm
    rw [none] at ordered ⊢
    exact ordered
  | cons oldest rest ih =>
    have length := ordered.length_eq
    simp only at length
    by_cases full : byTuple.entries.length > lruMax
    · have shorter : flows.dropLast.take lruMax = flows.take lruMax := by
        rw [dropLast_eq_take, take_take, Nat.min_eq_left (by omega)]
      rw [FlowCache.evict, if_pos full, ← shorter]
      exact ih ordered.dropOldest
    · rw [FlowCache.evict, if_neg full, take_of_length_le (by omega)]
      exact ordered

theorem Ordered.add (ordered : cache.Ordered flows) (tuple : Tuple) :
    (cache.add tuple).Ordered ((touch tuple flows).take lruMax) :=
  (ordered.restamp tuple).evict

theorem Ordered.get (ordered : cache.Ordered flows) {tuple : Tuple} :
    ((cache.get tuple).2 = true ∧ tuple ∈ flows ∧ (cache.get tuple).1.Ordered (touch tuple flows)) ∨
      (cache.get tuple = (cache, false) ∧ tuple ∉ flows) := by
  unfold FlowCache.get
  cases held : cache.byTuple.lookup tuple with
  | none =>
    refine .inr ⟨rfl, ?_⟩
    rw [← ordered.lookup_isSome, held]
    exact nofun
  | some previous =>
    have restamped := ordered.restamp tuple
    rw [others, held] at restamped
    refine .inl ⟨rfl, ?_, restamped⟩
    rw [← ordered.lookup_isSome, held]
    rfl

/-- The cache holds the most recent flows of a log of those recorded or found. -/
def Follows (log : List Tuple) : Prop :=
  cache.Ordered ((recent log).take lruMax)

variable {log : List Tuple}

theorem follows_empty : empty.Follows [] := by
  refine ⟨rfl, .nil, nofun, ?_, nodup_nil⟩
  simp [empty]

variable (follows : cache.Follows log)
include follows

theorem Follows.add (tuple : Tuple) : (cache.add tuple).Follows (log ++ [tuple]) := by
  have added := Ordered.add follows tuple
  rw [show lruMax = 511 + 1 from rfl, touch_take _ _ _ (nodup_recent log), ← recent_concat] at added
  exact added

theorem Follows.get_hit (tuple : Tuple) (hit : (cache.get tuple).2 = true) :
    (cache.get tuple).1.Follows (log ++ [tuple]) := by
  rcases Ordered.get follows with ⟨_, member, moved⟩ | ⟨miss, _⟩
  · have distinct := (nodup_recent log).sublist (take_sublist lruMax (recent log))
    have whole : (touch tuple ((recent log).take lruMax)).take lruMax =
        touch tuple ((recent log).take lruMax) := by
      apply take_of_length_le
      rw [length_touch_of_mem member distinct]
      exact length_take_le _ _
    rw [← whole, show lruMax = 511 + 1 from rfl, touch_take _ _ _ (nodup_recent log),
      ← recent_concat] at moved
    exact moved
  · rw [miss] at hit
    cases hit

theorem Follows.get_iff (tuple : Tuple) :
    (cache.get tuple).2 = true ↔ tuple ∈ (recent log).take lruMax := by
  rcases Ordered.get follows with ⟨hit, member, _⟩ | ⟨miss, absent⟩
  · exact ⟨fun _ => member, fun _ => hit⟩
  · rw [miss]
    exact ⟨nofun, fun member => absurd member absent⟩

omit follows

theorem get_miss (tuple : Tuple) (miss : (cache.get tuple).2 = false) :
    (cache.get tuple).1 = cache := by
  unfold FlowCache.get at miss ⊢
  cases held : cache.byTuple.lookup tuple with
  | none => rfl
  | some previous =>
    rw [held] at miss
    cases miss

end FlowCache

end TailscaleRs.Dataplane
