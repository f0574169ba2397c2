import TailscaleRs.Bart.Paths

namespace TailscaleRs.Bart

open Function List StrideTrie
open Net (Family IpNet)
open StrideTrie (Canonical Crowded Sole OnlyBelow)

section LastChild

theorem firstSet_eq {ι β : Type} {decode : Nat → Option ι} {array : ι → Option β} {index : ι}
    (encoded : ∃ bit < 256, decode bit = some index) (held : array index ≠ none)
    (others : ∀ other, other ≠ index → array other = none) :
    firstSet decode array = some index := by
  cases found : firstSet decode array with
  | none =>
    obtain ⟨bit, small, stands⟩ := encoded
    have absent := findSome?_eq_none_iff.mp found bit (mem_range.mpr small)
    rw [stands, Option.filter_eq_none_iff] at absent
    have empty := absent index rfl
    exact absurd held (by simpa using empty)
  | some other =>
    obtain ⟨bit, _, stands⟩ := exists_of_findSome?_eq_some found
    rw [Option.filter_eq_some_iff] at stands
    by_contra different
    rw [others other (fun same => different (congrArg some same))] at stands
    exact absurd stands.2 (by simp)

theorem tryNew_get {index : BaseIndex} : ∃ bit < 256, BaseIndex.tryNew bit = some index := by
  have positive : 0 < index.get := Nat.pos_of_ne_zero fun zero => index.2 (Fin.ext zero)
  refine ⟨index.get, index.1.isLt, ?_⟩
  rw [BaseIndex.tryNew, dif_pos ⟨positive, index.1.isLt⟩]
  rfl

theorem octet_bit {octet : UInt8} : ∃ bit < 256, some (UInt8.ofNat bit) = some octet :=
  ⟨octet.toNat, octet.toNat_lt, by simp⟩

variable {α : Type} {family : Family} {values : List UInt8 × BaseIndex → Option α} {height : Nat}
  {path : List UInt8} {node : Node α} {octets : List UInt8} {depth root : Nat}
  (canonical : Canonical (labels family) values (height + 1) path node)
include canonical

theorem tryRemoveLastChild_crowded (crowded : Crowded values path) :
    tryRemoveLastChild node octets depth family root = .ok (node, none) := by
  rw [tryRemoveLastChild]
  by_cases top : depth = root
  · rw [if_pos top]
  rw [if_neg top]
  rcases canonical.of_crowded crowded with many | ⟨noPrefix, oneChild, isPath⟩
  · have several : 2 ≤ prefixCount node + childCount node := many
    split
    · omega
    · omega
    · rfl
  · have noPrefix' : prefixCount node = 0 := noPrefix
    have oneChild' : childCount node = 1 := oneChild
    rw [noPrefix', oneChild']
    obtain ⟨octet, held, others⟩ := count_eq_one.mp oneChild
    obtain ⟨inner, child⟩ := isPath octet held
    rw [firstSet_eq octet_bit held others]
    simp only [unwrap, ok_bind, child]
    rfl

theorem tryRemoveLastChild_sole {position : List UInt8 × BaseIndex} {value : α}
    (sole : Sole values path position value) (sized : octets.length = family.size)
    (along : path = octets.take depth) (inside : depth < family.size) (lower : depth ≠ root) :
    ∃ after net, tryRemoveLastChild node octets depth family root =
        .ok (after, some ⟨value, root, net⟩) ∧
      (labels family).Proper net ∧ key net = position := by
  rw [tryRemoveLastChild, if_neg lower]
  rcases below_cases sole.below with here | ⟨octet, deeper⟩
  · rw [here] at sole
    obtain ⟨noChild, held, others⟩ := canonical.of_sole_prefix sole
    have noChild' : childCount node = 0 := count_eq_zero.mpr noChild
    have live : node.prefixes position.2 ≠ none := by rw [held]; exact Option.some_ne_none value
    have onePrefix : prefixCount node = 1 :=
      count_eq_one.mpr ⟨position.2, live, others⟩
    obtain ⟨net, made, proper, isKey⟩ := prefixFromPath_eq sized inside position.2
    rw [noChild', onePrefix]
    rw [firstSet_eq tryNew_get live others]
    simp only [unwrap, ok_bind, removePrefix, held, made]
    refine ⟨_, net, rfl, proper, ?_⟩
    rw [isKey, ← along]
    exact here.symm
  · have only := sole.onlyBelow deeper
    have single := sole.deeper deeper
    obtain ⟨noPrefix, noChild⟩ := canonical.onlyBelow.mp only
    have live : node.children octet ≠ none := by
      intro absent
      exact single.not_vacant (canonical.child_eq_none.mp absent)
    have counts := (canonical.onlyBelow_iff_counts live).mp only
    have oneChild : childCount node = 1 := counts.1
    have noPrefix' : prefixCount node = 0 := counts.2
    rw [oneChild, noPrefix']
    rw [firstSet_eq octet_bit live noChild]
    simp only [unwrap, ok_bind]
    rcases (canonical.2 octet).of_sole single with ⟨isFringe, child⟩ |
      ⟨net, proper, isKey, _, child⟩
    · obtain ⟨net, made, proper, isKey⟩ := fringePrefix_eq sized inside octet
      rw [child]
      simp only [ok_bind, made]
      refine ⟨_, net, rfl, proper, ?_⟩
      rw [isKey, ← along]
      exact isFringe.symm
    · rw [child]
      exact ⟨_, net, rfl, proper, isKey⟩

end LastChild

variable {α : Type} {family : Family} {values changed : List UInt8 × BaseIndex → Option α}
  {height : Nat} {path : List UInt8} {octet : UInt8} {node next : Node α} {octets : List UInt8}
  {root : Nat} {info : RemovalInfo α} {net : IpNet} {position : List UInt8 × BaseIndex}

theorem octet_of_below (below : path ++ [octet] <+: (key net).1) :
    net.addr.octets[path.length]? = some octet := by
  have whole : path ++ [octet] <+: net.addr.octets := below.trans (List.take_prefix _ _)
  obtain ⟨rest, split⟩ := whole
  rw [← split, append_assoc, getElem?_append_right (Nat.le_refl _), Nat.sub_self]
  rfl

theorem compressAt_here (canonical : Canonical (labels family) values (height + 1) path node)
    (deep : path.length + (height + 1) = family.size)
    (same : ∀ k, path <+: k.1 → ¬ path ++ [octet] <+: k.1 → values k = changed k)
    (proper : (labels family).Proper info.nodePrefix)
    (sole : Sole changed (path ++ [octet]) (key info.nodePrefix) info.value)
    (here : info.compressionRootDepth = path.length) (child : Child (Node α) IpNet α) :
    ∃ after, compressAt info [] (insertChild node octet child).1 = .ok after ∧
      Canonical (labels family) changed (height + 1) path after := by
  -- the map without what is below the octet
  let bare : List UInt8 × BaseIndex → Option α := fun k =>
    if path ++ [octet] <+: k.1 then none else changed k
  have emptied : Canonical (labels family) bare (height + 1) path
      { node with children := update node.children octet none } := by
    apply canonical.setChild
    · intro k below outside
      rw [same k below outside]
      exact (if_neg outside).symm
    · intro k below
      exact if_pos below
  have below : path <+: (key info.nodePrefix).1 :=
    (prefix_append path [octet]).trans sole.below
  have limit : family.size ≤ maxDepth := size_le_maxDepth
  obtain ⟨after, ran, holds⟩ := insertRounds_canonical (maxDepth - path.length) info.value proper
    below deep (by omega) emptied
  refine ⟨after, ?_, holds.congr ?_⟩
  · rw [compressAt, here, octet_of_below sole.below]
    simp only [removeChild, insertChild, update_self, update_idem,
      Option.isNone_some, Bool.false_eq_true, if_false, insertInner, ran, ok_bind]
    rfl
  · intro k under
    by_cases isKey : k = key info.nodePrefix
    · rw [isKey, update_self, sole.holds]
    · rw [update_of_ne isKey]
      by_cases inside : path ++ [octet] <+: k.1
      · rw [sole.others k inside isKey]
        exact if_pos inside
      · exact if_neg inside

/-- What taking an entry out of the trie at a node leaves to be done: nothing, a compression at
the node or below it, or one further up for which a single entry is left here. -/
def Settled (family : Family) (changed : List UInt8 × BaseIndex → Option α) (height : Nat)
    (path : List UInt8) (root : Nat) (node : Node α) : Option (RemovalInfo α) → Prop
  | none => Canonical (labels family) changed height path node ∧ (path = [] ∨ Crowded changed path)
  | some info =>
    (labels family).Proper info.nodePrefix ∧ path <+: (key info.nodePrefix).1 ∧
      if info.compressionRootDepth < path.length then
        info.compressionRootDepth = root ∧ Sole changed path (key info.nodePrefix) info.value
      else (path = [] ∨ Crowded changed path) ∧
        ∃ after, compressAt info
            ((info.nodePrefix.addr.octets.take info.compressionRootDepth).drop path.length)
            node = .ok after ∧
          Canonical (labels family) changed height path after

/-- A node is the root, or below the compression root with two entries or more. -/
def Placed (values : List UInt8 × BaseIndex → Option α) (path : List UInt8) (root : Nat) : Prop :=
  path = [] ∧ root = 0 ∨ root < path.length ∧ Crowded values path

variable (placed : Placed values path root)
include placed

theorem Placed.deeper (crowded : Crowded values (path ++ [octet])) :
    Placed values (path ++ [octet]) (if isDeletable node then root else path.length) := by
  refine .inr ⟨?_, crowded⟩
  rw [length_append, length_singleton]
  rcases placed with ⟨_, zero⟩ | ⟨lower, _⟩
  · split <;> omega
  · split <;> omega

theorem Placed.settled_same (canonical : Canonical (labels family) values height path node)
    (absent : values position = none) :
    Settled family (update values position none) height path root node none := by
  rw [← absent, update_eq_self]
  exact ⟨canonical, placed.imp And.left And.right⟩

theorem Placed.settled_insert {value : α}
    (canonical : Canonical (labels family) (update values position (some value)) height path node) :
    Settled family (update values position (some value)) height path root node none :=
  ⟨canonical, placed.imp And.left fun held => held.2.insert position value⟩

omit placed

theorem Settled.lift {entry : Option α} {removal : Option (RemovalInfo α)}
    (canonical : Canonical (labels family) values (height + 1) path node)
    (present : node.children octet ≠ none) (deep : path.length + (height + 1) = family.size)
    (placed : Placed values path root) (below : path ++ [octet] <+: position.1)
    (settled : Settled family (update values position entry) height (path ++ [octet])
      (if isDeletable node then root else path.length) next removal) :
    Settled family (update values position entry) (height + 1) path root
      (insertChild node octet (.path next)).1 removal := by
  have same : ∀ k, path <+: k.1 → ¬ path ++ [octet] <+: k.1 →
      values k = update values position entry k := by
    intro k _ outside
    rw [update_of_ne]
    intro again
    exact outside (again ▸ below)
  have only : OnlyBelow (update values position entry) path octet ↔ isDeletable node = true := by
    have counts : isDeletable node = true ↔
        count node.children = 1 ∧ count node.prefixes = 0 := by
      rw [isDeletable, decide_eq_true_iff]
      rfl
    rw [counts, ← canonical.onlyBelow_iff_counts present]
    constructor
    · intro held k under outside
      rw [same k under outside]
      exact held k under outside
    · intro held k under outside
      rw [← same k under outside]
      exact held k under outside
  have notRoot : path ++ [octet] ≠ [] := by simp
  cases removal with
  | none =>
    obtain ⟨held, crowded⟩ := settled
    have crowded := crowded.resolve_left notRoot
    exact ⟨canonical.setChild_update below ⟨crowded, held⟩, .inr crowded.shallower⟩
  | some info =>
    obtain ⟨proper, below', rest⟩ := settled
    refine ⟨proper, (prefix_append path [octet]).trans below', ?_⟩
    rw [length_append, length_singleton] at rest
    by_cases above : info.compressionRootDepth < path.length + 1
    · rw [if_pos above] at rest
      obtain ⟨isRoot, sole⟩ := rest
      by_cases deletable : isDeletable node = true
      · rw [if_pos deletable] at isRoot
        rcases placed with ⟨top, zero⟩ | ⟨lower, _⟩
        · have here : info.compressionRootDepth = path.length := by
            rw [isRoot, zero, top, length_nil]
          rw [if_neg (by omega), here, drop_of_length_le (by simp)]
          exact ⟨.inl top, compressAt_here canonical deep same proper sole here _⟩
        · rw [if_pos (by omega)]
          exact ⟨isRoot, sole.shallower (only.mpr deletable)⟩
      · rw [if_neg deletable] at isRoot
        rw [if_neg (by omega), isRoot, drop_of_length_le (by simp)]
        exact ⟨.inr (sole.crowded (only.not.mpr deletable)),
          compressAt_here canonical deep same proper sole isRoot _⟩
    · rw [if_neg above] at rest
      obtain ⟨crowded, inner, ran, held⟩ := rest
      have crowded := crowded.resolve_left notRoot
      have walk : (info.nodePrefix.addr.octets.take info.compressionRootDepth).drop path.length =
          octet :: (info.nodePrefix.addr.octets.take info.compressionRootDepth).drop
            (path.length + 1) := by
        apply drop_eq_cons
        rw [getElem?_take_of_lt (by omega)]
        exact octet_of_below below'
      rw [if_neg (by omega), walk]
      refine ⟨.inr crowded.shallower, (insertChild node octet (.path inner)).1, ?_,
        canonical.setChild_update below ⟨crowded, held⟩⟩
      rw [compressAt]
      simp only [insertChild, update_self, ran, ok_bind, update_idem]
      rfl

theorem tryRemoveLastChild_settled (placed : Placed values path root)
    (sized : octets.length = family.size) (along : path = octets.take path.length)
    (inside : path.length < family.size)
    (canonical : Canonical (labels family) (update values position none) (height + 1) path node) :
    ∃ after removal, tryRemoveLastChild node octets path.length family root = .ok (after, removal) ∧
      Settled family (update values position none) (height + 1) path root after removal := by
  rcases placed with ⟨top, zero⟩ | ⟨lower, crowded⟩
  · refine ⟨node, none, ?_, canonical, .inl top⟩
    rw [tryRemoveLastChild, if_pos (by rw [top, zero, length_nil])]
  · rcases crowded.erase position with crowded' | ⟨left, value, sole⟩
    · exact ⟨node, none, tryRemoveLastChild_crowded canonical crowded', canonical, .inr crowded'⟩
    · obtain ⟨after, net, ran, proper, isKey⟩ := tryRemoveLastChild_sole canonical sole sized along
        inside (Nat.ne_of_gt lower)
      refine ⟨after, some ⟨value, root, net⟩, ran, proper, ?_, ?_⟩
      · rw [isKey]
        exact sole.below
      · rw [if_pos lower, isKey]
        exact ⟨rfl, sole⟩

theorem compressAt_bounded {walk : List UInt8} {after : Node α}
    (ran : compressAt info walk node = .ok after) :
    info.compressionRootDepth < info.nodePrefix.addr.octets.length := by
  induction walk generalizing node after with
  | nil =>
    rw [compressAt] at ran
    cases found : info.nodePrefix.addr.octets[info.compressionRootDepth]? with
    | none => rw [found] at ran; cases ran
    | some _ => exact (List.getElem?_eq_some_iff.mp found).1
  | cons octet walk ih =>
    rw [compressAt] at ran
    split at ran
    · rw [bind_ok] at ran
      obtain ⟨inner, ran, _⟩ := ran
      exact ih ran
    · cases ran

theorem Settled.compress (settled : Settled family changed height [] root node (some info)) :
    ∃ after, compressRemovalPath node info = .ok after ∧
      Canonical (labels family) changed height [] after := by
  obtain ⟨_, _, rest⟩ := settled
  obtain ⟨_, after, ran, held⟩ := rest
  rw [length_nil, drop_zero] at ran
  refine ⟨after, ?_, held⟩
  rw [compressRemovalPath, if_pos (Nat.le_of_lt (compressAt_bounded ran)), ran]

end TailscaleRs.Bart
