import Mathlib.Data.Fintype.Basic
import Mathlib.Data.Finset.Card

namespace TailscaleRs.StrideTrie

open Function List

section Arrays

variable {ι β : Type} [Fintype ι] (array : ι → Option β)

def occupied : Finset ι := Finset.univ.filter fun i => (array i).isSome

def count : Nat := (occupied array).card

variable {array}

theorem mem_occupied {i : ι} : i ∈ occupied array ↔ array i ≠ none := by
  simp [occupied, Option.isSome_iff_ne_none]

theorem count_eq_zero : count array = 0 ↔ ∀ i, array i = none := by
  rw [count, Finset.card_eq_zero, Finset.eq_empty_iff_forall_notMem]
  simp only [mem_occupied, not_not]

theorem occupied_eq_singleton (i : ι) :
    occupied array = {i} ↔ array i ≠ none ∧ ∀ j, j ≠ i → array j = none := by
  rw [Finset.eq_singleton_iff_unique_mem, mem_occupied]
  apply and_congr_right
  intro _
  apply forall_congr'
  intro j
  rw [mem_occupied]
  exact not_imp_comm

theorem count_eq_one : count array = 1 ↔ ∃ i, array i ≠ none ∧ ∀ j, j ≠ i → array j = none := by
  rw [count, Finset.card_eq_one]
  simp only [occupied_eq_singleton]

end Arrays

/-- What a node holds under a symbol: a further node, an entry deeper down, or the entry that
ends there. -/
inductive Child (Inner Label Value : Type) where
  | path (node : Inner)
  | leaf (label : Label) (value : Value)
  | fringe (value : Value)

/-- A node of a trie that reads a symbol at a time: the entries that end within the next symbol,
by their index, and the rest by that symbol. -/
structure Node (Symbol Index Label Value : Type) where
  prefixes : Index → Option Value
  children : Symbol → Option (Child (Node Symbol Index Label Value) Label Value)

section Keys

variable {Symbol Index Value : Type} (values : List Symbol × Index → Option Value)
  (path : List Symbol)

/-- No key below the path has a value. -/
def Vacant : Prop :=
  ∀ key, path <+: key.1 → values key = none

/-- One key below the path has a value. -/
structure Sole (values : List Symbol × Index → Option Value) (path : List Symbol)
    (key : List Symbol × Index) (value : Value) : Prop where
  below : path <+: key.1
  holds : values key = some value
  others : ∀ other, path <+: other.1 → other ≠ key → values other = none

/-- Two keys below the path have a value. -/
def Crowded : Prop :=
  ∃ first second, first ≠ second ∧ path <+: first.1 ∧ path <+: second.1 ∧
    values first ≠ none ∧ values second ≠ none

/-- Two maps agree on the keys below a path. -/
def AgreeBelow (values other : List Symbol × Index → Option Value) : Prop :=
  ∀ key, path <+: key.1 → values key = other key

variable {values other : List Symbol × Index → Option Value} {path : List Symbol}
  {key : List Symbol × Index} {value : Value} (agree : AgreeBelow path values other)
include agree

theorem AgreeBelow.deeper {longer : List Symbol} (extends_path : path <+: longer) :
    AgreeBelow longer values other :=
  fun key below => agree key (extends_path.trans below)

theorem AgreeBelow.vacant (vacant : Vacant values path) : Vacant other path :=
  fun key below => (agree key below).symm.trans (vacant key below)

theorem AgreeBelow.sole (sole : Sole values path key value) : Sole other path key value where
  below := sole.below
  holds := (agree key sole.below).symm.trans sole.holds
  others := fun k below different => (agree k below).symm.trans (sole.others k below different)

theorem AgreeBelow.crowded (crowded : Crowded values path) : Crowded other path := by
  obtain ⟨first, second, different, below, below', held, held'⟩ := crowded
  refine ⟨first, second, different, below, below', ?_, ?_⟩
  · rwa [← agree first below]
  · rwa [← agree second below']

omit agree

variable (sole : Sole values path key value)
include sole

theorem Sole.not_crowded : ¬ Crowded values path := by
  rintro ⟨first, second, different, below, below', held, held'⟩
  have isKey : ∀ k, path <+: k.1 → values k ≠ none → k = key := by
    intro k under live
    by_contra other
    exact live (sole.others k under other)
  exact different ((isKey first below held).trans (isKey second below' held').symm)

theorem Sole.not_vacant : ¬ Vacant values path := by
  intro vacant
  have absent := vacant key sole.below
  rw [sole.holds] at absent
  cases absent

theorem Sole.unique {key' : List Symbol × Index} {value' : Value}
    (again : Sole values path key' value') :
    key = key' ∧ value = value' := by
  have same : key = key' := by
    by_contra different
    have absent := again.others key sole.below different
    rw [sole.holds] at absent
    cases absent
  subst same
  exact ⟨rfl, Option.some.inj (sole.holds.symm.trans again.holds)⟩

omit sole

theorem Vacant.not_crowded (vacant : Vacant values path) : ¬ Crowded values path := by
  rintro ⟨first, _, _, below, _, held, _⟩
  exact held (vacant first below)

section Updates

variable [DecidableEq Symbol] [DecidableEq Index]

theorem agreeBelow_update {entry : Option Value} (outside : ¬ path <+: key.1) :
    AgreeBelow path values (update values key entry) := by
  intro k below
  rw [update_of_ne]
  intro same
  exact outside (same ▸ below)

theorem AgreeBelow.update (agree : AgreeBelow path values other) (entry : Option Value) :
    AgreeBelow path (update values key entry) (update other key entry) := by
  intro k below
  by_cases same : k = key
  · rw [same, update_self, update_self]
  · rw [update_of_ne same, update_of_ne same]
    exact agree k below

theorem Vacant.insert (vacant : Vacant values path) (below : path <+: key.1) (value : Value) :
    Sole (update values key (some value)) path key value where
  below := below
  holds := update_self key (some value) values
  others := by
    intro k under different
    rw [update_of_ne different]
    exact vacant k under

variable (sole : Sole values path key value)
include sole

theorem Sole.replace (fresh : Value) :
    Sole (update values key (some fresh)) path key fresh where
  below := sole.below
  holds := update_self key (some fresh) values
  others := by
    intro k under different
    rw [update_of_ne different]
    exact sole.others k under different

theorem Sole.insert {fresh : List Symbol × Index}
    (below : path <+: fresh.1) (different : fresh ≠ key) (entry : Value) :
    Crowded (update values fresh (some entry)) path := by
  refine ⟨fresh, key, different, below, sole.below, ?_, ?_⟩
  · rw [update_self]
    exact Option.some_ne_none entry
  · rw [update_of_ne different.symm, sole.holds]
    exact Option.some_ne_none value

omit sole in
theorem Crowded.insert (crowded : Crowded values path) (key : List Symbol × Index) (entry : Value) :
    Crowded (update values key (some entry)) path := by
  have stays : ∀ k, values k ≠ none → update values key (some entry) k ≠ none := by
    intro k held
    by_cases same : k = key
    · rw [same, update_self]
      exact Option.some_ne_none entry
    · rwa [update_of_ne same]
  obtain ⟨first, second, different, below, below', held, held'⟩ := crowded
  exact ⟨first, second, different, below, below', stays first held, stays second held'⟩

theorem Sole.agreeBelow :
    AgreeBelow path (update (fun _ => none) key (some value)) values := by
  intro k below
  by_cases same : k = key
  · rw [same, update_self, sole.holds]
  · rw [update_of_ne same, sole.others k below same]

theorem Sole.erase : Vacant (update values key none) path := by
  intro k below
  by_cases same : k = key
  · rw [same, update_self]
  · rw [update_of_ne same]
    exact sole.others k below same

omit sole

theorem Crowded.erase (crowded : Crowded values path) (key : List Symbol × Index) :
    Crowded (update values key none) path ∨
      ∃ left value, Sole (update values key none) path left value := by
  have survivor : ∃ k, path <+: k.1 ∧ update values key none k ≠ none := by
    obtain ⟨first, second, different, below, below', held, held'⟩ := crowded
    by_cases same : first = key
    · refine ⟨second, below', ?_⟩
      rwa [update_of_ne (fun again => different (same.trans again.symm))]
    · refine ⟨first, below, ?_⟩
      rwa [update_of_ne same]
  obtain ⟨left, below, live⟩ := survivor
  obtain ⟨value, holds⟩ := Option.ne_none_iff_exists'.mp live
  by_cases alone : ∀ k, path <+: k.1 → k ≠ left → update values key none k = none
  · exact .inr ⟨left, value, below, holds, alone⟩
  · push Not at alone
    obtain ⟨second, below', different, live'⟩ := alone
    exact .inl ⟨second, left, different, below', below, live', live⟩

end Updates

/-- A key below a path ends within the next symbol or continues with it. -/
theorem below_cases (below : path <+: key.1) :
    key = (path, key.2) ∨ ∃ symbol, path ++ [symbol] <+: key.1 := by
  obtain ⟨rest, whole⟩ := below
  cases rest with
  | nil =>
    apply Or.inl
    rw [append_nil] at whole
    exact Prod.ext whole.symm rfl
  | cons symbol rest =>
    apply Or.inr
    refine ⟨symbol, rest, ?_⟩
    rw [← whole, append_assoc, singleton_append]

theorem symbol_unique {first second : Symbol} {strides : List Symbol}
    (one : path ++ [first] <+: strides) (two : path ++ [second] <+: strides) :
    first = second := by
  have same : path ++ [first] = path ++ [second] := by
    apply (prefix_of_prefix_length_le one two _).eq_of_length
    · simp
    · simp
  simpa using same

theorem not_below_self {symbol : Symbol} : ¬ path ++ [symbol] <+: path := by
  intro below
  have bound := below.length_le
  rw [length_append, length_singleton] at bound
  omega

end Keys

/-- How entries are labelled: the key a label stands for and the index at which a key ends that
has no part of a symbol left. -/
structure Labels (Symbol Index Label : Type) where
  top : Index
  Proper : Label → Prop
  keyOf : Label → List Symbol × Index
  injective : ∀ first second, Proper first → Proper second → keyOf first = keyOf second →
    first = second

section Canonical

variable {Symbol Index Label Value : Type} (labels : Labels Symbol Index Label)
  (values : List Symbol × Index → Option Value)

/-- What a canonical trie holds at a path, given what its inner nodes have to satisfy. -/
def ChildFits (inner : Node Symbol Index Label Value → Prop) (path : List Symbol) :
    Option (Child (Node Symbol Index Label Value) Label Value) → Prop
  | none => Vacant values path
  | some (.fringe value) => Sole values path (path, labels.top) value
  | some (.leaf label value) =>
    labels.Proper label ∧ labels.keyOf label ≠ (path, labels.top) ∧
      Sole values path (labels.keyOf label) value
  | some (.path node) => Crowded values path ∧ inner node

/-- A node for the part of the map below its path, with at most so many symbols to read: single
entries are held where they diverge from all others and inner nodes hold two or more. -/
def Canonical : Nat → List Symbol → Node Symbol Index Label Value → Prop
  | 0, _, _ => False
  | height + 1, path, node =>
    (∀ index, node.prefixes index = values (path, index)) ∧
      ∀ symbol, ChildFits labels values (Canonical height (path ++ [symbol]))
        (path ++ [symbol]) (node.children symbol)

def Node.empty : Node Symbol Index Label Value := ⟨fun _ => none, fun _ => none⟩

variable {labels values} {other : List Symbol × Index → Option Value} {path : List Symbol}
  {height : Nat} {node : Node Symbol Index Label Value}
  {child : Option (Child (Node Symbol Index Label Value) Label Value)}
  {inner : Node Symbol Index Label Value → Prop}

theorem ChildFits.mono {inner weaker : Node Symbol Index Label Value → Prop}
    (fits : ChildFits labels values inner path child) (agree : AgreeBelow path values other)
    (weaken : ∀ node, inner node → weaker node) :
    ChildFits labels other weaker path child :=
  match child, fits with
  | none, vacant => agree.vacant vacant
  | some (.fringe _), sole => agree.sole sole
  | some (.leaf _ _), ⟨proper, different, sole⟩ => ⟨proper, different, agree.sole sole⟩
  | some (.path node), ⟨crowded, held⟩ => ⟨agree.crowded crowded, weaken node held⟩

theorem Canonical.congr (canonical : Canonical labels values height path node)
    (agree : AgreeBelow path values other) : Canonical labels other height path node := by
  induction height generalizing path node with
  | zero => exact canonical
  | succ height ih =>
    refine ⟨?_, ?_⟩
    · intro index
      rw [canonical.1 index, agree (path, index) (prefix_refl path)]
    · intro symbol
      have deeper := agree.deeper (prefix_append path [symbol])
      exact (canonical.2 symbol).mono deeper (fun inner held => ih held deeper)

variable (fits : ChildFits labels values inner path child)
include fits

theorem ChildFits.of_vacant (vacant : Vacant values path) : child = none :=
  match child, fits with
  | none, _ => rfl
  | some (.fringe _), sole => absurd vacant sole.not_vacant
  | some (.leaf _ _), ⟨_, _, sole⟩ => absurd vacant sole.not_vacant
  | some (.path _), ⟨crowded, _⟩ => absurd crowded vacant.not_crowded

theorem ChildFits.of_crowded (crowded : Crowded values path) :
    ∃ node, child = some (.path node) ∧ inner node :=
  match child, fits with
  | none, vacant => absurd crowded vacant.not_crowded
  | some (.fringe _), sole => absurd crowded sole.not_crowded
  | some (.leaf _ _), ⟨_, _, sole⟩ => absurd crowded sole.not_crowded
  | some (.path node), ⟨_, held⟩ => ⟨node, rfl, held⟩

theorem ChildFits.of_sole {key : List Symbol × Index} {value : Value}
    (sole : Sole values path key value) :
    (key = (path, labels.top) ∧ child = some (.fringe value)) ∨
      ∃ label, labels.Proper label ∧ labels.keyOf label = key ∧ key ≠ (path, labels.top) ∧
        child = some (.leaf label value) :=
  match child, fits with
  | none, vacant => absurd vacant sole.not_vacant
  | some (.path _), ⟨crowded, _⟩ => absurd crowded sole.not_crowded
  | some (.fringe _), found => by
      obtain ⟨rfl, rfl⟩ := sole.unique found
      exact .inl ⟨rfl, rfl⟩
  | some (.leaf label _), ⟨proper, different, found⟩ => by
      obtain ⟨rfl, rfl⟩ := sole.unique found
      exact .inr ⟨label, proper, rfl, different, rfl⟩

omit fits

theorem childFits_unique (unique : ∀ first second, inner first → inner second → first = second)
    {first second : Option (Child (Node Symbol Index Label Value) Label Value)}
    (one : ChildFits labels values inner path first)
    (two : ChildFits labels values inner path second) : first = second :=
  match first, one with
  | none, vacant => (two.of_vacant vacant).symm
  | some (.path node), ⟨crowded, held⟩ => by
      obtain ⟨node', rfl, held'⟩ := two.of_crowded crowded
      rw [unique node node' held held']
  | some (.fringe _), sole => by
      rcases two.of_sole sole with ⟨_, rfl⟩ | ⟨_, _, _, different, _⟩
      · rfl
      · exact absurd rfl different
  | some (.leaf label _), ⟨proper, different, sole⟩ => by
      rcases two.of_sole sole with ⟨same, _⟩ | ⟨label', proper', same, _, rfl⟩
      · exact absurd same different
      · rw [labels.injective label label' proper proper' same.symm]

theorem Canonical.unique {first second : Node Symbol Index Label Value}
    (one : Canonical labels values height path first)
    (two : Canonical labels values height path second) : first = second := by
  induction height generalizing path first second with
  | zero => exact one.elim
  | succ height ih =>
    have samePrefixes : first.prefixes = second.prefixes := by
      funext index
      rw [one.1 index, two.1 index]
    have sameChildren : first.children = second.children := by
      funext symbol
      exact childFits_unique (fun _ _ held held' => ih held held') (one.2 symbol) (two.2 symbol)
    cases first
    cases second
    cases samePrefixes
    cases sameChildren
    rfl

theorem canonical_empty (vacant : Vacant values path) :
    Canonical labels values (height + 1) path Node.empty := by
  refine ⟨?_, ?_⟩
  · intro index
    exact (vacant (path, index) (prefix_refl path)).symm
  · intro symbol key below
    exact vacant key ((prefix_append path [symbol]).trans below)

section Updates

variable [DecidableEq Symbol] {child : Option (Child (Node Symbol Index Label Value) Label Value)}
  {symbol : Symbol} {key : List Symbol × Index}

/-- A change below one symbol is a change of the child there. -/
theorem Canonical.setChild (canonical : Canonical labels values (height + 1) path node)
    {symbol : Symbol}
    (same : ∀ key, path <+: key.1 → ¬ path ++ [symbol] <+: key.1 → values key = other key)
    (fits : ChildFits labels other (Canonical labels other height (path ++ [symbol]))
      (path ++ [symbol]) child) :
    Canonical labels other (height + 1) path
      { node with children := update node.children symbol child } := by
  refine ⟨?_, ?_⟩
  · intro index
    rw [canonical.1 index]
    exact same (path, index) (prefix_refl path) not_below_self
  · intro symbol'
    by_cases here : symbol' = symbol
    · subst here
      dsimp only
      rwa [update_self]
    · dsimp only
      rw [update_of_ne here]
      have agree : AgreeBelow (path ++ [symbol']) values other := by
        intro key below
        apply same key ((prefix_append path [symbol']).trans below)
        intro also
        exact here (symbol_unique below also)
      exact (canonical.2 symbol').mono agree (fun inner held => held.congr agree)

variable [DecidableEq Index] (canonical : Canonical labels values (height + 1) path node)
include canonical

theorem Canonical.setChild_update (below : path ++ [symbol] <+: key.1) {entry : Option Value}
    (fits : ChildFits labels (update values key entry)
      (Canonical labels (update values key entry) height (path ++ [symbol]))
      (path ++ [symbol]) child) :
    Canonical labels (update values key entry) (height + 1) path
      { node with children := update node.children symbol child } := by
  apply canonical.setChild _ fits
  intro k _ outside
  rw [update_of_ne]
  intro same
  exact outside (same ▸ below)

theorem Canonical.eraseChild {value : Value} (below : path ++ [symbol] <+: key.1)
    (sole : Sole values (path ++ [symbol]) key value) :
    Canonical labels (update values key none) (height + 1) path
      { node with children := update node.children symbol none } :=
  canonical.setChild_update below sole.erase

theorem Canonical.setPrefix (index : Index) (entry : Option Value) :
    Canonical labels (update values (path, index) entry) (height + 1) path
      { node with prefixes := update node.prefixes index entry } := by
  refine ⟨?_, ?_⟩
  · intro index'
    by_cases here : index' = index
    · subst here
      dsimp only
      rw [update_self, update_self]
    · dsimp only
      rw [update_of_ne here, update_of_ne, canonical.1 index']
      intro same
      exact here (Prod.ext_iff.mp same).2
  · intro symbol
    have agree : AgreeBelow (path ++ [symbol]) values (update values (path, index) entry) :=
      agreeBelow_update not_below_self
    exact (canonical.2 symbol).mono agree (fun inner held => held.congr agree)

end Updates

section Occupancy

variable {symbol : Symbol} {key : List Symbol × Index} {value : Value}

theorem Canonical.child_eq_none (canonical : Canonical labels values (height + 1) path node) :
    node.children symbol = none ↔ Vacant values (path ++ [symbol]) := by
  constructor
  · intro absent
    have fits := canonical.2 symbol
    rwa [absent] at fits
  · exact (canonical.2 symbol).of_vacant

/-- All that a node holds is below one symbol. -/
def OnlyBelow (values : List Symbol × Index → Option Value) (path : List Symbol) (symbol : Symbol) :
    Prop :=
  ∀ key, path <+: key.1 → ¬ path ++ [symbol] <+: key.1 → values key = none

theorem Sole.onlyBelow (sole : Sole values path key value) (below : path ++ [symbol] <+: key.1) :
    OnlyBelow values path symbol := by
  intro k under outside
  apply sole.others k under
  intro same
  exact outside (same ▸ below)

theorem Sole.deeper (sole : Sole values path key value) (below : path ++ [symbol] <+: key.1) :
    Sole values (path ++ [symbol]) key value where
  below := below
  holds := sole.holds
  others := fun k under => sole.others k ((prefix_append path [symbol]).trans under)

theorem Sole.shallower (sole : Sole values (path ++ [symbol]) key value)
    (only : OnlyBelow values path symbol) : Sole values path key value where
  below := (prefix_append path [symbol]).trans sole.below
  holds := sole.holds
  others := by
    intro k under different
    by_cases below : path ++ [symbol] <+: k.1
    · exact sole.others k below different
    · exact only k under below

theorem Crowded.deeper (crowded : Crowded values path) (only : OnlyBelow values path symbol) :
    Crowded values (path ++ [symbol]) := by
  have inside : ∀ k, path <+: k.1 → values k ≠ none → path ++ [symbol] <+: k.1 := by
    intro k under held
    by_contra outside
    exact held (only k under outside)
  obtain ⟨first, second, different, below, below', held, held'⟩ := crowded
  exact ⟨first, second, different, inside first below held, inside second below' held', held, held'⟩

theorem Crowded.shallower (crowded : Crowded values (path ++ [symbol])) : Crowded values path := by
  obtain ⟨first, second, different, below, below', held, held'⟩ := crowded
  have extend := prefix_append path [symbol]
  exact ⟨first, second, different, extend.trans below, extend.trans below', held, held'⟩

theorem Sole.crowded (sole : Sole values (path ++ [symbol]) key value)
    (elsewhere : ¬ OnlyBelow values path symbol) : Crowded values path := by
  rw [OnlyBelow] at elsewhere
  push Not at elsewhere
  obtain ⟨other, below, outside, held⟩ := elsewhere
  refine ⟨key, other, ?_, (prefix_append path [symbol]).trans sole.below, below, ?_, held⟩
  · intro same
    exact outside (same ▸ sole.below)
  · rw [sole.holds]
    exact Option.some_ne_none value

variable (canonical : Canonical labels values (height + 1) path node)
include canonical

theorem Canonical.onlyBelow :
    OnlyBelow values path symbol ↔
      (∀ index, node.prefixes index = none) ∧
        ∀ symbol', symbol' ≠ symbol → node.children symbol' = none := by
  constructor
  · intro only
    refine ⟨?_, ?_⟩
    · intro index
      rw [canonical.1 index]
      exact only (path, index) (prefix_refl path) not_below_self
    · intro symbol' different
      rw [canonical.child_eq_none]
      intro k below
      apply only k ((prefix_append path [symbol']).trans below)
      intro also
      exact different (symbol_unique below also)
  · rintro ⟨noPrefix, noChild⟩ k below outside
    rcases below_cases below with here | ⟨symbol', deeper⟩
    · rw [here, ← canonical.1 k.2]
      exact noPrefix k.2
    · have different : symbol' ≠ symbol := by
        intro same
        exact outside (same ▸ deeper)
      exact canonical.child_eq_none.mp (noChild symbol' different) k deeper

theorem Canonical.of_sole_prefix {index : Index} (sole : Sole values path (path, index) value) :
    (∀ symbol, node.children symbol = none) ∧ node.prefixes index = some value ∧
      ∀ index', index' ≠ index → node.prefixes index' = none := by
  refine ⟨?_, ?_, ?_⟩
  · intro symbol
    rw [canonical.child_eq_none]
    intro k below
    apply sole.others k ((prefix_append path [symbol]).trans below)
    intro same
    rw [same] at below
    exact not_below_self below
  · rw [canonical.1 index, sole.holds]
  · intro index' different
    rw [canonical.1 index']
    apply sole.others (path, index') (prefix_refl path)
    intro same
    exact different (Prod.ext_iff.mp same).2

omit canonical

variable [Fintype Symbol] [Fintype Index]
include canonical

theorem Canonical.onlyBelow_iff_counts (present : node.children symbol ≠ none) :
    OnlyBelow values path symbol ↔ count node.children = 1 ∧ count node.prefixes = 0 := by
  rw [canonical.onlyBelow, count_eq_zero, count_eq_one]
  constructor
  · rintro ⟨noPrefix, noChild⟩
    exact ⟨⟨symbol, present, noChild⟩, noPrefix⟩
  · rintro ⟨⟨symbol', _, noChild⟩, noPrefix⟩
    refine ⟨noPrefix, ?_⟩
    have same : symbol = symbol' := by
      by_contra different
      exact present (noChild symbol different)
    rwa [same]

/-- A node that holds two keys or more does not hold them in a single immediate entry. -/
theorem Canonical.of_crowded (crowded : Crowded values path) :
    2 ≤ count node.prefixes + count node.children ∨
      count node.prefixes = 0 ∧ count node.children = 1 ∧
        ∀ symbol, node.children symbol ≠ none →
          ∃ inner, node.children symbol = some (.path inner) := by
  by_cases many : 2 ≤ count node.prefixes + count node.children
  · exact .inl many
  apply Or.inr
  have onlyChild : ∀ symbol, node.children symbol ≠ none → count node.prefixes = 0 →
      count node.children = 1 → ∃ inner, node.children symbol = some (.path inner) := by
    intro symbol present noPrefix oneChild
    have only := (canonical.onlyBelow_iff_counts present).mpr ⟨oneChild, noPrefix⟩
    obtain ⟨inner, isPath, _⟩ := (canonical.2 symbol).of_crowded (crowded.deeper only)
    exact ⟨inner, isPath⟩
  have someChild : count node.children ≠ 0 := by
    -- otherwise every live key is an entry of the node itself, and there is at most one
    intro noChild
    rw [count_eq_zero] at noChild
    have here : ∀ k, path <+: k.1 → values k ≠ none →
        k = (path, k.2) ∧ node.prefixes k.2 ≠ none := by
      intro k below held
      rcases below_cases below with here | ⟨symbol, deeper⟩
      · refine ⟨here, ?_⟩
        rwa [canonical.1 k.2, ← here]
      · exact absurd (canonical.child_eq_none.mp (noChild symbol) k deeper) held
    obtain ⟨first, second, different, below, below', held, held'⟩ := crowded
    have one := here first below held
    have two := here second below' held'
    have both : 1 < (occupied node.prefixes).card := by
      rw [Finset.one_lt_card]
      refine ⟨first.2, mem_occupied.mpr one.2, second.2,
        mem_occupied.mpr two.2, ?_⟩
      intro same
      apply different
      rw [one.1, two.1, same]
    rw [← count] at both
    omega
  refine ⟨?_, ?_, ?_⟩
  · omega
  · omega
  · intro symbol present
    exact onlyChild symbol present (by omega) (by omega)

end Occupancy

end Canonical

end TailscaleRs.StrideTrie
