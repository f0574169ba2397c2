import TailscaleRs.Bart.Modify

namespace TailscaleRs.Bart

open SimpleTable StrideTrie.Node

open Net (Family IpNet)
open StrideTrie (Canonical)

variable {α : Type}

/-- What a table is for: a value for each prefix it has a route for. -/
abbrev Routes (α : Type) : Type := IpNet → Option α

section Specification

/-- What an edit makes of a route and what it returns. -/
def Edit.effect (old : Option α) : Edit α → Option α × Option α
  | .insert _ val => (some val, old)
  | .remove _ => (none, old)
  | .modify _ f => ((f.effect old).1, (f.effect old).2.1)

variable (routes : Routes α) (edit : Edit α)

def Edit.onRoutes : Routes α × Option α :=
  let effect := edit.effect (routes edit.net.trunc)
  (Function.update routes edit.net.trunc effect.1, effect.2)

theorem Edit.onRoutes_fst :
    (edit.onRoutes routes).1 =
      Function.update routes edit.net.trunc (edit.effect (routes edit.net.trunc)).1 := rfl

def Call.onRoutes : Call α → Routes α × Option α
  | .edit change => change.onRoutes routes
  | .clear => (fun _ => none, none)

def routesAfter (edits : List (Edit α)) : Routes α :=
  edits.foldl (fun routes edit => (edit.onRoutes routes).1) routes

/-- The routes after a sequence of calls and what each of them returned. -/
def calledRoutes (routes : Routes α) : List (Call α) → Routes α × List (Option α)
  | [] => (routes, [])
  | call :: rest =>
    let (routes, ret) := call.onRoutes routes
    let (routes, rets) := calledRoutes routes rest
    (routes, ret :: rets)

/-- The first prefix covers all of the second. -/
def Covers (net other : IpNet) : Prop :=
  net.prefixLen ≤ other.prefixLen ∧ net.contains other.addr = true

variable (eligible : IpNet → Prop)

/-- The value of the longest of some routes, if there is one. -/
def Longest : Option α → Prop
  | none => ∀ net, eligible net → routes net = none
  | some value => ∃ net, eligible net ∧ routes net = some value ∧
      ∀ other, eligible other → routes other ≠ none → other.prefixLen ≤ net.prefixLen

/-- The values of all of some routes, longest first. -/
def Descending (found : List α) : Prop :=
  ∃ nets : List (IpNet × α), found = nets.map Prod.snd ∧
    (∀ net value, (net, value) ∈ nets ↔ eligible net ∧ routes net = some value) ∧
    nets.Pairwise fun first second => second.1.prefixLen < first.1.prefixLen

/-- How many routes of a family there are. -/
def Counts (family : Family) (n : Nat) : Prop :=
  ∃ nets : Finset IpNet, (∀ net, net ∈ nets ↔ net.addr.family = family ∧ routes net ≠ none) ∧
    nets.card = n

/-- All that can be read from a table is what the routes say. -/
structure Represents (table : SplitStackTable α) (routes : Routes α) : Prop where
  size4 : Counts routes .v4 table.size4
  size6 : Counts routes .v6 table.size6
  lookupPrefixExact : ∀ net, net.Truncated → table.lookupPrefixExact net = .ok (routes net)
  lookup : ∀ ip, ∃ found, table.lookup ip = .ok found ∧
    Longest routes (fun net => net.contains ip = true) found
  lookupAll : ∀ ip, ∃ found, table.lookupAll ip = .ok found ∧
    Descending routes (fun net => net.contains ip = true) found
  contains : ∀ ip, table.contains ip = true ↔ ∃ net, net.contains ip = true ∧ routes net ≠ none
  lookupPrefix : ∀ net, ∃ found, table.lookupPrefix net = .ok found ∧
    Longest routes (fun other => Covers other net) found

end Specification

section Entries

variable {family : Family} {routes : Routes α} {net : IpNet}

open Classical in
/-- The routes of one family, by the place the trie keeps them at. -/
noncomputable def entries (family : Family) (routes : Routes α) :
    List UInt8 × BaseIndex → Option α :=
  fun position =>
    if held : ∃ net, (labels family).Proper net ∧ key net = position then routes held.choose
    else none

theorem entries_key (proper : (labels family).Proper net) :
    entries family routes (key net) = routes net := by
  have held : ∃ other, (labels family).Proper other ∧ key other = key net := ⟨net, proper, rfl⟩
  rw [entries, dif_pos held]
  have chosen := held.choose_spec
  rw [(labels family).injective _ _ chosen.1 proper chosen.2]

theorem entries_none {position : List UInt8 × BaseIndex}
    (unheld : ¬ ∃ net, (labels family).Proper net ∧ key net = position) :
    entries family routes position = none := by
  rw [entries, dif_neg unheld]

theorem entries_empty : entries family (fun _ => none : Routes α) = fun _ => none := by
  funext position
  rw [entries]
  split <;> rfl

theorem entries_update (same : net.addr.family = family) (value : Option α) :
    entries family (Function.update routes net.trunc value) =
      Function.update (entries family routes) (key net) value := by
  have proper : (labels family).Proper net.trunc := ⟨same, net.truncated_trunc⟩
  funext position
  by_cases held : ∃ other, (labels family).Proper other ∧ key other = position
  · obtain ⟨other, proper', rfl⟩ := held
    rw [entries_key proper']
    by_cases is : other = net.trunc
    · rw [is, Function.update_self, key_trunc, Function.update_self]
    · have apart : key other ≠ key net := by
        intro sameKey
        rw [← key_trunc net] at sameKey
        exact is ((labels family).injective _ _ proper' proper sameKey)
      rw [Function.update_of_ne is, Function.update_of_ne apart, entries_key proper']
  · have apart : position ≠ key net := by
      rintro rfl
      exact held ⟨net.trunc, proper, key_trunc net⟩
    rw [Function.update_of_ne apart, entries_none held, entries_none held]

theorem entries_update_other (other : net.addr.family ≠ family) (value : Option α) :
    entries family (Function.update routes net.trunc value) = entries family routes := by
  funext position
  by_cases held : ∃ other, (labels family).Proper other ∧ key other = position
  · obtain ⟨route, proper, rfl⟩ := held
    rw [entries_key proper, entries_key proper, Function.update_of_ne]
    rintro rfl
    exact other proper.1
  · rw [entries_none held, entries_none held]

end Entries

section Counting

variable {family : Family} {routes : Routes α} {n : Nat}

/-- How a count changes with one route. -/
def resize (n : Nat) : Option α → Option α → Nat
  | none, some _ => n + 1
  | some _, none => n - 1
  | _, _ => n

variable (counts : Counts routes family n)
include counts

variable (net : IpNet)

theorem Counts.update (same : net.addr.family = family) (value : Option α) :
    Counts (Function.update routes net value) family (resize n (routes net) value) := by
  obtain ⟨nets, lists, card⟩ := counts
  have listed : net ∈ nets ↔ routes net ≠ none := by simp [lists, same]
  have others : ∀ other, other ≠ net →
      (other ∈ nets ↔ other.addr.family = family ∧ Function.update routes net value other ≠ none) :=
    fun other different => by rw [Function.update_of_ne different, lists]
  cases value with
  | some value =>
    refine ⟨Insert.insert net nets, ?_, ?_⟩
    · intro other
      by_cases is : other = net
      · simp [is, same]
      · simp only [Finset.mem_insert, is, false_or, others other is]
    · cases old : routes net with
      | none => rw [Finset.card_insert_of_notMem (by rw [listed, old]; simp), card]; rfl
      | some _ => rw [Finset.insert_eq_of_mem (by rw [listed, old]; simp), card]; rfl
  | none =>
    refine ⟨nets.erase net, ?_, ?_⟩
    · intro other
      by_cases is : other = net
      · simp [is]
      · simp only [Finset.mem_erase, ne_eq, is, not_false_eq_true, true_and, others other is]
    · cases old : routes net with
      | none => rw [Finset.erase_eq_of_notMem (by rw [listed, old]; simp), card]; rfl
      | some _ => rw [Finset.card_erase_of_mem (by rw [listed, old]; simp), card]; rfl

theorem Counts.update_other (other : net.addr.family ≠ family) (value : Option α) :
    Counts (Function.update routes net value) family n := by
  obtain ⟨nets, lists, card⟩ := counts
  refine ⟨nets, ?_, card⟩
  intro route
  rw [lists]
  apply and_congr_right
  intro same
  have different : route ≠ net := by
    rintro rfl
    exact other same
  rw [Function.update_of_ne different]

theorem Counts.positive (same : net.addr.family = family) (held : routes net ≠ none) : n ≠ 0 := by
  obtain ⟨nets, lists, card⟩ := counts
  rw [← card]
  exact Finset.card_ne_zero_of_mem ((lists net).mpr ⟨same, held⟩)

end Counting

section Edits

variable {family : Family} {routes : Routes α} {edit : Edit α} {node : Node α}
  {table : SimpleTable α}

theorem Edit.onTrie_canonical {values : List UInt8 × BaseIndex → Option α} (edit : Edit α)
    (same : edit.net.addr.family = family)
    (canonical : Canonical (labels family) values family.size [] node) :
    ∃ after, edit.onTrie node = .ok (after, (edit.effect (values (key edit.net))).2) ∧
      Canonical (labels family)
        (Function.update values (key edit.net) (edit.effect (values (key edit.net))).1)
        family.size [] after := by
  cases edit with
  | insert net val => exact insert_canonical same canonical
  | remove net => exact remove_canonical same canonical
  | modify net f =>
    obtain ⟨after, ran, held⟩ := modify_canonical (f := f) same canonical
    refine ⟨after, ?_, held⟩
    show (Bart.modify node net f >>= _) = _
    rw [show Bart.modify node net f = _ from ran]
    rfl

theorem entries_net (same : edit.net.addr.family = family) :
    entries family routes (key edit.net) = routes edit.net.trunc := by
  have proper : (labels family).Proper edit.net.trunc := ⟨same, edit.net.truncated_trunc⟩
  rw [← key_trunc, entries_key proper]

theorem Edit.onTrie_routes (edit : Edit α) (same : edit.net.addr.family = family)
    (canonical : Canonical (labels family) (entries family routes) family.size [] node) :
    ∃ after, edit.onTrie node = .ok (after, (edit.onRoutes routes).2) ∧
      Canonical (labels family) (entries family (edit.onRoutes routes).1) family.size [] after := by
  obtain ⟨after, ran, held⟩ := edit.onTrie_canonical same canonical
  rw [entries_net same] at ran held
  refine ⟨after, ran, ?_⟩
  rw [edit.onRoutes_fst, entries_update same]
  exact held

/-- A table of one family holds the routes of it. -/
structure Holds (family : Family) (routes : Routes α) (table : SimpleTable α) : Prop where
  canonical : Canonical (labels family) (entries family routes) family.size [] table.root
  counts : Counts routes family table.size

theorem holds_empty : Holds family (fun _ => none : Routes α) empty where
  canonical := by
    rw [entries_empty]
    cases family <;> exact StrideTrie.canonical_empty (fun _ _ => rfl)
  counts := ⟨∅, by simp, rfl⟩

theorem decrement_eq {n : Nat} (positive : n ≠ 0) : decrement n = .ok (n - 1) :=
  if_neg positive

section Sizes

variable {root : Node α} {net : IpNet} {old : Option α}

theorem SimpleTable.insert_eq {val : α} (ran : Bart.insert table.root net val = .ok (root, old)) :
    table.insert net val = .ok (⟨root, resize table.size old (some val)⟩, old) := by
  have again : Bart.insert table.root net.trunc val = .ok (root, old) := by
    rw [Bart.insert, net.truncated_trunc]
    exact ran
  rw [insert, again, ok_bind]
  cases old <;> rfl

theorem SimpleTable.remove_eq (ran : Bart.remove table.root net = .ok (root, old))
    (positive : old ≠ none → table.size ≠ 0) :
    table.remove net = .ok (⟨root, resize table.size old none⟩, old) := by
  rw [remove, ran, ok_bind]
  cases old with
  | none => rfl
  | some value =>
    rw [decrement_eq (positive (by simp))]
    rfl

theorem SimpleTable.modify_eq {f : Modifier α}
    (ran : Bart.modify table.root net f = .ok (root, (f.effect old).2))
    (positive : old ≠ none → table.size ≠ 0) :
    table.modify net f =
      .ok (⟨root, resize table.size old (f.effect old).1⟩, (f.effect old).2.1) := by
  rw [modify, ran, ok_bind]
  cases old with
  | none =>
    rw [Modifier.effect]
    cases f.absent <;> rfl
  | some value =>
    rw [Modifier.effect]
    cases f.present value with
    | mk value decided =>
      cases decided with
      | insert fresh => rfl
      | noop => rfl
      | remove =>
        rw [decrement_eq (positive (by simp))]
        rfl

end Sizes

theorem Edit.onSimple_eq (edit : Edit α) (same : edit.net.addr.family = family)
    (holds : Holds family routes table) :
    ∃ root, edit.onTrie table.root = .ok (root, (edit.onRoutes routes).2) ∧
      edit.onSimple table = .ok (⟨root, resize table.size (routes edit.net.trunc)
        (edit.effect (routes edit.net.trunc)).1⟩, (edit.onRoutes routes).2) := by
  have positive : routes edit.net.trunc ≠ none → table.size ≠ 0 :=
    holds.counts.positive edit.net.trunc same
  have held : entries family routes (key edit.net) = routes edit.net.trunc := entries_net same
  cases edit with
  | insert net val =>
    obtain ⟨root, ran, _⟩ := insert_canonical same holds.canonical
    rw [held] at ran
    exact ⟨root, ran, insert_eq ran⟩
  | remove net =>
    obtain ⟨root, ran, _⟩ := remove_canonical same holds.canonical
    rw [held] at ran
    exact ⟨root, ran, remove_eq ran positive⟩
  | modify net f =>
    obtain ⟨root, ran, _⟩ := modify_canonical (f := f) same holds.canonical
    rw [held] at ran
    refine ⟨root, ?_, modify_eq ran positive⟩
    show (Bart.modify table.root net f >>= _) = _
    rw [show Bart.modify table.root net f = _ from ran]
    rfl

theorem Edit.onSimple_holds (edit : Edit α) (same : edit.net.addr.family = family)
    (holds : Holds family routes table) :
    ∃ after, edit.onSimple table = .ok (after, (edit.onRoutes routes).2) ∧
      Holds family (edit.onRoutes routes).1 after := by
  obtain ⟨root, ran, canonical⟩ := edit.onTrie_routes same holds.canonical
  obtain ⟨root', ran', kept⟩ := edit.onSimple_eq same holds
  rw [ran] at ran'
  cases ran'
  exact ⟨_, kept, canonical, holds.counts.update edit.net.trunc same _⟩

theorem Holds.other (holds : Holds family routes table) (other : edit.net.addr.family ≠ family) :
    Holds family (edit.onRoutes routes).1 table where
  canonical := by
    rw [edit.onRoutes_fst, entries_update_other other]
    exact holds.canonical
  counts := holds.counts.update_other edit.net.trunc other _

end Edits

open StrideTrie (Canonical Crowded)

variable {α : Type}

variable {family : Family} {routes : Routes α} {node : Node α}

inductive Inside : Node α → Node α → Prop where
  | child {node inner : Node α} {octet : UInt8} (held : node.children octet = some (.path inner)) :
      Inside node inner
  | deeper {node inner last : Node α} {octet : UInt8}
      (held : node.children octet = some (.path inner)) (below : Inside inner last) :
      Inside node last

/-- A node with two entries or more, or with one that is a further node. -/
def Compressed (node : Node α) : Prop :=
  2 ≤ prefixCount node + childCount node ∨
    prefixCount node = 0 ∧ childCount node = 1 ∧
      ∀ octet, node.children octet ≠ none → ∃ inner, node.children octet = some (.path inner)

theorem compressed_inside {values : List UInt8 × BaseIndex → Option α} {height : Nat}
    {path : List UInt8} {inner : Node α}
    (canonical : Canonical (labels family) values height path node) (inside : Inside node inner) :
    Compressed inner := by
  -- every node below holds two routes or more, so the shape follows from its own canonicity
  have below : ∀ {height path node inner octet}, node.children octet = some (.path inner) →
      Canonical (labels family) values height path node →
      ∃ height, Crowded values (path ++ [octet]) ∧
        Canonical (labels family) values height (path ++ [octet]) inner := by
    intro height path node inner octet held canonical
    cases height with
    | zero => exact canonical.elim
    | succ height =>
      have fits := canonical.2 octet
      rw [held] at fits
      exact ⟨height, fits⟩
  induction inside generalizing height path with
  | child held =>
    obtain ⟨height, crowded, canonical'⟩ := below held canonical
    cases height with
    | zero => exact canonical'.elim
    | succ height => exact canonical'.of_crowded crowded
  | deeper held _ ih =>
    obtain ⟨height, _, canonical'⟩ := below held canonical
    exact ih canonical'

theorem edited_canonical (edits : List (Edit α))
    (same : ∀ edit ∈ edits, edit.net.addr.family = family)
    (canonical : Canonical (labels family) (entries family routes) family.size [] node) :
    ∃ after, edited node edits = .ok after ∧
      Canonical (labels family) (entries family (routesAfter routes edits)) family.size []
        after := by
  induction edits generalizing node routes with
  | nil => exact ⟨node, rfl, canonical⟩
  | cons edit rest ih =>
    obtain ⟨mid, ran, held⟩ := edit.onTrie_routes (same edit List.mem_cons_self) canonical
    obtain ⟨after, ran', held'⟩ :=
      ih (fun later member => same later (List.mem_cons_of_mem edit member)) held
    refine ⟨after, ?_, held'⟩
    rw [edited, List.foldlM_cons, ran, ok_bind]
    exact ran'

/-- The trie depends on the routes alone, not on how they came about, and has no node that
could be left out. -/
theorem trie_history_independent (family : Family) (first second : List (Edit α))
    (sameFamily : ∀ edit ∈ first ++ second, edit.net.addr.family = family)
    (sameRoutes : routesAfter (fun _ => none) first = routesAfter (fun _ => none) second) :
    ∃ root, edited empty first = .ok root ∧
      edited empty second = .ok root ∧
      ∀ inner, Inside root inner → Compressed inner := by
  have empty : Canonical (labels family) (entries family (fun _ => none : Routes α)) family.size []
      empty := holds_empty.canonical
  obtain ⟨root, ran, held⟩ := edited_canonical first
    (fun edit member => sameFamily edit (List.mem_append_left second member)) empty
  obtain ⟨other, ran', held'⟩ := edited_canonical second
    (fun edit member => sameFamily edit (List.mem_append_right first member)) empty
  rw [← sameRoutes] at held'
  rw [held'.unique held] at ran'
  exact ⟨root, ran, ran', fun inner inside => compressed_inside held inside⟩

/-- Adding a route and taking it away again leaves nothing behind. -/
theorem trie_history_independent_removed :
    let kept : IpNet := ⟨⟨.v4, [10, 0, 0, 0], rfl⟩, 8, by decide⟩
    let gone : IpNet := ⟨⟨.v4, [10, 1, 0, 0], rfl⟩, 16, by decide⟩
    ∃ root, edited empty [.insert kept 1] = .ok root ∧
      edited empty [.insert kept 1, .insert gone 2, .remove gone] = .ok root ∧
      ∀ inner, Inside root inner → Compressed inner := by
  intro kept gone
  apply trie_history_independent .v4 [.insert kept 1] [.insert kept 1, .insert gone 2, .remove gone]
  · simp [Edit.net, kept, gone]
  · have apart : gone.trunc ≠ kept.trunc := by decide
    simp only [routesAfter, List.foldl, Edit.onRoutes, Edit.effect, Edit.net, Function.update_idem]
    rw [Function.update_comm apart.symm]
    congr 1
    funext net
    simp [Function.update_apply]

end TailscaleRs.Bart
