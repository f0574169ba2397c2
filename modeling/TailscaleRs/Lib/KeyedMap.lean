import Mathlib.Data.List.AList
import Mathlib.Data.List.Sort

namespace TailscaleRs

open List AList

/-- A map from keys to values, whatever the order of its entries. -/
abbrev KeyedMap (K V : Type) : Type := AList fun _ : K => V

namespace KeyedMap

variable {K V W R : Type}

/-- By the entries, so that it evaluates. -/
instance decEq [DecidableEq K] [DecidableEq V] : DecidableEq (KeyedMap K V) := fun _ _ =>
  decidable_of_iff _ AList.ext_iff.symm

section Values

def mapWithKey (f : K → V → W) (map : KeyedMap K V) : KeyedMap K W where
  entries := map.entries.map fun entry => ⟨entry.1, f entry.1 entry.2⟩
  nodupKeys := by
    have keys := map.nodupKeys
    rw [List.NodupKeys, List.keys] at keys ⊢
    rw [List.map_map]
    exact keys

def mapVal (f : V → W) (map : KeyedMap K V) : KeyedMap K W where
  entries := map.entries.map fun entry => ⟨entry.1, f entry.2⟩
  nodupKeys := by
    have keys := map.nodupKeys
    rw [List.NodupKeys, List.keys] at keys ⊢
    rw [List.map_map]
    exact keys

variable [DecidableEq K]

theorem lookup_mapWithKey (f : K → V → W) (map : KeyedMap K V) (key : K) :
    lookup key (mapWithKey f map) = (lookup key map).map (f key) := by
  show (map.entries.map fun entry => (⟨entry.1, f entry.1 entry.2⟩ : Σ _ : K, W)).dlookup key =
    (map.entries.dlookup key).map (f key)
  induction map.entries with
  | nil => rfl
  | cons entry rest ih =>
    obtain ⟨at', value⟩ := entry
    by_cases is : key = at'
    · subst is
      rw [map_cons, dlookup_cons_eq, dlookup_cons_eq]
      rfl
    · rw [map_cons, dlookup_cons_ne _ _ is, dlookup_cons_ne _ _ is, ih]

theorem lookup_mapVal (f : V → W) (map : KeyedMap K V) (key : K) :
    lookup key (mapVal f map) = (lookup key map).map f :=
  lookup_mapWithKey (fun _ => f) map key

end Values

section Change

def retain (keep : K → V → Bool) (map : KeyedMap K V) : KeyedMap K V where
  entries := map.entries.filter fun entry => keep entry.1 entry.2
  nodupKeys := map.nodupKeys.sublist filter_sublist

variable [DecidableEq K] (map : KeyedMap K V)

def alter (key : K) (f : V → V) : KeyedMap K V :=
  match map.lookup key with
  | none => map
  | some value => map.insert key (f value)

/-- `entry(key).or_insert(fallback)`, and a change to what is there then. -/
def upsert (key : K) (fallback : V) (f : V → V) : KeyedMap K V :=
  map.insert key (f ((map.lookup key).getD fallback))

theorem lookup_retain (keep : K → V → Bool) (map : KeyedMap K V) (key : K) :
    lookup key (retain keep map) = (lookup key map).filter (keep key) := by
  obtain ⟨entries, distinct⟩ := map
  show (entries.filter fun entry => keep entry.1 entry.2).dlookup key =
    (entries.dlookup key).filter (keep key)
  induction entries with
  | nil => rfl
  | cons entry rest ih =>
    obtain ⟨at', value⟩ := entry
    obtain ⟨apart, later⟩ := nodupKeys_cons.mp distinct
    by_cases is : key = at'
    · subst is
      have absent : (rest.filter fun entry => keep entry.1 entry.2).dlookup key = none := by
        rw [ih later, dlookup_eq_none.mpr apart, Option.filter_none]
      rw [dlookup_cons_eq, Option.filter_some, filter_cons]
      split
      case isTrue => rw [dlookup_cons_eq]
      case isFalse => exact absent
    · rw [dlookup_cons_ne _ _ is, filter_cons]
      split
      case isTrue => rw [dlookup_cons_ne _ _ is, ih later]
      case isFalse => exact ih later

theorem lookup_alter (at' : K) (f : V → V) {key : K} :
    lookup key (alter map at' f) =
      if key = at' then (lookup key map).map f else lookup key map := by
  rw [alter]
  by_cases is : key = at'
  · subst is
    cases held : lookup key map <;> simp [held]
  · cases lookup at' map <;> simp [is]

theorem mem_entries_iff {map : KeyedMap K V} {key : K} {value : V} :
    (⟨key, value⟩ : Σ _ : K, V) ∈ map.entries ↔ lookup key map = some value :=
  mem_lookup_iff.symm

end Change

section Amend

variable [DecidableEq K] (map : KeyedMap K V) (changes : List (Σ _ : K, Option V))

/-- Set the keys that come with a value, remove those that come without. -/
def amend : KeyedMap K V :=
  changes.foldl
    (fun map change =>
      match change.2 with
      | none => map.erase change.1
      | some value => map.insert change.1 value) map

theorem lookup_amend_one (change : Σ _ : K, Option V) (key : K) :
    lookup key (amend map [change]) =
      if key = change.1 then change.2 else lookup key map := by
  obtain ⟨at', value⟩ := change
  by_cases is : key = at'
  · subst is
    cases value <;> simp [amend]
  · cases value <;> simp [amend, is]

theorem lookup_amend (distinct : changes.NodupKeys) (key : K) :
    lookup key (amend map changes) = (changes.dlookup key).getD (lookup key map) := by
  induction changes generalizing map with
  | nil => rfl
  | cons change rest ih =>
    obtain ⟨apart, distinct⟩ := nodupKeys_cons.mp distinct
    have first : amend map (change :: rest) = amend (amend map [change]) rest := rfl
    rw [first, ih _ distinct, lookup_amend_one]
    by_cases is : key = change.1
    · subst is
      rw [if_pos rfl, dlookup_eq_none.mpr apart, dlookup_cons_eq]
      rfl
    · rw [if_neg is, dlookup_cons_ne _ _ is]

end Amend

section Walk

variable [LinearOrder K]

def walk (map : KeyedMap K V) : List K := map.keys.insertionSort (· ≤ ·)

theorem mem_walk_iff {map : KeyedMap K V} {key : K} :
    key ∈ walk map ↔ AList.lookup key map ≠ none := by
  rw [walk, mem_insertionSort, ← AList.mem_keys, ← AList.lookup_isSome, Option.isSome_iff_ne_none]

/-- What a walk yields: the keys that yield nothing do not count. -/
theorem flatMap_walk (map : KeyedMap K V) (f : K → List R) :
    (walk map).flatMap f = ((walk map).filter fun key => !(f key).isEmpty).flatMap f := by
  generalize walk map = keys
  induction keys with
  | nil => rfl
  | cons key rest ih =>
    rw [flatMap_cons, ih, filter_cons]
    cases yields : f key with
    | nil => simp
    | cons _ _ => simp [yields]

theorem flatMap_walk_congr (first : KeyedMap K V) (second : KeyedMap K W) (f g : K → List R)
    (same : f = g)
    (both : ∀ key, f key ≠ [] → (lookup key first ≠ none ↔ lookup key second ≠ none)) :
    (walk first).flatMap f = (walk second).flatMap g := by
  subst same
  rw [flatMap_walk first, flatMap_walk second]
  congr 1
  have sorted {U : Type} (map : KeyedMap K U) :
      ((walk map).filter fun key => !(f key).isEmpty).SortedLE :=
    (sortedLE_insertionSort.pairwise.sublist filter_sublist).sortedLE
  have distinct {U : Type} (map : KeyedMap K U) :
      ((walk map).filter fun key => !(f key).isEmpty).Nodup :=
    ((perm_insertionSort _ map.keys).nodup_iff.mpr map.nodupKeys).filter _
  refine ((perm_ext_iff_of_nodup (distinct first) (distinct second)).mpr ?_).eq_of_sortedLE
    (sorted first) (sorted second)
  intro key
  rw [mem_filter, mem_filter, mem_walk_iff, mem_walk_iff]
  constructor
  · rintro ⟨held, yields⟩
    have yields' : f key ≠ [] := by simpa using yields
    exact ⟨(both key yields').mp held, yields⟩
  · rintro ⟨held, yields⟩
    have yields' : f key ≠ [] := by simpa using yields
    exact ⟨(both key yields').mpr held, yields⟩

end Walk

end KeyedMap

end TailscaleRs
