import TailscaleRs.Lib.Bitset
import TailscaleRs.Lib.Except

namespace TailscaleRs.InvertedIndex

open Function

variable {K V : Type}

section Pairs

variable (pairs : K → Nat → Prop)

def withPair (key : K) (id : Nat) : K → Nat → Prop :=
  fun k i => pairs k i ∨ k = key ∧ i = id

def withPairs (keys : List K) (id : Nat) : K → Nat → Prop :=
  fun k i => pairs k i ∨ k ∈ keys ∧ i = id

def withoutPair (key : K) (id : Nat) : K → Nat → Prop :=
  fun k i => pairs k i ∧ ¬ (k = key ∧ i = id)

def withoutPairs (keys : List K) (id : Nat) : K → Nat → Prop :=
  fun k i => pairs k i ∧ ¬ (k ∈ keys ∧ i = id)

variable (key : K) (keys : List K) (id : Nat)

theorem withPairs_eq_foldl :
    withPairs pairs keys id = keys.foldl (fun pairs key => withPair pairs key id) pairs := by
  induction keys generalizing pairs with
  | nil =>
    funext k i
    simp [withPairs]
  | cons key rest ih =>
    rw [List.foldl_cons, ← ih]
    funext k i
    simp only [withPairs, withPair, List.mem_cons, eq_iff_iff]
    tauto

theorem withPairs_singleton : withPairs pairs [key] id = withPair pairs key id :=
  withPairs_eq_foldl pairs [key] id

theorem withoutPairs_eq_foldl :
    withoutPairs pairs keys id = keys.foldl (fun pairs key => withoutPair pairs key id) pairs := by
  induction keys generalizing pairs with
  | nil =>
    funext k i
    simp [withoutPairs]
  | cons key rest ih =>
    rw [List.foldl_cons, ← ih]
    funext k i
    simp only [withoutPairs, withoutPair, List.mem_cons, eq_iff_iff]
    tauto

theorem withoutPairs_singleton : withoutPairs pairs [key] id = withoutPair pairs key id :=
  withoutPairs_eq_foldl pairs [key] id

/-- The ids of the holders of a key. -/
def Entries (keys : V → List K) (holder : Nat → Option V) : K → Nat → Prop :=
  fun k i => ∃ value, holder i = some value ∧ k ∈ keys value

variable {keysOf : V → List K} {holder : Nat → Option V}

theorem entries_none : Entries keysOf (fun _ => none) = fun _ _ => False := by
  funext k i
  simp [Entries]

variable {id : Nat} {value : V}

theorem entries_add (vacant : holder id = none) (value : V) :
    Entries keysOf (update holder id (some value)) =
      withPairs (Entries keysOf holder) (keysOf value) id := by
  funext k i
  simp only [Entries, withPairs, eq_iff_iff]
  by_cases same : i = id
  · subst same
    simp [vacant]
  · simp [same]

theorem entries_again (held : holder id = some value) :
    withPairs (Entries keysOf holder) (keysOf value) id = Entries keysOf holder := by
  funext k i
  simp only [Entries, withPairs, eq_iff_iff]
  apply or_iff_left_of_imp
  rintro ⟨member, rfl⟩
  exact ⟨value, held, member⟩

theorem entries_remove (held : holder id = some value) :
    Entries keysOf (update holder id none) =
      withoutPairs (Entries keysOf holder) (keysOf value) id := by
  funext k i
  simp only [Entries, withoutPairs, eq_iff_iff]
  by_cases same : i = id
  · subst same
    simp [held]
  · simp [same]

end Pairs

section Keyed

/-- Each key has the set of its ids, and none if there are no ids. -/
def Keyed (get : K → Option Bitset) (pairs : K → Nat → Prop) : Prop :=
  ∀ k, match get k with
    | none => ∀ i, ¬ pairs k i
    | some ids => (∃ i, pairs k i) ∧ ∀ i, ids.test i = true ↔ pairs k i

def enter (id : Nat) : Option Bitset → Option Bitset
  | none => some (Bitset.empty.set id)
  | some ids => some (ids.set id)

def leave (id : Nat) : Option Bitset → Option Bitset
  | none => none
  | some ids => if (ids.clear id).isEmpty then none else some (ids.clear id)

variable {get : K → Option Bitset} {pairs : K → Nat → Prop} {key : K} {id : Nat}
  (keyed : Keyed get pairs)
include keyed

theorem Keyed.pairs_iff :
    pairs key id ↔ ∃ ids, get key = some ids ∧ ids.test id = true := by
  have here := keyed key
  cases held : get key with
  | none =>
    rw [held] at here
    simp [here id]
  | some ids =>
    rw [held] at here
    simp [here.2 id]

theorem Keyed.get_ne_none : get key ≠ none ↔ ∃ i, pairs key i := by
  have here := keyed key
  cases held : get key with
  | none =>
    rw [held] at here
    simpa using here
  | some ids =>
    rw [held] at here
    simpa using here.1

omit keyed in
theorem keyed_empty : Keyed (fun _ : K => none) fun _ _ => False := fun _ _ none => none

variable [DecidableEq K]

theorem Keyed.enter (key : K) (id : Nat) :
    Keyed (update get key (enter id (get key))) (withPair pairs key id) := by
  intro k
  by_cases same : k = key
  · subst same
    have here := keyed k
    rw [update_self]
    cases held : get k with
    | none =>
      rw [held] at here
      refine ⟨⟨id, .inr ⟨rfl, rfl⟩⟩, ?_⟩
      intro i
      simp [withPair, here i]
    | some ids =>
      rw [held] at here
      refine ⟨⟨id, .inr ⟨rfl, rfl⟩⟩, ?_⟩
      intro i
      simp [withPair, here.2 i]
  · have unchanged : withPair pairs key id k = pairs k := by
      funext i
      simp [withPair, same]
    rw [update_of_ne same, unchanged]
    exact keyed k

theorem Keyed.leave (key : K) (id : Nat) :
    Keyed (update get key (leave id (get key))) (withoutPair pairs key id) := by
  intro k
  by_cases same : k = key
  · subst same
    have here := keyed k
    rw [update_self]
    cases held : get k with
    | none =>
      rw [held] at here
      exact fun i pair => here i pair.1
    | some ids =>
      rw [held] at here
      have left : ∀ i, (ids.clear id).test i = true ↔ withoutPair pairs k id k i := by
        intro i
        rw [Bitset.test_clear, here.2 i]
        simp [withoutPair]
      rw [InvertedIndex.leave]
      cases none : (ids.clear id).isEmpty with
      | true =>
        rw [if_pos rfl]
        intro i pair
        rw [← left i, Bitset.isEmpty_iff.mp none i] at pair
        cases pair
      | false =>
        rw [if_neg (by simp)]
        refine ⟨?_, left⟩
        obtain ⟨i, member⟩ := Bitset.isEmpty_eq_false.mp none
        exact ⟨i, (left i).mp member⟩
  · have unchanged : withoutPair pairs key id k = pairs k := by
      funext i
      simp [withoutPair, same]
    rw [update_of_ne same, unchanged]
    exact keyed k

end Keyed

end TailscaleRs.InvertedIndex
