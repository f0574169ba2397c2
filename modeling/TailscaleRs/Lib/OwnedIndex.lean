import Mathlib.Data.List.Basic

namespace TailscaleRs

open Function List

/-- What each key is found under, if anything. -/
abbrev OwnedIndex (K I : Type) : Type := K → Option I

namespace OwnedIndex

variable {K I V : Type}

def keysAt (keys : V → List K) (holder : I → Option V) (id : I) : List K :=
  (holder id).elim [] keys

theorem mem_keysAt {keys : V → List K} {holder : I → Option V} {id : I} {key : K} :
    key ∈ keysAt keys holder id ↔ ∃ value, holder id = some value ∧ key ∈ keys value := by
  rw [keysAt]
  cases holder id with
  | none => simp
  | some value => simp

section Properties

variable {idx : OwnedIndex K I} {keys : V → List K} {holder : I → Option V}

/-- Every entry names a holder that carries the key. -/
def Sound (idx : OwnedIndex K I) (keys : V → List K) (holder : I → Option V) : Prop :=
  ∀ key id, idx key = some id → key ∈ keysAt keys holder id

theorem sound_empty : Sound (fun _ => none) keys holder := by
  intro key id found
  cases found

/-- Each key of a holder of some kind is found, and under a holder of that kind, but for some
keys. -/
def Covers (idx : OwnedIndex K I) (keys : V → List K) (holder : I → Option V) (live : I → Prop)
    (aside : List K) : Prop :=
  ∀ id key, live id → key ∈ keysAt keys holder id →
    key ∈ aside ∨ ∃ owner, live owner ∧ idx key = some owner

def CoversAll (idx : OwnedIndex K I) (keys : V → List K) (holder : I → Option V) : Prop :=
  Covers idx keys holder (fun _ => True) []

theorem Covers.all {live : I → Prop} (covers : Covers idx keys holder live [])
    (others : ∀ id, ¬ live id → holder id = none) : CoversAll idx keys holder := by
  intro id key _ member
  have alive : live id := by
    by_contra dead
    rw [keysAt, others id dead] at member
    cases member
  rcases covers id key alive member with none | ⟨owner, _, found⟩
  · exact .inl none
  · exact .inr ⟨owner, trivial, found⟩

/-- Keys that are about to be entered again may be set aside. -/
theorem CoversAll.setAside {id : I} {aside : List K} (covers : CoversAll idx keys holder)
    (again : ∀ other key, other ≠ id → key ∈ keysAt keys holder other → idx key = some id →
      key ∈ aside) :
    Covers idx keys holder (· ≠ id) aside := by
  intro other key apart member
  rcases covers other key trivial member with none | ⟨owner, _, found⟩
  · cases none
  · by_cases mine : owner = id
    · exact .inl (again other key apart member (mine ▸ found))
    · exact .inr ⟨owner, mine, found⟩

theorem CoversAll.found (covers : CoversAll idx keys holder) (sound : Sound idx keys holder)
    {id : I} {key : K} (member : key ∈ keysAt keys holder id)
    (unshared : ∀ other, key ∈ keysAt keys holder other → other = id) : idx key = some id := by
  rcases covers id key trivial member with none | ⟨owner, _, found⟩
  · cases none
  · rw [found, unshared owner (sound key owner found)]

end Properties

section Updates

variable [DecidableEq I] {keys : V → List K} {holder : I → Option V} {id other : I}

theorem keysAt_update_self (value : Option V) :
    keysAt keys (update holder id value) id = value.elim [] keys := by
  rw [keysAt, update_self]

theorem keysAt_update_of_ne (apart : other ≠ id) (value : Option V) :
    keysAt keys (update holder id value) other = keysAt keys holder other := by
  rw [keysAt, keysAt, update_of_ne apart]

theorem keysAt_replace {old new : V} (held : holder id = some old) (same : keys old = keys new) :
    keysAt keys (update holder id (some new)) = keysAt keys holder := by
  funext other
  by_cases is : other = id
  · subst is
    rw [keysAt_update_self, keysAt, held]
    exact same.symm
  · rw [keysAt_update_of_ne is]

end Updates

section Single

variable [DecidableEq K]

def claim (idx : OwnedIndex K I) (keys : List K) (id : I) : OwnedIndex K I :=
  keys.foldl (fun idx key => update idx key (some id)) idx

theorem claim_apply (idx : OwnedIndex K I) (keys : List K) (id : I) (key : K) :
    claim idx keys id key = if key ∈ keys then some id else idx key := by
  induction keys generalizing idx with
  | nil => simp [claim]
  | cons first rest ih =>
    rw [claim, foldl_cons, ← claim, ih]
    by_cases later : key ∈ rest
    · simp [later]
    · by_cases is : key = first
      · simp [is]
      · simp [later, is]

variable [DecidableEq I]

/-- Retract a key, but only while it belongs to this owner. -/
def deleteIfOwned (idx : OwnedIndex K I) (key : K) (id : I) : OwnedIndex K I :=
  if idx key = some id then update idx key none else idx

def retract (idx : OwnedIndex K I) (keys : List K) (id : I) : OwnedIndex K I :=
  keys.foldl (fun idx key => deleteIfOwned idx key id) idx

theorem deleteIfOwned_apply (idx : OwnedIndex K I) (key other : K) (id : I) :
    deleteIfOwned idx key id other =
      if other = key ∧ idx other = some id then none else idx other := by
  by_cases is : other = key
  · subst is
    by_cases owned : idx other = some id
    · simp [deleteIfOwned, owned]
    · simp [deleteIfOwned, owned]
  · by_cases owned : idx key = some id
    · simp [deleteIfOwned, owned, is]
    · simp [deleteIfOwned, owned, is]

theorem retract_apply (idx : OwnedIndex K I) (keys : List K) (id : I) (key : K) :
    retract idx keys id key = if key ∈ keys ∧ idx key = some id then none else idx key := by
  induction keys generalizing idx with
  | nil => simp [retract]
  | cons first rest ih =>
    rw [retract, foldl_cons, ← retract, ih, deleteIfOwned_apply]
    by_cases owned : idx key = some id
    · by_cases is : key = first
      · simp [is]
      · simp [is, owned]
    · simp [owned]

variable {idx : OwnedIndex K I} {keys : V → List K} {holder : I → Option V} {id : I}

theorem Sound.retract (sound : Sound idx keys holder) (id : I) :
    Sound (retract idx (keysAt keys holder id) id) keys (update holder id none) := by
  intro key owner found
  rw [retract_apply] at found
  split at found
  · cases found
  · rename_i spared
    have carried := sound key owner found
    have apart : owner ≠ id := by
      rintro rfl
      exact spared ⟨carried, found⟩
    rwa [keysAt_update_of_ne apart]

theorem Sound.claim (sound : Sound idx keys (update holder id none)) (value : V) :
    Sound (claim idx (keys value) id) keys (update holder id (some value)) := by
  intro key owner found
  rw [claim_apply] at found
  split at found
  · rename_i member
    cases found
    rwa [keysAt_update_self]
  · have carried := sound key owner found
    have apart : owner ≠ id := by
      rintro rfl
      rw [keysAt_update_self] at carried
      cases carried
    rw [keysAt_update_of_ne apart] at carried ⊢
    exact carried

theorem Covers.retract {live : I → Prop} {aside : List K}
    (covers : Covers idx keys holder live aside) (dead : ¬ live id) :
    Covers (retract idx (keysAt keys holder id) id) keys (update holder id none) live aside := by
  intro other key alive member
  have apart : other ≠ id := by
    rintro rfl
    exact dead alive
  rw [keysAt_update_of_ne apart] at member
  refine (covers other key alive member).imp_right ?_
  rintro ⟨owner, alive', found⟩
  have owned : idx key ≠ some id := by
    intro mine
    rw [found] at mine
    cases mine
    exact dead alive'
  refine ⟨owner, alive', ?_⟩
  rw [retract_apply, if_neg (fun both => owned both.2), found]

theorem Covers.claim {value : V}
    (covers : Covers idx keys (update holder id none) (· ≠ id) (keys value)) :
    CoversAll (claim idx (keys value) id) keys (update holder id (some value)) := by
  intro other key _ member
  refine .inr ?_
  by_cases mine : key ∈ keys value
  · exact ⟨id, trivial, by rw [claim_apply, if_pos mine]⟩
  · have apart : other ≠ id := by
      rintro rfl
      rw [keysAt_update_self] at member
      exact mine member
    rw [keysAt_update_of_ne apart,
      ← keysAt_update_of_ne apart none] at member
    rcases covers other key apart member with aside | ⟨owner, _, found⟩
    · exact absurd aside mine
    · exact ⟨owner, trivial, by rw [claim_apply, if_neg mine, found]⟩

/-- What becomes of an index when a holder takes the place of what was there: nothing if the keys
are the same, else the old keys are retracted and the new ones claimed. -/
def Replaced (idx after : OwnedIndex K I) (keys : V → List K) (holder : I → Option V) (id : I)
    (new : V) : Prop :=
  (after = idx ∧ ∃ old, holder id = some old ∧ keys old = keys new) ∨
    after = OwnedIndex.claim (OwnedIndex.retract idx (keysAt keys holder id) id) (keys new) id

variable {after : OwnedIndex K I}

theorem Sound.replaced {new : V} (sound : Sound idx keys holder)
    (replaced : Replaced idx after keys holder id new) :
    Sound after keys (update holder id (some new)) := by
  rcases replaced with ⟨rfl, old, held, same⟩ | rfl
  · intro key owner found
    rw [keysAt_replace held same]
    exact sound key owner found
  · exact (sound.retract id).claim new

/-- Other holders are found as before, if what the index says of their keys was not the holder's
to take, or is the new holder's again. -/
theorem CoversAll.replaced {new : V} (covers : CoversAll idx keys holder)
    (again : ∀ other key, other ≠ id → key ∈ keysAt keys holder other → idx key = some id →
      key ∈ keys new)
    (replaced : Replaced idx after keys holder id new) :
    CoversAll after keys (update holder id (some new)) := by
  rcases replaced with ⟨rfl, old, held, same⟩ | rfl
  · intro other key _ member
    rw [keysAt_replace held same] at member
    exact covers other key trivial member
  · exact ((covers.setAside again).retract (fun apart => apart rfl)).claim

/-- Each key of a holder is found under it, and nothing else is found. -/
def Owned (idx : OwnedIndex K I) (keys : V → List K) (holder : I → Option V) : Prop :=
  ∀ id key, key ∈ keysAt keys holder id ↔ idx key = some id

theorem Owned.replaced {new : V} (owned : Owned idx keys holder)
    (free : ∀ key ∈ keys new, ∀ other, idx key = some other → other = id)
    (replaced : Replaced idx after keys holder id new) :
    Owned after keys (update holder id (some new)) := by
  intro other key
  have own := owned id key
  have all := owned other key
  rcases replaced with ⟨rfl, old, held, same⟩ | rfl
  · rwa [keysAt_replace held same]
  · rw [claim_apply, retract_apply]
    by_cases is : other = id <;> grind [keysAt_update_self, keysAt_update_of_ne]

theorem Owned.retract (owned : Owned idx keys holder) (id : I) :
    Owned (retract idx (keysAt keys holder id) id) keys (update holder id none) := by
  intro other key
  have own := owned id key
  have all := owned other key
  rw [retract_apply]
  by_cases is : other = id <;> grind [keysAt_update_self, keysAt_update_of_ne]

end Single

section Rows

def rowAt (idx : OwnedIndex K (List I)) (key : K) : List I := (idx key).getD []

variable [DecidableEq K]

/-- Add a holder at the end of a row. -/
def enter (id : I) (idx : OwnedIndex K (List I)) (key : K) : OwnedIndex K (List I) :=
  update idx key (some (rowAt idx key ++ [id]))

variable [DecidableEq I]

/-- Take a holder from a row, and the row with its last holder. -/
def leave (id : I) (idx : OwnedIndex K (List I)) (key : K) : OwnedIndex K (List I) :=
  update idx key
    (if ((rowAt idx key).filter (· ≠ id)).isEmpty then none
    else some ((rowAt idx key).filter (· ≠ id)))

variable (idx : OwnedIndex K (List I))
include idx

theorem count_enter (id owner : I) (key other : K) :
    (rowAt (enter id idx key) other).count owner =
      (rowAt idx other).count owner + if other = key ∧ owner = id then 1 else 0 := by
  by_cases is : other = key
  · subst is
    by_cases mine : owner = id
    · simp [enter, rowAt, mine]
    · simp [enter, rowAt, mine, Ne.symm mine]
  · simp [enter, rowAt, is]

theorem rowAt_leave (id : I) (key other : K) :
    rowAt (leave id idx key) other =
      if other = key then (rowAt idx key).filter (· ≠ id) else rowAt idx other := by
  by_cases is : other = key
  · subst is
    rw [if_pos rfl, rowAt, leave, update_self]
    split
    · rename_i none
      rw [isEmpty_iff.mp none]
      rfl
    · rfl
  · rw [if_neg is, rowAt, leave, update_of_ne is, rowAt]

theorem count_leave (id owner : I) (key other : K) :
    (rowAt (leave id idx key) other).count owner =
      if other = key ∧ owner = id then 0 else (rowAt idx other).count owner := by
  rw [rowAt_leave]
  by_cases is : other = key
  · subst is
    by_cases mine : owner = id
    · simp [mine, count_eq_zero]
    · simp [mine, count_filter]
  · simp [is]

theorem count_enters (id owner : I) (keys : List K) (key : K) :
    (rowAt (keys.foldl (enter id) idx) key).count owner =
      (rowAt idx key).count owner + if owner = id then keys.count key else 0 := by
  induction keys generalizing idx with
  | nil => simp
  | cons first rest ih =>
    rw [foldl_cons, ih, count_enter, count_cons]
    by_cases is : key = first
    · by_cases mine : owner = id
      · simp [is, mine]
        omega
      · simp [mine]
    · by_cases mine : owner = id
      · simp [is, mine, Ne.symm is]
      · simp [mine]

theorem count_leaves (id owner : I) (keys : List K) (key : K) :
    (rowAt (keys.foldl (leave id) idx) key).count owner =
      if key ∈ keys ∧ owner = id then 0 else (rowAt idx key).count owner := by
  induction keys generalizing idx with
  | nil => simp
  | cons first rest ih =>
    rw [foldl_cons, ih, count_leave]
    by_cases mine : owner = id
    · by_cases is : key = first
      · simp [is, mine]
      · simp [is, mine]
    · simp [mine]

omit idx

variable {idx : OwnedIndex K (List I)} {keys : V → List K} {holder : I → Option V} {id : I}

/-- A holder stands in a row as often as it lists the key. -/
def Counted (idx : OwnedIndex K (List I)) (keys : V → List K) (holder : I → Option V) : Prop :=
  ∀ key id, (rowAt idx key).count id = (keysAt keys holder id).count key

theorem Counted.mem_row (counted : Counted idx keys holder) {key : K} :
    id ∈ rowAt idx key ↔ key ∈ keysAt keys holder id := by
  rw [← count_pos_iff, counted, count_pos_iff]

theorem Counted.leaves (counted : Counted idx keys holder) (id : I) :
    Counted ((keysAt keys holder id).foldl (leave id) idx) keys (update holder id none) := by
  intro key owner
  rw [count_leaves]
  by_cases mine : owner = id
  · subst mine
    rw [keysAt_update_self]
    split
    · rfl
    · rename_i absent
      rw [counted, count_eq_zero.mpr fun member => absent ⟨member, rfl⟩]
      rfl
  · rw [if_neg fun both => mine both.2, keysAt_update_of_ne mine, counted]

theorem Counted.enters (counted : Counted idx keys (update holder id none)) (value : V) :
    Counted ((keys value).foldl (enter id) idx) keys (update holder id (some value)) := by
  intro key owner
  rw [count_enters, counted]
  by_cases mine : owner = id
  · subst mine
    rw [keysAt_update_self, keysAt_update_self, if_pos rfl]
    simp
  · rw [if_neg mine, keysAt_update_of_ne mine, keysAt_update_of_ne mine]
    rfl

end Rows

end OwnedIndex

end TailscaleRs
