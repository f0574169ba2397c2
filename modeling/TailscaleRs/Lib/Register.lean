import Mathlib.Data.List.Nodup

namespace TailscaleRs

open List

namespace Register

section Distinct

variable {α κ : Type} (key : α → κ)

def Distinct (list : List α) : Prop := (list.map key).Nodup

variable {key} {list : List α} {a : α}

theorem Distinct.map {f : α → α} (keeps : ∀ a, key (f a) = key a) (distinct : Distinct key list) :
    Distinct key (list.map f) := by
  have same : key ∘ f = key := funext keeps
  rw [Distinct, map_map, same]
  exact distinct

variable (distinct : Distinct key list)
include distinct

theorem Distinct.sublist {kept : List α} (sub : kept.Sublist list) : Distinct key kept :=
  List.Nodup.sublist (sub.map key) distinct

theorem Distinct.push (new : ∀ b ∈ list, key b ≠ key a) : Distinct key (list ++ [a]) := by
  rw [Distinct, map_append, nodup_append]
  refine ⟨distinct, nodup_singleton _, fun x member y last => ?_⟩
  obtain ⟨b, held, rfl⟩ := mem_map.mp member
  rw [map_singleton, mem_singleton] at last
  rw [last]
  exact new b held

theorem Distinct.eq {b : α} (held : a ∈ list) (held' : b ∈ list) (same : key a = key b) : a = b :=
  inj_on_of_nodup_map distinct held held' same

end Distinct

section Find

variable {α κ : Type} [DecidableEq κ] (key : α → κ) (list : List α) (k : κ)

def find : Option α := list.find? fun a => key a = k

def alter (f : α → α) : List α :=
  list.map fun a => if key a = k then f a else a

def drop : List α := list.filter fun a => key a ≠ k

variable {key} {list : List α} {k : κ} {a : α}

theorem mem_of_find (found : find key list k = some a) : a ∈ list :=
  mem_of_find?_eq_some found

theorem key_of_find (found : find key list k = some a) : key a = k := by
  simpa using find?_some found

theorem find_eq_none : find key list k = none ↔ ∀ a ∈ list, key a ≠ k := by
  simp [find]

theorem find_cons : find key (a :: list) k = if key a = k then some a else find key list k := by
  by_cases is : key a = k <;> simp [find, is]

theorem Distinct.find (distinct : Distinct key list) (member : a ∈ list) :
    find key list (key a) = some a := by
  induction list with
  | nil => cases member
  | cons first rest ih =>
    obtain ⟨apart, tail⟩ := nodup_cons.mp distinct
    rw [find_cons]
    rcases mem_cons.mp member with rfl | later
    · rw [if_pos rfl]
    · have other : key first ≠ key a := fun same =>
        apart (same ▸ mem_map_of_mem later)
      rw [if_neg other, ih tail later]

variable {f : α → α} {j : κ}

theorem find_map (keeps : ∀ a, key (f a) = key a) :
    find key (list.map f) k = (find key list k).map f := by
  induction list with
  | nil => rfl
  | cons first rest ih =>
    rw [map_cons, find_cons, find_cons, keeps, ih]
    split <;> rfl

theorem find_alter (keeps : ∀ a, key (f a) = key a) :
    find key (alter key list j f) k =
      if k = j then (find key list k).map f else find key list k := by
  rw [alter, find_map (fun a => by split <;> simp [keeps])]
  split
  case isTrue same =>
    subst same
    cases found : find key list k with
    | none => rfl
    | some a => simp [key_of_find found]
  case isFalse other =>
    cases found : find key list k with
    | none => rfl
    | some a => simp [key_of_find found, other]

theorem find_filter {p : α → Bool} (distinct : Distinct key list) :
    find key (list.filter p) k = (find key list k).filter p := by
  induction list with
  | nil => rfl
  | cons first rest ih =>
    obtain ⟨apart, tail⟩ := nodup_cons.mp distinct
    rw [filter_cons, find_cons]
    by_cases is : key first = k
    · have absent : Register.find key rest k = none :=
        find_eq_none.mpr fun b member same =>
          apart (is.trans same.symm ▸ mem_map_of_mem member)
      rw [if_pos is, Option.filter_some]
      split
      case isTrue => rw [find_cons, if_pos is]
      case isFalse => rw [ih tail, absent, Option.filter_none]
    · rw [if_neg is]
      split
      case isTrue => rw [find_cons, if_neg is, ih tail]
      case isFalse => exact ih tail

theorem find_drop : find key (drop key list j) k = if k = j then none else find key list k := by
  induction list with
  | nil => simp [drop, find]
  | cons first rest ih =>
    rw [drop, filter_cons, find_cons]
    by_cases gone : key first = j
    · rw [if_neg (by simp [gone]), ← drop, ih]
      by_cases same : k = j
      · rw [if_pos same, if_pos same]
      · rw [if_neg same, if_neg same, if_neg fun is => same (is.symm.trans gone)]
    · rw [if_pos (by simp [gone]), find_cons, ← drop, ih]
      by_cases is : key first = k
      · rw [if_pos is, if_pos is, if_neg fun same => gone (is.trans same)]
      · rw [if_neg is, if_neg is]

theorem find_push :
    find key (list ++ [a]) k = (find key list k).or (if key a = k then some a else none) := by
  by_cases is : key a = k <;> simp [find, is]

theorem Distinct.alter (keeps : ∀ a, key (f a) = key a) (distinct : Distinct key list) :
    Distinct key (alter key list j f) :=
  distinct.map fun a => by split <;> simp [keeps]

theorem Distinct.drop (distinct : Distinct key list) : Distinct key (drop key list j) :=
  distinct.sublist filter_sublist

theorem mem_alter {b : α} :
    b ∈ alter key list j f ↔ ∃ a ∈ list, (if key a = j then f a else a) = b :=
  mem_map

/-- An altered record was the one with this key, or another. -/
theorem of_mem_alter {b : α} (member : b ∈ alter key list j f) :
    ∃ a ∈ list, key a = j ∧ b = f a ∨ key a ≠ j ∧ b = a := by
  obtain ⟨a, held, rfl⟩ := mem_alter.mp member
  grind

theorem mem_drop : a ∈ drop key list j ↔ a ∈ list ∧ key a ≠ j := by
  simp [drop]

end Find

end Register

end TailscaleRs
