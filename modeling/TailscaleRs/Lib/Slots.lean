import TailscaleRs.Lib.Bitset
import Mathlib.Data.List.DropRight

namespace TailscaleRs.Slots

open Function List Option Bitset

variable {β : Type} (entries : List (Option β))

def slot (id : Nat) : Option β := entries[id]?.join

/-- The free list holds the ids of the empty slots within the table. -/
def Vacancies (free : Bitset) : Prop :=
  ∀ id, free.test id = true ↔ entries[id]? = some none

def pop (free : Bitset) : Option (Nat × Bitset) :=
  free.firstSet.map fun id => (id, free.clear id)

def trim : List (Option β) := entries.rdropWhile isNone

variable {entries : List (Option β)} {free : Bitset} {id : Nat}

theorem slot_eq_some {value : β} :
    slot entries id = some value ↔ entries[id]? = some (some value) := by
  rw [slot, join_eq_some_iff]

theorem slot_of_le (beyond : entries.length ≤ id) : slot entries id = none := by
  rw [slot, getElem?_eq_none beyond]
  rfl

theorem lt_of_slot {value : β} (held : slot entries id = some value) : id < entries.length := by
  by_contra beyond
  rw [slot_of_le (Nat.le_of_not_lt beyond)] at held
  cases held

theorem slot_set (bound : id < entries.length) (value : Option β) :
    slot (entries.set id value) = update (slot entries) id value := by
  funext other
  by_cases same : other = id
  · subst same
    rw [slot, getElem?_set_self bound, update_self]
    rfl
  · rw [slot, getElem?_set_ne (Ne.symm same), update_of_ne same, slot]

theorem slot_append {value : Option β} :
    slot (entries ++ [value]) = update (slot entries) entries.length value := by
  funext other
  rw [slot]
  rcases Nat.lt_trichotomy other entries.length with below | same | above
  · rw [getElem?_append_left below, update_of_ne (Nat.ne_of_lt below), slot]
  · subst same
    rw [getElem?_append_right (Nat.le_refl _), Nat.sub_self, update_self]
    rfl
  · rw [update_of_ne (Nat.ne_of_gt above), slot_of_le (Nat.le_of_lt above),
      getElem?_eq_none (by simp; omega)]
    rfl

theorem slot_trim : slot (trim entries) = slot entries := by
  induction entries using reverseRecOn with
  | nil => rfl
  | append_singleton front last ih =>
    rw [trim, rdropWhile_concat]
    cases last with
    | some value => rfl
    | none =>
      rw [isNone_none, if_pos rfl, ← trim, ih, slot_append]
      funext id
      by_cases same : id = front.length
      · rw [same, update_self, slot_of_le (Nat.le_refl _)]
      · rw [update_of_ne same]

namespace Vacancies

theorem empty : Vacancies ([] : List (Option β)) empty := fun id => by simp

variable (vacancies : Vacancies entries free)
include vacancies

theorem lt (member : free.test id = true) : id < entries.length := by
  have found := (vacancies id).mp member
  exact (List.getElem?_eq_some_iff.mp found).1

theorem slot_eq_none (member : free.test id = true) : slot entries id = none := by
  rw [slot, (vacancies id).mp member]
  rfl

theorem pop_some {rest : Bitset} (popped : pop free = some (id, rest)) :
    id < entries.length ∧ slot entries id = none ∧ (∀ other, rest.test other = true → id < other) ∧
      ∀ value : β, Vacancies (entries.set id (some value)) rest := by
  rw [pop, map_eq_some_iff] at popped
  obtain ⟨first, lowest, same⟩ := popped
  cases same
  obtain ⟨member, least⟩ := firstSet_eq_some id lowest
  have bound := vacancies.lt member
  refine ⟨bound, vacancies.slot_eq_none member, ?_, ?_⟩
  · intro other kept
    rw [test_clear] at kept
    exact Nat.lt_of_le_of_ne (least other kept.1) (Ne.symm kept.2)
  · intro value other
    rw [test_clear]
    by_cases same : other = id
    · subst same
      rw [getElem?_set_self bound]
      simp
    · rw [getElem?_set_ne (Ne.symm same), vacancies other]
      exact and_iff_left same

omit vacancies

theorem pop_none (popped : pop free = none) : ∀ other, free.test other = false := by
  rw [pop, map_eq_none_iff] at popped
  exact firstSet_eq_none.mp popped

include vacancies

theorem push (value : β) : Vacancies (entries ++ [some value]) free := by
  intro other
  rw [vacancies other]
  rcases Nat.lt_trichotomy other entries.length with below | same | above
  · rw [getElem?_append_left below]
  · subst same
    simp
  · rw [getElem?_eq_none (Nat.le_of_lt above), getElem?_eq_none (by simp; omega)]

theorem replace (held : slot entries id ≠ none) (value : β) :
    Vacancies (entries.set id (some value)) free := by
  obtain ⟨old, held⟩ := ne_none_iff_exists'.mp held
  have bound := lt_of_slot held
  intro other
  rw [vacancies other]
  by_cases same : other = id
  · subst same
    rw [getElem?_set_self bound, slot_eq_some.mp held]
    simp
  · rw [getElem?_set_ne (Ne.symm same)]

theorem release (bound : id < entries.length) : Vacancies (entries.set id none) (free.set id) := by
  intro other
  rw [test_set]
  by_cases same : other = id
  · subst same
    rw [getElem?_set_self bound]
    simp
  · rw [getElem?_set_ne (Ne.symm same), vacancies other]
    exact or_iff_left same

theorem trim : Vacancies (trim entries) (free.zeroFrom (Slots.trim entries).length) := by
  obtain ⟨rest, split⟩ : Slots.trim entries <+: entries := rdropWhile_prefix _ _
  have kept : ∀ {id}, id < (Slots.trim entries).length →
      entries[id]? = (Slots.trim entries)[id]? := by
    intro id bound
    conv_lhs => rw [← split]
    exact getElem?_append_left bound
  intro id
  rw [test_zeroFrom, vacancies id]
  constructor
  · rintro ⟨bound, vacant⟩
    rwa [← kept bound]
  · intro vacant
    have bound := (List.getElem?_eq_some_iff.mp vacant).1
    exact ⟨bound, by rwa [kept bound]⟩

end Vacancies

section Order

/-- Some ids all come before those that are given out next. -/
def Before (entries : List (Option β)) (free ids : Bitset) : Prop :=
  ∀ i, ids.test i = true → i < entries.length ∧ ∀ j, free.test j = true → i < j

theorem before_empty : Before entries free empty := by
  intro i member
  simp at member

variable {ids : Bitset}

theorem Before.pop (before : Before entries free ids) (vacancies : Vacancies entries free)
    {rest : Bitset} (popped : pop free = some (id, rest)) (value : Option β) :
    (∀ i, ids.test i = true → i < id) ∧ Before (entries.set id value) rest (ids.set id) := by
  obtain ⟨bound, _, later, _⟩ := vacancies.pop_some popped
  rw [Slots.pop, map_eq_some_iff] at popped
  obtain ⟨first, lowest, same⟩ := popped
  cases same
  have least := (firstSet_eq_some id lowest).1
  have earlier : ∀ i, ids.test i = true → i < id := fun i member => (before i member).2 id least
  refine ⟨earlier, ?_⟩
  intro i member
  rw [length_set]
  have reach : i ≤ id := by
    rcases (test_set _ _ _).mp member with old | rfl
    · exact Nat.le_of_lt (earlier i old)
    · exact Nat.le_refl _
  exact ⟨Nat.lt_of_le_of_lt reach bound, fun j kept => Nat.lt_of_le_of_lt reach (later j kept)⟩

theorem Before.push (before : Before entries free ids) (popped : Slots.pop free = none)
    (value : Option β) :
    (∀ i, ids.test i = true → i < entries.length) ∧
      Before (entries ++ [value]) free (ids.set entries.length) := by
  refine ⟨fun i member => (before i member).1, ?_⟩
  intro i member
  constructor
  · rw [length_append, length_singleton]
    rcases (test_set _ _ _).mp member with old | rfl
    · exact Nat.lt_succ_of_lt (before i old).1
    · exact Nat.lt_succ_self _
  · intro j kept
    rw [Vacancies.pop_none popped j] at kept
    cases kept

end Order

section Names

variable {K : Type}

/-- Each name in use has a slot of its own, and each filled slot a name. -/
structure Named (ids : K → Option Nat) (slots : Nat → Option β) : Prop where
  held : ∀ name id, ids name = some id → slots id ≠ none
  owned : ∀ id, slots id ≠ none → ∃ name, ids name = some id
  distinct : ∀ name other id, ids name = some id → ids other = some id → name = other

def find (ids : K → Option Nat) (slots : Nat → Option β) (name : K) : Option β :=
  (ids name).bind slots

namespace Named

theorem empty : Named (fun _ : K => none) (slot ([] : List (Option β))) where
  held := by
    intro name id none
    cases none
  owned := by
    intro id held
    exact absurd (slot_of_le (Nat.zero_le id)) held
  distinct := by
    intro name other id none
    cases none

variable {ids : K → Option Nat} {slots : Nat → Option β} {name : K} {id : Nat}

theorem apart (named : Named ids slots)
    (mine : ids name = some id ∨ ids name = none ∧ slots id = none) {other : K}
    (different : other ≠ name) : ids other ≠ some id := by
  intro same
  rcases mine with mine | ⟨_, vacant⟩
  · exact different (named.distinct other name id same mine)
  · exact named.held other id same vacant

theorem find_other (named : Named ids slots)
    (mine : ids name = some id ∨ ids name = none ∧ slots id = none) {value : Option β} {other : K}
    (different : other ≠ name) :
    (ids other).bind (update slots id value) = find ids slots other := by
  rw [find]
  cases is : ids other with
  | none => rfl
  | some id' =>
    have away : id' ≠ id := by
      rintro rfl
      exact named.apart mine different is
    rw [bind_some, bind_some, update_of_ne away]

variable [DecidableEq K] (named : Named ids slots)
include named

variable (mine : ids name = some id ∨ ids name = none ∧ slots id = none)
include mine

omit [DecidableEq K] in
theorem owned_other {id' : Nat} (same : id' ≠ id) (held : slots id' ≠ none) :
    ∃ other, other ≠ name ∧ ids other = some id' := by
  obtain ⟨other, is⟩ := named.owned id' held
  refine ⟨other, ?_, is⟩
  rintro rfl
  rcases mine with mine | ⟨absent, _⟩
  · rw [mine] at is
    exact same (some.inj is).symm
  · rw [absent] at is
    cases is

theorem store (value : β) :
    Named (update ids name (some id)) (update slots id (some value)) := by
  refine ⟨?_, ?_, ?_⟩
  · intro other id' is
    by_cases same : id' = id
    · rw [same, update_self]
      simp
    · rw [update_of_ne same]
      apply named.held other
      by_cases here : other = name
      · rw [here, update_self] at is
        exact absurd (some.inj is).symm same
      · rwa [update_of_ne here] at is
  · intro id' held
    by_cases same : id' = id
    · exact ⟨name, by rw [update_self, same]⟩
    · rw [update_of_ne same] at held
      obtain ⟨other, different, is⟩ := named.owned_other mine same held
      exact ⟨other, by rw [update_of_ne different, is]⟩
  · intro first second id' is is'
    by_cases here : first = name <;> by_cases here' : second = name
    · rw [here, here']
    · rw [here, update_self] at is
      rw [update_of_ne here', ← is] at is'
      exact absurd is' (named.apart mine here')
    · rw [here', update_self] at is'
      rw [update_of_ne here, ← is'] at is
      exact absurd is (named.apart mine here)
    · rw [update_of_ne here] at is
      rw [update_of_ne here'] at is'
      exact named.distinct first second id' is is'

theorem find_store (value : β) :
    find (update ids name (some id)) (update slots id (some value)) =
      update (find ids slots) name (some value) := by
  funext other
  by_cases here : other = name
  · rw [here, find, update_self, bind_some, update_self, update_self]
  · rw [update_of_ne here, ← named.find_other mine here, find, update_of_ne here]

omit mine

theorem release (mine : ids name = some id) :
    Named (update ids name none) (update slots id none) := by
  refine ⟨?_, ?_, ?_⟩
  · intro other id' is
    by_cases here : other = name
    · rw [here, update_self] at is
      cases is
    · rw [update_of_ne here] at is
      have away : id' ≠ id := by
        rintro rfl
        exact named.apart (.inl mine) here is
      rw [update_of_ne away]
      exact named.held other id' is
  · intro id' held
    by_cases same : id' = id
    · rw [same, update_self] at held
      exact absurd rfl held
    · rw [update_of_ne same] at held
      obtain ⟨other, different, is⟩ := named.owned_other (.inl mine) same held
      exact ⟨other, by rw [update_of_ne different, is]⟩
  · intro first second id' is is'
    by_cases here : first = name
    · rw [here, update_self] at is
      cases is
    · by_cases here' : second = name
      · rw [here', update_self] at is'
        cases is'
      · rw [update_of_ne here] at is
        rw [update_of_ne here'] at is'
        exact named.distinct first second id' is is'

theorem find_release (mine : ids name = some id) :
    find (update ids name none) (update slots id none) = update (find ids slots) name none := by
  funext other
  by_cases here : other = name
  · rw [here, find, update_self, update_self]
    rfl
  · rw [update_of_ne here, ← named.find_other (.inl mine) here, find, update_of_ne here]

end Named

end Names

end TailscaleRs.Slots
