import Mathlib.Data.List.Dedup
import Mathlib.Data.List.Induction

namespace TailscaleRs

open List

variable {α : Type} [DecidableEq α]

def touch (x : α) (items : List α) : List α := x :: items.filter (· ≠ x)

variable (log : List α)

/-- The distinct items of a log, the last one first. -/
def recent : List α := log.foldl (fun items x => touch x items) []

@[simp] theorem recent_concat (x : α) : recent (log ++ [x]) = touch x (recent log) := by
  rw [recent, foldl_append]
  rfl

variable {items : List α} {x : α}

@[simp] theorem mem_touch {x y : α} : y ∈ touch x items ↔ y = x ∨ y ∈ items := by
  rw [touch, mem_cons, mem_filter]
  by_cases same : y = x <;> simp [same]

theorem nodup_touch (distinct : items.Nodup) : (touch x items).Nodup := by
  refine nodup_cons.mpr ⟨?_, distinct.filter _⟩
  simp [mem_filter]

@[simp] theorem mem_recent {log : List α} : x ∈ recent log ↔ x ∈ log := by
  induction log using reverseRecOn with
  | nil => simp [recent]
  | append_singleton earlier last ih => simp [ih, or_comm]

theorem nodup_recent : (recent log).Nodup := by
  induction log using reverseRecOn with
  | nil => exact nodup_nil
  | append_singleton earlier last ih =>
    rw [recent_concat]
    exact nodup_touch ih

/-- The later part of a log comes first; of the earlier part what does not come again. -/
theorem recent_append (earlier later : List α) :
    recent (earlier ++ later) = recent later ++ (recent earlier).filter (· ∉ later) := by
  induction later using reverseRecOn with
  | nil => simp [recent]
  | append_singleton middle last ih =>
    rw [← append_assoc, recent_concat, ih, recent_concat, touch, touch, filter_append,
      filter_filter, cons_append]
    congr 2
    apply filter_congr
    intro x _
    by_cases same : x = last <;> simp [same]

theorem touch_take (n : Nat) (x : α) (items : List α) (distinct : items.Nodup) :
    (touch x (items.take (n + 1))).take (n + 1) = (touch x items).take (n + 1) := by
  rw [touch, touch, take_succ_cons, take_succ_cons]
  congr 1
  induction items generalizing n with
  | nil => rfl
  | cons y rest ih =>
    rw [nodup_cons] at distinct
    by_cases same : y = x
    · have absent : ∀ z ∈ rest, z ≠ x := fun z member equal => distinct.1 (same ▸ equal ▸ member)
      have shorter : ∀ z ∈ rest.take n, z ≠ x := fun z member =>
        absent z (mem_of_mem_take member)
      rw [take_succ_cons, filter_cons_of_neg (by simpa using same),
        filter_cons_of_neg (by simpa using same),
        filter_eq_self.mpr (by simpa using shorter),
        filter_eq_self.mpr (by simpa using absent), take_take, Nat.min_self]
    · cases n with
      | zero => simp
      | succ m =>
        rw [take_succ_cons, filter_cons_of_pos (by simpa using same),
          filter_cons_of_pos (by simpa using same), take_succ_cons,
          take_succ_cons, ih m distinct.2]

theorem length_touch_of_mem (member : x ∈ items) (distinct : items.Nodup) :
    (touch x items).length = items.length := by
  have erased : items.filter (· ≠ x) = items.erase x := by
    rw [distinct.erase_eq_filter]
    apply filter_congr
    intro y _
    by_cases same : y = x <;> simp [same]
  have nonempty := length_pos_of_mem member
  rw [touch, length_cons, erased, length_erase_of_mem member]
  omega

theorem length_recent : (recent log).length = log.dedup.length := by
  apply List.Perm.length_eq
  rw [perm_ext_iff_of_nodup (nodup_recent log) (nodup_dedup log)]
  simp

theorem mem_take_recent {n : Nat} {x : α} {earlier later : List α}
    (few : (later.filter (· ≠ x)).dedup.length < n) :
    x ∈ (recent (earlier ++ x :: later)).take n := by
  by_cases again : x ∈ later
  · -- the part of the log after a later occurrence has no more others
    obtain ⟨middle, rest, split⟩ := append_of_mem again
    have fewer : (rest.filter (· ≠ x)).dedup.length ≤ (later.filter (· ≠ x)).dedup.length := by
      apply (nodup_dedup _).length_le_of_subset
      intro y
      simp only [mem_dedup, mem_filter, split, mem_append, mem_cons]
      exact fun member => ⟨.inr (.inr member.1), member.2⟩
    have shorter : rest.length < later.length := by
      rw [split, length_append, length_cons]
      omega
    rw [split, ← cons_append, ← append_assoc]
    exact mem_take_recent (Nat.lt_of_le_of_lt fewer few)
  · have others : later.filter (· ≠ x) = later := by
      apply filter_eq_self.mpr
      intro y member
      have different : y ≠ x := fun equal => again (equal ▸ member)
      simpa using different
    have front : recent (earlier ++ x :: later) =
        recent later ++ x :: ((recent earlier).filter (· ≠ x)).filter (· ∉ later) := by
      rw [append_cons, recent_append, recent_concat, touch,
        filter_cons_of_pos (by simpa using again)]
    rw [others, ← length_recent] at few
    rw [front, take_append, mem_append]
    right
    obtain ⟨room, free⟩ : ∃ room, n - (recent later).length = room + 1 :=
      ⟨n - (recent later).length - 1, by omega⟩
    rw [free, take_succ_cons]
    exact mem_cons_self
termination_by later.length

end TailscaleRs
