import Mathlib.Order.Defs.Unbundled
import Mathlib.Tactic.ByContra

namespace TailscaleRs.Selection

open List

variable {α : Type} (prefer : α → α → Prop) [DecidableRel prefer]

/-- The scan: a later item replaces the best so far only when it is preferred. -/
def best (first : α) (rest : List α) : α :=
  rest.foldl (fun held item => if prefer item held then item else held) first

def pick : List α → Option α
  | [] => none
  | first :: rest => some (best prefer first rest)

theorem best_mem (first : α) (rest : List α) : best prefer first rest ∈ first :: rest := by
  induction rest generalizing first with
  | nil => exact mem_singleton_self first
  | cons item rest ih =>
    have found := ih (if prefer item first then item else first)
    change best prefer (if prefer item first then item else first) rest ∈ _
    split at found <;> rename_i preferred
    · rw [if_pos preferred]
      exact mem_cons_of_mem first found
    · rw [if_neg preferred]
      rcases mem_cons.mp found with same | later
      · rw [same]
        exact mem_cons_self
      · exact mem_cons_of_mem first (mem_cons_of_mem item later)

theorem pick_mem (items : List α) {chosen : α} (picked : pick prefer items = some chosen) :
    chosen ∈ items := by
  cases items with
  | nil => cases picked
  | cons first rest =>
    cases picked
    exact best_mem prefer first rest

theorem pick_isSome (items : List α) (nonempty : items ≠ []) :
    ∃ chosen, pick prefer items = some chosen := by
  cases items with
  | nil => exact absurd rfl nonempty
  | cons first rest => exact ⟨best prefer first rest, rfl⟩

theorem best_unbeaten [Std.Irrefl prefer] [IsTrans α prefer] (first : α) (rest : List α)
    (total : ∀ a ∈ first :: rest, ∀ b ∈ first :: rest, a ≠ b → prefer a b ∨ prefer b a) :
    ∀ item ∈ first :: rest, ¬prefer item (best prefer first rest) := by
  induction rest generalizing first with
  | nil =>
    intro item single
    rw [mem_singleton] at single
    subst single
    exact Std.Irrefl.irrefl item
  | cons next rest ih =>
    -- The scan goes on from the better of the first two; the other one loses to it.
    intro item member
    change ¬prefer item (best prefer (if prefer next first then next else first) rest)
    by_cases preferred : prefer next first
    · rw [if_pos preferred]
      have later := ih next (fun a heldA b heldB =>
        total a (mem_cons_of_mem first heldA) b (mem_cons_of_mem first heldB))
      rcases mem_cons.mp member with rfl | member
      · intro beaten
        exact later next mem_cons_self (IsTrans.trans _ _ _ preferred beaten)
      · exact later item member
    · rw [if_neg preferred]
      have keep : ∀ a ∈ first :: rest, a ∈ first :: next :: rest := by
        intro a held
        rcases mem_cons.mp held with rfl | held
        · exact mem_cons_self
        · exact mem_cons_of_mem first (mem_cons_of_mem next held)
      have later := ih first (fun a heldA b heldB => total a (keep a heldA) b (keep b heldB))
      rcases mem_cons.mp member with rfl | member
      · exact later item mem_cons_self
      · rcases mem_cons.mp member with rfl | member
        · by_cases same : item = first
          · exact same ▸ later first mem_cons_self
          · intro beaten
            have ahead := (total item (by simp) first (by simp) same).resolve_left preferred
            exact later first mem_cons_self (IsTrans.trans _ _ _ ahead beaten)
        · exact later item (mem_cons_of_mem first member)

/-- Lists with the same items have the same outcome, whatever order and number
of times the items occur. -/
theorem pick_congr [Std.Irrefl prefer] [IsTrans α prefer] (left right : List α)
    (same : ∀ item, item ∈ left ↔ item ∈ right)
    (total : ∀ a ∈ left, ∀ b ∈ left, a ≠ b → prefer a b ∨ prefer b a) :
    pick prefer left = pick prefer right := by
  cases left with
  | nil =>
    cases right with
    | nil => rfl
    | cons first rest => exact absurd ((same first).mpr mem_cons_self) not_mem_nil
  | cons first rest =>
    cases right with
    | nil => exact absurd ((same first).mp mem_cons_self) not_mem_nil
    | cons first' rest' =>
      have heldLeft := best_mem prefer first rest
      have heldRight := (same _).mpr (best_mem prefer first' rest')
      have unbeatenLeft := best_unbeaten prefer first rest total _ heldRight
      have unbeatenRight := best_unbeaten prefer first' rest'
        (fun a heldA b heldB => total a ((same a).mpr heldA) b ((same b).mpr heldB)) _
        ((same _).mp heldLeft)
      apply congrArg some
      by_contra different
      rcases total _ heldLeft _ heldRight different with ahead | behind
      · exact unbeatenRight ahead
      · exact unbeatenLeft behind

end TailscaleRs.Selection
