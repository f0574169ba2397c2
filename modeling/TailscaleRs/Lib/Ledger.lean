import Mathlib.Data.List.Nodup

namespace TailscaleRs

open Function

variable {κ ω : Type}

/-- The table gives each owner exactly the keys on its list, each of them listed once. -/
def Balanced (table : κ → Option ω) (owned : ω → List κ) : Prop :=
  ∀ owner, (owned owner).Nodup ∧ ∀ key, table key = some owner ↔ key ∈ owned owner

/-- One owner's account in the middle of an update: it holds exactly the listed keys, and the
other owners have what they had in the table the update started from. -/
structure Account (origin table : κ → Option ω) (owner : ω) (keys : List κ) : Prop where
  nodup : keys.Nodup
  holds : ∀ key, table key = some owner ↔ key ∈ keys
  others : ∀ key other, other ≠ owner → (table key = some other ↔ origin key = some other)

namespace Account

variable {origin table : κ → Option ω} {owner : ω} {key : κ} {keys : List κ}

theorem lookup (account : Account origin table owner (key :: keys)) : table key = some owner :=
  (account.holds key).mpr List.mem_cons_self

theorem perm {reordered : List κ} (account : Account origin table owner keys)
    (same : keys.Perm reordered) : Account origin table owner reordered where
  nodup := same.nodup_iff.mp account.nodup
  holds := fun k => by rw [account.holds k, same.mem_iff]
  others := account.others

theorem grant [DecidableEq κ] (account : Account origin table owner keys)
    (vacant : table key = none) :
    Account origin (update table key (some owner)) owner (key :: keys) := by
  have unused : key ∉ keys := by
    intro member
    have held := (account.holds key).mpr member
    rw [vacant] at held
    cases held
  refine ⟨List.nodup_cons.mpr ⟨unused, account.nodup⟩, fun k => ?_, fun k other different => ?_⟩
  · by_cases same : k = key
    · subst same
      simp
    · simp [same, account.holds k]
  · by_cases same : k = key
    · subst same
      rw [← account.others k other different, vacant]
      simp [Ne.symm different]
    · rw [update_of_ne same, account.others k other different]

theorem revoke [DecidableEq κ] (account : Account origin table owner (key :: keys)) :
    Account origin (update table key none) owner keys := by
  obtain ⟨unused, nodup⟩ := List.nodup_cons.mp account.nodup
  refine ⟨nodup, fun k => ?_, fun k other different => ?_⟩
  · by_cases same : k = key
    · subst same
      simp [unused]
    · simp [same, account.holds k]
  · by_cases same : k = key
    · subst same
      rw [← account.others k other different, account.lookup]
      simp [Ne.symm different]
    · rw [update_of_ne same, account.others k other different]

end Account

namespace Balanced

variable {table after : κ → Option ω} {owned : ω → List κ} {owner : ω} {keys : List κ}

theorem account (balanced : Balanced table owned) (owner : ω) :
    Account table table owner (owned owner) :=
  ⟨(balanced owner).1, (balanced owner).2, fun _ _ _ => Iff.rfl⟩

theorem settle [DecidableEq ω] (balanced : Balanced table owned)
    (settled : Account table after owner keys) :
    Balanced after (update owned owner keys) := by
  intro other
  by_cases same : other = owner
  · subst same
    rw [update_self]
    exact ⟨settled.nodup, settled.holds⟩
  · rw [update_of_ne same]
    refine ⟨(balanced other).1, fun key => ?_⟩
    rw [settled.others key other same]
    exact (balanced other).2 key

end Balanced

end TailscaleRs
