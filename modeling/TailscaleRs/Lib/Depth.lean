import Mathlib.Data.Nat.Notation

namespace TailscaleRs.Depth

variable {α β : Type} (bound : ℕ) (tooDeep : β) (body : (α → β) → α → β)

/-- The call at `depth`, with `recursions` levels of calls below it. What the calls
past those levels would do is `beyond`. -/
def within (beyond : ℕ → α → β) : ℕ → ℕ → α → β
  | 0, depth, a => if bound < depth then tooDeep else body (beyond (depth + 1)) a
  | recursions + 1, depth, a =>
    if bound < depth then tooDeep else body (within beyond recursions (depth + 1)) a

/-- The same recursion by the levels left. -/
def descend : ℕ → α → β
  | 0, _ => tooDeep
  | levels + 1, a => body (descend levels) a

/-- Once every level up to the bound can be called, nothing beyond is: the result is
the same whatever the calls there would do. -/
theorem within_eq_descend (beyond : ℕ → α → β) (recursions depth : ℕ)
    (enough : bound < depth + recursions) :
    within bound tooDeep body beyond recursions depth =
      descend tooDeep body (bound + 1 - depth) := by
  induction recursions generalizing depth with
  | zero =>
    funext a
    rw [within, if_pos (by omega), show bound + 1 - depth = 0 by omega, descend]
  | succ recursions ih =>
    funext a
    rw [within]
    split
    · rw [show bound + 1 - depth = 0 by omega, descend]
    · rw [ih (depth + 1) (by omega),
        show bound + 1 - depth = bound + 1 - (depth + 1) + 1 by omega, descend]

end TailscaleRs.Depth
