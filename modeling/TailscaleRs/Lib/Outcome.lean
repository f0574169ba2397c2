import Mathlib.Data.List.Basic

namespace TailscaleRs

open List

variable {ε α β σ : Type} {allowed : ε → Prop}

/-- A result meets the postcondition and a failure is one of those allowed. -/
def Safe (allowed : ε → Prop) (post : α → Prop) : Except ε α → Prop
  | .ok a => post a
  | .error e => allowed e

instance Safe.decidable {post : α → Prop} [DecidablePred allowed] [DecidablePred post] :
    (x : Except ε α) → Decidable (Safe allowed post x)
  | .ok a => inferInstanceAs (Decidable (post a))
  | .error e => inferInstanceAs (Decidable (allowed e))

/-- No failure is allowed. -/
abbrev Returns (post : α → Prop) : Except ε α → Prop := Safe (fun _ => False) post

variable {x : Except ε α} {post : β → Prop} {f : α → Except ε β} {step : σ → α → Except ε σ}
  {inv : σ → Prop}

theorem Safe.returns {post : α → Prop} (safe : Returns post x) : ∃ a, x = .ok a ∧ post a := by
  cases x with
  | error e => exact safe.elim
  | ok a => exact ⟨a, rfl, safe⟩

theorem Safe.refutes {post : α → Prop} (safe : Returns (fun a => ¬post a) x) :
    ¬Safe allowed post x := by
  obtain ⟨a, rfl, fails⟩ := safe.returns
  exact fails

theorem Safe.mono {post weaker : α → Prop} (safe : Safe allowed post x)
    (weaken : ∀ a, post a → weaker a) : Safe allowed weaker x := by
  cases x with
  | error e => exact safe
  | ok a => exact weaken a safe

/-- The rule of conjunction; the failures only one side allows are allowed. -/
theorem Safe.both {tolerated : ε → Prop} {post other : α → Prop} (first : Safe tolerated post x)
    (second : Safe allowed other x) :
    Safe allowed (fun a => post a ∧ other a) x := by
  cases x with
  | error e => exact second
  | ok a => exact ⟨first, second⟩

theorem Safe.bind {mid : α → Prop} (first : Safe allowed mid x)
    (second : ∀ a, mid a → Safe allowed post (f a)) :
    Safe allowed post (x >>= f) := by
  cases x with
  | error e => exact first
  | ok a => exact second a first

theorem Safe.ite {post : α → Prop} {c : Prop} [Decidable c] {x y : Except ε α}
    (yes : Safe allowed post x) (no : Safe allowed post y) :
    Safe allowed post (if c then x else y) := by
  split
  · exact yes
  · exact no

/-- Nothing is claimed of a failure. -/
abbrev Yields (post : α → Prop) : Except ε α → Prop := Safe (fun _ => True) post

theorem Safe.out {post : α → Prop} {a : α} (yields : Yields post x) (ran : x = .ok a) : post a := by
  subst ran
  exact yields

theorem Safe.yields {post : α → Prop} (safe : Safe allowed post x) : Yields post x :=
  match x with
  | .ok _ => safe
  | .error _ => trivial

theorem Safe.skip (second : ∀ a, Yields post (f a)) : Yields post (x >>= f) := by
  cases x with
  | error e => trivial
  | ok a => exact second a

variable {items : List α}

theorem Safe.mapM (each : ∀ item ∈ items, Safe allowed post (f item)) :
    Safe allowed (fun outputs => outputs.length = items.length ∧ ∀ b ∈ outputs, post b)
      (items.mapM f) := by
  induction items with
  | nil => exact ⟨rfl, forall_mem_nil _⟩
  | cons item rest ih =>
    rw [mapM_cons]
    apply (each item mem_cons_self).bind
    intro first meets
    apply (ih fun other member => each other (mem_cons_of_mem item member)).bind
    intro later others
    exact ⟨congrArg Nat.succ others.1, forall_mem_cons.mpr ⟨meets, others.2⟩⟩

/-- The rule of iteration, for an invariant of the accumulator. -/
theorem Safe.foldlM (items : List α)
    (keeps : ∀ s item, item ∈ items → inv s → Safe allowed inv (step s item)) (start : σ)
    (initial : inv start) : Safe allowed inv (items.foldlM step start) := by
  induction items generalizing start with
  | nil => exact initial
  | cons item rest ih =>
    apply (keeps start item mem_cons_self initial).bind
    exact ih (fun s other member => keeps s other (mem_cons_of_mem item member))

/-- Every item of an iteration meets a condition on it and the accumulator it arrives at. -/
def AlongM (step : σ → α → Except ε σ) (meets : σ → α → Prop) : σ → List α → Prop
  | _, [] => True
  | s, item :: rest =>
    meets s item ∧ Safe (fun _ => True) (fun after => AlongM step meets after rest) (step s item)

instance AlongM.decidable {step : σ → α → Except ε σ} {meets : σ → α → Prop}
    [∀ s item, Decidable (meets s item)] :
    (start : σ) → (items : List α) → Decidable (AlongM step meets start items)
  | _, [] => isTrue trivial
  | _, _ :: rest =>
    have (after : σ) : Decidable (AlongM step meets after rest) := AlongM.decidable after rest
    inferInstanceAs (Decidable (_ ∧ Safe _ _ _))

theorem Safe.foldlM_along {meets : σ → α → Prop} (items : List α)
    (keeps : ∀ s item, meets s item → inv s → Safe allowed inv (step s item)) (start : σ)
    (initial : inv start) (along : AlongM step meets start items) :
    Safe allowed inv (items.foldlM step start) := by
  induction items generalizing start with
  | nil => exact initial
  | cons item rest ih =>
    apply (along.2.both (keeps start item along.1 initial)).bind
    intro after both
    exact ih after both.2 both.1

/-- What the steps of an iteration note down, until one fails. -/
def traceM {τ : Type} (step : σ → α → Except ε σ) (note : σ → α → List τ) : σ → List α → List τ
  | _, [] => []
  | s, item :: rest =>
    note s item ++
      match step s item with
      | .error _ => []
      | .ok after => traceM step note after rest

/-- The rule of iteration, for an invariant of the accumulator and of all that was noted. -/
theorem Safe.foldlM_traced {τ : Type} {note : σ → α → List τ} (inv : List τ → σ → Prop)
    (items : List α)
    (keeps : ∀ before s item, item ∈ items → inv before s →
      Safe allowed (inv (before ++ note s item)) (step s item))
    (before : List τ) (start : σ) (initial : inv before start) :
    Safe allowed (inv (before ++ traceM step note start items)) (items.foldlM step start) := by
  induction items generalizing before start with
  | nil =>
    rw [traceM, append_nil]
    exact initial
  | cons item rest ih =>
    have first := keeps before start item mem_cons_self initial
    rw [foldlM_cons, traceM]
    cases result : step start item with
    | error e =>
      rw [result] at first
      exact first
    | ok after =>
      rw [result] at first
      dsimp only
      rw [← append_assoc]
      exact ih (fun before s other member => keeps before s other
        (mem_cons_of_mem item member)) _ after first

end TailscaleRs
