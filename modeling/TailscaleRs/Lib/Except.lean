import Mathlib.Data.List.Basic

namespace TailscaleRs

open List

variable {ε α β : Type}

theorem ok_bind (a : α) (f : α → Except ε β) : (Except.ok a >>= f) = f a := rfl

/-- A sequence succeeds exactly when each part does. -/
theorem bind_ok (x : Except ε α) (f : α → Except ε β) (b : β) :
    (x >>= f) = .ok b ↔ ∃ a, x = .ok a ∧ f a = .ok b := by
  cases x with
  | error e => simp [bind, Except.bind]
  | ok a => simp [bind, Except.bind]

theorem mapError_ok {ε δ α : Type} (f : ε → δ) (x : Except ε α) (a : α) :
    x.mapError f = .ok a ↔ x = .ok a := by
  cases x <;> simp [Except.mapError]

theorem mapM_ok {f : α → Except ε β} {g : α → β} {items : List α}
    (each : ∀ item ∈ items, f item = .ok (g item)) : items.mapM f = .ok (items.map g) := by
  induction items with
  | nil => rfl
  | cons item rest ih =>
    rw [mapM_cons, each item mem_cons_self, ok_bind,
      ih fun later member => each later (mem_cons_of_mem item member)]
    rfl

theorem mapM_map {ε α β γ : Type} (f : α → Except ε β) (g : β → γ) (h : α → γ)
    (related : ∀ a b, f a = .ok b → g b = h a) (items : List α) (outputs : List β)
    (ran : items.mapM f = .ok outputs) : outputs.map g = items.map h := by
  induction items generalizing outputs with
  | nil =>
    cases ran
    rfl
  | cons item rest ih =>
    rw [mapM_cons, bind_ok] at ran
    obtain ⟨output, first, ran⟩ := ran
    rw [bind_ok] at ran
    obtain ⟨later, others, same⟩ := ran
    cases same
    rw [map_cons, map_cons, related item output first, ih later others]

variable (f : α → Except ε β) (items : List α)

theorem mapM_total (each : ∀ item ∈ items, ∃ b, f item = .ok b) :
    ∃ outputs, items.mapM f = .ok outputs ∧ ∀ item ∈ items, ∀ b, f item = .ok b → b ∈ outputs := by
  induction items with
  | nil => exact ⟨[], rfl, fun _ member => absurd member not_mem_nil⟩
  | cons item rest ih =>
    obtain ⟨first, made⟩ := each item mem_cons_self
    obtain ⟨later, ran, found⟩ := ih fun other member => each other (mem_cons_of_mem _ member)
    refine ⟨first :: later, by rw [mapM_cons, made, ok_bind, ran]; rfl, ?_⟩
    intro other member b gives
    rcases mem_cons.mp member with rfl | member
    · rw [made] at gives
      cases gives
      exact mem_cons_self
    · exact mem_cons_of_mem _ (found other member b gives)

theorem mapM_mem (outputs : List β) (ran : items.mapM f = .ok outputs) (output : β)
    (member : output ∈ outputs) : ∃ item ∈ items, f item = .ok output := by
  induction items generalizing outputs with
  | nil =>
    cases ran
    cases member
  | cons item rest ih =>
    rw [mapM_cons, bind_ok] at ran
    obtain ⟨first, here, ran⟩ := ran
    rw [bind_ok] at ran
    obtain ⟨later, others, same⟩ := ran
    cases same
    rcases mem_cons.mp member with rfl | member
    · exact ⟨item, mem_cons_self, here⟩
    · obtain ⟨source, held, made⟩ := ih later others member
      exact ⟨source, mem_cons_of_mem item held, made⟩

/-- A loop whose rounds succeed and move a fact about the state on. -/
theorem foldlM_moves {σ Fact : Type} (holds : Fact → σ → Prop) {move : Fact → α → Fact}
    {step : σ → α → Except ε σ} {fact : Fact} {s : σ}
    (moves : ∀ {fact s} item, holds fact s →
      ∃ after, step s item = .ok after ∧ holds (move fact item) after)
    (items : List α) (held : holds fact s) :
    ∃ after, items.foldlM step s = .ok after ∧ holds (items.foldl move fact) after := by
  induction items generalizing s fact with
  | nil => exact ⟨s, rfl, held⟩
  | cons item rest ih =>
    obtain ⟨mid, ran, held'⟩ := moves item held
    obtain ⟨after, ran', held''⟩ := ih held'
    refine ⟨after, ?_, held''⟩
    rw [foldlM_cons, ran, ok_bind, ran']

end TailscaleRs
