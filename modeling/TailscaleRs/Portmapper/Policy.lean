import TailscaleRs.Portmapper.Client

namespace TailscaleRs.Portmapper

inductive PolicyStep
  | denySends
  | disable (why : DisableReason)
  | enable
  deriving DecidableEq

def PolicyStep.event : PolicyStep → Event
  | denySends => .denySends
  | disable why => .disable why
  | enable => .enable

/-- A client, and how many `disable` calls have cleared the permission but not yet had the lock. -/
structure Shared where
  client : Client
  denying : Nat
  deriving DecidableEq

namespace Shared

def step (cfg : Config) (s : Shared) (step : PolicyStep) : Shared :=
  let after := s.client.step cfg step.event
  match step, s.denying with
  | .denySends, denying => ⟨after, denying + 1⟩
  | .disable _, 0 => s
  | .disable _, denying + 1 => ⟨after, denying⟩
  | .enable, denying => ⟨after, denying⟩

/-- An `enable` that ends a disabled period finds no `disable` call short of the lock. -/
def Admits (s : Shared) (step : PolicyStep) : Prop :=
  step = .enable → s.client.lc.disabled ≠ none → s.denying = 0

instance Admits.decidable (s : Shared) (step : PolicyStep) : Decidable (s.Admits step) :=
  inferInstanceAs (Decidable (_ → _ → _))

/-- Sends are permitted exactly outside `disable` calls and disabled periods. -/
structure Agrees (s : Shared) : Prop where
  running : s.client.lc.phase = .running
  allowed : s.client.allowed = true ↔ s.client.lc.disabled = none ∧ s.denying = 0

theorem Agrees.step {s : Shared} (cfg : Config) (step : PolicyStep) (agrees : s.Agrees)
    (admitted : s.Admits step) : (s.step cfg step).Agrees := by
  obtain ⟨client, denying⟩ := s
  have running : client.lc.phase = .running := agrees.running
  have allowed := agrees.allowed
  cases step with
  | denySends => exact ⟨running, by simp [Shared.step, PolicyStep.event, Client.step]⟩
  | disable why =>
    cases denying with
    | zero => exact ⟨running, allowed⟩
    | succ denying =>
      have denied : client.allowed = false := by simpa using allowed
      by_cases same : client.lc.disabled = some why <;>
        constructor <;>
        simp [Shared.step, PolicyStep.event, Client.step, Client.publish, Lifecycle.policyDisabled,
          Lifecycle.invalidate, Lifecycle.cancelMapHandle, same, running, denied]
  | enable =>
    by_cases enabled : client.lc.disabled = none
    · have same : client.step cfg .enable = client := by simp [Client.step, enabled]
      rw [Shared.step, PolicyStep.event, same]
      exact ⟨running, allowed⟩
    · have alone : denying = 0 := admitted rfl enabled
      have period : client.lc.disabled.isSome := Option.isSome_iff_ne_none.mpr enabled
      constructor <;>
        simp [Shared.step, PolicyStep.event, Client.step, Client.publish, Lifecycle.policyEnabled,
          period, running, alone]

end Shared

/-- No request, probe or delete leaves the client, whatever its operations try to send. -/
structure Client.Silent (c : Client) : Prop where
  requests : ∀ id index, c.transmit id index = c
  probes : ∀ id, c.probeSend id = c
  deletes : ∀ id, c.deleteSend id = c
  releases : ∀ id, (c.finalSend id).journal = c.journal

theorem Client.silent_of_denied {c : Client} (denied : c.allowed = false) : c.Silent := by
  have shut (cap : Cap) : c.gate cap = false := by simp [gate, denied]
  constructor
  · intro id index
    rw [transmit]
    grind
  · intro id
    rw [probeSend]
    grind
  · intro id
    rw [deleteSend]
    grind
  · intro id
    rw [finalSend]
    grind [amendRelease, Option.any_eq_true]

theorem Shared.disabled_silent (cfg : Config) (s : Shared) (steps : List PolicyStep)
    (running : s.client.lc.phase = .running) (idle : s.denying = 0)
    (initial : s.client.allowed = true ↔ s.client.lc.disabled = none)
    (admitted : Along (Shared.step cfg) Admits s steps) :
    let after := run (Shared.step cfg) s steps
    (after.denying = 0 → (after.client.allowed = true ↔ after.client.lc.disabled = none)) ∧
      (after.client.lc.disabled ≠ none → after.client.Silent) := by
  have agrees : (run (Shared.step cfg) s steps).Agrees :=
    run_invariant _ Admits Agrees (fun _ step => Agrees.step cfg step) s steps
      ⟨running, by simp [initial, idle]⟩ admitted
  refine ⟨fun quiet => by simp [agrees.allowed, quiet], fun disabled => ?_⟩
  exact Client.silent_of_denied (Bool.eq_false_iff.mpr fun permitted =>
    disabled (agrees.allowed.mp permitted).1)

theorem Shared.disabled_silent_cycle :
    (run (Shared.step pmpOnly) ⟨.new, 0⟩ [.denySends, .disable .onlyTcp443, .enable, .denySends,
      .disable .onlyTcp443]).client.Silent :=
  (disabled_silent pmpOnly ⟨.new, 0⟩ _ (by decide) (by decide) (by decide) (by decide)).2
    (by decide)

/-- A second call enables the client while the first is about to take the lock. -/
theorem Shared.enabled_under_disable :
    let after := run (Shared.step pmpOnly) ⟨.new, 0⟩
      [.denySends, .disable .onlyTcp443, .denySends, .enable, .disable .onlyTcp443]
    after.denying = 0 ∧ after.client.allowed = true ∧
      after.client.lc.disabled = some .onlyTcp443 := by
  decide

end TailscaleRs.Portmapper
