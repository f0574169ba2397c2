import TailscaleRs.Runtime.ControlRunner

namespace TailscaleRs.Runtime

open Tka World Crypto List

/-- Control does not report the lock off, neither in a netmap nor by an empty genesis. -/
def LockOn : Event → Prop
  | .stateUpdate (some status) => status.isEnabled = true
  | .stateUpdate none => True
  | .sync _ control => ∀ resp, control.tkaBootstrap "" = .ok resp → resp.genesisAum ≠ []
  | .synced _ => True

/-- The actor is handed the failure of a sync that took the held chain with it. -/
def World.losesHeldChain (w : World) : Event → Bool
  | .synced index =>
    match w.tasks[index]? with
    | some ⟨some _, _, some (.error _)⟩ => true
    | _ => false
  | _ => false

variable (C : Crypto)

/-- A later enforced chain starts at the genesis of the one enforced before. -/
def RootSticky (before after : List Event) : Prop :=
  ∀ synced g, (run (step C) new before).enforced = some synced →
    synced.RootedAt C g →
    ∀ later, (run (step C) new (before ++ after)).enforced = some later →
      later.RootedAt C g

theorem SyncedTka.RootedAt.oldest_eq {synced : SyncedTka} (g : AumHash)
    (keyed : Keyed C synced.store) (rooted : synced.RootedAt C g) : synced.oldest = g := by
  obtain ⟨genesis, rest, verified, walked, named, -, -⟩ := rooted
  obtain ⟨first, later, shape, oldest⟩ := linearChainFrom_starts C _ keyed walked
  obtain ⟨rfl, -⟩ := cons.inj shape
  exact oldest.symm.trans named

/-- A synced state that came out of a sync. -/
def Sound (synced : SyncedTka) : Prop :=
  Keyed C synced.store ∧ synced.RootedAt C synced.oldest

/-- While the lock stays on: the enforced chain is held, or travels with the sync in
flight, and that sync can only bring back a chain of the same genesis. -/
structure LockInvariant (C : Crypto) (w : World) : Prop where
  consistent : w.Consistent
  sound : ∀ synced, w.enforced = some synced → Sound C synced
  carried : ∀ synced, w.enforced = some synced → w.runner.tkaSynced = some synced ∨
    ∃ task ∈ w.tasks, task.current = some synced
  valid : ∀ task ∈ w.tasks, task.generation = w.runner.tkaGeneration
  tasks : ∀ task ∈ w.tasks, task.current = w.enforced ∧
    ∀ result, task.result = some result → result ≠ .ok none ∧
      ∀ synced, result = .ok (some synced) → Sound C synced ∧
        ∀ held, task.current = some held → synced.oldest = held.oldest

theorem LockInvariant.new : LockInvariant C new where
  consistent := new_consistent
  sound _ enforced := by cases enforced
  carried _ enforced := by cases enforced
  valid _ member := by cases member
  tasks _ member := by cases member

section

variable (w : World) (invariant : LockInvariant C w) (event : Event) (on : LockOn event)
  (spares : w.losesHeldChain event = false)
include invariant on spares

theorem LockInvariant.step : LockInvariant C (w.step C event) := by
  have stepped := w.step_consistent C invariant.consistent event
  have moves := w.step_moves C invariant.consistent event
  generalize w.step C event = after at moves stepped
  cases moves with
  | ignored event silent => exact invariant
  | disabled status off =>
    rw [LockOn, off] at on
    cases on
  | busy status task enabled flight =>
    exact ⟨stepped, invariant.sound, invariant.carried, invariant.valid, invariant.tasks⟩
  | current status synced enabled idle held sameHead =>
    exact ⟨stepped, invariant.sound, invariant.carried, invariant.valid, invariant.tasks⟩
  | spawned status enabled idle =>
    have moved : w.runner.tkaSynced = w.enforced := Option.ext fun synced =>
      ⟨invariant.consistent.held synced,
        fun enforced => (invariant.carried synced enforced).resolve_right (by simp [idle])⟩
    refine ⟨stepped, invariant.sound, ?_, by simp, ?_⟩
    · intro synced enforced
      exact .inr ⟨_, mem_singleton_self _, moved.trans enforced⟩
    · intro task member
      rw [mem_singleton.mp member]
      exact ⟨moved, by simp⟩
  | answered index control task flight pending at_index =>
    have member : task ∈ w.tasks := by simp [flight]
    obtain ⟨travels, -⟩ := invariant.tasks task member
    refine ⟨stepped, invariant.sound, ?_, by simp [invariant.valid task member], ?_⟩
    · intro synced enforced
      exact .inr ⟨_, mem_singleton_self _, travels.trans enforced⟩
    · intro other member
      rw [mem_singleton.mp member]
      refine ⟨travels, ?_⟩
      intro result answered
      cases answered
      have keyed (held : SyncedTka) (present : task.current = some held) : Keyed C held.store :=
        (invariant.sound held (travels.symm.trans present)).1
      constructor
      · intro nothing
        obtain ⟨resp, reply, empty⟩ := syncTka_none C control nothing
        exact on resp reply empty
      · intro synced success
        obtain ⟨grown, rooted, kept⟩ := syncTka_some C control keyed success
        exact ⟨⟨grown, rooted⟩, kept⟩
  | superseded index task result flight done stale =>
    exact absurd (invariant.valid task (by simp [flight])) stale
  | adopted index task synced flight done valid =>
    obtain ⟨-, outcome⟩ := invariant.tasks task (by simp [flight])
    obtain ⟨sound, -⟩ := (outcome _ done).2 synced rfl
    refine ⟨stepped, ?_, fun other same => .inl same, by simp, by simp⟩
    intro other same
    cases same
    exact sound
  | inert index task flight done valid =>
    obtain ⟨-, outcome⟩ := invariant.tasks task (by simp [flight])
    exact absurd rfl (outcome _ done).1
  | failed index task error flight done valid at_index =>
    obtain ⟨travels, -⟩ := invariant.tasks task (by simp [flight])
    have nothing : w.enforced = none := by
      rw [← travels]
      obtain ⟨current, generation, result⟩ := task
      cases done
      cases current with
      | none => rfl
      | some held =>
        simp only [losesHeldChain, at_index] at spares
        cases spares
    refine ⟨stepped, ?_, ?_, by simp, by simp⟩ <;>
    · intro synced enforced
      rw [nothing] at enforced
      cases enforced

theorem LockInvariant.step_genesis (g : AumHash)
    (rooted : w.enforced.map SyncedTka.oldest = some g) :
    (w.step C event).enforced.map SyncedTka.oldest = some g := by
  have moves := w.step_moves C invariant.consistent event
  generalize w.step C event = after at moves
  cases moves with
  | disabled status off =>
    rw [LockOn, off] at on
    cases on
  | adopted index task synced flight done valid =>
    obtain ⟨travels, outcome⟩ := invariant.tasks task (by simp [flight])
    obtain ⟨held, enforced, same⟩ := Option.map_eq_some_iff.mp rooted
    have kept := ((outcome _ done).2 synced rfl).2 held (travels.trans enforced)
    rw [Option.map_some, kept, same]
  | inert index task flight done valid =>
    obtain ⟨-, outcome⟩ := invariant.tasks task (by simp [flight])
    exact absurd rfl (outcome _ done).1
  | ignored | busy | current | spawned | answered | superseded | failed => exact rooted

end

/-- The root of trust is sticky in every run in which no sync that took the held chain
fails, and what is enforced is always backed by a verified chain. -/
theorem lock_root_sticky (C : Crypto) (before after : List Event)
    (admitted : Along (step C) (fun w event => LockOn event ∧ w.losesHeldChain event = false)
      new (before ++ after)) :
    RootSticky C before after ∧
      ∀ w, w = run (step C) new (before ++ after) →
        w.runner.tkaAuthority = w.enforced.map SyncedTka.authority ∧
          ∀ synced, w.enforced = some synced → ∃ g, synced.RootedAt C g := by
  have keeps := run_invariant (step C)
    (fun w event => LockOn event ∧ w.losesHeldChain event = false) (LockInvariant C)
    (fun w event invariant met => invariant.step C w event met.1 met.2) new
  have whole := keeps _ (LockInvariant.new C) admitted
  rw [along_append] at admitted
  have early := keeps before (LockInvariant.new C) admitted.1
  constructor
  · intro synced g enforced rooted later enforcedLater
    have root := rooted.oldest_eq C g (early.sound synced enforced).1
    have kept := run_invariant _ _
      (fun w => LockInvariant C w ∧ w.enforced.map SyncedTka.oldest = some g)
      (fun w event invariant met => ⟨invariant.1.step C w event met.1 met.2,
        invariant.1.step_genesis C w event met.1 met.2 g invariant.2⟩)
      _ after ⟨early, by rw [enforced, Option.map_some, root]⟩ admitted.2
    rw [← run_append, enforcedLater] at kept
    have sound := whole.sound later enforcedLater
    rw [← Option.some.inj kept.2]
    exact sound.2
  · rintro w rfl
    exact ⟨whole.consistent.cell, fun synced enforced => ⟨_, (whole.sound synced enforced).2⟩⟩

def foreignGenesis : Aum :=
  { toyGenesis with
    state := some ⟨none, some [replicate 32 0], some [toyKey 3], 7, 8⟩
    signatures := [toySignature 3] }

/-- The node bootstraps and enforces the chain of the sample genesis. -/
def toyBootstrap : List Event :=
  [toyReport toyGenesis, .sync 0 (toyControl toyGenesis []), .synced 0]

/-- A resync fails, and the next report starts over from a control with another genesis. -/
def toyTakeover : List Event :=
  [toyReport foreignGenesis, .sync 0 unreachableControl, .synced 0,
    toyReport foreignGenesis, .sync 0 (toyControl foreignGenesis []), .synced 0]

theorem toyControl_lockOn (genesis : Aum) (later : List Aum) (index : Nat)
    (some : genesis.serialize ≠ []) : LockOn (.sync index (toyControl genesis later)) := by
  intro resp answered
  cases answered
  exact some

theorem unreachableControl_lockOn (index : Nat) : LockOn (.sync index unreachableControl) := by
  intro resp answered
  cases answered

theorem lock_root_taken_over :
    (∀ event ∈ toyBootstrap ++ toyTakeover, LockOn event) ∧
      ¬RootSticky toy toyBootstrap toyTakeover := by
  constructor
  · have reported : LockOn (toyReport toyGenesis) ∧ LockOn (toyReport foreignGenesis) := by
      constructor
      · change TkaStatus.isEnabled _ = true
        decide +kernel
      · change TkaStatus.isEnabled _ = true
        decide +kernel
    have first := toyControl_lockOn toyGenesis [] 0 (by decide +kernel)
    have second := toyControl_lockOn foreignGenesis [] 0 (by decide +kernel)
    have failed := unreachableControl_lockOn 0
    simp only [toyBootstrap, toyTakeover, cons_append, nil_append, forall_mem_cons]
    exact ⟨reported.1, first, trivial, reported.2, failed, trivial, reported.2, second, trivial,
      by simp⟩
  · intro sticky
    have early : (run (step toy) new toyBootstrap).enforced.map
        (fun synced => (synced.authority, synced.store.linearChainFrom toy synced.oldest)) =
        some (⟨toyGenesis.hash toy, ⟨[(toyKey 1).toKey, (toyKey 2).toKey]⟩⟩,
          .ok [toyGenesis]) := by decide +kernel
    have late : (run (step toy) new
        (toyBootstrap ++ toyTakeover)).enforced.map
        (fun synced => synced.store.linearChainFrom toy synced.oldest) =
        some (.ok [foreignGenesis]) := by decide +kernel
    obtain ⟨synced, enforced, shape⟩ := Option.map_eq_some_iff.mp early
    obtain ⟨later, enforcedLater, walked⟩ := Option.map_eq_some_iff.mp late
    obtain ⟨authority, chain⟩ := Prod.mk.inj shape
    have verified : VerifiedAumChain.verify toy [toyGenesis] =
        .ok ⟨⟨[toyKey 1, toyKey 2], some (toyGenesis.hash toy), some (5, 6)⟩,
          toyGenesis.hash toy⟩ := by decide +kernel
    have rooted : synced.RootedAt toy (toyGenesis.hash toy) :=
      ⟨toyGenesis, [], _, chain, rfl, verified, authority⟩
    obtain ⟨genesis, rest, -, own, named, -, -⟩ :=
      sticky synced _ enforced rooted later enforcedLater
    rw [walked] at own
    cases own
    exact absurd named (by decide +kernel)

/-- The control the sample node follows moves on to the chain that removes a key. -/
def toyAdvance : List Event :=
  [toyReport (toyChild toyGenesis .removeKey (replicate 32 2) 2),
    .sync 0 (toyControl toyGenesis [toyChild toyGenesis .removeKey (replicate 32 2) 2]),
    .synced 0]

theorem lock_root_sticky_toyAdvance :
    RootSticky toy toyBootstrap toyAdvance ∧
      (run (step toy) new (toyBootstrap ++ toyAdvance)).runner.tkaAuthority =
        some ⟨(toyChild toyGenesis .removeKey (replicate 32 2) 2).hash toy,
          ⟨[(toyKey 1).toKey]⟩⟩ := by
  have reported : ∀ head ∈ toyChain, LockOn (toyReport head) := by
    change ∀ head ∈ toyChain, TkaStatus.isEnabled _ = true
    decide +kernel
  have answered (later : List Aum) : LockOn (.sync 0 (toyControl toyGenesis later)) :=
    toyControl_lockOn toyGenesis later 0 (by decide +kernel)
  refine ⟨(lock_root_sticky toy _ _ ?_).1, by decide +kernel⟩
  exact ⟨⟨reported _ (by simp [toyChain]), rfl⟩, ⟨answered _, rfl⟩, ⟨trivial, by decide +kernel⟩,
    ⟨reported _ (by simp [toyChain]), rfl⟩, ⟨answered _, rfl⟩, ⟨trivial, by decide +kernel⟩,
      trivial⟩

/-- The synced states: the enforced one, and what the sync in flight took and brings. -/
def World.Has (w : World) (synced : SyncedTka) : Prop :=
  w.enforced = some synced ∨
    ∃ task ∈ w.tasks, task.current = some synced ∨ task.result = some (.ok (some synced))

theorem World.step_keeps_sound {w : World} (consistent : w.Consistent)
    (sound : ∀ synced, w.Has synced → Sound C synced) (event : Event) (synced : SyncedTka)
    (has : (w.step C event).Has synced) : Sound C synced := by
  have moves := w.step_moves C consistent event
  generalize w.step C event = after at moves has
  cases moves with
  | answered index control task flight =>
    have taken held (own : task.current = some held) : Sound C held :=
      sound held (.inr ⟨task, by simp [flight], .inl own⟩)
    rcases has with enforced | ⟨_, member, own | brought⟩
    · exact sound synced (.inl enforced)
    · cases mem_singleton.mp member
      exact taken synced own
    · cases mem_singleton.mp member
      obtain ⟨keyed, rooted, -⟩ :=
        syncTka_some C control (fun held own => (taken held own).1) (Option.some.inj brought)
      exact ⟨keyed, rooted⟩
  | _ =>
    -- What the world has after any other step it had before.
    have held := consistent.held synced
    exact sound synced (by grind [World.Has])

/-- Whatever control answers, at most one sync is in flight, and the enforced authority was verified
along the whole chain from its genesis. -/
theorem enforced_verified (events : List Event) :
    let w := run (step C) new events
    w.Consistent ∧ ∀ synced ∈ w.enforced, ∃ g, synced.RootedAt C g := by
  have kept := foldlRecOn (motive := fun w : World =>
    w.Consistent ∧ ∀ synced, w.Has synced → Sound C synced) events (step C)
    ⟨new_consistent, by simp [World.Has, new]⟩ fun w invariant event _ =>
      ⟨w.step_consistent C invariant.1 event, w.step_keeps_sound C invariant.1 invariant.2 event⟩
  exact ⟨kept.1, fun synced enforced => ⟨_, (kept.2 synced (.inl enforced)).2⟩⟩

/-- After `n` events: while the last report has the lock off, a sync in flight is outdated. -/
structure World.Obeys (w : World) (n : Nat) : Prop where
  consistent : w.Consistent
  counted : w.runner.tkaGeneration.toNat ≤ n
  tasks : ∀ task ∈ w.tasks, task.generation ≤ w.runner.tkaGeneration
  off : w.runner.tka.any TkaStatus.isEnabled = false → w.enforced = none ∧
    ∀ task ∈ w.tasks, task.generation ≠ w.runner.tkaGeneration

theorem World.Obeys.step {w : World} {n : Nat} (obeys : w.Obeys n) (few : n + 1 < 2 ^ 64)
    (event : Event) : (w.step C event).Obeys (n + 1) := by
  have stepped := w.step_consistent C obeys.consistent event
  have moves := w.step_moves C obeys.consistent event
  generalize w.step C event = after at moves stepped
  obtain ⟨-, counted, tasks, off⟩ := obeys
  cases moves with
  | disabled =>
    -- The generation does not wrap: the sync in flight is older.
    have next : (w.runner.tkaGeneration + 1).toNat = w.runner.tkaGeneration.toNat + 1 :=
      Nat.mod_eq_of_lt (by simp; omega)
    constructor <;> grind [UInt64.le_iff_toNat_le]
  | _ => constructor <;> grind

/-- While the last status reported has the lock off, nothing is enforced, whatever sync ends. -/
theorem off_unenforced (events : List Event) (few : events.length < 2 ^ 64) :
    let w := run (step C) new events
    w.runner.tka.any TkaStatus.isEnabled = false → w.runner.tkaAuthority = none := by
  have obeys : (run (step C) new events).Obeys events.length := by
    induction events using reverseRecOn with
    | nil => exact ⟨new_consistent, Nat.zero_le _, nofun, fun _ => ⟨rfl, nofun⟩⟩
    | append_singleton before last ih =>
      rw [length_append] at few ⊢
      rw [run_append]
      exact (ih (by omega)).step C few last
  intro w off
  rw [obeys.consistent.cell, (obeys.off off).1]
  rfl

theorem off_unenforced_in_flight :
    (run (step toy) new [toyReport toyGenesis, .stateUpdate (some ⟨"", false⟩),
      .sync 0 (toyControl toyGenesis []), .synced 0]).runner.tkaAuthority = none :=
  off_unenforced toy _ (by decide) (by decide +kernel)

end TailscaleRs.Runtime
