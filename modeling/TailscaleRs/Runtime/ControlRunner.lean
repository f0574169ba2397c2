import TailscaleRs.Lib.Run
import TailscaleRs.Runtime.TkaSync

namespace TailscaleRs.Runtime

open Tka

structure TkaStatus where
  head : String
  disabled : Bool
  deriving DecidableEq, Repr

def TkaStatus.isEnabled (status : TkaStatus) : Bool := status.head ≠ "" && !status.disabled

abbrev SyncResult := Except TkaSyncDriverError (Option SyncedTka)

/-- The lock fields of the control runner; `tka` and `tkaAuthority` are watch cells,
the latter read by the peer tracker. -/
structure ControlRunner where
  tka : Option TkaStatus
  tkaSynced : Option SyncedTka
  tkaAuthority : Option Authority
  tkaSyncing : Bool
  tkaGeneration : UInt64

def ControlRunner.new : ControlRunner := ⟨none, none, none, false, 0⟩

/-- A spawned sync: the state moved into it, the generation it was spawned at, and its
result once the round trips are done. -/
structure SyncTask where
  current : Option SyncedTka
  generation : UInt64
  result : Option SyncResult

variable (runner : ControlRunner)

/-- The held authority is at the head control reports. A head that does not parse
counts as different. -/
def ControlRunner.upToDate (status : TkaStatus) : Bool :=
  match runner.tkaSynced, AumHash.fromBase32 status.head with
  | some synced, some controlHead => synced.authority.head = controlHead
  | _, _ => false

/-- The new actor state and the sync spawned, if any. -/
def ControlRunner.maybeSyncTka (status : TkaStatus) : ControlRunner × Option SyncTask :=
  if ¬status.isEnabled then
    ({ runner with
        tkaGeneration := runner.tkaGeneration + 1
        tkaSynced := none
        tkaAuthority := none }, none)
  else if runner.tkaSyncing then (runner, none)
  else if runner.upToDate status then (runner, none)
  else
    ({ runner with tkaSyncing := true, tkaSynced := none },
      some ⟨runner.tkaSynced, runner.tkaGeneration, none⟩)

def ControlRunner.applyTkaSynced (result : SyncResult) (generation : UInt64) : ControlRunner :=
  let runner := { runner with tkaSyncing := false }
  if generation ≠ runner.tkaGeneration then runner
  else match result with
    | .ok (some synced) =>
      { runner with tkaAuthority := some synced.authority, tkaSynced := some synced }
    | .ok none => { runner with tkaSynced := none, tkaAuthority := none }
    | .error _ => runner

/-- The lock part of `handle(StateUpdate)`; an update without a status changes nothing. -/
def ControlRunner.handleStateUpdate (tka : Option TkaStatus) : ControlRunner × Option SyncTask :=
  match tka with
  | none => (runner, none)
  | some status => { runner with tka := some status }.maybeSyncTka status

/-- The actor and the syncs it has spawned whose result it has not handled yet. The
last field is a history variable: the synced state whose authority the enforcement
cell holds. -/
structure World where
  runner : ControlRunner
  tasks : List SyncTask
  enforced : Option SyncedTka

def World.new : World := ⟨ControlRunner.new, [], none⟩

inductive Event where
  /-- A netmap update is handled. -/
  | stateUpdate (tka : Option TkaStatus)
  /-- A spawned sync performs its round trips. -/
  | sync (index : Nat) (control : Control)
  /-- The actor handles the result of a sync. -/
  | synced (index : Nat)

/-- The synced state behind the enforcement cell after the actor has moved. -/
def World.enforcedAfter (w : World) (runner : ControlRunner) : Option SyncedTka :=
  match runner.tkaAuthority, runner.tkaSynced with
  | none, _ => none
  | some _, some synced => some synced
  | some _, none => w.enforced

def World.moveTo (w : World) (runner : ControlRunner) (tasks : List SyncTask) : World :=
  ⟨runner, tasks, w.enforcedAfter runner⟩

def World.step (C : Crypto) (w : World) : Event → World
  | .stateUpdate tka =>
    let (runner, spawned) := w.runner.handleStateUpdate tka
    w.moveTo runner (w.tasks ++ spawned.toList)
  | .sync index control =>
    match w.tasks[index]? with
    | some task =>
      let result := task.result.getD (syncTka C control task.current)
      { w with tasks := w.tasks.set index { task with result := some result } }
    | none => w
  | .synced index =>
    match w.tasks[index]? with
    | some ⟨_, generation, some result⟩ =>
      w.moveTo (w.runner.applyTkaSynced result generation) (w.tasks.eraseIdx index)
    | _ => w

/-- The history variable follows the enforcement cell, a held chain is the one enforced,
and at most one sync is in flight, with the held chain moved into it. -/
structure World.Consistent (w : World) : Prop where
  cell : w.runner.tkaAuthority = w.enforced.map SyncedTka.authority
  held : ∀ synced, w.runner.tkaSynced = some synced → w.enforced = some synced
  flight : (w.tasks = [] ∧ w.runner.tkaSyncing = false) ∨
    ∃ task, w.tasks = [task] ∧ w.runner.tkaSyncing = true ∧ w.runner.tkaSynced = none

/-- Everything a step can do from a consistent world. -/
inductive World.Moves (C : Crypto) (w : World) : Event → World → Prop
  | ignored (event : Event) (silent : ∀ status, event ≠ .stateUpdate (some status)) :
      Moves C w event w
  | disabled (status : TkaStatus) (off : status.isEnabled = false) :
      Moves C w (.stateUpdate (some status))
        ⟨{ w.runner with
            tka := some status
            tkaGeneration := w.runner.tkaGeneration + 1
            tkaSynced := none
            tkaAuthority := none }, w.tasks, none⟩
  | busy (status : TkaStatus) (task : SyncTask) (on : status.isEnabled = true)
      (flight : w.tasks = [task]) :
      Moves C w (.stateUpdate (some status))
        { w with runner := { w.runner with tka := some status } }
  | current (status : TkaStatus) (synced : SyncedTka) (on : status.isEnabled = true)
      (idle : w.tasks = []) (held : w.runner.tkaSynced = some synced)
      (sameHead : AumHash.fromBase32 status.head = some synced.authority.head) :
      Moves C w (.stateUpdate (some status))
        { w with runner := { w.runner with tka := some status } }
  | spawned (status : TkaStatus) (on : status.isEnabled = true) (idle : w.tasks = []) :
      Moves C w (.stateUpdate (some status))
        ⟨{ w.runner with tka := some status, tkaSyncing := true, tkaSynced := none },
          [⟨w.runner.tkaSynced, w.runner.tkaGeneration, none⟩], w.enforced⟩
  | answered (index : Nat) (control : Control) (task : SyncTask) (flight : w.tasks = [task])
      (pending : task.result = none) (at_index : w.tasks[index]? = some task) :
      Moves C w (.sync index control)
        { w with tasks := [{ task with result := some (syncTka C control task.current) }] }
  | superseded (index : Nat) (task : SyncTask) (result : SyncResult) (flight : w.tasks = [task])
      (done : task.result = some result) (stale : task.generation ≠ w.runner.tkaGeneration) :
      Moves C w (.synced index) ⟨{ w.runner with tkaSyncing := false }, [], w.enforced⟩
  | adopted (index : Nat) (task : SyncTask) (synced : SyncedTka) (flight : w.tasks = [task])
      (done : task.result = some (.ok (some synced)))
      (valid : task.generation = w.runner.tkaGeneration) :
      Moves C w (.synced index)
        ⟨{ w.runner with
            tkaSyncing := false
            tkaAuthority := some synced.authority
            tkaSynced := some synced }, [], some synced⟩
  | inert (index : Nat) (task : SyncTask) (flight : w.tasks = [task])
      (done : task.result = some (.ok none)) (valid : task.generation = w.runner.tkaGeneration) :
      Moves C w (.synced index)
        ⟨{ w.runner with tkaSyncing := false, tkaSynced := none, tkaAuthority := none }, [], none⟩
  | failed (index : Nat) (task : SyncTask) (error : TkaSyncDriverError)
      (flight : w.tasks = [task]) (done : task.result = some (.error error))
      (valid : task.generation = w.runner.tkaGeneration)
      (at_index : w.tasks[index]? = some task) :
      Moves C w (.synced index) ⟨{ w.runner with tkaSyncing := false }, [], w.enforced⟩

variable (runner : ControlRunner)

theorem ControlRunner.upToDate_iff {status : TkaStatus} :
    runner.upToDate status = true ↔ ∃ synced, runner.tkaSynced = some synced ∧
      AumHash.fromBase32 status.head = some synced.authority.head := by
  unfold ControlRunner.upToDate
  cases runner.tkaSynced with
  | none => simp
  | some synced =>
    cases AumHash.fromBase32 status.head with
    | none => simp
    | some head => simp [eq_comm]

theorem ControlRunner.maybeSyncTka_on (status : TkaStatus) (on : status.isEnabled = true) :
    runner.maybeSyncTka status =
      if runner.tkaSyncing ∨ runner.upToDate status then (runner, none)
      else ({ runner with tkaSyncing := true, tkaSynced := none },
        some ⟨runner.tkaSynced, runner.tkaGeneration, none⟩) := by
  rw [maybeSyncTka, if_neg (not_not_intro on), ← ite_or]

theorem World.enforcedAfter_same (w : World) {runner : ControlRunner} (consistent : w.Consistent)
    (cell : runner.tkaAuthority = w.runner.tkaAuthority)
    (held : runner.tkaSynced = w.runner.tkaSynced ∨ runner.tkaSynced = none) :
    w.enforcedAfter runner = w.enforced := by
  unfold World.enforcedAfter
  rw [cell, consistent.cell]
  cases enforced : w.enforced with
  | none => rfl
  | some synced =>
    cases own : runner.tkaSynced with
    | none => rfl
    | some other =>
      cases held with
      | inl same =>
        rw [own] at same
        rw [← enforced, consistent.held other same.symm]
        rfl
      | inr gone =>
        rw [own] at gone
        cases gone

section

variable (C : Crypto) (w : World) (consistent : w.Consistent)
include consistent

theorem World.stateUpdate_moves (tka : Option TkaStatus) :
    w.Moves C (.stateUpdate tka) (w.step C (.stateUpdate tka)) := by
  cases tka with
  | none =>
    have same : w.step C (.stateUpdate none) = w := by
      change w.moveTo w.runner (w.tasks ++ []) = w
      rw [World.moveTo, w.enforcedAfter_same consistent rfl (.inl rfl), List.append_nil]
    rw [same]
    apply Moves.ignored
    simp
  | some status =>
    have reported {runner : ControlRunner} {spawned : Option SyncTask}
        (handled : w.runner.handleStateUpdate (some status) = (runner, spawned))
        (cell : runner.tkaAuthority = w.runner.tkaAuthority)
        (held : runner.tkaSynced = w.runner.tkaSynced ∨ runner.tkaSynced = none) :
        w.step C (.stateUpdate (some status)) =
          ⟨runner, w.tasks ++ spawned.toList, w.enforced⟩ := by
      simp only [World.step, handled, World.moveTo,
        w.enforcedAfter_same consistent cell held]
    cases on : status.isEnabled with
    | false =>
      have result : w.step C (.stateUpdate (some status)) =
          ⟨{ w.runner with
              tka := some status
              tkaGeneration := w.runner.tkaGeneration + 1
              tkaSynced := none
              tkaAuthority := none }, w.tasks, none⟩ := by
        simp [World.step, ControlRunner.handleStateUpdate, ControlRunner.maybeSyncTka, on,
          World.moveTo, World.enforcedAfter]
      rw [result]
      exact Moves.disabled status on
    | true =>
      have handled :=
        ControlRunner.maybeSyncTka_on { w.runner with tka := some status } status on
      obtain ⟨idle, calm⟩ | ⟨task, flight, syncing, -⟩ := consistent.flight
      · cases fresh : ({ w.runner with tka := some status } : ControlRunner).upToDate status with
        | true =>
          obtain ⟨synced, held, sameHead⟩ := (ControlRunner.upToDate_iff _).mp fresh
          rw [reported (handled.trans (if_pos (.inr fresh))) rfl (.inl rfl), Option.toList_none,
            List.append_nil]
          exact Moves.current status synced on idle held sameHead
        | false =>
          have spawns := not_or.mpr ⟨ne_true_of_eq_false calm, ne_true_of_eq_false fresh⟩
          rw [reported (handled.trans (if_neg spawns)) rfl (.inr rfl), idle]
          exact Moves.spawned status on idle
      · rw [reported (handled.trans (if_pos (.inl syncing))) rfl (.inl rfl), Option.toList_none,
          List.append_nil]
        exact Moves.busy status task on flight

omit consistent in
theorem World.moves_same {event : Event} (silent : ∀ status, event ≠ .stateUpdate (some status))
    (same : w.step C event = w) : w.Moves C event (w.step C event) := by
  rw [same]
  exact .ignored event silent

omit consistent in
theorem World.sync_moves {index : Nat} {control : Control}
    (single : ∀ task, w.tasks[index]? = some task → w.tasks = [task]) :
    w.Moves C (.sync index control) (w.step C (.sync index control)) := by
  cases found : w.tasks[index]? with
  | none => exact w.moves_same C (by simp) (by simp only [World.step, found])
  | some task =>
    have flight := single task found
    have first : index = 0 := by
      rw [flight] at found
      cases index with
      | zero => rfl
      | succ n => cases found
    subst first
    cases finished : task.result with
    | none =>
      have result : w.step C (.sync 0 control) =
          { w with tasks := [{ task with result := some (syncTka C control task.current) }] } := by
        simp only [World.step, found, finished, Option.getD_none]
        rw [flight]
        rfl
      rw [result]
      exact Moves.answered 0 control task flight finished found
    | some result =>
      apply w.moves_same C (by simp)
      simp only [World.step, found, finished, Option.getD_some]
      rw [← finished, flight, List.set_cons_zero, ← flight]

theorem World.synced_moves {index : Nat}
    (single : ∀ task, w.tasks[index]? = some task → w.tasks = [task]) :
    w.Moves C (.synced index) (w.step C (.synced index)) := by
  cases found : w.tasks[index]? with
  | none => exact w.moves_same C (by simp) (by simp only [World.step, found])
  | some task =>
    obtain ⟨current, generation, result⟩ := task
    cases result with
    | none => exact w.moves_same C (by simp) (by simp only [World.step, found])
    | some result =>
      have flight := single _ found
      have gone : w.tasks.eraseIdx index = [] := by
        rw [flight] at found ⊢
        cases index with
        | zero => rfl
        | succ n => cases found
      have handled (runner : ControlRunner) (enforced : Option SyncedTka)
          (applied : w.runner.applyTkaSynced result generation = runner)
          (history : w.enforcedAfter runner = enforced) :
          w.step C (.synced index) = ⟨runner, [], enforced⟩ := by
        simp only [World.step, found, World.moveTo, applied, history, gone]
      by_cases valid : generation = w.runner.tkaGeneration
      · cases result with
        | error error =>
          rw [handled { w.runner with tkaSyncing := false } w.enforced
            (by simp [ControlRunner.applyTkaSynced, valid])
            (w.enforcedAfter_same consistent rfl (.inl rfl))]
          exact Moves.failed index _ error flight rfl valid found
        | ok outcome =>
          cases outcome with
          | none =>
            rw [handled { w.runner with
                tkaSyncing := false, tkaSynced := none, tkaAuthority := none } none
              (by simp [ControlRunner.applyTkaSynced, valid]) rfl]
            exact Moves.inert index _ flight rfl valid
          | some synced =>
            rw [handled { w.runner with
                tkaSyncing := false
                tkaAuthority := some synced.authority
                tkaSynced := some synced } (some synced)
              (by simp [ControlRunner.applyTkaSynced, valid]) rfl]
            exact Moves.adopted index _ synced flight rfl valid
      · rw [handled { w.runner with tkaSyncing := false } w.enforced
          (by simp [ControlRunner.applyTkaSynced, valid])
          (w.enforcedAfter_same consistent rfl (.inl rfl))]
        exact Moves.superseded index _ result flight rfl valid

theorem World.step_moves (event : Event) : w.Moves C event (w.step C event) := by
  have single : ∀ (index : Nat) (task : SyncTask), w.tasks[index]? = some task →
      w.tasks = [task] := by
    intro index task found
    obtain ⟨idle, -⟩ | ⟨only, flight, -, -⟩ := consistent.flight
    · rw [idle] at found
      cases found
    · rw [flight] at found ⊢
      have member := List.mem_of_getElem? found
      rw [List.mem_singleton.mp member]
  cases event with
  | stateUpdate tka => exact w.stateUpdate_moves C consistent tka
  | sync index control => exact w.sync_moves C (single index)
  | synced index => exact w.synced_moves C consistent (single index)

theorem World.step_consistent (event : Event) : (w.step C event).Consistent := by
  have moves := w.step_moves C consistent event
  generalize w.step C event = after at moves
  cases moves with
  | ignored event silent => exact consistent
  | disabled status off =>
    refine ⟨rfl, by simp, consistent.flight.imp_right ?_⟩
    rintro ⟨task, flight, syncing, -⟩
    exact ⟨task, flight, syncing, rfl⟩
  | busy status task on flight => exact ⟨consistent.cell, consistent.held, consistent.flight⟩
  | current status synced on idle held sameHead =>
    exact ⟨consistent.cell, consistent.held, consistent.flight⟩
  | spawned status on idle => exact ⟨consistent.cell, by simp, .inr ⟨_, rfl, rfl, rfl⟩⟩
  | answered index control task flight pending at_index =>
    refine ⟨consistent.cell, consistent.held, consistent.flight.imp ?_ ?_⟩
    · rintro ⟨idle, -⟩
      rw [flight] at idle
      cases idle
    · rintro ⟨other, -, syncing, moved⟩
      exact ⟨_, rfl, syncing, moved⟩
  | superseded index task result flight done stale =>
    exact ⟨consistent.cell, consistent.held, .inl ⟨rfl, rfl⟩⟩
  | adopted index task synced flight done valid =>
    exact ⟨rfl, fun other same => same, .inl ⟨rfl, rfl⟩⟩
  | inert index task flight done valid => exact ⟨rfl, by simp, .inl ⟨rfl, rfl⟩⟩
  | failed index task error flight done valid at_index =>
    exact ⟨consistent.cell, consistent.held, .inl ⟨rfl, rfl⟩⟩

end

theorem World.new_consistent : World.new.Consistent where
  cell := rfl
  held _ held := by cases held
  flight := .inl ⟨rfl, rfl⟩

/-- A control that holds the chain of one genesis and the given later AUMs, the last of
them its head. -/
def toyControl (genesis : Aum) (later : List Aum) : Control where
  tkaBootstrap _ := .ok ⟨genesis.serialize⟩
  tkaSyncOffer _ := .ok ⟨((later.getLast?.getD genesis).hash Crypto.toy).toBase32, [],
    later.map Aum.serialize⟩
  tkaSyncSend _ := .ok ()

def unreachableControl : Control where
  tkaBootstrap _ := .error .networkError
  tkaSyncOffer _ := .error .networkError
  tkaSyncSend _ := .error .networkError

def toyReport (head : Aum) : Event :=
  .stateUpdate (some ⟨(head.hash Crypto.toy).toBase32, false⟩)

end TailscaleRs.Runtime
