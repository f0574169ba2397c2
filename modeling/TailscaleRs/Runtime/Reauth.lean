import Mathlib.Algebra.Ring.Nat
import TailscaleRs.Lib.Run

namespace TailscaleRs.Runtime

open List

inductive DeviceState where
  | connecting
  | running
  | needsLogin (url : String)
  | needsMachineAuth
  | reauthenticating
  | expired
  | failed
  deriving DecidableEq

inductive ExpiryAction where
  | running
  | reauthenticate
  | expired
  deriving DecidableEq

def expiryAction (keyExpired hasAuthKey reauthEnabled tkaActive : Bool) : ExpiryAction :=
  if !keyExpired then .running
  else if hasAuthKey && reauthEnabled && !tkaActive then .reauthenticate
  else .expired

/-- `next` is the device state that the step's own state is published as. -/
structure ReauthStep where
  next : DeviceState
  attempts : Nat
  fireReauth : Bool

def maxReauthAttempts : Nat := 3

def reauthCircuitStep (action : ExpiryAction) (alreadyReauthing : Bool) (attempts : Nat) :
    ReauthStep :=
  match action with
  | .running => ⟨.running, 0, false⟩
  | .reauthenticate =>
    if !alreadyReauthing then ⟨.reauthenticating, 1, true⟩
    else
      let attempts := min (attempts + 1) (2 ^ 32 - 1)
      if maxReauthAttempts ≤ attempts then ⟨.expired, attempts, false⟩
      else ⟨.reauthenticating, attempts, false⟩
  | .expired => ⟨.expired, 0, false⟩

/-- A self node, with what its expiry is judged by, or a change of the login URL. -/
inductive ReauthEvent where
  | selfNode (keyExpired hasAuthKey reauthEnabled tkaActive : Bool)
  | authUrl (url : Option String)

namespace ReauthEvent

def action : ReauthEvent → Option ExpiryAction
  | .selfNode keyExpired hasAuthKey reauthEnabled tkaActive =>
    some (expiryAction keyExpired hasAuthKey reauthEnabled tkaActive)
  | .authUrl _ => none

/-- A self node with an unexpired key. -/
def recovers : ReauthEvent → Bool
  | .selfNode keyExpired _ _ _ => !keyExpired
  | .authUrl _ => false

theorem action_of_not_recovers {ev : ReauthEvent} (down : ev.recovers = false) :
    ev.action ≠ some .running := by
  cases ev with
  | authUrl url => exact nofun
  | selfNode keyExpired hasAuthKey reauthEnabled tkaActive =>
    simp only [recovers, Bool.not_eq_false'] at down
    rw [action, expiryAction, down]
    split
    · contradiction
    · split <;> simp

end ReauthEvent

def bridgeReauthUrlToState (state : DeviceState) : Option String → DeviceState
  | none => state
  | some url => if state = .reauthenticating then state else .needsLogin url

/-- The runner's memory of re-authentications: the published state and the counter. -/
structure Reauth where
  state : DeviceState
  attempts : Nat

namespace Reauth

def new : Reauth := ⟨.running, 0⟩

variable (s : Reauth)

def judged (action : ExpiryAction) : ReauthStep :=
  reauthCircuitStep action (s.state = .reauthenticating) s.attempts

/-- The URL bridge may write the state while a self node is handled. It writes neither over nor to
`reauthenticating`, so it may as well have run before. -/
def step : ReauthEvent → Reauth
  | .selfNode keyExpired hasAuthKey reauthEnabled tkaActive =>
    let made := s.judged (expiryAction keyExpired hasAuthKey reauthEnabled tkaActive)
    ⟨made.next, made.attempts⟩
  | .authUrl url => { s with state := bridgeReauthUrlToState s.state url }

/-- A re-authentication is fired when the step asks for it and the state changes. -/
def fired (ev : ReauthEvent) : List Unit :=
  match ev.action.map s.judged with
  | some made => if s.state ≠ made.next ∧ made.fireReauth then [()] else []
  | none => []

/-- The attempt limit moves the device to `expired`. -/
def trips (ev : ReauthEvent) : Bool :=
  ev.action = some .reauthenticate ∧ s.state = .reauthenticating ∧ (s.step ev).state = .expired

end Reauth

/-- How many self nodes have asked for a re-authentication since the last unexpired key. One that
is refused after another has asked takes it to the limit. -/
def asks (asked : Nat) (ev : ReauthEvent) : Nat :=
  match ev.action with
  | none => asked
  | some .running => 0
  | some .reauthenticate => asked + 1
  | some .expired => if asked = 0 then 0 else max asked maxReauthAttempts

theorem le_asks {asked : Nat} {ev : ReauthEvent} (down : ev.recovers = false) :
    asked ≤ asks asked ev := by
  have kept := ReauthEvent.action_of_not_recovers down
  unfold asks
  split
  · exact Nat.le_refl _
  · contradiction
  · exact Nat.le_succ _
  · split <;> omega

/-- No self node asks for a re-authentication at the limit. -/
def Admits (asked : Nat) (ev : ReauthEvent) : Prop :=
  maxReauthAttempts ≤ asked → ev.action ≠ some .reauthenticate

instance Admits.decidable (asked : Nat) (ev : ReauthEvent) : Decidable (Admits asked ev) :=
  inferInstanceAs (Decidable (_ → _))

namespace Reauth

variable {asked : Nat} {s : Reauth} {ev : ReauthEvent}

/-- The runner's memory agrees with the number of self nodes that asked. -/
def Agrees (asked : Nat) (s : Reauth) : Prop :=
  if asked = 0 ∨ maxReauthAttempts ≤ asked then s.state ≠ .reauthenticating
  else s.state = .reauthenticating ∧ s.attempts = asked

theorem step_agrees (agrees : Agrees asked s) (admitted : Admits asked ev) :
    Agrees (asks asked ev) (s.step ev) ∧
      (s.fired ev).length = if asked = 0 ∧ ev.action = some .reauthenticate then 1 else 0 := by
  unfold Admits maxReauthAttempts at admitted
  unfold Agrees maxReauthAttempts at agrees ⊢
  cases ev with
  | authUrl url =>
    refine ⟨?_, by simp [fired, ReauthEvent.action]⟩
    cases url with
    | none => exact agrees
    | some url =>
      simp only [asks, ReauthEvent.action, step, bridgeReauthUrlToState]
      split at agrees <;> simp_all
  | selfNode keyExpired hasAuthKey reauthEnabled tkaActive =>
    cases action : expiryAction keyExpired hasAuthKey reauthEnabled tkaActive <;>
      simp only [asks, fired, ReauthEvent.action, step, Option.map_some, judged, action,
        reauthCircuitStep] at admitted ⊢
    case running => simp
    case expired =>
      have past : (if asked = 0 then 0 else max asked maxReauthAttempts) = 0 ∨
          3 ≤ if asked = 0 then 0 else max asked maxReauthAttempts := by
        split
        · exact .inl rfl
        · exact .inr (Nat.le_max_right ..)
      rw [if_pos past]
      simp
    case reauthenticate =>
      have below : asked < 3 := Nat.lt_of_not_le fun limit => admitted limit rfl
      split at agrees
      · have none : asked = 0 := by omega
        simp [agrees, none]
      · have more : min (asked + 1) (2 ^ 32 - 1) = asked + 1 := by omega
        obtain ⟨state, rfl⟩ := agrees
        simp only [state, decide_true, Bool.not_true, Bool.false_eq_true, if_false, more,
          maxReauthAttempts]
        have some : s.attempts ≠ 0 := by omega
        by_cases limit : 2 ≤ s.attempts <;> simp [limit, some]

/-- The induction is over the events up to the next unexpired key. -/
theorem trace_fired {between : List ReauthEvent} (agrees : Agrees asked s)
    (down : ∀ ev ∈ between, ev.recovers = false) (admitted : Along asks Admits asked between) :
    (trace step fired s between).length ≤ 1 - asked ∧
      (maxReauthAttempts ≤ asked → (run step s between).state ≠ .reauthenticating) := by
  induction between generalizing asked s with
  | nil =>
    refine ⟨Nat.zero_le _, fun limit => ?_⟩
    rwa [Agrees, if_pos (.inr limit)] at agrees
  | cons ev rest ih =>
    obtain ⟨agrees, fires⟩ := step_agrees agrees admitted.1
    have later := ih agrees (fun ev member => down ev (mem_cons_of_mem _ member)) admitted.2
    have grows := @le_asks asked ev (down ev mem_cons_self)
    refine ⟨?_, fun limit => later.2 (Nat.le_trans limit grows)⟩
    rw [trace, length_append, fires]
    split
    · case _ first =>
        have one : asks asked ev = 1 := by rw [asks, first.2, first.1]
        rw [one] at later
        omega
    · omega

theorem run_agrees {events : List ReauthEvent} (agrees : Agrees asked s)
    (admitted : Along asks Admits asked events) :
    Agrees (run asks asked events) (run step s events) := by
  induction events generalizing asked s with
  | nil => exact agrees
  | cons ev rest ih => exact ih (step_agrees agrees admitted.1).1 admitted.2

theorem new_agrees : Agrees 0 new := by simp [Agrees, new]

theorem limit_of_trips (agrees : Agrees asked s) (admitted : Admits asked ev)
    (tripped : s.trips ev = true) : maxReauthAttempts ≤ asks asked ev := by
  obtain ⟨action, state, next⟩ := of_decide_eq_true tripped
  have after := (step_agrees agrees admitted).1
  unfold Agrees at after
  split at after
  · case _ ends =>
      rcases ends with none | limit
      · rw [asks, action] at none
        cases none
      · exact limit
  · rw [next] at after
    cases after.1

/-- In every run in which no self node asks for a re-authentication at the limit, one is fired at
most once between two self nodes with an unexpired key, and after the attempt limit none is fired
and the state does not return before such a self node. -/
theorem fired_at_most_once (events : List ReauthEvent) (admitted : Along asks Admits 0 events) :
    (∀ before between after, events = before ++ between ++ after →
      (∀ ev ∈ between, ev.recovers = false) →
      (trace step fired (run step new before) between).length ≤ 1) ∧
    ∀ before ev between after, events = before ++ [ev] ++ between ++ after →
      (run step new before).trips ev = true → (∀ ev ∈ between, ev.recovers = false) →
      trace step fired (run step new (before ++ [ev])) between = [] ∧
        (run step new (before ++ [ev] ++ between)).state ≠ .reauthenticating := by
  constructor
  · rintro before between after rfl down
    rw [along_append, along_append] at admitted
    exact Nat.le_trans (trace_fired (run_agrees new_agrees admitted.1.1) down admitted.1.2).1
      (Nat.sub_le _ _)
  · rintro before ev between after rfl tripped down
    rw [along_append, along_append] at admitted
    have first := (along_append asks Admits 0 before [ev]).mp admitted.1.1
    have limit := limit_of_trips (run_agrees new_agrees first.1) first.2.1 tripped
    have quiet := trace_fired (run_agrees new_agrees admitted.1.1) down admitted.1.2
    rw [run_append asks] at quiet
    rw [run_append _ _ (before ++ [ev])]
    refine ⟨length_eq_zero_iff.mp (Nat.le_zero.mp (Nat.le_trans quiet.1 ?_)), quiet.2 limit⟩
    change 1 - asks _ ev ≤ 0
    unfold maxReauthAttempts at limit
    omega

def toyExpired : ReauthEvent := .selfNode true true true false

theorem fired_at_most_once_toy :
    (trace step fired new [toyExpired, toyExpired, toyExpired]).length ≤ 1 :=
  (fired_at_most_once _ (by decide)).1 [] [toyExpired, toyExpired, toyExpired] [] rfl (by decide)

/-- A fourth expired self node in a row: the limit has moved the device to `expired`, and a second
re-authentication is fired. -/
theorem fired_twice :
    (run step new [toyExpired, toyExpired]).trips toyExpired ∧
    trace step fired (run step new [toyExpired, toyExpired, toyExpired]) [toyExpired] = [()] ∧
    (trace step fired new [toyExpired, toyExpired, toyExpired, toyExpired]).length = 2 := by
  decide

end Reauth

end TailscaleRs.Runtime
