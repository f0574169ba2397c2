namespace TailscaleRs.Time

abbrev Instant := Nat

abbrev Duration := Nat

def fromSecs (n : Nat) : Duration := n * 1000000000
def fromMillis (n : Nat) : Duration := n * 1000000

structure TimeRange where
  start : Instant
  stop : Instant
  ordered : start ≤ stop

inductive RangePanic where
  | inverted
  deriving DecidableEq, Repr

def TimeRange.new (start stop : Instant) : Except RangePanic TimeRange :=
  if ordered : start ≤ stop then .ok ⟨start, stop, ordered⟩ else .error .inverted

/-- A range centred on an instant; a side that would leave the clock's range is
clamped. -/
def TimeRange.newAround (t : Instant) (plusMinus : Duration) : TimeRange where
  start := if plusMinus ≤ t then t - plusMinus else t
  stop := t + plusMinus
  ordered := by
    split
    · exact Nat.le_trans (Nat.sub_le t plusMinus) (Nat.le_add_right t plusMinus)
    · exact Nat.le_add_right t plusMinus

/-- A scheduled event; the tag stands for the identity of its allocation. -/
structure FutureEvent (E : Type) where
  tag : Nat
  when : TimeRange
  what : E

structure Handle where
  tag : Nat
  deriving DecidableEq, Repr

/-- Pending events by descending start; `fresh` is the next unused tag. -/
structure Scheduler (E : Type) where
  events : List (FutureEvent E)
  fresh : Nat

namespace Scheduler

variable {E : Type}

def empty : Scheduler E := ⟨[], 0⟩

variable (events : List (FutureEvent E))

/-- The index of the first event that starts at or before `t`. -/
def partitionPoint (t : Instant) : Nat :=
  (events.takeWhile (fun e => t < e.when.start)).length

variable (s : Scheduler E)

def add (when : TimeRange) (what : E) : Scheduler E × Handle :=
  let idx := partitionPoint s.events when.start
  (⟨s.events.take idx ++ ⟨s.fresh, when, what⟩ :: s.events.drop idx, s.fresh + 1⟩, ⟨s.fresh⟩)

/-- The scan of `find` over the events that start no later than the one sought. -/
def scan (event : FutureEvent E) : Nat → List (FutureEvent E) → Option Nat
  | _, [] => none
  | i, other :: rest =>
    if other.when.start ≠ event.when.start then none
    else if other.tag = event.tag then some i
    else scan event (i + 1) rest

def find (event : FutureEvent E) : Option Nat :=
  let idx := partitionPoint events event.when.start
  scan event idx (events.drop idx)

/-- `Handle::cancel`: an event that is gone cannot be upgraded, which is a no-op. -/
def cancel (handle : Handle) : Scheduler E :=
  match s.events.find? (fun e => e.tag = handle.tag) with
  | none => s
  | some event =>
    match find s.events event with
    | none => s
    | some idx => { s with events := s.events.eraseIdx idx }

/-- `Handle::reschedule`: the event keeps its identity and moves to another range. -/
def reschedule (handle : Handle) (when : TimeRange) : Scheduler E × Option Handle :=
  match s.events.find? (fun e => e.tag = handle.tag) with
  | none => (s, none)
  | some event =>
    match find s.events event with
    | none => (s, none)
    | some found =>
      let events := s.events.eraseIdx found
      let idx := partitionPoint events when.start
      ({ s with events := events.take idx ++ { event with when := when } :: events.drop idx },
        some handle)

def clear : Scheduler E := { s with events := [] }

def dispatch (now : Instant) : Scheduler E × List E :=
  let idx := partitionPoint s.events now
  ({ s with events := s.events.take idx }, ((s.events.drop idx).reverse).map FutureEvent.what)

/-- The loop of `next_dispatch_range` over the events by ascending start. -/
def earliestStop : Instant → List (FutureEvent E) → Instant
  | stop, [] => stop
  | stop, e :: rest =>
    if stop < e.when.start then stop else earliestStop (min stop e.when.stop) rest

def nextDispatchRange : Option (Except RangePanic TimeRange) :=
  match s.events.reverse with
  | [] => none
  | last :: rest => some (TimeRange.new last.when.start (earliestStop last.when.stop rest))

end Scheduler

end TailscaleRs.Time
