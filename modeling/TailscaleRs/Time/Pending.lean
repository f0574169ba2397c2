import Mathlib.Data.List.Induction
import Mathlib.Data.List.Nodup
import Mathlib.Data.List.Pairwise
import TailscaleRs.Lib.Run
import TailscaleRs.Time.Scheduler

namespace TailscaleRs.Time

open List
open FutureEvent (tag)

namespace Scheduler

variable {E : Type}

/-- The invariant of the queue: descending starts, and one tag for each event. -/
structure Ordered (s : Scheduler E) : Prop where
  sorted : s.events.Pairwise (fun a b => b.when.start ≤ a.when.start)
  tags : (s.events.map tag).Nodup
  fresh : ∀ e ∈ s.events, e.tag < s.fresh

theorem empty_ordered : (empty : Scheduler E).Ordered :=
  ⟨List.Pairwise.nil, nodup_nil, nofun⟩

/-- By descending start, as the queue is kept. -/
abbrev Sorted (events : List (FutureEvent E)) : Prop :=
  events.Pairwise fun a b => b.when.start ≤ a.when.start

/-- The partition point splits a sorted queue into the events that start after an instant and
the ones that do not. -/
theorem split_at_partitionPoint (events : List (FutureEvent E)) (t : Instant)
    (sorted : Sorted events) :
    events.take (partitionPoint events t) = events.filter (fun e => t < e.when.start) ∧
    events.drop (partitionPoint events t) = events.filter (fun e => e.when.start ≤ t) := by
  induction events with
  | nil => exact ⟨rfl, rfl⟩
  | cons e rest ih =>
    obtain ⟨below, sorted⟩ := pairwise_cons.mp sorted
    obtain ⟨taken, dropped⟩ := ih sorted
    unfold partitionPoint at taken dropped ⊢
    by_cases after : t < e.when.start
    · have notDue : ¬e.when.start ≤ t := Nat.not_le.mpr after
      simp [after, taken, dropped]
    · have due : e.when.start ≤ t := Nat.not_lt.mp after
      have none (other : FutureEvent E) (member : other ∈ rest) : other.when.start ≤ t :=
        Nat.le_trans (below other member) due
      have early : rest.filter (fun e => t < e.when.start) = [] := by simpa using none
      have late : rest.filter (fun e => e.when.start ≤ t) = rest := by simpa using none
      simp [early, late, due]

variable {events : List (FutureEvent E)} {event : FutureEvent E}

def place (events : List (FutureEvent E)) (event : FutureEvent E) : List (FutureEvent E) :=
  events.take (partitionPoint events event.when.start) ++
    event :: events.drop (partitionPoint events event.when.start)

theorem place_perm : (place events event).Perm (event :: events) := by
  apply perm_middle.trans
  rw [take_append_drop]

theorem mem_place {other : FutureEvent E} :
    other ∈ place events event ↔ other = event ∨ other ∈ events := by
  rw [place_perm.mem_iff, mem_cons]

theorem place_sorted (sorted : Sorted events) : Sorted (place events event) := by
  obtain ⟨taken, dropped⟩ := split_at_partitionPoint events event.when.start sorted
  unfold place
  rw [taken, dropped, Sorted, pairwise_append, pairwise_cons]
  refine ⟨sorted.filter _, ⟨by simp, sorted.filter _⟩, ?_⟩
  intro early memberEarly late memberLate
  have after : event.when.start < early.when.start := by
    simpa using (mem_filter.mp memberEarly).2
  have notAfter : late.when.start ≤ event.when.start := by
    rcases mem_cons.mp memberLate with rfl | member
    · exact Nat.le_refl _
    · simpa using (mem_filter.mp member).2
  exact Nat.le_trans notAfter (Nat.le_of_lt after)

/-- Erasing the event at an index takes out its tag. -/
theorem eraseIdx_eq_filter (tags : (events.map tag).Nodup) {j : Nat}
    (here : events[j]? = some event) :
    events.eraseIdx j = events.filter (fun e => e.tag ≠ event.tag) := by
  induction events generalizing j with
  | nil => cases here
  | cons first rest ih =>
    rw [map_cons, nodup_cons, mem_map, not_exists] at tags
    cases j with
    | zero =>
      cases here
      have kept : rest.filter (fun e => e.tag ≠ event.tag) = rest :=
        filter_eq_self.mpr fun e held => decide_eq_true fun same => tags.1 e ⟨held, same⟩
      rw [eraseIdx_cons_zero, filter_cons_of_neg (by simp), kept]
    | succ j =>
      have later : first.tag ≠ event.tag := fun same =>
        tags.1 event ⟨mem_of_getElem? here, same.symm⟩
      rw [eraseIdx_cons_succ, ih tags.2 here]
      simp [later]

theorem scan_found (i : Nat) (sorted : Sorted events) (tags : (events.map tag).Nodup)
    (member : event ∈ events) (due : ∀ e ∈ events, e.when.start ≤ event.when.start) :
    ∃ j, scan event i events = some (i + j) ∧ events[j]? = some event := by
  induction events generalizing i with
  | nil => cases member
  | cons other rest ih =>
    obtain ⟨below, sorted⟩ := pairwise_cons.mp sorted
    rw [map_cons, nodup_cons] at tags
    rw [scan]
    rcases mem_cons.mp member with rfl | later
    · exact ⟨0, by simp, rfl⟩
    · have different : other.tag ≠ event.tag := fun same =>
        tags.1 (same ▸ mem_map_of_mem later)
      have level : other.when.start = event.when.start :=
        Nat.le_antisymm (due other mem_cons_self) (below event later)
      obtain ⟨j, found, here⟩ := ih (i + 1) sorted tags.2 later
        (fun e held => due e (mem_cons_of_mem other held))
      refine ⟨j + 1, ?_, here⟩
      rw [if_neg (by simp [level]), if_neg different, found, Nat.add_right_comm, Nat.add_assoc]

variable {s : Scheduler E} {handle : Handle} {what : E} {range : Option TimeRange}
  (ordered : s.Ordered)
include ordered

theorem Ordered.place (event : FutureEvent E) (fresh : Nat)
    (below : s.fresh ≤ fresh) (own : event.tag < fresh)
    (unused : ∀ e ∈ s.events, e.tag ≠ event.tag) :
    (⟨place s.events event, fresh⟩ : Scheduler E).Ordered := by
  refine ⟨place_sorted ordered.sorted, ?_, ?_⟩
  · rw [(place_perm.map tag).nodup_iff, map_cons, nodup_cons]
    refine ⟨?_, ordered.tags⟩
    intro member
    obtain ⟨other, held, same⟩ := mem_map.mp member
    exact unused other held same
  · intro e member
    rcases mem_place.mp member with rfl | held
    · exact own
    · exact Nat.lt_of_lt_of_le (ordered.fresh e held) below

theorem Ordered.filter (keep : FutureEvent E → Bool) :
    ({ s with events := s.events.filter keep } : Scheduler E).Ordered where
  sorted := ordered.sorted.filter _
  tags := ordered.tags.sublist (filter_sublist.map _)
  fresh e member := ordered.fresh e (mem_of_mem_filter member)

theorem Ordered.eq_of_tag {a b : FutureEvent E} (memberA : a ∈ s.events)
    (memberB : b ∈ s.events) (same : a.tag = b.tag) : a = b :=
  inj_on_of_nodup_map ordered.tags memberA memberB same

theorem find_found (member : event ∈ s.events) :
    ∃ idx, find s.events event = some idx ∧
      s.events.eraseIdx idx = s.events.filter (fun e => e.tag ≠ event.tag) := by
  obtain ⟨-, dropped⟩ := split_at_partitionPoint s.events event.when.start ordered.sorted
  unfold find
  generalize partitionPoint s.events event.when.start = idx at dropped ⊢
  have held : event ∈ s.events.drop idx := by simp [dropped, member]
  obtain ⟨j, found, here⟩ := scan_found idx (ordered.sorted.sublist (drop_sublist idx _))
    (ordered.tags.sublist ((drop_sublist idx _).map _)) held (by simp [dropped])
  rw [getElem?_drop] at here
  exact ⟨_, found, eraseIdx_eq_filter ordered.tags here⟩

theorem lookup_tag (member : event ∈ s.events) :
    s.events.find? (fun e => e.tag = event.tag) = some event := by
  obtain ⟨found, search⟩ := Option.isSome_iff_exists.mp
    (find?_isSome (p := fun e => decide (e.tag = event.tag)).mpr ⟨event, member, by simp⟩)
  rw [search]
  have own : found.tag = event.tag := by simpa using find?_some search
  rw [ordered.eq_of_tag (mem_of_find?_eq_some search) member own]

omit ordered in
theorem lookup_tag_none (gone : ∀ e ∈ s.events, e.tag ≠ handle.tag) :
    s.events.find? (fun e => e.tag = handle.tag) = none := by
  simpa using gone

omit ordered in
theorem cancel_gone (gone : ∀ e ∈ s.events, e.tag ≠ handle.tag) : s.cancel handle = s := by
  rw [cancel, lookup_tag_none gone]

omit ordered in
theorem reschedule_gone {when : TimeRange} (gone : ∀ e ∈ s.events, e.tag ≠ handle.tag) :
    s.reschedule handle when = (s, none) := by
  rw [reschedule, lookup_tag_none gone]

theorem cancel_eq (handle : Handle) :
    s.cancel handle = { s with events := s.events.filter (fun e => e.tag ≠ handle.tag) } := by
  by_cases pending : ∃ e ∈ s.events, e.tag = handle.tag
  · obtain ⟨event, member, own⟩ := pending
    obtain ⟨idx, found, erased⟩ := find_found ordered member
    rw [cancel, ← own, lookup_tag ordered member]
    dsimp only
    rw [found]
    dsimp only
    rw [erased]
  · have gone : ∀ e ∈ s.events, e.tag ≠ handle.tag := fun e member own => pending ⟨e, member, own⟩
    rw [cancel_gone gone, filter_eq_self.mpr fun e member => decide_eq_true (gone e member)]

/-- A pending event moves to its new place; one that is gone stays gone. -/
theorem reschedule_cases (handle : Handle) (when : TimeRange) :
    (∃ event ∈ s.events, event.tag = handle.tag ∧ s.reschedule handle when =
      (⟨place (s.events.filter (fun e => e.tag ≠ handle.tag)) { event with when := when },
        s.fresh⟩, some handle)) ∨
    (∀ e ∈ s.events, e.tag ≠ handle.tag) ∧ s.reschedule handle when = (s, none) := by
  by_cases pending : ∃ e ∈ s.events, e.tag = handle.tag
  · obtain ⟨event, member, own⟩ := pending
    obtain ⟨idx, found, erased⟩ := find_found ordered member
    refine .inl ⟨event, member, own, ?_⟩
    rw [reschedule, ← own, lookup_tag ordered member]
    dsimp only
    rw [found]
    dsimp only
    rw [erased]
    rfl
  · have gone : ∀ e ∈ s.events, e.tag ≠ handle.tag := fun e member own => pending ⟨e, member, own⟩
    exact .inr ⟨gone, reschedule_gone gone⟩

def due (s : Scheduler E) (now : Instant) : List (FutureEvent E) :=
  (s.events.drop (partitionPoint s.events now)).reverse

theorem due_eq (now : Instant) :
    s.due now = (s.events.filter (fun e => e.when.start ≤ now)).reverse := by
  rw [due, (split_at_partitionPoint s.events now ordered.sorted).2]

theorem dispatch_eq (now : Instant) :
    (s.dispatch now).1 = { s with events := s.events.filter (fun e => now < e.when.start) } := by
  rw [dispatch]
  rw [(split_at_partitionPoint s.events now ordered.sorted).1]

theorem mem_due (now : Instant) (e : FutureEvent E) :
    e ∈ s.due now ↔ e ∈ s.events ∧ e.when.start ≤ now := by
  rw [due_eq ordered, mem_reverse, mem_filter, decide_eq_true_eq]

omit ordered

/-- What the owner of a scheduler and the holders of its handles do to it. -/
inductive Op (E : Type) where
  | add (when : TimeRange) (what : E)
  | cancel (handle : Handle)
  | reschedule (handle : Handle) (when : TimeRange)
  | clear
  | dispatch (now : Instant)

def apply (s : Scheduler E) : Op E → Scheduler E
  | .add when what => (s.add when what).1
  | .cancel handle => s.cancel handle
  | .reschedule handle when => (s.reschedule handle when).1
  | .clear => s.clear
  | .dispatch now => (s.dispatch now).1

theorem add_eq (s : Scheduler E) (when : TimeRange) (what : E) :
    s.add when what = (⟨place s.events ⟨s.fresh, when, what⟩, s.fresh + 1⟩, ⟨s.fresh⟩) := rfl

variable (ordered : s.Ordered)
include ordered

theorem Ordered.cancel (handle : Handle) : (s.cancel handle).Ordered := by
  rw [cancel_eq ordered]
  exact ordered.filter _

theorem Ordered.add (when : TimeRange) (what : E) : (s.add when what).1.Ordered := by
  rw [add_eq]
  refine ordered.place _ (s.fresh + 1) (Nat.le_succ _) (Nat.lt_succ_self _) ?_
  intro e member
  exact Nat.ne_of_lt (ordered.fresh e member)

variable (now : Instant)

theorem Ordered.dispatch : (s.dispatch now).1.Ordered := by
  rw [dispatch_eq ordered]
  exact ordered.filter _

theorem Ordered.reschedule (handle : Handle) (when : TimeRange) :
    (s.reschedule handle when).1.Ordered := by
  rcases reschedule_cases ordered handle when with ⟨event, member, own, is⟩ | ⟨-, is⟩ <;> rw [is]
  · refine (ordered.filter _).place _ s.fresh (Nat.le_refl _) (ordered.fresh event member) ?_
    intro e held
    rw [own]
    simpa using (mem_filter.mp held).2
  · exact ordered

theorem Ordered.apply (op : Op E) : (s.apply op).Ordered := by
  cases op with
  | add when what => exact ordered.add when what
  | cancel handle => exact ordered.cancel handle
  | reschedule handle when => exact ordered.reschedule handle when
  | clear => exact ⟨List.Pairwise.nil, nodup_nil, nofun⟩
  | dispatch now => exact ordered.dispatch now

omit ordered

theorem run_ordered {ops : List (Op E)} (ordered : s.Ordered) : (run apply s ops).Ordered := by
  induction ops generalizing s with
  | nil => exact ordered
  | cons op rest ih => exact ih (ordered.apply op)

/-- The pending range of one event, as each operation leaves it: none once the event was
cancelled, cleared or dispatched. -/
def track (handle : Handle) (range : Option TimeRange) : Op E → Option TimeRange
  | .add _ _ => range
  | .cancel other => if other = handle then none else range
  | .reschedule other when => if other = handle then range.map (fun _ => when) else range
  | .clear => none
  | .dispatch now => range.filter (fun r => now < r.start)

/-- The queue holds the event of a handle exactly with the given range. -/
def Tracks (s : Scheduler E) (handle : Handle) (what : E) (range : Option TimeRange) : Prop :=
  ∀ e, e.tag = handle.tag → (e ∈ s.events ↔ range = some e.when ∧ e.what = what)

theorem Tracks.apply (tracks : s.Tracks handle what range) (ordered : s.Ordered)
    (known : handle.tag < s.fresh) (op : Op E) :
    (s.apply op).Tracks handle what (track handle range op) := by
  intro e own
  have here := tracks e own
  cases op with
  | add when other =>
    have old : e ≠ ⟨s.fresh, when, other⟩ := by
      intro same
      rw [same] at own
      exact Nat.lt_irrefl _ (own ▸ known)
    show e ∈ place s.events ⟨s.fresh, when, other⟩ ↔ _
    rw [mem_place, or_iff_right old]
    exact here
  | cancel other =>
    show e ∈ (s.cancel other).events ↔ _
    rw [cancel_eq ordered, mem_filter, here]
    by_cases same : other = handle
    · simp [track, same, own]
    · have apart : e.tag ≠ other.tag := by
        rw [own]
        exact fun tags => same (congrArg Handle.mk tags.symm)
      simp [track, same, apart]
  | reschedule other when =>
    show e ∈ (s.reschedule other when).1.events ↔ _
    rcases reschedule_cases ordered other when with ⟨event, member, named, is⟩ | ⟨gone, is⟩
    · rw [is, mem_place, mem_filter, here]
      by_cases same : other = handle
      · -- the event itself: it was pending, and the only one with its tag
        subst same
        have held := (tracks event named).mp member
        simp only [track]
        grind [FutureEvent]
      · have apart : e.tag ≠ other.tag := by
          rw [own]
          exact fun tags => same (congrArg Handle.mk tags.symm)
        have moved : e ≠ { event with when := when } := fun both => apart (both ▸ named)
        simp [track, same, apart, moved]
    · rw [is, here]
      by_cases same : other = handle
      · have vacant : range = none := by
          cases present : range with
          | none => rfl
          | some r =>
            have held := (tracks ⟨handle.tag, r, what⟩ rfl).mpr ⟨present, rfl⟩
            exact absurd (congrArg Handle.tag same).symm (gone _ held)
        simp [track, vacant]
      · simp [track, same]
  | clear =>
    show e ∈ [] ↔ _
    simp [track]
  | dispatch now =>
    show e ∈ (s.dispatch now).1.events ↔ _
    rw [dispatch_eq ordered, mem_filter, here]
    simp only [track, Option.filter_eq_some_iff]
    constructor
    · exact fun held => ⟨⟨held.1.1, held.2⟩, held.1.2⟩
    · exact fun held => ⟨⟨held.1.1, held.2⟩, held.1.2⟩

theorem apply_fresh (s : Scheduler E) (ordered : s.Ordered) (op : Op E) :
    s.fresh ≤ (s.apply op).fresh := by
  cases op with
  | add when what => exact Nat.le_succ _
  | cancel handle => simp [apply, cancel_eq ordered]
  | reschedule handle when =>
    rcases reschedule_cases ordered handle when with ⟨_, _, _, is⟩ | ⟨-, is⟩ <;> simp [apply, is]
  | clear => exact Nat.le_refl _
  | dispatch now => simp [apply, dispatch_eq ordered]

theorem Tracks.run (ops : List (Op E)) (tracks : s.Tracks handle what range) (ordered : s.Ordered)
    (known : handle.tag < s.fresh) :
    (run Scheduler.apply s ops).Tracks handle what (ops.foldl (track handle) range) := by
  induction ops generalizing s range with
  | nil => exact tracks
  | cons op rest ih =>
    exact ih (tracks.apply ordered known op) (ordered.apply op)
      (Nat.lt_of_lt_of_le known (apply_fresh s ordered op))

theorem add_tracks (ordered : s.Ordered) (when : TimeRange) (what : E) :
    (s.add when what).1.Tracks (s.add when what).2 what (some when) := by
  intro e own
  rw [add_eq] at own ⊢
  rw [mem_place]
  have new : e ∉ s.events := by
    intro member
    exact Nat.lt_irrefl _ (own ▸ ordered.fresh e member)
  obtain ⟨tag, range, payload⟩ := e
  subst own
  rw [or_iff_left new, FutureEvent.mk.injEq, Option.some.injEq]
  exact ⟨fun same => ⟨same.2.1.symm, same.2.2⟩, fun same => ⟨rfl, same.1.symm, same.2⟩⟩

theorem track_none (handle : Handle) (ops : List (Op E)) :
    ops.foldl (track handle) none = none := by
  induction ops with
  | nil => rfl
  | cons op rest ih => cases op <;> simp [track, ih]

/-- The range an event was last given. -/
def current (handle : Handle) (when : TimeRange) (ops : List (Op E)) : TimeRange :=
  ops.foldl (fun range op =>
    match op with
    | .reschedule other later => if other = handle then later else range
    | _ => range) when

/-- The operation takes the event out without dispatching it. -/
def Op.withdraws (handle : Handle) : Op E → Prop
  | .cancel other => other = handle
  | .clear => True
  | _ => False

/-- The event was neither cancelled nor cleared, and no dispatch so far was late enough for
it. -/
def Awaited (handle : Handle) (when : TimeRange) (ops : List (Op E)) : Prop :=
  (∀ op ∈ ops, ¬op.withdraws handle) ∧
    ∀ before now after, ops = before ++ .dispatch now :: after →
      now < (current handle when before).start

theorem current_snoc (handle : Handle) (when : TimeRange) (ops : List (Op E)) (op : Op E) :
    current handle when (ops ++ [op]) =
      match op with
      | .reschedule other later => if other = handle then later else current handle when ops
      | _ => current handle when ops := by
  rw [current, foldl_append]
  rfl

theorem awaited_snoc (handle : Handle) (when : TimeRange) (ops : List (Op E)) (op : Op E) :
    Awaited handle when (ops ++ [op]) ↔ Awaited handle when ops ∧ ¬op.withdraws handle ∧
      ∀ now, op = .dispatch now → now < (current handle when ops).start := by
  constructor
  · rintro ⟨kept, early⟩
    refine ⟨⟨fun other member => kept other (mem_append_left _ member), ?_⟩,
      kept op (by simp), ?_⟩
    · intro before now after parts
      exact early before now (after ++ [op]) (by rw [parts]; simp)
    · intro now same
      exact early ops now [] (by rw [same])
  · rintro ⟨⟨kept, early⟩, stays, last⟩
    refine ⟨?_, ?_⟩
    · intro other member
      rcases mem_append.mp member with held | same
      · exact kept other held
      · rw [mem_singleton.mp same]
        exact stays
    · intro before now after parts
      rcases eq_nil_or_concat after with rfl | ⟨front, final, rfl⟩
      · obtain ⟨rfl, same⟩ := append_inj' parts rfl
        exact last now (singleton_inj.mp same)
      · have regrouped : ops ++ [op] = (before ++ .dispatch now :: front) ++ [final] := by
          rw [parts]
          simp
        obtain ⟨rfl, -⟩ := append_inj' regrouped rfl
        exact early before now front rfl

theorem track_eq_some (handle : Handle) (when : TimeRange) (ops : List (Op E)) (r : TimeRange) :
    ops.foldl (track handle) (some when) = some r ↔
      Awaited handle when ops ∧ current handle when ops = r := by
  induction ops using reverseRecOn generalizing r with
  | nil =>
    have awaited : Awaited (E := E) handle when [] := by
      refine ⟨fun op member => absurd member not_mem_nil, ?_⟩
      intro before now after parts
      cases before <;> cases parts
    simp [awaited, current]
  | append_singleton ops op ih =>
    rw [foldl_append, awaited_snoc, current_snoc]
    show track handle (ops.foldl (track handle) (some when)) op = some r ↔ _
    cases op with
    | add _ _ => simp [track, Op.withdraws, ih]
    | cancel other =>
      by_cases same : other = handle <;> simp [track, Op.withdraws, ih, same]
    | reschedule other later =>
      by_cases same : other = handle
      · simp only [track, same, if_pos, Option.map_eq_some_iff, Op.withdraws,
          not_false_eq_true, reduceCtorEq, false_imp_iff, implies_true, and_true]
        constructor
        · rintro ⟨range, held, rfl⟩
          exact ⟨((ih range).mp held).1, rfl⟩
        · rintro ⟨awaited, rfl⟩
          exact ⟨_, (ih _).mpr ⟨awaited, rfl⟩, rfl⟩
      · simp [track, Op.withdraws, ih, same]
    | clear => simp [track, Op.withdraws]
    | dispatch now =>
      simp only [track, Option.filter_eq_some_iff, ih, Op.withdraws, not_false_eq_true,
        true_and, Op.dispatch.injEq, forall_eq', decide_eq_true_eq]
      constructor
      · rintro ⟨⟨awaited, rfl⟩, early⟩
        exact ⟨⟨awaited, early⟩, rfl⟩
      · rintro ⟨⟨awaited, early⟩, rfl⟩
        exact ⟨⟨awaited, rfl⟩, early⟩

include ordered

/-- An event is returned by a dispatch exactly if it is the first one late enough for it, with
the range and payload it was last given. -/
theorem mem_due_iff (when : TimeRange) (what : E) {ops : List (Op E)} (now : Instant)
    (e : FutureEvent E) (own : e.tag = (s.add when what).2.tag) :
    e ∈ (run apply (s.add when what).1 ops).due now ↔
      Awaited (s.add when what).2 when ops ∧
        (current (s.add when what).2 when ops).start ≤ now ∧
        e.when = current (s.add when what).2 when ops ∧ e.what = what := by
  have started := ordered.add when what
  have tracks := (add_tracks ordered when what).run ops started (Nat.lt_succ_self _)
  rw [mem_due (run_ordered started), tracks e own, track_eq_some]
  constructor
  · rintro ⟨⟨⟨awaited, range⟩, payload⟩, late⟩
    exact ⟨awaited, range ▸ late, range.symm, payload⟩
  · rintro ⟨awaited, late, range, payload⟩
    exact ⟨⟨⟨awaited, range.symm⟩, payload⟩, range ▸ late⟩

theorem due_tags_nodup : ((s.due now).map tag).Nodup := by
  rw [due_eq ordered, map_reverse, nodup_reverse]
  exact ordered.tags.sublist (filter_sublist.map _)

theorem due_sorted : (s.due now).Pairwise (fun a b => a.when.start ≤ b.when.start) := by
  rw [due_eq ordered, pairwise_reverse]
  exact ordered.sorted.filter _

theorem spent_after_dispatch (e : FutureEvent E) (returned : e ∈ s.due now) (ops : List (Op E)) :
    ∀ other ∈ (run apply (s.dispatch now).1 ops).events, other.tag ≠ e.tag := by
  obtain ⟨member, late⟩ := (mem_due ordered now e).mp returned
  have tracks : (s.dispatch now).1.Tracks ⟨e.tag⟩ e.what none := by
    intro other own
    rw [dispatch_eq ordered, mem_filter, decide_eq_true_eq]
    refine ⟨fun held => ?_, fun held => nomatch held.1⟩
    rw [ordered.eq_of_tag held.1 member own] at held
    exact absurd late (Nat.not_le.mpr held.2)
  have known : (⟨e.tag⟩ : Handle).tag < (s.dispatch now).1.fresh := by
    rw [dispatch_eq ordered]
    exact ordered.fresh e member
  have later := tracks.run ops (ordered.dispatch now) known
  rw [track_none] at later
  intro other held own
  cases ((later other own).mp held).1

omit ordered

/-- The loop that narrows the window ends at the earliest stop, although it leaves out the
events that start after it. -/
theorem earliestStop_least (stop : Instant) (events : List (FutureEvent E))
    (sorted : events.Pairwise (fun a b => a.when.start ≤ b.when.start)) :
    (earliestStop stop events = stop ∨ ∃ e ∈ events, e.when.stop = earliestStop stop events) ∧
      earliestStop stop events ≤ stop ∧ ∀ e ∈ events, earliestStop stop events ≤ e.when.stop := by
  induction events generalizing stop with
  | nil => exact ⟨.inl rfl, Nat.le_refl _, nofun⟩
  | cons e rest ih =>
    obtain ⟨above, sorted⟩ := pairwise_cons.mp sorted
    rw [earliestStop]
    by_cases beyond : stop < e.when.start
    · rw [if_pos beyond]
      refine ⟨.inl rfl, Nat.le_refl _, ?_⟩
      intro other member
      have start : e.when.start ≤ other.when.start := by
        rcases mem_cons.mp member with rfl | later
        · exact Nat.le_refl _
        · exact above other later
      exact Nat.le_trans (Nat.le_of_lt beyond) (Nat.le_trans start other.when.ordered)
    · rw [if_neg beyond]
      obtain ⟨attained, bound, least⟩ := ih (min stop e.when.stop) sorted
      have belowStop := Nat.le_trans bound (Nat.min_le_left stop e.when.stop)
      have belowFirst := Nat.le_trans bound (Nat.min_le_right stop e.when.stop)
      refine ⟨?_, belowStop, ?_⟩
      · rcases attained with same | ⟨other, member, same⟩
        · rcases Nat.le_total stop e.when.stop with earlier | later
          · exact .inl (same.trans (Nat.min_eq_left earlier))
          · refine .inr ⟨e, mem_cons_self, ?_⟩
            rw [same, Nat.min_eq_right later]
        · exact .inr ⟨other, mem_cons_of_mem e member, same⟩
      · intro other member
        rcases mem_cons.mp member with rfl | later
        · exact belowFirst
        · exact least other later

/-- The range spans from the earliest start to the earliest stop of the pending events. -/
structure Window (s : Scheduler E) (range : TimeRange) : Prop where
  start : ∃ e ∈ s.events, e.when.start = range.start
  stop : ∃ e ∈ s.events, e.when.stop = range.stop
  least : ∀ e ∈ s.events, range.start ≤ e.when.start ∧ range.stop ≤ e.when.stop

theorem nextDispatchRange_window (ordered : s.Ordered) (some : s.events ≠ []) :
    ∃ range, s.nextDispatchRange = .some (.ok range) ∧ s.Window range := by
  have ascending := pairwise_reverse.mpr ordered.sorted
  have members (e : FutureEvent E) : e ∈ s.events.reverse ↔ e ∈ s.events := mem_reverse
  unfold nextDispatchRange
  cases shape : s.events.reverse with
  | nil => exact absurd (reverse_eq_nil_iff.mp shape) some
  | cons last rest =>
    rw [shape] at ascending members
    obtain ⟨first, sorted⟩ := pairwise_cons.mp ascending
    obtain ⟨attained, bound, least⟩ := earliestStop_least last.when.stop rest sorted
    have start (e : FutureEvent E) (member : e ∈ last :: rest) :
        last.when.start ≤ e.when.start := by
      rcases mem_cons.mp member with rfl | later
      · exact Nat.le_refl _
      · exact first e later
    obtain ⟨stopper, held, same⟩ : ∃ e ∈ last :: rest,
        e.when.stop = earliestStop last.when.stop rest := by
      rcases attained with same | ⟨other, member, same⟩
      · exact ⟨last, mem_cons_self, same.symm⟩
      · exact ⟨other, mem_cons_of_mem last member, same⟩
    -- the event that stops first does not start before the earliest start
    have inOrder : last.when.start ≤ earliestStop last.when.stop rest :=
      same ▸ Nat.le_trans (start stopper held) stopper.when.ordered
    refine ⟨⟨_, _, inOrder⟩, by simp [TimeRange.new, inOrder], ?_, ?_, ?_⟩
    · exact ⟨last, (members last).mp mem_cons_self, rfl⟩
    · exact ⟨stopper, (members stopper).mp held, same⟩
    · intro e member
      refine ⟨start e ((members e).mpr member), ?_⟩
      rcases mem_cons.mp ((members e).mpr member) with rfl | later
      · exact bound
      · exact least e later

/-- After any operations: an added event is returned exactly once, by the first dispatch late
enough for it, unless it was cancelled or cleared; one dispatch returns events in the order of
their starts; the handle of a dispatched event does nothing; and a dispatch at the end of the next
window is too late for none of the pending events. -/
theorem dispatches_on_time (past : List (Op E)) :
    let s := run apply empty past
    (∀ (when : TimeRange) (what : E) (later : List (Op E)) (now : Instant) (e : FutureEvent E),
      e.tag = (s.add when what).2.tag →
      (e ∈ (run apply (s.add when what).1 later).due now ↔
        Awaited (s.add when what).2 when later ∧
          (current (s.add when what).2 when later).start ≤ now ∧
          e.when = current (s.add when what).2 when later ∧ e.what = what)) ∧
    (∀ now, (s.dispatch now).2 = (s.due now).map FutureEvent.what ∧
      ((s.due now).map tag).Nodup ∧
      (s.due now).Pairwise (fun a b => a.when.start ≤ b.when.start)) ∧
    (∀ now e, e ∈ s.due now → ∀ later after, after = run apply (s.dispatch now).1 later →
      after.cancel ⟨e.tag⟩ = after ∧ ∀ when, after.reschedule ⟨e.tag⟩ when = (after, none)) ∧
    (s.events = [] → s.nextDispatchRange = none) ∧
    (s.events ≠ [] → ∃ range, s.nextDispatchRange = some (.ok range) ∧ s.Window range ∧
      ∀ e ∈ s.due range.stop, e.when.start ≤ range.stop ∧ range.stop ≤ e.when.stop) := by
  intro s
  have ordered : s.Ordered := run_ordered empty_ordered
  refine ⟨fun when what later now e own => mem_due_iff ordered when what now e own,
    fun now => ⟨rfl, due_tags_nodup ordered now, due_sorted ordered now⟩, ?_, ?_, ?_⟩
  · intro now e returned later after runs
    have gone := spent_after_dispatch ordered now e returned later
    rw [← runs] at gone
    exact ⟨cancel_gone gone, fun when => reschedule_gone gone⟩
  · intro idle
    rw [nextDispatchRange, idle]
    rfl
  · intro busy
    obtain ⟨range, next, window⟩ := nextDispatchRange_window ordered busy
    refine ⟨range, next, window, ?_⟩
    intro e returned
    obtain ⟨member, started⟩ := (mem_due ordered range.stop e).mp returned
    exact ⟨started, (window.least e member).2⟩

end Scheduler

end TailscaleRs.Time
