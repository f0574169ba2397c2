import TailscaleRs.Time.Pending

namespace TailscaleRs.Time

open Function List Scheduler

variable {E : Type}

/-- Slots that keep the handle of the one pending event of each kind. The events owed were
dispatched and wait for their turn; only a loose kind may be given up while it waits. -/
structure Booked (loose : E → Prop) (s : Scheduler E) (owed : List (FutureEvent E))
    (slot : E → Option Handle) : Prop where
  ordered : s.Ordered
  known : ∀ o ∈ owed, o.tag < s.fresh
  apart : ∀ o ∈ owed, ∀ e ∈ s.events, e.tag ≠ o.tag
  kinds : (owed.map FutureEvent.what).Nodup
  pending : ∀ e ∈ s.events, slot e.what = some ⟨e.tag⟩
  armed : ∀ what handle, slot what = some handle →
    ∃ e, (e ∈ s.events ∨ e ∈ owed) ∧ e.what = what ∧ e.tag = handle.tag
  unsettled : ∀ o ∈ owed, slot o.what = some ⟨o.tag⟩ ∨ (loose o.what ∧ slot o.what = none)

namespace Booked

variable {loose : E → Prop} {s : Scheduler E} {owed : List (FutureEvent E)}
  {slot : E → Option Handle}

theorem empty : Booked loose (empty : Scheduler E) [] (fun _ => none) where
  ordered := empty_ordered
  known _ member := nomatch member
  apart _ member := nomatch member
  kinds := nodup_nil
  pending _ member := nomatch member
  armed _ _ held := nomatch held
  unsettled _ member := nomatch member

theorem full_iff (booked : Booked loose s [] slot) {what : E} {handle : Handle} :
    slot what = some handle ↔ ∃ e ∈ s.events, e.what = what ∧ e.tag = handle.tag := by
  constructor
  · intro held
    obtain ⟨e, present, own, same⟩ := booked.armed what handle held
    exact ⟨e, present.resolve_right not_mem_nil, own, same⟩
  · rintro ⟨e, member, rfl, same⟩
    rw [booked.pending e member, same]

theorem what_of_tag (booked : Booked loose s owed slot) (what : E) {handle : Handle}
    (held : slot what = some handle) (e : FutureEvent E) (member : e ∈ s.events)
    (named : e.tag = handle.tag) : e.what = what := by
  obtain ⟨own, present, kind, tag⟩ := booked.armed what handle held
  rcases present with pending | waiting
  · rw [booked.ordered.eq_of_tag member pending (named.trans tag.symm), kind]
  · exact absurd (named.trans tag.symm) (booked.apart own waiting e member)

theorem dispatch (booked : Booked loose s [] slot) (now : Instant) :
    Booked loose (s.dispatch now).1 (s.due now) slot := by
  have members (e : FutureEvent E) :
      e ∈ (s.dispatch now).1.events ↔ e ∈ s.events ∧ now < e.when.start := by
    rw [dispatch_eq booked.ordered, mem_filter, decide_eq_true_eq]
  have taken := mem_due booked.ordered now
  have fresh : (s.dispatch now).1.fresh = s.fresh := by
    rw [dispatch_eq booked.ordered]
  refine ⟨booked.ordered.dispatch now,
    fun o due => fresh ▸ booked.ordered.fresh o ((taken o).mp due).1, ?_, ?_, ?_, ?_, ?_⟩
  · intro o due e present same
    obtain ⟨member, later⟩ := (members e).mp present
    obtain ⟨held, early⟩ := (taken o).mp due
    rw [booked.ordered.eq_of_tag member held same] at later
    exact absurd early (Nat.not_le.mpr later)
  · refine List.Nodup.map_on ?_ (due_tags_nodup booked.ordered now).of_map
    intro a dueA b dueB same
    have slotA := booked.pending a ((taken a).mp dueA).1
    have slotB := booked.pending b ((taken b).mp dueB).1
    rw [same, slotB, Option.some.injEq, Handle.mk.injEq] at slotA
    exact (booked.ordered.eq_of_tag ((taken b).mp dueB).1 ((taken a).mp dueA).1 slotA).symm
  · exact fun e present => booked.pending e ((members e).mp present).1
  · intro what handle held
    obtain ⟨e, member, own⟩ := booked.full_iff.mp held
    refine ⟨e, ?_, own⟩
    rcases Nat.lt_or_ge now e.when.start with later | early
    · exact .inl ((members e).mpr ⟨member, later⟩)
    · exact .inr ((taken e).mpr ⟨member, early⟩)
  · exact fun o due => .inl (booked.pending o ((taken o).mp due).1)

variable [DecidableEq E] (booked : Booked loose s owed slot)
include booked

theorem cancel (what : E) (handle : Handle) (held : slot what = some handle)
    (free : loose what ∨ ∀ o ∈ owed, o.what ≠ what) :
    Booked loose (s.cancel handle) owed (update slot what none) := by
  have members (e : FutureEvent E) :
      e ∈ (s.cancel handle).events ↔ e ∈ s.events ∧ e.tag ≠ handle.tag := by
    rw [cancel_eq booked.ordered, mem_filter, decide_eq_true_eq]
  have fresh : (s.cancel handle).fresh = s.fresh := by
    rw [cancel_eq booked.ordered]
  refine ⟨booked.ordered.cancel handle, fun o member => fresh ▸ booked.known o member,
    fun o member e present => booked.apart o member e ((members e).mp present).1, booked.kinds,
    ?_, ?_, ?_⟩
  · intro e present
    obtain ⟨member, other⟩ := (members e).mp present
    have own := booked.pending e member
    have different : e.what ≠ what := by
      intro same
      rw [same, held] at own
      cases own
      exact other rfl
    rw [update_of_ne different]
    exact own
  · intro kind own full
    by_cases same : kind = what
    · rw [same, update_self] at full
      cases full
    · rw [update_of_ne same] at full
      obtain ⟨e, present, rfl, named⟩ := booked.armed kind own full
      refine ⟨e, ?_, rfl, named⟩
      rcases present with member | waiting
      · exact .inl ((members e).mpr
          ⟨member, fun tags => same (booked.what_of_tag what held e member tags)⟩)
      · exact .inr waiting
  · intro o waiting
    by_cases same : o.what = what
    · rw [same, update_self]
      exact .inr ⟨free.resolve_right (fun none => none o waiting same), rfl⟩
    · rw [update_of_ne same]
      exact booked.unsettled o waiting

theorem add (when : TimeRange) (what : E) (vacant : slot what = none)
    (free : ∀ o ∈ owed, o.what ≠ what) :
    Booked loose (s.add when what).1 owed (update slot what (some (s.add when what).2)) := by
  have members (e : FutureEvent E) : e ∈ (s.add when what).1.events ↔
      e = ⟨s.fresh, when, what⟩ ∨ e ∈ s.events := by
    rw [add_eq]
    exact mem_place
  refine ⟨booked.ordered.add when what,
    fun o member => Nat.lt_succ_of_lt (booked.known o member), ?_, booked.kinds, ?_, ?_, ?_⟩
  · intro o waiting e present
    rcases (members e).mp present with rfl | member
    · exact Nat.ne_of_gt (booked.known o waiting)
    · exact booked.apart o waiting e member
  · intro e present
    rcases (members e).mp present with rfl | member
    · exact update_self what _ slot
    · have different : e.what ≠ what := by
        intro same
        have own := booked.pending e member
        rw [same, vacant] at own
        cases own
      rw [update_of_ne different]
      exact booked.pending e member
  · intro kind own full
    by_cases same : kind = what
    · rw [same, update_self] at full
      cases full
      exact ⟨⟨s.fresh, when, what⟩, .inl ((members _).mpr (.inl rfl)), same.symm, rfl⟩
    · rw [update_of_ne same] at full
      obtain ⟨e, present, named⟩ := booked.armed kind own full
      exact ⟨e, present.imp_left (fun member => (members e).mpr (.inr member)), named⟩
  · intro o waiting
    rw [update_of_ne (free o waiting)]
    exact booked.unsettled o waiting

/-- A new event is scheduled before the one it replaces is cancelled. -/
theorem replace (when : TimeRange) (what : E) (old : Handle) (held : slot what = some old)
    (free : ∀ o ∈ owed, o.what ≠ what) :
    Booked loose ((s.add when what).1.cancel old) owed
      (update slot what (some (s.add when what).2)) := by
  have fresh : (s.cancel old).fresh = s.fresh := by
    rw [cancel_eq booked.ordered]
  have swapped := (booked.cancel what old held (.inr free)).add when what
    (update_self what _ slot) free
  have added := booked.ordered.add when what
  have older : old.tag ≠ s.fresh := by
    obtain ⟨e, present, -, tag⟩ := booked.armed what old held
    rw [← tag]
    rcases present with member | waiting
    · exact Nat.ne_of_lt (booked.ordered.fresh e member)
    · exact Nat.ne_of_lt (booked.known e waiting)
  have handle : ((s.cancel old).add when what).2 = (s.add when what).2 := by
    rw [add_eq, add_eq, fresh]
  rw [handle, update_idem] at swapped
  have later : ((s.add when what).1.cancel old).fresh = ((s.cancel old).add when what).1.fresh := by
    rw [cancel_eq added, add_eq, add_eq, fresh]
  have same : ∀ e, e ∈ ((s.add when what).1.cancel old).events ↔
      e ∈ ((s.cancel old).add when what).1.events := by
    intro e
    rw [cancel_eq added, mem_filter, decide_eq_true_eq, add_eq,
      add_eq, mem_place, mem_place,
      cancel_eq booked.ordered, mem_filter, decide_eq_true_eq]
    constructor
    · rintro ⟨rfl | member, other⟩
      · exact .inl rfl
      · exact .inr ⟨member, other⟩
    · rintro (rfl | ⟨member, other⟩)
      · exact ⟨.inl rfl, Ne.symm older⟩
      · exact ⟨.inr member, other⟩
  obtain ⟨-, known, apart, kinds, pending, armed, unsettled⟩ := swapped
  simp only [← same, ← later] at known apart pending armed
  exact ⟨added.cancel old, known, apart, kinds, pending, armed, unsettled⟩

omit booked

theorem spend {o : FutureEvent E} (booked : Booked loose s (o :: owed) slot) :
    Booked loose s owed (update slot o.what none) := by
  have kinds := booked.kinds
  rw [map_cons, nodup_cons] at kinds
  have mine := booked.unsettled o mem_cons_self
  refine ⟨booked.ordered, fun other member => booked.known other (mem_cons_of_mem o member),
    fun other member => booked.apart other (mem_cons_of_mem o member), kinds.2, ?_, ?_, ?_⟩
  · intro e member
    have own := booked.pending e member
    have different : e.what ≠ o.what := by
      intro same
      rw [same] at own
      rcases mine with full | ⟨-, gone⟩
      · rw [own, Option.some.injEq, Handle.mk.injEq] at full
        exact booked.apart o mem_cons_self e member full
      · rw [own] at gone
        cases gone
    rw [update_of_ne different]
    exact own
  · intro kind own full
    by_cases same : kind = o.what
    · rw [same, update_self] at full
      cases full
    · rw [update_of_ne same] at full
      obtain ⟨e, present, rfl, named⟩ := booked.armed kind own full
      refine ⟨e, present.imp_right (fun waiting => ?_), rfl, named⟩
      rcases mem_cons.mp waiting with rfl | later
      · exact absurd rfl same
      · exact later
  · intro other waiting
    have different : other.what ≠ o.what :=
      fun same => kinds.1 (mem_map.mpr ⟨other, waiting, same⟩)
    rw [update_of_ne different]
    exact booked.unsettled other (mem_cons_of_mem o waiting)

end Booked

end TailscaleRs.Time
