import TailscaleRs.Portmapper.Exclusive

namespace TailscaleRs.Portmapper

open List OwnedRules Register Lifecycle

namespace OwnedRules

variable {l l' : OwnedRules} {id : RuleId}

theorem Touches.sparesMaps (touches : Touches id l l')
    (free : ∀ e, l.get id = some e → e.mapping = false) : SparesMaps l l' where
  nextId := Nat.le_of_eq touches.nextId.symm
  mapped := by
    intro k e found mapped
    by_cases same : k = id
    · rw [free e (same ▸ found)] at mapped
      cases mapped
    · exact ⟨e, by rw [touches.others k same, found], .refl⟩
  absent := by
    intro k _ none
    by_cases same : k = id
    · subst same
      exact touches.absent none
    · rw [touches.others k same, none]

theorem abandon_touches (ids : l.Ids) : Touches id l (l.abandon id) :=
  .amend ids fun e => by simp

theorem finishDelete_touches (ids : l.Ids) {acked : Bool} (now : Instant) :
    Touches id l (l.finishDelete id acked now) := by
  rw [finishDelete]
  split
  · exact .remove ids
  · exact .amend ids fun e => by simp

theorem get_unclaims {l : OwnedRules} {ids : List RuleId} (k : RuleId) :
    (ids.foldl unclaim l).get k =
      if k ∈ ids then (l.get k).map OwnedRule.unclaimDelete else l.get k := by
  induction ids generalizing l with
  | nil => rfl
  | cons first rest ih =>
    rw [foldl_cons, ih, unclaim, get_amend fun e => by simp]
    have twice (e : OwnedRule) : e.unclaimDelete.unclaimDelete = e.unclaimDelete := by
      refine OwnedRule.unclaimDelete_of_not_deleting ?_
      rw [OwnedRule.unclaimDelete]
      split
      · rfl
      case isFalse free => simpa using free
    by_cases now : k = first <;> by_cases later : k ∈ rest <;>
      simp [now, Function.comp_def, twice]

theorem unclaims_ids (wf : l.Ids) {ids : List RuleId} : (ids.foldl unclaim l).Ids ∧
    (ids.foldl unclaim l).nextId = l.nextId := by
  induction ids generalizing l with
  | nil => exact ⟨wf, rfl⟩
  | cons first rest ih => exact ih (wf.amend fun e => by simp)

end OwnedRules

theorem OwnedRule.Released.abandoned {e : OwnedRule} {phase : Phase} (released : e.Released phase)
    (closed : phase ≠ .running) : e.fence.unclaimDelete.Released phase := by
  refine .inr ⟨?_, ?_, closed⟩
  · rw [unclaimDelete]
    split <;> rfl
  · rw [unclaimDelete]
    split
    · rfl
    · exact released.mapping

namespace Lifecycle

theorem cleanupStarted_cases (l : Lifecycle) {closing allowed : Bool} {now : Instant} :
    l.cleanupStarted closing allowed now = ({ l with owned := l.owned.dropExpired now }, []) ∨
    l.phase = (if closing then .closing else .running) ∧
      l.cleanupStarted closing allowed now =
        ({ l with owned := ((l.owned.dropExpired now).claimOrphans now closing).1 },
          ((l.owned.dropExpired now).claimOrphans now closing).2) := by
  by_cases blocked : (!allowed || l.phase != if closing then .closing else .running) = true
  · exact .inl (if_pos blocked)
  · refine .inr ⟨?_, if_neg blocked⟩
    simp only [Bool.or_eq_true, bne_iff_ne, not_or, not_not] at blocked
    exact blocked.2

end Lifecycle

def Client.marking (c : Client) (take : OwnedRule → Bool) (mark : OwnedRule → OwnedRule) : Client :=
  { c with lc := { c.lc with owned := c.lc.owned.amendAll fun e => if take e then mark e else e } }

/-- What a release's own events leave alone. -/
structure Kept (c c' : Client) : Prop where
  generation : c'.lc.generation = c.lc.generation
  inflight : c'.lc.inflight = c.lc.inflight
  attemptId : c'.lc.nextAttemptId = c.lc.nextAttemptId
  phase : c'.lc.phase = c.lc.phase
  mapping : c'.lc.mapping = c.lc.mapping
  disabled : c'.lc.disabled = c.lc.disabled
  attempts : c'.attempts = c.attempts
  nextOp : c'.nextOp = c.nextOp

namespace Sound

variable {c c' : Client} {op : Releasing} {f : Releasing → Releasing} {e : OwnedRule}
  {take : OwnedRule → Bool} {mark : OwnedRule → OwnedRule} {kind : ReleaseKind} {now : Instant}
  (sound : Sound c)
include sound

variable (live : op ∈ c.releases)
include live

theorem ownRelease
    (releases : c'.releases = alter Releasing.id c.releases op.id f) (id : ∀ op, (f op).id = op.id)
    (kind : (f op).kind = op.kind) (guard : ∀ k ∈ (f op).guard, k ∈ op.guard)
    (listed : ∀ e ∈ (f op).rest, e.id ∈ (f op).guard) (once : ((f op).rest.map (·.id)).Nodup)
    (fencing : (f op).stage = .fencing → op.kind = .cleanup true) (ids : c'.lc.owned.Ids)
    (nextId : c'.lc.owned.nextId = c.lc.owned.nextId)
    (others : ∀ k, k ∉ op.guard → c'.lc.owned.get k = c.lc.owned.get k)
    (spares : c.lc.owned.SparesMaps c'.lc.owned)
    (released : ∀ k ∈ (f op).guard, ∀ e, c'.lc.owned.get k = some e → e.Released c.lc.phase)
    (kept : Kept c c') : Sound c' where
  ids := ids
  attended := by
    rw [kept.attempts]
    exact sound.attended.evolve spares (Nat.le_of_eq kept.attemptId.symm)
      (.inr ⟨kept.generation, kept.inflight⟩)
  guarded := by
    rw [releases]
    exact sound.guarded.own live id kind guard listed once fencing others released nextId kept.phase
  ops := by
    intro op' member
    rw [releases] at member
    rw [kept.nextOp]
    obtain ⟨op₀, held, ⟨-, rfl⟩ | ⟨-, rfl⟩⟩ := of_mem_alter member
    · rw [id]
      exact sound.ops op₀ held
    · exact sound.ops op' held
  held := by
    intro h found
    rw [kept.phase, kept.disabled]
    exact sound.held h (kept.mapping ▸ found)

theorem stepRelease
    (releases : c'.releases = alter Releasing.id c.releases op.id f) (id : ∀ op, (f op).id = op.id)
    (kind : (f op).kind = op.kind) (guard : (f op).guard = op.guard)
    (rest : (f op).rest.Sublist op.rest)
    (fencing : (f op).stage = .fencing → op.kind = .cleanup true) (owned : c'.lc.owned = c.lc.owned)
    (kept : Kept c c') : Sound c' := by
  refine sound.ownRelease live releases id kind (fun k listed => guard ▸ listed) ?_ ?_ fencing
    ?_ ?_ ?_ ?_ ?_ kept
  · intro e member
    rw [guard]
    exact sound.guarded.listed op live e (rest.subset member)
  · exact (sound.guarded.once op live).sublist (rest.map _)
  · rw [owned]
    exact sound.ids
  · rw [owned]
  · intro k _
    rw [owned]
  · rw [owned]
    exact .refl _
  · intro k listed e found
    rw [owned] at found
    exact sound.guarded.released op live k (guard ▸ listed) e found

theorem settleRelease {rest : List OwnedRule} (is : op.rest = e :: rest)
    (releases : c'.releases = alter Releasing.id c.releases op.id
      fun op => op.settled e.id) (touches : OwnedRules.Touches e.id c.lc.owned c'.lc.owned)
    (kept : Kept c c') : Sound c' := by
  have listed := sound.guarded.listed op live
  have once := sound.guarded.once op live
  have first : e.id ∈ op.guard := listed e (is ▸ mem_cons_self)
  rw [is, map_cons, nodup_cons] at once
  have rest_eq : (op.settled e.id).rest = rest := by
    rw [Releasing.settled, Releasing.skip, is]
    rfl
  refine sound.ownRelease live releases (fun _ => rfl) rfl ?_ ?_ ?_ nofun
    touches.ids touches.nextId ?_ ?_ ?_ kept
  · intro k member
    exact mem_of_mem_filter member
  · intro e' member
    rw [rest_eq] at member
    refine mem_filter.mpr ⟨listed e' (is ▸ mem_cons_of_mem _ member), ?_⟩
    have other : e'.id ≠ e.id := fun same =>
      once.1 (same ▸ mem_map_of_mem member)
    simpa using other
  · rw [rest_eq]
    exact once.2
  · intro k unlisted
    exact touches.others k fun same => unlisted (same ▸ first)
  · exact touches.sparesMaps fun e' found =>
      (sound.guarded.released op live _ first e' found).mapping
  · intro k member e' found
    obtain ⟨held, other⟩ := mem_filter.mp member
    rw [touches.others k (by simpa using other)] at found
    exact sound.guarded.released op live k held e' found

omit live

theorem ledger {why : OwnedRule → Prop} {owned : OwnedRules}
    (bystands : OwnedRules.Bystands why c.lc.owned owned) :
    Sound { c with lc := { c.lc with owned } } where
  ids := bystands.ids
  attended := sound.attended.evolve (.of_bystands bystands) (Nat.le_refl _) (.inr ⟨rfl, rfl⟩)
  guarded := sound.guarded.evolve (.of_bystands bystands id)
  ops := sound.ops
  held := sound.held

variable (keeps : ∀ e, (mark e).id = e.id) (marked : ∀ e, (mark e).deleting = true)
  (free : ∀ e, take e = true → e.reserved = false ∧ e.releasable = true)
  (closing : kind = .cleanup true → c.lc.phase ≠ .running)
include keeps marked free closing

theorem claim :
    Sound ((c.marking take mark).release kind ((c.lc.owned.entries.filter take).map mark)) := by
  have keeps' : ∀ e, (if take e then mark e else e).id = e.id := by
    intro e
    split
    · exact keeps e
    · rfl
  have claimed : ∀ id, id ∈ ((c.lc.owned.entries.filter take).map mark).map (·.id) →
      ∃ e, c.lc.owned.get id = some e ∧ take e = true := by
    intro id member
    rw [map_map] at member
    obtain ⟨e, kept, is⟩ := mem_map.mp member
    obtain ⟨held, taken⟩ := mem_filter.mp kept
    have same : e.id = id := (keeps e).symm.trans is
    exact ⟨e, same ▸ sound.ids.get held, taken⟩
  have unlisted : ∀ e, take e = true → ¬ e.Released c.lc.phase := by
    rintro e taken (deleting | ⟨fenced, -, -⟩)
    · have idle := (free e taken).1
      rw [OwnedRule.reserved, deleting, Bool.or_true] at idle
      cases idle
    · rw [(free e taken).2] at fenced
      cases fenced
  have spares : c.lc.owned.SparesReleases c.lc.phase c.lc.phase
      (c.lc.owned.amendAll fun e => if take e then mark e else e) := by
    refine .amendAll keeps' fun e released => ?_
    rw [if_neg fun taken => unlisted e taken released]
    exact released
  refine
    { ids := sound.ids.amendAll keeps'
      attended := sound.attended.evolve (.amendAll keeps' fun e mapped => ?_) (Nat.le_refl _)
        (.inr ⟨rfl, rfl⟩)
      guarded := Guarded.push (sound.guarded.evolve spares) ?_ ?_ ?_ ?_ ?_ ?_ closing rfl
      ops := ?_
      held := sound.held }
  · have busy : take e ≠ true := fun taken => by
      have idle := (free e taken).1
      rw [OwnedRule.reserved, mapped] at idle
      cases idle
    rw [if_neg busy]
    exact .refl
  · exact fun op live => Nat.ne_of_lt (sound.ops op live)
  · intro id member
    obtain ⟨e, found, -⟩ := claimed id member
    exact sound.ids.get_below found
  · intro id member e' found'
    obtain ⟨e, found, taken⟩ := claimed id member
    rw [show owned _ = c.lc.owned.amendAll _ from rfl,
      get_amendAll keeps', found, Option.map_some, if_pos taken] at found'
    obtain rfl : mark e = e' := Option.some.inj found'
    exact .inl (marked e)
  · intro op live id member listed
    obtain ⟨e, found, taken⟩ := claimed id listed
    exact unlisted e taken (sound.guarded.released op live id member e found)
  · exact fun e member => mem_map_of_mem member
  · have sub : ((c.lc.owned.entries.filter take).map mark).map (·.id) =
        (c.lc.owned.entries.filter take).map (·.id) := by
      rw [map_map]
      exact map_congr_left fun e _ => keeps e
    rw [sub]
    exact sound.ids.distinct.sublist filter_sublist
  · intro op member
    rcases mem_append.mp member with live | last
    · exact Nat.lt_succ_of_lt (sound.ops op live)
    · rw [mem_singleton.mp last]
      exact Nat.lt_succ_self _

theorem claimAny :
    Sound (if ((c.lc.owned.entries.filter take).map mark).isEmpty then c.marking take mark
      else (c.marking take mark).release kind ((c.lc.owned.entries.filter take).map mark)) := by
  split
  case isFalse => exact sound.claim keeps marked free closing
  case isTrue none =>
    have same : (c.lc.owned.amendAll fun e => if take e then mark e else e) = c.lc.owned := by
      rw [List.isEmpty_iff, List.map_eq_nil_iff, List.filter_eq_nil_iff] at none
      have entries : (c.lc.owned.entries.map fun e => if take e then mark e else e) =
          c.lc.owned.entries := by
        conv_rhs => rw [← map_id c.lc.owned.entries]
        exact map_congr_left fun e held => if_neg (none e held)
      rw [amendAll, entries]
    rw [Client.marking, same]
    exact sound

omit sound keeps marked free closing

include sound

theorem cleanupStart (closing : Bool) (now : Instant) : Sound (c.cleanupStart closing now) := by
  have swept := sound.ledger (.dropExpired sound.ids now)
  rw [Client.cleanupStart]
  obtain is | ⟨phase, is⟩ := c.lc.cleanupStarted_cases <;> rw [is]
  · exact swept
  · refine swept.claimAny (fun e => e.claimDelete_id) (fun e => rfl)
      (fun e taken => by grind [OwnedRule.deletable]) fun kind => ?_
    cases kind
    exact phase ▸ Phase.noConfusion

theorem finalStart (now : Instant) : Sound (c.finalStart now) := by
  rw [Client.finalStart, finalReleaseStarted]
  split
  case isFalse => exact sound
  case isTrue =>
    exact sound.claimAny (fun e => e.claimFinal_id) (fun e => rfl)
      (fun e taken => by grind [OwnedRule.finallyDue]) nofun

variable (id : Nat)

theorem ofReleasing {f : Releasing → Client}
    (found : ∀ op ∈ c.releases, op.id = id → Sound (f op)) :
    Sound (match c.releasing id with | none => c | some op => f op) := by
  cases is : c.releasing id with
  | none => exact sound
  | some op => exact found op (mem_of_find is) (key_of_find is)

theorem releaseCap (build : Option BindMode) : Sound (c.releaseCap id build) := by
  refine sound.ofReleasing id ?_
  rintro op live rfl
  split
  case h_2 => exact sound
  split <;>
    exact sound.stepRelease live rfl (fun _ => rfl) rfl rfl (List.Sublist.refl _)
      nofun rfl ⟨rfl, rfl, rfl, rfl, rfl, rfl, rfl, rfl⟩

theorem deleteValidate (now : Instant) : Sound (c.deleteValidate id now) := by
  refine sound.ofReleasing id ?_
  rintro op live rfl
  split
  case h_3 => exact sound
  case h_1 closing e rest kind stage is =>
    refine sound.settleRelease live is rfl ?_ ⟨rfl, rfl, rfl, rfl, rfl, rfl, rfl, rfl⟩
    cases closing with
    | true => exact abandon_touches sound.ids
    | false => exact .amend sound.ids fun e => by simp
  case h_2 closing cap e rest kind stage is =>
    split
    · refine sound.stepRelease live rfl (fun _ => rfl) rfl rfl (List.Sublist.refl _) ?_ rfl
        ⟨rfl, rfl, rfl, rfl, rfl, rfl, rfl, rfl⟩
      intro fencing
      rw [kind]
      split at fencing
      case isTrue closed =>
        rw [Bool.and_eq_true] at closed
        rw [closed.1]
      case isFalse => cases fencing
    · exact sound.stepRelease live rfl (fun _ => rfl) rfl rfl (tail_sublist _)
        nofun rfl ⟨rfl, rfl, rfl, rfl, rfl, rfl, rfl, rfl⟩

theorem finalSend : Sound (c.finalSend id) := by
  refine sound.ofReleasing id ?_
  rintro op live rfl
  split
  case h_2 => exact sound
  split <;>
    exact sound.stepRelease live rfl (fun _ => rfl) rfl rfl (tail_sublist _)
      nofun rfl ⟨rfl, rfl, rfl, rfl, rfl, rfl, rfl, rfl⟩

theorem deleteDone (acked : Bool) (now : Instant) : Sound (c.deleteDone id acked now) := by
  refine sound.ofReleasing id ?_
  rintro op live rfl
  split
  case h_2 => exact sound
  case h_1 cap e rest stage is =>
    exact sound.settleRelease live is rfl (finishDelete_touches sound.ids now)
      ⟨rfl, rfl, rfl, rfl, rfl, rfl, rfl, rfl⟩

/-- A closing client hands an entry back fenced, while its finalizer still lists it. -/
theorem deleteFence : Sound (c.deleteFence id) := by
  refine sound.ofReleasing id ?_
  rintro op live rfl
  split
  case h_2 => exact sound
  case h_1 e rest stage is =>
    have first : e.id ∈ op.guard := sound.guarded.listed op live e (is ▸ mem_cons_self)
    have closed := sound.guarded.closing op live (sound.guarded.fencing op live stage)
    have touches : OwnedRules.Touches e.id c.lc.owned (c.lc.owned.abandon e.id) :=
      abandon_touches sound.ids
    refine sound.ownRelease live rfl (fun _ => rfl) rfl (fun k listed => listed) ?_ ?_
      nofun touches.ids touches.nextId
      (fun k unlisted => touches.others k fun same => unlisted (same ▸ first))
      (touches.sparesMaps fun e' found =>
        (sound.guarded.released op live _ first e' found).mapping) ?_
      ⟨rfl, rfl, rfl, rfl, rfl, rfl, rfl, rfl⟩
    · exact fun e' member => sound.guarded.listed op live e' (mem_of_mem_tail member)
    · exact (sound.guarded.once op live).sublist ((tail_sublist _).map _)
    · intro k listed e' found'
      have abandoned : (c.lc.owned.abandon e.id).get k = some e' := found'
      by_cases same : k = e.id
      · subst same
        rw [abandon, get_amend fun e => by simp, if_pos rfl] at abandoned
        obtain ⟨e₀, found₀, rfl⟩ := Option.map_eq_some_iff.mp abandoned
        exact (sound.guarded.released op live _ first e₀ found₀).abandoned closed
      · rw [touches.others k same] at abandoned
        exact sound.guarded.released op live k listed e' abandoned

theorem releaseFinish : Sound (c.releaseFinish id) := by
  refine sound.ofReleasing id ?_
  rintro op live rfl
  obtain ⟨ids, nextId⟩ := unclaims_ids sound.ids
  have unlisted (k : RuleId) (other : k ∉ op.guard) :
      (op.guard.foldl unclaim c.lc.owned).get k = c.lc.owned.get k := by
    rw [get_unclaims, if_neg other]
  have spares : c.lc.owned.SparesMaps (op.guard.foldl unclaim c.lc.owned) := by
    refine ⟨Nat.le_of_eq nextId.symm, ?_, ?_⟩
    · intro k e found mapped
      refine ⟨e, ?_, .refl⟩
      rw [unlisted k, found]
      intro listed
      rw [(sound.guarded.released op live k listed e found).mapping] at mapped
      cases mapped
    · intro k _ none
      rw [get_unclaims, none]
      split <;> rfl
  exact
    { ids
      attended := sound.attended.evolve spares (Nat.le_refl _) (.inr ⟨rfl, rfl⟩)
      guarded := sound.guarded.finish live unlisted nextId rfl
      ops := fun op' member => sound.ops op' (mem_drop.mp member).1
      held := sound.held }

end Sound

/-- The events that belong to no attempt and no release. -/
def Event.aside : Event → Bool
  | .tick _ | .denySends | .disable _ | .enable | .setLocalPort _ | .rebindStarted _
  | .rebindFailed | .networkDown | .lookupStart | .lookupDone _ _ | .routeLost _
  | .checkClock _ _ | .expireIfDue _ | .probeStart _ | .probeSend _ | .probeDone _ _ _
  | .deleteSend _ | .closeStart | .closeFinish | .dropRequested => true
  | .getCached _ _ _ _ | .transmit _ _ | .mapDone _ _ _ _ | .mapFinish _ | .cleanupStart _ _
  | .releaseCap _ _ | .deleteValidate _ _ | .deleteFence _ | .deleteDone _ _ _ | .finalStart _
  | .finalSend _ | .releaseFinish _ => false

namespace Client

/-- What an event that is not part of an attempt may take an entry out of the ledger for. -/
def Sweeps (c : Client) : Event → OwnedRule → Prop
  | .checkClock now _, e | .expireIfDue now, e | .cleanupStart _ now, e =>
    now ≤ c.clock ∧ e.routerExpiry ≤ now
  | .probeDone id (some report) _, e =>
    ∃ p ∈ c.probes, p.id = id ∧ p.generation = c.lc.generation ∧
      Lifecycle.ReportedBy c.lc report p.started p.gateway e
  | .deleteDone id true _, e =>
    ∃ op ∈ c.releases, op.id = id ∧ ∃ cap first rest, op.stage = .exchanging cap ∧
      op.rest = first :: rest ∧ first.id = e.id
  | _, _ => False

structure Aside (why : OwnedRule → Prop) (c c' : Client) : Prop where
  lc : Lifecycle.Bystands why c.lc c'.lc
  attempts : c'.attempts = c.attempts
  releases : c'.releases = c.releases
  nextOp : c.nextOp ≤ c'.nextOp

namespace Aside

variable {why : OwnedRule → Prop} {c c' : Client}

theorem same (ids : c.lc.owned.Ids) : Aside why c c := ⟨.refl ids, rfl, rfl, Nat.le_refl _⟩

theorem of_lc {lc : Lifecycle} (bystands : Lifecycle.Bystands Lifecycle.Never c.lc lc) :
    Aside why c { c with lc } :=
  ⟨bystands.mono fun _ never => never.elim, rfl, rfl, Nat.le_refl _⟩

theorem publish (aside : Aside why c c') : Aside why c c'.publish :=
  ⟨aside.lc, aside.attempts, aside.releases, aside.nextOp⟩

theorem mono {why' : OwnedRule → Prop} (aside : Aside why c c') (weaker : ∀ e, why e → why' e) :
    Aside why' c c' :=
  { aside with lc := aside.lc.mono weaker }

theorem ite {p : Prop} [Decidable p] {c'' : Client} (first : p → Aside why c c')
    (second : ¬p → Aside why c c'') : Aside why c (if p then c' else c'') := by
  split
  · exact first ‹p›
  · exact second ‹¬p›

end Aside

section Asides

variable {c : Client} {why : OwnedRule → Prop} (ids : c.lc.owned.Ids)
include ids

theorem setLocalPort_aside (port : Option Port) : Aside why c (c.setLocalPort port) := by
  have changed : Aside why c { c with lc := (c.lc.portChanged port).1 } :=
    .of_lc (portChanged_bystands ids port)
  rw [setLocalPort]
  split
  · exact changed.publish
  · exact changed

theorem lookupStart_aside : Aside why c c.lookupStart := by
  rw [lookupStart]
  split
  · exact ⟨.same ids rfl rfl rfl rfl rfl rfl (fun enabled => enabled) rfl, rfl, rfl,
      Nat.le_succ _⟩
  · exact .same ids

theorem lookupDone_aside (id : Nat) {found : Found} : Aside why c (c.lookupDone id found) := by
  rw [lookupDone]
  split
  · exact .same ids
  case h_2 lookup _ =>
    have dropped : Aside why c { c with lookups := drop Lookup.id c.lookups id } :=
      ⟨.refl ids, rfl, rfl, Nat.le_refl _⟩
    dsimp only
    split
    · exact dropped
    split
    · exact dropped
    · split
      · exact ⟨(networkDown_bystands ids).mono fun _ never => never.elim, rfl, rfl,
          Nat.le_refl _⟩
      · exact dropped
    case h_3 gw netGen bindMode _ =>
      exact ⟨(networkValidated_bystands ids gw _ _).mono
        fun _ never => never.elim, rfl, rfl, Nat.le_refl _⟩

theorem expireIfDue_aside (now : Instant) :
    Aside (fun e => e.routerExpiry ≤ now) c (c.expireIfDue now) := by
  rw [expireIfDue]
  split
  · exact ⟨leaseExpired_bystands ids, rfl, rfl, Nat.le_refl _⟩
  · exact .same ids

theorem checkClock_aside (now wall : Nat) :
    Aside (fun e => e.routerExpiry ≤ now) c (c.checkClock now wall) := by
  have observed := clockObserved_bystands ids now wall
  rw [checkClock]
  dsimp only
  split
  · exact .of_lc observed
  case h_2 slept _ =>
    have aged := clockAged_bystands observed.owned.ids now slept
    have both : Aside (fun e => e.routerExpiry ≤ now) c
        { c with lc := ((c.lc.clockObserved now wall).1.clockAged now slept).1 } :=
      ⟨(observed.mono fun _ never => never.elim).trans
        (fun _ _ kin ended => kin.routerExpiry ▸ ended) aged, rfl, rfl, Nat.le_refl _⟩
    split
    · exact both.publish
    · exact both

theorem probeStart_aside (cfg : Config) (now : Instant) : Aside why c (probeStart cfg c now) := by
  rw [probeStart]
  split
  · exact .same ids
  split
  · exact .same ids
  dsimp only
  split
  · exact .of_lc (.same ids rfl rfl rfl rfl rfl rfl (fun enabled => enabled) rfl)
  split
  · exact .same ids
  · exact ⟨.refl ids, rfl, rfl, Nat.le_succ _⟩

theorem probeDone_aside (id : Nat) {report : Option ProbeReport} (now : Instant) :
    Aside (c.Sweeps (.probeDone id report now)) c (c.probeDone id report now) := by
  rw [probeDone]
  split
  · exact .same ids
  case h_2 probe found =>
    dsimp only
    split
    · exact ⟨.refl ids, rfl, rfl, Nat.le_refl _⟩
    split
    · exact ⟨.refl ids, rfl, rfl, Nat.le_refl _⟩
    case isFalse r current =>
      simp only [Bool.or_eq_true, bne_iff_ne, not_or, not_not] at current
      refine ⟨(probeObserved_bystands ids r).mono fun e reported => ?_, rfl, rfl, Nat.le_refl _⟩
      exact ⟨probe, mem_of_find found, key_of_find found, current.1.1, reported⟩

omit ids

/-- An event that belongs to no attempt and no release leaves both as they are, and keeps every
entry that a MAP has reserved. -/
theorem step_aside (sound : Sound c) {cfg : Config} {ev : Event} (aside : ev.aside = true) :
    Aside (c.Sweeps ev) c (step cfg c ev) := by
  have ids := sound.ids
  have still {p : Prop} : p → Aside (c.Sweeps ev) c c := fun _ => .same ids
  cases ev with
  | tick | denySends | routeLost =>
    exact ⟨.same ids rfl rfl rfl rfl rfl rfl (fun enabled => enabled) rfl, rfl, rfl,
      Nat.le_refl _⟩
  | disable why =>
    exact .ite still fun _ => (Aside.of_lc (policyDisabled_bystands ids why)).publish
  | enable =>
    exact .ite (fun _ => ⟨(policyEnabled_bystands ids).mono fun _ never => never.elim,
      rfl, rfl, Nat.le_refl _⟩) still
  | setLocalPort port => exact setLocalPort_aside ids port
  | rebindStarted same =>
    exact (Aside.of_lc (rebindStarted_bystands ids same)).publish
  | rebindFailed => exact (Aside.of_lc (rebindFailed_bystands ids)).publish
  | networkDown => exact (Aside.of_lc (networkDown_bystands ids)).publish
  | lookupStart => exact lookupStart_aside ids
  | lookupDone id found => exact lookupDone_aside ids id
  | checkClock now wall =>
    exact .ite (fun past => (checkClock_aside ids now wall).mono fun _ ended => ⟨past, ended⟩) still
  | expireIfDue now =>
    exact .ite (fun past => (expireIfDue_aside ids now).mono fun _ ended => ⟨past, ended⟩) still
  | probeStart now => exact .ite (fun _ => probeStart_aside ids cfg now) still
  | probeDone id report now => exact .ite (fun _ => probeDone_aside ids id now) still
  | probeSend | deleteSend =>
    dsimp only [step, probeSend, deleteSend]
    repeat' split
    all_goals exact ⟨.refl ids, rfl, rfl, Nat.le_refl _⟩
  | closeStart =>
    exact .ite (fun _ => (Aside.of_lc (closeStarted_bystands ids)).publish) still
  | closeFinish =>
    have withdrawn (stopped : c.lc.phase ≠ .running) : c.lc.mapping = none :=
      Option.eq_none_iff_forall_ne_some.mpr fun h found => stopped (sound.held h found).1
    exact .of_lc (closeFinished_bystands ids withdrawn)
  | dropRequested =>
    exact .ite still fun _ => (Aside.of_lc (dropRequested_bystands ids)).publish
  | _ => cases aside

end Asides

end Client

namespace Sound

variable {c : Client} {why : OwnedRule → Prop}

theorem aside {c' : Client} (sound : Sound c) (aside : Client.Aside why c c') : Sound c' :=
  sound.bystand aside.lc aside.attempts aside.releases aside.nextOp

theorem getCached (sound : Sound c) (cfg : Config) (now : Instant) (hasRuntime : Bool)
    (random : Option Nonce) (backoff : Nat) :
    Sound (Client.getCached cfg c now hasRuntime random backoff) := by
  have expired := sound.aside (Client.expireIfDue_aside sound.ids now)
  rw [Client.getCached]
  split
  · exact expired
  split
  · exact expired.start cfg _
  · exact expired

theorem step (sound : Sound c) (cfg : Config) (ev : Event) : Sound (Client.step cfg c ev) := by
  by_cases aside : ev.aside = true
  · exact sound.aside (Client.step_aside sound aside)
  -- An event with a reading of the clock that lies ahead is refused.
  have due {now : Instant} {c' : Client} (after : Sound c') :
      Sound (if now ≤ c.clock then c' else c) := by
    split
    · exact after
    · exact sound
  cases ev with
  | getCached now hasRuntime random backoff =>
    exact due (sound.getCached cfg now hasRuntime random backoff)
  | transmit id index => exact sound.transmit id index
  | mapDone id result now backoff => exact due (sound.mapDone id result now backoff)
  | mapFinish id => exact sound.mapFinish id
  | cleanupStart closing now => exact due (sound.cleanupStart closing now)
  | releaseCap id build => exact sound.releaseCap id build
  | deleteValidate id now => exact due (sound.deleteValidate id now)
  | deleteFence id => exact sound.deleteFence id
  | deleteDone id acked now => exact due (sound.deleteDone id acked now)
  | finalStart now => exact due (sound.finalStart now)
  | finalSend id => exact sound.finalSend id
  | releaseFinish id => exact sound.releaseFinish id
  | _ => exact (aside rfl).elim

/-- In every interleaving an entry has at most one worker: an attempt that has reserved it, or a
release that has claimed it. -/
theorem along (cfg : Config) (events : List Event) : Sound (run (Client.step cfg) .new events) :=
  List.foldlRecOn (motive := Sound) events _ initial fun _ sound ev _ => sound.step cfg ev

end Sound

end TailscaleRs.Portmapper
