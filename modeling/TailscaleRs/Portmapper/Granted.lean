import TailscaleRs.Portmapper.Tending

namespace TailscaleRs.Portmapper

open List Option OwnedRules OwnedRule
open Client (grantNotes grantOf)

/-- The rule that a MAP or its answer is about. -/
def Note.about : Note → Option RuleId
  | .mapSent rule _ | .granted rule _ _ _ _ => some rule
  | .deleteSent _ _ | .probeSent _ => none

/-- The end of what the router may have granted for a rule: the last grant that was observed, and
for each MAP sent since then the lifetime it asked for. -/
def grantEnd (lifetime : Nat) (id : RuleId) : List Note → Option Instant
  | [] => none
  | .granted rule limit _ _ _ :: rest =>
    if rule = id then some limit else grantEnd lifetime id rest
  | .mapSent rule at' :: rest =>
    if rule = id then
      some (max (leaseDeadline at' lifetime) ((grantEnd lifetime id rest).getD 0))
    else grantEnd lifetime id rest
  | _ :: rest => grantEnd lifetime id rest

section Journal

variable {lifetime : Nat} {id : RuleId} {notes journal : List Note}

theorem about_of_quiet {n : Note} (quiet : n.quiet = true) : n.about = none := by
  cases n with
  | mapSent | granted => cases quiet
  | deleteSent | probeSent => rfl

theorem grantEnd_skip {n : Note} (other : n.about ≠ some id) :
    grantEnd lifetime id (n :: journal) = grantEnd lifetime id journal := by
  cases n with
  | mapSent | granted => exact if_neg fun same => other (congrArg some same)
  | deleteSent | probeSent => rfl

theorem grantEnd_append (other : ∀ n ∈ notes, n.about ≠ some id) :
    grantEnd lifetime id (notes ++ journal) = grantEnd lifetime id journal := by
  induction notes with
  | nil => rfl
  | cons n rest ih =>
    rw [cons_append, grantEnd_skip (other n mem_cons_self)]
    exact ih fun n member => other n (mem_cons_of_mem _ member)

theorem unsent_of_grantEnd (none : grantEnd lifetime id journal = none) (t : Instant) :
    Note.mapSent id t ∉ journal := by
  induction journal with
  | nil => exact not_mem_nil
  | cons n rest ih =>
    intro member
    by_cases same : n.about = some id
    · cases n with
      | mapSent rule at' => simp_all [Note.about, grantEnd]
      | granted => simp_all [Note.about, grantEnd]
      | deleteSent | probeSent => cases same
    · rw [grantEnd_skip same] at none
      rcases mem_cons.mp member with rfl | later
      · exact same rfl
      · exact ih none later

end Journal

/-- The ledger knows of every MAP that was sent. -/
structure Recorded (lifetime : Nat) (c : Client) : Prop where
  past : ∀ k t, .mapSent k t ∈ c.journal → t ≤ c.clock
  known : ∀ n ∈ c.journal, ∀ k ∈ n.about, k < c.lc.owned.nextId
  expiry : ∀ k e, c.lc.owned.get k = some e → ∀ g ∈ grantEnd lifetime k c.journal,
    g ≤ e.routerExpiry
  evidence : ∀ k e evidence existed, c.lc.owned.get k = some e →
    e.claim = .map (.pending evidence existed) →
      evidence.mapIndex = (if e.rule.proto = .pmp then 1 else 0) ∧
      evidence.runtimeOrigin ≤ c.clock ∧
      (evidence.attempted = none → existed = false → ∀ t, .mapSent k t ∉ c.journal)

namespace Recorded

variable {lifetime : Nat} {c c' : Client}

theorem initial : Recorded lifetime .new where
  past := fun _ _ member => absurd member not_mem_nil
  known := forall_mem_nil _
  expiry := by rintro _ _ ⟨⟩
  evidence := by rintro _ _ _ _ ⟨⟩

theorem alike (recorded : Recorded lifetime c) (quiet : Client.Quiet c c')
    (nextId : c'.lc.owned.nextId = c.lc.owned.nextId)
    (kept : ∀ k e', c'.lc.owned.get k = some e' →
      ∃ e, c.lc.owned.get k = some e ∧ OwnedRule.Alike e e') : Recorded lifetime c' := by
  obtain ⟨notes, journal, silence⟩ := quiet.journal
  have silent (k : RuleId) (n : Note) (member : n ∈ notes) : n.about ≠ some k := by
    rw [about_of_quiet (silence n member)]
    exact (some_ne_none k).symm
  have before (n : Note) (k : RuleId) (about : n.about = some k) (member : n ∈ c'.journal) :
      n ∈ c.journal := by
    rw [journal] at member
    exact (mem_append.mp member).resolve_left fun new => silent k n new about
  refine ⟨?_, ?_, ?_, ?_⟩
  · intro k t sent
    exact Nat.le_trans (recorded.past k t (before _ k rfl sent)) quiet.clock
  · intro n member k about
    rw [nextId]
    exact recorded.known n (before n k about member) k about
  · intro k e' found g ends
    obtain ⟨e, was, alike⟩ := kept k e' found
    rw [journal, grantEnd_append (silent k)] at ends
    rw [alike.routerExpiry]
    exact recorded.expiry k e was g ends
  · intro k e' evidence existed found claim
    obtain ⟨e, was, alike⟩ := kept k e' found
    obtain ⟨index, origin, unsent⟩ := recorded.evidence k e evidence existed was (alike.map claim)
    refine ⟨alike.rule ▸ index, Nat.le_trans origin quiet.clock, ?_⟩
    intro never fresh t sent
    exact unsent never fresh t (before _ k rfl sent)

theorem own (recorded : Recorded lifetime c) {id : RuleId} (known : id < c.lc.owned.nextId)
    {notes : List Note} (journal : c'.journal = notes ++ c.journal)
    (about : ∀ n ∈ notes, n.about = some id) (sent : ∀ t, .mapSent id t ∈ notes → t ≤ c.clock)
    (clock : c'.clock = c.clock) (touches : OwnedRules.Touches id c.lc.owned c'.lc.owned)
    (expiry : ∀ e', c'.lc.owned.get id = some e' → ∀ g ∈ grantEnd lifetime id c'.journal,
      g ≤ e'.routerExpiry)
    (evidence : ∀ e' evidence existed, c'.lc.owned.get id = some e' →
      e'.claim = .map (.pending evidence existed) →
        evidence.mapIndex = (if e'.rule.proto = .pmp then 1 else 0) ∧
        evidence.runtimeOrigin ≤ c.clock ∧
        (evidence.attempted = none → existed = false → ∀ t, .mapSent id t ∉ c'.journal)) :
    Recorded lifetime c' := by
  have apart (k : RuleId) (other : k ≠ id) (n : Note) (member : n ∈ notes) : n.about ≠ some k := by
    rw [about n member]
    exact fun same => other (some.inj same).symm
  have split (n : Note) (member : n ∈ c'.journal) : n ∈ notes ∨ n ∈ c.journal := by
    rw [journal] at member
    exact mem_append.mp member
  refine ⟨?_, ?_, ?_, ?_⟩
  · intro k t member
    rw [clock]
    rcases split _ member with new | old
    · obtain rfl : k = id := some.inj (about _ new)
      exact sent t new
    · exact recorded.past k t old
  · intro n member k is
    rw [touches.nextId]
    rcases split n member with new | old
    · obtain rfl : id = k := some.inj ((about n new).symm.trans is)
      exact known
    · exact recorded.known n old k is
  · intro k e found g ends
    by_cases same : k = id
    · subst same
      exact expiry e found g ends
    · rw [journal, grantEnd_append (apart k same)] at ends
      rw [touches.others k same] at found
      exact recorded.expiry k e found g ends
  · intro k e ev existed found claim
    rw [clock]
    by_cases same : k = id
    · subst same
      exact evidence e ev existed found claim
    · rw [touches.others k same] at found
      obtain ⟨index, origin, unsent⟩ := recorded.evidence k e ev existed found claim
      refine ⟨index, origin, fun never fresh t member => ?_⟩
      rcases split _ member with new | old
      · exact apart k same _ new rfl
      · exact unsent never fresh t old

end Recorded

section Sends

theorem requests_map {rule : Rule} {index : Nat} {request : Request}
    (is : rule.requests[index]? = some request) :
    request = .map ↔ index = if rule.proto = .pmp then 1 else 0 := by
  cases rule with
  | pmp =>
    match index with
    | 0 | 1 => cases is; simp [Rule.proto]
    | _ + 2 => cases is
  | pcp =>
    match index with
    | 0 => cases is; simp [Rule.proto]
    | _ + 1 => cases is

variable {evidence : SendEvidence} {e : OwnedRule} {state : RuleState} {existed : Bool}

theorem routerExpiry_pending (e : OwnedRule) (state : RuleState) (evidence : SendEvidence)
    (existed : Bool) :
    routerExpiry { e with ownership := .map state (.pending evidence existed) } =
      max e.settledExpiry (evidence.possibleUntil.getD 0) := by
  cases limit : evidence.possibleUntil <;> simp [routerExpiry, limit]

theorem secs_le {short long : Nat} (le : short ≤ long) : secs short ≤ secs long := by
  rw [secs, secs]
  exact Nat.mul_le_mul_right _ le

theorem enter_map (evidence : SendEvidence) (now : Instant) :
    evidence.enter evidence.mapIndex now =
      { evidence with
        attempted := some (max (evidence.attempted.getD 0) (now - evidence.runtimeOrigin)) } := by
  rw [SendEvidence.enter, if_pos rfl]

/-- A send extends what may have been granted, at least to a lifetime that was asked for. -/
theorem possibleUntil_enter (evidence : SendEvidence) (now : Instant) {lifetime : Nat}
    (asked : lifetime ≤ requestedLifetime) :
    leaseDeadline now lifetime ≤ ((evidence.enter evidence.mapIndex now).possibleUntil.getD 0) ∧
      evidence.possibleUntil.getD 0 ≤
        (evidence.enter evidence.mapIndex now).possibleUntil.getD 0 := by
  rw [enter_map, SendEvidence.possibleUntil, map_some, getD_some]
  constructor
  · refine Nat.add_le_add (Nat.le_trans ?_ (Nat.le_max_right _ _)) (secs_le asked)
    rw [← Nat.sub_le_iff_le_add']
    exact Nat.le_max_right _ _
  · cases sent : evidence.attempted with
    | none =>
      simp only [SendEvidence.possibleUntil, sent]
      exact Nat.zero_le _
    | some elapsed =>
      simp only [SendEvidence.possibleUntil, sent, getD_some, map_some, Nat.add_max_add_right]
      refine Nat.add_le_add_right (Nat.add_le_add_left ?_ _) _
      exact Nat.le_max_left _ _

end Sends

namespace Recorded

variable {lifetime : Nat} {c : Client}

theorem transmit (recorded : Recorded lifetime c) (asked : lifetime ≤ requestedLifetime)
    (sound : Sound c) (id index : Nat) : Recorded lifetime (c.transmit id index) := by
  rcases c.transmit_cases with same | ⟨a, request, live, -, going, -, chosen, is⟩
  · rw [same]
    exact recorded
  obtain ⟨e, evidence, found, rule, -, claim⟩ := sound.attended.running a live going
  obtain ⟨mapIndex, origin, unsent⟩ := recorded.evidence _ e evidence _ found claim
  have entered := get_enter found claim index c.clock
  have pending : e.routerExpiry = max e.settledExpiry (evidence.possibleUntil.getD 0) := by
    rw [← routerExpiry_pending e e.state evidence a.ctx.existed, routerExpiry_eq,
      routerExpiry_eq, claim]
    rfl
  rw [is]
  have spot := requests_map chosen
  by_cases sent : request = .map
  · obtain rfl : index = evidence.mapIndex := (spot.mp sent).trans (by rw [mapIndex, rule])
    obtain ⟨reaches, grows⟩ := possibleUntil_enter evidence c.clock asked
    have journal : (c.transmitted a evidence.mapIndex request).journal =
        [.mapSent a.ctx.ruleId c.clock] ++ c.journal := if_pos sent
    refine recorded.own (sound.attended.known a live) journal (fun n member => ?_)
      (fun t member => ?_) rfl (.amend sound.ids fun e => by split <;> rfl) ?_ ?_
    · rw [mem_singleton.mp member]
      rfl
    · cases mem_singleton.mp member
      exact Nat.le_refl _
    · intro e' found' g ends
      obtain rfl := some.inj (entered.symm.trans found')
      rw [journal, singleton_append, grantEnd, if_pos rfl] at ends
      rw [routerExpiry_pending]
      cases ends
      refine Nat.max_le.mpr ⟨Nat.le_trans reaches (Nat.le_max_right _ _), ?_⟩
      cases before : grantEnd lifetime a.ctx.ruleId c.journal with
      | none => exact Nat.zero_le _
      | some g =>
        refine Nat.le_trans (pending ▸ recorded.expiry _ e found g before) ?_
        exact Nat.max_le.mpr ⟨Nat.le_max_left _ _, Nat.le_trans grows (Nat.le_max_right _ _)⟩
    · intro e' evidence' existed found' claim'
      obtain rfl := some.inj (entered.symm.trans found')
      cases claim'
      rw [enter_map]
      exact ⟨mapIndex, origin, by rintro ⟨⟩⟩
  · have apart : index ≠ evidence.mapIndex := fun same =>
      sent (spot.mpr (same.trans (by rw [mapIndex, rule])))
    have same : evidence.enter index c.clock = evidence := if_neg apart
    rw [same] at entered
    have journal : (c.transmitted a index request).journal = [] ++ c.journal := if_neg sent
    refine recorded.own (sound.attended.known a live) journal (forall_mem_nil _)
      (fun _ member => absurd member not_mem_nil) rfl
      (.amend sound.ids fun e => by split <;> rfl) ?_ ?_
    · intro e' found' g ends
      obtain rfl := some.inj (entered.symm.trans found')
      rw [routerExpiry_pending, ← pending]
      exact recorded.expiry _ e found g (by rw [journal] at ends; exact ends)
    · intro e' evidence' existed found' claim'
      obtain rfl := some.inj (entered.symm.trans found')
      cases claim'
      refine ⟨mapIndex, origin, fun never fresh t member => ?_⟩
      rw [journal] at member
      exact unsent never fresh t member

end Recorded

section Refusals

variable {l : OwnedRules} {id : RuleId} {e₁ : OwnedRule}

theorem discardUnsent_kept (kept : (l.discardUnsent id).get id = some e₁) :
    ∃ e, l.get id = some e ∧ e₁.rule = e.rule ∧ e₁.mapping = e.mapping ∧
      e₁.routerExpiry = e.routerExpiry ∧
        ∀ evidence existed, e₁.claim = .map (.pending evidence existed) →
          e.claim = .map (.pending evidence existed) := by
  rcases l.discardUnsent_cases with same | ⟨e, evidence, existed, found, claim, unsent, rest⟩
  · rw [same] at kept
    exact ⟨e₁, kept, rfl, rfl, rfl, fun _ _ is => is⟩
  rcases rest with ⟨-, f, is, keeps, result⟩ | ⟨-, is⟩
  · rw [is, get_amend keeps, if_pos rfl, found] at kept
    obtain rfl : f e = e₁ := some.inj kept
    refine ⟨e, found, by rw [result], ?_, ?_, ?_⟩
    · rw [result, mapping_iff.mpr ⟨_, claim⟩]
      rfl
    · rw [result, routerExpiry_eq, routerExpiry_eq, claim]
      simp only [SendEvidence.possibleUntil, unsent, map_none]
      rfl
    · rw [result]
      rintro _ _ ⟨⟩
  · rw [is, get_remove, if_pos rfl] at kept
    cases kept

theorem discardUnsent_gone {e : OwnedRule} (found : l.get id = some e)
    (gone : (l.discardUnsent id).get id = none) :
    ∃ evidence, e.claim = .map (.pending evidence false) ∧ evidence.attempted = none := by
  rcases l.discardUnsent_cases with same | ⟨e₀, evidence, existed, found₀, claim, unsent, rest⟩
  · rw [same, found] at gone
    cases gone
  obtain rfl : e = e₀ := some.inj (found.symm.trans found₀)
  rcases rest with ⟨-, f, is, keeps, -⟩ | ⟨rfl, -⟩
  · rw [is, get_amend keeps, if_pos rfl, found] at gone
    cases gone
  · exact ⟨evidence, claim, unsent⟩

/-- What a failed attempt leaves of its entry: the entry as it was, or the grant that came with
the failure. -/
theorem mapRefused_kept {l : Lifecycle} {ctx : AttemptCtx} {error : MapError} {now : Instant}
    {backoff : Nat} {e' : OwnedRule}
    (reserved : ∀ e, l.owned.get ctx.ruleId = some e → e.mapping = true)
    (found' : (l.mapRefused ctx error now backoff).owned.get ctx.ruleId = some e') :
    ∃ e, l.owned.get ctx.ruleId = some e ∧ e'.rule = e.rule ∧
      ((error.grant = none ∨ l.renews ctx = true) ∧ e'.routerExpiry = e.routerExpiry ∧
          (∀ evidence existed, e'.claim = .map (.pending evidence existed) →
            e.claim = .map (.pending evidence existed)) ∨
        ∃ reply, error.grant = some reply ∧
          e'.routerExpiry = leaseDeadline now reply.lifetime ∧
            ∀ evidence existed, e'.claim ≠ .map (.pending evidence existed)) := by
  rw [Lifecycle.mapRefused] at found'
  dsimp only at found'
  split at found'
  case isTrue renews =>
    obtain ⟨e, found, rule, -, expiry, claim⟩ := discardUnsent_kept found'
    exact ⟨e, found, rule, .inl ⟨.inr renews, expiry, claim⟩⟩
  case isFalse =>
    rw [Lifecycle.settleRefused] at found'
    split at found'
    case h_1 reply granted =>
      rw [orphanCommitted, get_amend fun e => by simp, if_pos rfl] at found'
      obtain ⟨e₁, found₁, rfl⟩ := map_eq_some_iff.mp found'
      obtain ⟨e, found, rule, mapped, -⟩ := discardUnsent_kept found₁
      rw [observed_eq (mapped.trans (reserved e found))]
      exact ⟨e, found, rule, .inr ⟨reply, granted, rfl, by rintro _ _ ⟨⟩⟩⟩
    case h_2 granted =>
      split at found'
      · rw [orphan, get_amend fun e => by simp, if_pos rfl] at found'
        obtain ⟨e₁, found₁, rfl⟩ := map_eq_some_iff.mp found'
        obtain ⟨e, found, rule, -, expiry, claim⟩ := discardUnsent_kept found₁
        have kin := e₁.setState_kin .orphaned
        refine ⟨e, found, kin.rule.trans rule, .inl ⟨.inl granted, ?_, ?_⟩⟩
        · rw [kin.routerExpiry, expiry]
        · intro evidence existed is
          exact claim evidence existed (kin.claim ▸ is)
      · rw [get_remove, if_pos rfl] at found'
        cases found'

end Refusals

namespace Recorded

variable {lifetime : Nat} {c c' : Client}

/-- The condition under which a failed attempt is recorded: a grant that comes with the failure of
a renewal does not outlast what the ledger holds of the rule. -/
def Outlasts (c : Client) (a : Attempt) (error : MapError) (now : Instant) : Prop :=
  ∀ reply ∈ error.grant, a.ctx.prev.isSome → ∀ h ∈ c.lc.mapping, h.ruleId = a.ctx.ruleId →
    ∀ e ∈ c.lc.owned.get a.ctx.ruleId, leaseDeadline now reply.lifetime ≤ e.routerExpiry

variable {a : Attempt} {result : Except MapError MapReply} {now : Instant}

theorem grantNotes_about (n : Note) (member : n ∈ grantNotes a result now) :
    n.about = some a.ctx.ruleId := by
  obtain ⟨reply, -, rfl⟩ := mem_map.mp member
  rfl

theorem grantNotes_unsent {k : RuleId} {t : Instant} :
    .mapSent k t ∉ grantNotes a result now := by
  intro member
  obtain ⟨reply, -, is⟩ := mem_map.mp member
  cases is

theorem grantEnd_notes (journal : List Note) :
    grantEnd lifetime a.ctx.ruleId (grantNotes a result now ++ journal) =
      match grantOf result with
      | some reply => some (leaseDeadline now reply.lifetime)
      | none => grantEnd lifetime a.ctx.ruleId journal := by
  rw [grantNotes]
  cases grantOf result with
  | none => rfl
  | some reply => exact if_pos rfl

variable {a : Attempt} {now : Instant} (recorded : Recorded lifetime c)
include recorded

theorem refused (sound : Sound c) (live : a ∈ c.attempts) {error : MapError} (backoff : Nat)
    (outlasts : Outlasts c a error now) :
    Recorded lifetime (c.delivered a (.error error) now backoff) := by
  refine recorded.own (sound.attended.known a live) rfl grantNotes_about
    (fun t member => (grantNotes_unsent member).elim) rfl
    (Lifecycle.mapRefused_touches sound.ids) ?_ ?_
  · intro e' found' g ends
    obtain ⟨e, found, -, ⟨silent, expiry, -⟩ | ⟨reply, granted, expiry, -⟩⟩ :=
      mapRefused_kept (sound.attended.reserved a live) found'
    · rw [expiry]
      rw [show Client.journal _ = grantNotes a (.error error) now ++ c.journal from rfl,
        grantEnd_notes, grantOf] at ends
      cases granted : error.grant with
      | none =>
        rw [granted] at ends
        exact recorded.expiry _ e found g ends
      | some reply =>
        rw [granted] at ends silent
        cases ends
        obtain wrong | renews := silent
        · cases wrong
        rw [Lifecycle.renews, Bool.and_eq_true, Option.any_eq_true] at renews
        obtain ⟨prev, h, holds, same⟩ := renews
        exact outlasts reply granted prev h holds (of_decide_eq_true same) e found
    · rw [expiry]
      rw [show Client.journal _ = grantNotes a (.error error) now ++ c.journal from rfl,
        grantEnd_notes, grantOf, granted] at ends
      cases ends
      exact Nat.le_refl _
  · intro e' evidence existed found' claim'
    obtain ⟨e, found, rule, ⟨-, -, claim⟩ | ⟨_, -, -, settled⟩⟩ :=
      mapRefused_kept (sound.attended.reserved a live) found'
    · obtain ⟨index, origin, unsent⟩ :=
        recorded.evidence _ e evidence existed found (claim evidence existed claim')
      refine ⟨rule ▸ index, origin, fun never fresh t member => ?_⟩
      rcases mem_append.mp member with new | old
      · exact grantNotes_unsent new
      · exact unsent never fresh t old
    · exact (settled evidence existed claim').elim

theorem observed (sound : Sound c) (live : a ∈ c.attempts) {reply : MapReply} {state : RuleState}
    (journal : c'.journal = grantNotes a (.ok reply) now ++ c.journal)
    (clock : c'.clock = c.clock)
    (owned : c'.lc.owned = c.lc.owned.amend a.ctx.ruleId fun e =>
      (e.setState state).grantObserved (leaseDeadline now reply.lifetime)) :
    Recorded lifetime c' := by
  have entry (e' : OwnedRule) (found' : c'.lc.owned.get a.ctx.ruleId = some e') :
      e'.routerExpiry = leaseDeadline now reply.lifetime ∧
        ∀ evidence existed, e'.claim ≠ .map (.pending evidence existed) := by
    rw [owned, get_amend fun e => by simp, if_pos rfl] at found'
    obtain ⟨e, found, rfl⟩ := map_eq_some_iff.mp found'
    rw [observed_eq (sound.attended.reserved a live e found)]
    exact ⟨rfl, by rintro _ _ ⟨⟩⟩
  refine recorded.own (sound.attended.known a live) journal grantNotes_about
    (fun t member => (grantNotes_unsent member).elim) clock ?_ ?_ ?_
  · rw [owned]
    exact .amend sound.ids fun e => by simp
  · intro e' found' g ends
    rw [journal, grantEnd_notes, grantOf] at ends
    cases ends
    exact Nat.le_of_eq (entry e' found').1.symm
  · intro e' evidence existed found' claim'
    exact ((entry e' found').2 evidence existed claim').elim

theorem mapDone (sound : Sound c) {id : Nat} {result : Except MapError MapReply} (backoff : Nat)
    (outlasts : ∀ a ∈ c.attempt id, ∀ error, result = .error error → Outlasts c a error now) :
    Recorded lifetime (c.mapDone id result now backoff) := by
  rcases c.mapDone_cases with same | ⟨a, live, -, found, -, -, -, is⟩
  · rw [same]
    exact recorded
  rw [is]
  cases result with
  | error error => exact recorded.refused sound live backoff (outlasts a found error rfl)
  | ok reply =>
    rw [Client.delivered]
    cases stale : c.lc.attemptStale a.ctx with
    | true =>
      rw [Lifecycle.mapSuccess_stale stale]
      exact recorded.observed sound live rfl rfl rfl
    | false =>
      rw [Lifecycle.mapSuccess_fresh stale]
      -- First the reply is recorded, then the rule it replaces is orphaned.
      have committed : Recorded lifetime { c with
          lc := c.lc.recorded a.ctx (reply.mapping a.ctx.rule) now
          journal := grantNotes a (.ok reply) now ++ c.journal } :=
        recorded.observed sound live rfl rfl rfl
      have superseded : Lifecycle.Bystands Lifecycle.Never
          (c.lc.recorded a.ctx (reply.mapping a.ctx.rule) now) _ :=
        Lifecycle.supersede_recorded sound.ids
      refine committed.alike (.same rfl rfl rfl) superseded.owned.nextId ?_
      intro k e' found'
      obtain ⟨e, was, kin⟩ := superseded.owned.kept k e' found'
      exact ⟨e, was, kin.alike⟩

theorem mapFinish (sound : Sound c) (id : Nat) : Recorded lifetime (c.mapFinish id) := by
  rw [Client.mapFinish]
  split
  · exact recorded
  case h_2 a found =>
    have live := Register.mem_of_find found
    have entry (e' : OwnedRule)
        (found' : (c.lc.owned.finishMap a.ctx.ruleId).get a.ctx.ruleId = some e') :
        ∃ e, c.lc.owned.get a.ctx.ruleId = some e ∧ e'.routerExpiry = e.routerExpiry ∧
          ∀ evidence existed, e'.claim ≠ .map (.pending evidence existed) := by
      rw [finishMap, get_amend finished_id, if_pos rfl] at found'
      obtain ⟨e₁, found₁, rfl⟩ := map_eq_some_iff.mp found'
      obtain ⟨e, found, -, mapped, expiry, -⟩ := discardUnsent_kept found₁
      rw [finished, if_pos (mapped.trans (sound.attended.reserved a live e found))]
      exact ⟨e, found, expiry, by rintro _ _ ⟨⟩⟩
    have discarded := discardUnsent_touches sound.ids a.ctx.ruleId
    refine recorded.own (sound.attended.known a live) (nil_append _).symm
      (forall_mem_nil _) (fun _ member => absurd member not_mem_nil) rfl
      (discarded.trans (.amend discarded.ids finished_id)) ?_ ?_
    · intro e' found' g ends
      obtain ⟨e, found, expiry, -⟩ := entry e' found'
      rw [expiry]
      exact recorded.expiry _ e found g ends
    · intro e' evidence existed found' claim'
      obtain ⟨e, -, -, settled⟩ := entry e' found'
      exact (settled evidence existed claim').elim

theorem start (sound : Sound c) (cfg : Config) {reading : Lifecycle.Reading}
    (runtime : reading.runtime ≤ c.clock) :
    Recorded lifetime (Client.maybeStart cfg c reading) := by
  obtain ⟨lc, idles, is⟩ | ⟨lc, id, ctx, started, reserves, is⟩ :=
    Client.maybeStart_cases sound.ids <;> rw [is]
  · refine recorded.alike (.same rfl rfl rfl) (congrArg _ idles.owned) ?_
    intro k e found
    exact ⟨e, idles.owned ▸ found, .refl⟩
  · obtain ⟨e', found', rule, -, claim, before⟩ := reserves.after
    -- Nothing is known of a rule that the start has made.
    have silent (new : c.lc.owned.get ctx.ruleId = none) (n : Note) (member : n ∈ c.journal) :
        n.about ≠ some ctx.ruleId := fun about =>
      Nat.lt_irrefl _ (reserves.new new ▸ recorded.known n member _ about)
    refine ⟨recorded.past, ?_, ?_, ?_⟩
    · intro n member k about
      exact Nat.lt_of_lt_of_le (recorded.known n member k about) reserves.nextId
    · intro k e found g ends
      by_cases shared : k = ctx.ruleId
      · subst shared
        obtain rfl : e' = e := some.inj (found'.symm.trans found)
        have settled : e'.routerExpiry = e'.settledExpiry := by
          rw [routerExpiry_eq, claim]
          rfl
        cases was : c.lc.owned.get ctx.ruleId with
        | none =>
          rw [← append_nil c.journal, grantEnd_append (silent was)] at ends
          cases ends
        | some e₀ =>
          have free := reserved_iff.mp (reserves.free e₀ was).1
          have idle : e₀.routerExpiry = e₀.settledExpiry := by
            rw [routerExpiry_eq, free]
          rw [settled, (before e₀ was).2.1, ← idle]
          exact recorded.expiry _ e₀ was g ends
      · exact recorded.expiry k e ((reserves.others k shared).symm.trans found) g ends
    · intro k e evidence existed found pending
      by_cases shared : k = ctx.ruleId
      · subst shared
        obtain rfl : e' = e := some.inj (found'.symm.trans found)
        rw [claim] at pending
        cases pending
        refine ⟨by rw [rule]; rfl, runtime, fun _ fresh t sent => ?_⟩
        cases was : c.lc.owned.get ctx.ruleId with
        | none => exact silent was _ sent rfl
        | some e₀ =>
          rw [(reserves.free e₀ was).2] at fresh
          cases fresh
      · exact recorded.evidence k e evidence existed ((reserves.others k shared).symm.trans found)
          pending

end Recorded

end TailscaleRs.Portmapper
