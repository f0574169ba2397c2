import TailscaleRs.Portmapper.Probed

namespace TailscaleRs.Portmapper

open Option OwnedRules Lifecycle

/-- Why an entry leaves the ledger in an event. -/
inductive Retired (cfg : Config) (c : Client) (e : OwnedRule) : Event → Prop
  | unsent {ev : Event} (never : ∀ t, .mapSent e.id t ∉ c.journal) : Retired cfg c e ev
  | refused {id : Nat} {error : MapError} {now : Instant} {backoff : Nat} {a : Attempt}
      (attempt : c.attempt id = some a) (rule : a.ctx.ruleId = e.id)
      (fresh : a.ctx.existed = false) (refusal : mayExist error = false) :
      Retired cfg c e (.mapDone id (.error error) now backoff)
  | deleted {id : Nat} {now : Instant} {op : Releasing} {cap : Cap} {first : OwnedRule}
      {rest : List OwnedRule} (live : op ∈ c.releases) (is : op.id = id)
      (exchanging : op.stage = .exchanging cap) (next : op.rest = first :: rest)
      (entry : first.id = e.id) : Retired cfg c e (.deleteDone id true now)
  | expired {ev : Event} {limit : Instant}
      (ends : grantEnd cfg.lifetime e.id c.journal = some limit) (past : limit ≤ c.clock) :
      Retired cfg c e ev
  | reset {id : Nat} {report : ProbeReport} {now : Instant} {p : Probe} {epoch before : Nat}
      {rule : RuleId} {limit : Instant} {gw : Gateway} (live : p ∈ c.probes) (is : p.id = id)
      (reported : report.epoch e.rule.proto = some epoch)
      (wire : sameWireGateway e.gateway p.gateway = true)
      (granted : .granted rule limit gw e.rule.proto before ∈ c.journal)
      (same : sameWireGateway gw p.gateway = true) (rollback : epoch < before)
      (started : ∀ t, .mapSent e.id t ∈ c.journal → t ≤ p.begun) :
      Retired cfg c e (.probeDone id (some report) now)

/-- A grant that a failed renewal brings does not outlast what is recorded of the rule, and an
attempt ends without a mapping only if no probe that is still out began before its last send. -/
def Accountable (c : Client) : Event → Prop
  | .mapDone id (.error error) now _ => ∀ a ∈ c.attempt id, Recorded.Outlasts c a error now
  | .mapFinish id => ∀ a ∈ c.attempt id, Probed.Announced c a
  | _ => True

instance Accountable.decidable (c : Client) (ev : Event) : Decidable (Accountable c ev) := by
  rw [Accountable.eq_def]
  split <;> first | infer_instance | (unfold Recorded.Outlasts; infer_instance) |
    (unfold Probed.Announced; infer_instance)

structure Remembers (cfg : Config) (c : Client) : Prop where
  sound : Sound c
  recorded : Recorded cfg.lifetime c
  probed : Probed c

namespace Remembers

variable {cfg : Config} {c c' : Client}

theorem initial : Remembers cfg .new := ⟨.initial, .initial, .initial⟩

variable (remembers : Remembers cfg c)
include remembers

theorem tends {why : OwnedRule → Prop} (sound : Sound c') (tends : Client.Tends why c c') :
    Remembers cfg c' where
  sound
  recorded := remembers.recorded.alike tends.quiet tends.nextId tends.kept
  probed := remembers.probed.tends remembers.sound remembers.recorded tends

theorem expireIfDue (now : Instant) : Remembers cfg (c.expireIfDue now) :=
  remembers.tends (remembers.sound.aside (Client.expireIfDue_aside remembers.sound.ids now))
    (Client.expireIfDue_tends remembers.sound now)

theorem getCached (now : Instant) {hasRuntime : Bool} {random : Option Nonce} {backoff : Nat} :
    Remembers cfg (Client.getCached cfg c now hasRuntime random backoff) := by
  have expired := remembers.expireIfDue now
  rw [Client.getCached]
  split
  · exact expired
  split
  · exact ⟨expired.sound.start cfg _, expired.recorded.start expired.sound cfg (Nat.le_refl _),
      expired.probed.start expired.sound cfg _⟩
  · exact expired

theorem step (asked : cfg.lifetime ≤ requestedLifetime) {ev : Event}
    (accountable : Accountable c ev) : Remembers cfg (Client.step cfg c ev) := by
  obtain ⟨sound, recorded, probed⟩ := remembers
  cases apart : ev.attempting with
  | false =>
    exact tends ⟨sound, recorded, probed⟩ (sound.step cfg ev) (Client.step_tends sound apart)
  | true =>
    cases ev with
    | getCached now hasRuntime random backoff =>
      rw [Client.step]
      split
      · exact getCached ⟨sound, recorded, probed⟩ now
      · exact ⟨sound, recorded, probed⟩
    | transmit id index =>
      exact ⟨sound.transmit id index, recorded.transmit asked sound id index,
        probed.transmit recorded id index⟩
    | mapDone id result now backoff =>
      rw [Client.step]
      split
      case isTrue past =>
        refine ⟨sound.mapDone id result now backoff, recorded.mapDone sound backoff ?_,
          probed.mapDone sound recorded id result past backoff⟩
        rintro a found error rfl
        exact accountable a found
      case isFalse => exact ⟨sound, recorded, probed⟩
    | mapFinish id =>
      exact ⟨sound.mapFinish id, recorded.mapFinish sound id, probed.mapFinish sound accountable⟩
    | _ => cases apart

end Remembers

namespace Retired

variable {cfg : Config} {c : Client} {ev : Event} {k : RuleId} {e : OwnedRule}

theorem of_expiry (recorded : Recorded cfg.lifetime c) (found : c.lc.owned.get k = some e)
    (past : e.routerExpiry ≤ c.clock) : Retired cfg c e ev := by
  obtain rfl := id_of_get found
  cases ends : grantEnd cfg.lifetime e.id c.journal with
  | none => exact .unsent (unsent_of_grantEnd ends)
  | some limit => exact .expired ends (Nat.le_trans (recorded.expiry _ e found limit ends) past)

variable {id : Nat} {now : Instant} {backoff : Nat} (found : c.lc.owned.get k = some e)
include found

variable (remembers : Remembers cfg c)
include remembers

/-- A rollback is accepted only by a mapping that was committed before the probe started. -/
theorem of_report (free : e.mapping = false) {report : ProbeReport}
    {p : Probe} (live : p ∈ c.probes) (is : p.id = id) (current : p.generation = c.lc.generation)
    (reported : Lifecycle.ReportedBy c.lc report p.started p.gateway e) :
    Retired cfg c e (.probeDone id (some report) now) := by
  obtain rfl := id_of_get found
  obtain ⟨epoch, said, accepted, -, wire⟩ := reported
  simp only [resetAccepted, Bool.and_eq_true, any_eq_true,
    decide_eq_true_eq] at accepted
  obtain ⟨-, h, holds, ⟨proto, rollback⟩, committed⟩ := accepted
  obtain ⟨limit, gw, granted, net⟩ := remembers.probed.held h holds
  have gateway := remembers.probed.gateway p live current
  obtain rfl : gw = p.gateway := some.inj (net.symm.trans gateway)
  rw [proto] at granted
  refine .reset live is said wire granted (by simp [sameWireGateway]) rollback fun t sent => ?_
  rcases remembers.probed.sends p live current with ⟨-, later, -⟩ | covered
  · exact (Nat.lt_irrefl _ (Nat.lt_of_lt_of_le (later h holds) committed)).elim
  rcases covered e.id t sent with before | ⟨a, held, rule, -⟩
  · exact before
  · rw [← rule] at found
    rw [remembers.sound.attended.reserved a held e found] at free
    cases free

theorem of_tends (apart : ev.attempting = false)
    (gone : (Client.step cfg c ev).lc.owned.get k = none) :
    Retired cfg c e ev := by
  obtain ⟨free, why⟩ := (Client.step_tends remembers.sound apart).gone k e found gone
  cases ev with
  | checkClock now wall | expireIfDue now | cleanupStart closing now =>
    exact of_expiry remembers.recorded found (Nat.le_trans why.2 why.1)
  | probeDone id report now =>
    cases report with
    | none => exact why.elim
    | some report =>
      obtain ⟨p, live, is, current, reported⟩ := why
      exact of_report found remembers free live is current reported
  | deleteDone id acked now =>
    cases acked with
    | false => exact why.elim
    | true =>
      obtain ⟨op, live, is, cap, first, rest, exchanging, next, entry⟩ := why
      exact .deleted live is exchanging next entry
  | _ => exact why.elim

omit remembers in
theorem of_discard (recorded : Recorded cfg.lifetime c)
    (gone : (c.lc.owned.discardUnsent k).get k = none) : Retired cfg c e ev := by
  obtain rfl := id_of_get found
  obtain ⟨evidence, claim, never⟩ := discardUnsent_gone found gone
  exact .unsent ((recorded.evidence _ e evidence false found claim).2.2 never rfl)

theorem of_refusal {a : Attempt} (attempt : c.attempt id = some a)
    {error : MapError} (gone : (c.lc.mapRefused a.ctx error now backoff).owned.get k = none) :
    Retired cfg c e (.mapDone id (.error error) now backoff) := by
  have touches : OwnedRules.Touches a.ctx.ruleId c.lc.owned
      (c.lc.mapRefused a.ctx error now backoff).owned :=
    mapRefused_touches remembers.sound.ids
  by_cases own : k = a.ctx.ruleId
  case neg =>
    rw [touches.others k own, found] at gone
    cases gone
  subst own
  cases kept : (c.lc.owned.discardUnsent a.ctx.ruleId).get a.ctx.ruleId with
  | none => exact of_discard found remembers.recorded kept
  | some e₁ =>
    rw [mapRefused] at gone
    dsimp only at gone
    split at gone
    · rw [kept] at gone
      cases gone
    rw [settleRefused] at gone
    split at gone
    · rw [orphanCommitted, get_amend fun e => by simp, if_pos rfl,
        kept] at gone
      cases gone
    split at gone
    · rw [orphan, get_amend fun e => by simp, if_pos rfl, kept] at gone
      cases gone
    case isFalse refusal =>
      simp only [Bool.or_eq_true, not_or, Bool.not_eq_true] at refusal
      exact .refused attempt (id_of_get found).symm refusal.1 refusal.2

omit found

omit remembers in
theorem amend_present {l : OwnedRules} {id : RuleId} {f : OwnedRule → OwnedRule}
    (keeps : ∀ e, (f e).id = e.id) (found : l.get k = some e) : (l.amend id f).get k ≠ none := by
  rw [get_amend keeps, found]
  split <;> exact some_ne_none _

theorem of_mapDone {result : Except MapError MapReply}
    (found : c.lc.owned.get k = some e)
    (gone : (c.mapDone id result now backoff).lc.owned.get k = none) :
    Retired cfg c e (.mapDone id result now backoff) := by
  rcases c.mapDone_cases with same | ⟨a, live, -, attempt, -, -, -, is⟩
  · rw [same, found] at gone
    cases gone
  rw [is] at gone
  cases result with
  | error error => exact of_refusal found remembers attempt gone
  | ok reply =>
    rw [Client.delivered] at gone
    cases stale : c.lc.attemptStale a.ctx with
    | true =>
      rw [mapSuccess_stale stale] at gone
      exact (amend_present (fun e => by simp) found gone).elim
    | false =>
      rw [mapSuccess_fresh stale] at gone
      cases kept : (c.lc.recorded a.ctx (reply.mapping a.ctx.rule) now).owned.get k with
      | none => exact (amend_present (fun e => by simp) found kept).elim
      | some e₁ =>
        exact ((supersede_recorded remembers.sound.ids).owned.gone k e₁ kept
          gone).2.elim

theorem of_mapFinish (found : c.lc.owned.get k = some e)
    (gone : (c.mapFinish id).lc.owned.get k = none) : Retired cfg c e (.mapFinish id) := by
  rw [Client.mapFinish] at gone
  split at gone
  · rw [found] at gone
    cases gone
  case h_2 a _ =>
    have discarded := discardUnsent_touches remembers.sound.ids a.ctx.ruleId
    cases kept : (c.lc.owned.discardUnsent a.ctx.ruleId).get k with
    | some e₁ => exact (amend_present OwnedRule.finished_id kept gone).elim
    | none =>
      by_cases own : k = a.ctx.ruleId
      · subst own
        exact of_discard found remembers.recorded kept
      · rw [discarded.others k own, found] at kept
        cases kept

omit remembers in
theorem start_present (sound : Sound c) (reading : Lifecycle.Reading)
    (found : c.lc.owned.get k = some e) :
    (Client.maybeStart cfg c reading).lc.owned.get k ≠ none := by
  obtain ⟨lc, idles, is⟩ | ⟨lc, id, ctx, started, reserves, is⟩ :=
    Client.maybeStart_cases sound.ids <;> rw [is]
  · rw [show owned lc = c.lc.owned from idles.owned, found]
    exact some_ne_none _
  · by_cases own : k = ctx.ruleId
    · obtain ⟨e', found', -⟩ := reserves.after
      rw [own, show owned lc = _ from rfl, found']
      exact some_ne_none _
    · rw [reserves.others k own, found]
      exact some_ne_none _

theorem of_getCached (past : now ≤ c.clock) {hasRuntime : Bool}
    {random : Option Nonce} (found : c.lc.owned.get k = some e)
    (gone : (Client.getCached cfg c now hasRuntime random backoff).lc.owned.get k = none) :
    Retired cfg c e (.getCached now hasRuntime random backoff) := by
  have expires := Client.expireIfDue_tends remembers.sound now
  cases kept : (c.expireIfDue now).lc.owned.get k with
  | none =>
    exact of_expiry remembers.recorded found (Nat.le_trans (expires.gone k e found kept).2 past)
  | some e₁ =>
    rw [Client.getCached] at gone
    split at gone
    · rw [kept] at gone
      cases gone
    split at gone
    · exact (start_present (remembers.expireIfDue now).sound _ kept gone).elim
    · rw [kept] at gone
      cases gone

theorem of_step (found : c.lc.owned.get k = some e)
    (gone : (Client.step cfg c ev).lc.owned.get k = none) : Retired cfg c e ev := by
  cases apart : ev.attempting with
  | false => exact of_tends found remembers apart gone
  | true =>
    cases ev with
    | getCached now hasRuntime random backoff =>
      rw [Client.step] at gone
      split at gone
      case isTrue past => exact of_getCached remembers past found gone
      case isFalse =>
        rw [found] at gone
        cases gone
    | transmit id index =>
      rw [Client.step] at gone
      rcases c.transmit_cases with same | ⟨a, request, -, -, -, -, -, is⟩
      · rw [same, found] at gone
        cases gone
      · rw [is] at gone
        exact (amend_present (fun e => by split <;> rfl) found gone).elim
    | mapDone id result now backoff =>
      rw [Client.step] at gone
      split at gone
      · exact of_mapDone remembers found gone
      · rw [found] at gone
        cases gone
    | mapFinish id => exact of_mapFinish remembers found gone
    | _ => cases apart

end Retired

/-- In every run whose steps are accountable for their MAPs, and whatever comes next: an entry
leaves the ledger only if none of its MAPs was sent, its create was refused, its delete was
acknowledged, what the router may have granted is over, or a probe that began after all its sends
reported a rollback. -/
theorem rules_retired (cfg : Config) (asked : cfg.lifetime ≤ requestedLifetime)
    (events : List Event) (accountable : Along (Client.step cfg) Accountable .new events)
    (ev : Event) (k : RuleId) (e : OwnedRule)
    (found : (run (Client.step cfg) .new events).lc.owned.get k = some e)
    (gone : (Client.step cfg (run (Client.step cfg) .new events) ev).lc.owned.get k = none) :
    Retired cfg (run (Client.step cfg) .new events) e ev := by
  have remembers := run_invariant (Client.step cfg) Accountable (Remembers cfg)
    (fun c ev remembers accountable => remembers.step asked accountable) .new events .initial
    accountable
  exact Retired.of_step remembers found gone

theorem rules_retired_lease :
    pmpOnly.lifetime ≤ requestedLifetime ∧
    Along (Client.step pmpOnly) Accountable .new (bringUp 7200 ++ [.tick (secs 7200)]) ∧
    ∃ e, (run (Client.step pmpOnly) .new (bringUp 7200 ++ [.tick (secs 7200)])).lc.owned.get 0 =
        some e ∧
      (Client.step pmpOnly (run (Client.step pmpOnly) .new (bringUp 7200 ++ [.tick (secs 7200)]))
        (.expireIfDue (secs 7200))).lc.owned.get 0 = none ∧
      Retired pmpOnly (run (Client.step pmpOnly) .new (bringUp 7200 ++ [.tick (secs 7200)])) e
        (.expireIfDue (secs 7200)) := by
  have asked : pmpOnly.lifetime ≤ requestedLifetime := by decide
  have accountable : Along (Client.step pmpOnly) Accountable .new
      (bringUp 7200 ++ [.tick (secs 7200)]) := by decide +kernel
  have present : ((run (Client.step pmpOnly) .new
      (bringUp 7200 ++ [.tick (secs 7200)])).lc.owned.get 0).isSome = true := by decide +kernel
  have gone : (Client.step pmpOnly (run (Client.step pmpOnly) .new
      (bringUp 7200 ++ [.tick (secs 7200)])) (.expireIfDue (secs 7200))).lc.owned.get 0 =
        none := by decide +kernel
  generalize bringUp 7200 ++ [.tick (secs 7200)] = events at accountable present gone ⊢
  obtain ⟨e, found⟩ := isSome_iff_exists.mp present
  exact ⟨asked, accountable, e, found, gone,
    rules_retired pmpOnly asked events accountable _ 0 e found gone⟩

variable {cfg : Config} {ev : Event}

/-- The first rule of a run leaves the ledger without a reason. -/
def Forgets (cfg : Config) (events : List Event) (ev : Event) : Prop :=
  ∃ e, (run (Client.step cfg) .new events).lc.owned.get 0 = some e ∧
    (Client.step cfg (run (Client.step cfg) .new events) ev).lc.owned.get 0 = none ∧
      ¬ Retired cfg (run (Client.step cfg) .new events) e ev

/-- None of the reasons holds: a MAP was sent, what it may have been granted is not over, no
attempt and no release is left, and every probe began before it. -/
theorem Forgets.intro {events : List Event} (t : Instant)
    (present : ((run (Client.step cfg) .new events).lc.owned.get 0).isSome = true)
    (gone : (Client.step cfg (run (Client.step cfg) .new events) ev).lc.owned.get 0 = none)
    (sent : .mapSent 0 t ∈ (run (Client.step cfg) .new events).journal)
    (later : ∀ limit ∈ grantEnd cfg.lifetime 0 (run (Client.step cfg) .new events).journal,
      (run (Client.step cfg) .new events).clock < limit)
    (probes : ∀ p ∈ (run (Client.step cfg) .new events).probes, p.begun < t)
    (idle : (run (Client.step cfg) .new events).attempts = [] ∧
      (run (Client.step cfg) .new events).releases = []) :
    Forgets cfg events ev := by
  obtain ⟨e, found⟩ := isSome_iff_exists.mp present
  refine ⟨e, found, gone, fun retired => ?_⟩
  rw [← id_of_get found] at sent later
  cases retired with
  | unsent never => exact never t sent
  | refused attempt =>
    rw [Client.attempt, idle.1] at attempt
    cases attempt
  | deleted live =>
    rw [idle.2] at live
    cases live
  | expired ends past => exact Nat.lt_irrefl _ (Nat.lt_of_lt_of_le (later _ ends) past)
  | reset live _ _ _ _ _ _ started =>
    exact Nat.lt_irrefl _ (Nat.lt_of_lt_of_le (probes _ live) (started t sent))

/-- A MAP that asked for a day is not answered. -/
def unanswered : List Event :=
  (bringUp 7200).take 6 ++ [.mapDone 0 (.error .noServices) 0 0, .mapFinish 0, .tick (secs 7200)]

/-- A renewal for a day succeeds, but for the public address. -/
def partlyRenewed : List Event :=
  bringUp 7200 ++
    [.tick (secs 3600), .getCached (secs 3600) true none 0, .transmit 1 0, .transmit 1 1,
      .mapDone 1 (.error (.pmpAddr 3 200 (some ⟨⟨9, 7000⟩, 86400, 200⟩))) (secs 3600) 0,
      .mapFinish 1, .tick (secs 7200)]

/-- A renewal is sent after a probe has begun, and gets no answer. -/
def renewedLate : List Event :=
  bringUp 7200 ++
    [.tick (secs 3600), .probeStart (secs 3600), .getCached (secs 3600) true none 0,
      .tick (secs 1), .transmit 1 0, .transmit 1 1, .mapDone 1 (.error .noServices) (secs 3601) 0,
      .mapFinish 1]

/-- A rule that was asked for a day is forgotten after two hours; a rule that was renewed for a day
is forgotten when the lifetime of the request is over; a rule that was renewed after the probe
began is forgotten for the probe's report. -/
theorem possible_rules_forgotten :
    Forgets ⟨⟨true, false⟩, 86400⟩ unanswered (.cleanupStart false (secs 7200)) ∧
    Forgets pmpOnly partlyRenewed (.expireIfDue (secs 10800)) ∧
    Forgets pmpOnly renewedLate
      (.probeDone 1 (some ⟨true, some 50, none, false, none⟩) (secs 3601)) := by
  refine ⟨.intro 0 ?_ ?_ ?_ ?_ ?_ ?_, .intro (secs 3600) ?_ ?_ ?_ ?_ ?_ ?_,
    .intro (secs 3601) ?_ ?_ ?_ ?_ ?_ ?_⟩ <;> decide +kernel

end TailscaleRs.Portmapper
