import TailscaleRs.Portmapper.Tending

namespace TailscaleRs.Portmapper

open Option OwnedRules Register
open Lifecycle (clockObserved mapSuccess_fresh clockAged)

structure OwnedRule.Backs (e : OwnedRule) (h : Held) : Prop where
  rule : e.rule = h.m.rule
  proto : h.m.proto = e.rule.proto
  netGen : e.netGen = h.netGen
  active : e.state = .active
  /-- A MAP that runs for the rule is a renewal. -/
  existed : ∀ evidence existed, e.claim = .map (.pending evidence existed) → existed = true

structure Backed (c : Client) : Prop where
  sound : Sound c
  entry : ∀ h, c.lc.mapping = some h → ∃ e, c.lc.owned.get h.ruleId = some e ∧ e.Backs h
  renewing : ∀ h, c.lc.mapping = some h → ∀ a ∈ c.attempts, a.outcome = none →
    a.ctx.ruleId = h.ruleId → a.ctx.prev.isSome

/-- No result of a cancelled attempt arrives for the rule of the held mapping, and no clock check
finds the lease over while the wall clock was set back. -/
def Undisturbed (c : Client) : Event → Prop
  | .mapDone id (.ok _) _ _ =>
    ∀ a ∈ c.attempt id, ∀ h ∈ c.lc.mapping, h.ruleId = a.ctx.ruleId →
      a.ctx.generation = c.lc.generation
  | .checkClock now wall =>
    ∀ h ∈ c.lc.mapping, h.lease.expired now = true → ∀ last ∈ c.lc.lastClock,
      last.2 + (now - last.1) ≤ wall + clockSkew
  | _ => True

instance Undisturbed.decidable (c : Client) (ev : Event) : Decidable (Undisturbed c ev) := by
  rw [Undisturbed.eq_def]
  split <;> infer_instance

namespace OwnedRule.Backs

variable {e : OwnedRule} {h : Held} (backs : e.Backs h)
include backs

theorem deleting : e.deleting = false := by
  have active := backs.active
  cases held : e.ownership <;> simp_all [OwnedRule.deleting, state]

theorem deletable (now : Instant) (closing : Bool) : e.deletable now closing = false := by
  simp [OwnedRule.deletable, backs.active]

theorem finallyDue (now : Instant) : e.finallyDue now = false := by
  simp [OwnedRule.finallyDue, backs.active]

theorem amend {e' : OwnedRule} (rule : e'.rule = e.rule) (netGen : e'.netGen = e.netGen)
    (state : e'.state = e.state)
    (existed : ∀ evidence existed, e'.claim = .map (.pending evidence existed) → existed = true) :
    e'.Backs h :=
  ⟨rule.trans backs.rule, by rw [rule, backs.proto], netGen.trans backs.netGen,
    state.trans backs.active, existed⟩

theorem previous_some {l : Lifecycle} {net : NetSnapshot} (holds : l.mapping = some h)
    (netGen : e.netGen = net.netGen) :
    l.previous e.rule.internal net e.rule.proto ≠ none := by
  have internal : h.m.rule.internal = h.m.internal := by
    rw [Mapping.rule]
    split <;> rfl
  rw [Lifecycle.previous, holds, backs.rule, internal, ← backs.rule]
  simp [← backs.netGen, netGen, backs.proto]

/-- An attempt for the rule of the held mapping renews it. -/
theorem renewed {l l' : Lifecycle} {reading : Lifecycle.Reading} {id : Nat} {ctx : AttemptCtx}
    (started : Lifecycle.Started l l' reading id ctx) (holds : l.mapping = some h)
    (found : l.owned.get ctx.ruleId = some e) (existed : ctx.existed = true) : ctx.prev ≠ none := by
  obtain ⟨net, owned, -, -, -, -, prepared, -⟩ := started.entry
  cases prepared with
  | live e₀ found₀ rule netGen _ _ prev =>
    obtain rfl : e = e₀ := some.inj (found.symm.trans found₀)
    intro none
    have absent := prev none
    rw [← rule] at absent
    exact backs.previous_some holds netGen absent
  | adopted e₀ found₀ _ state =>
    obtain rfl : e = e₀ := some.inj (found.symm.trans found₀)
    rw [backs.active] at state
    cases state
  | added _ _ fresh =>
    rw [existed] at fresh
    cases fresh

end OwnedRule.Backs

namespace OwnedRules

open OwnedRule

variable {l : OwnedRules} {id : RuleId} {e : OwnedRule} {h : Held}

theorem discardUnsent_backs (found : l.get id = some e) (backs : e.Backs h) :
    ∃ e', (l.discardUnsent id).get id = some e' ∧ e'.Backs h := by
  rcases l.discardUnsent_cases with same | ⟨e₀, _, existed, found₀, claim, -, rest⟩
  · exact ⟨e, by rw [same, found], backs⟩
  obtain rfl : e = e₀ := some.inj (found.symm.trans found₀)
  rcases rest with ⟨-, f, is, keeps, result⟩ | ⟨fresh, -⟩
  · refine ⟨f e, by rw [is, get_amend keeps, if_pos rfl, found]; rfl, ?_⟩
    rw [result]
    exact backs.amend rfl rfl rfl (by rintro _ _ ⟨⟩)
  · rw [backs.existed _ _ claim] at fresh
    cases fresh

theorem finishMap_backs (found : l.get id = some e) (backs : e.Backs h) :
    ∃ e', (l.finishMap id).get id = some e' ∧ e'.Backs h := by
  obtain ⟨e', found', backs'⟩ := discardUnsent_backs found backs
  refine ⟨e'.finished, ?_, ?_⟩
  · rw [finishMap, get_amend finished_id, if_pos rfl, found']
    rfl
  · rw [finished]
    split
    · refine backs'.amend rfl rfl ?_ (by rintro _ _ ⟨⟩)
      rw [state, backs'.active]
      rfl
    · exact backs'

end OwnedRules

namespace Backed

variable {c c' : Client}

theorem initial : Backed .new where
  sound := .initial
  entry := by rintro _ ⟨⟩
  renewing := by rintro _ ⟨⟩

theorem tends {why : OwnedRule → Prop} (backed : Backed c) (sound : Sound c')
    (tends : Client.Tends why c c') : Backed c' where
  sound
  entry := by
    intro h' holds
    obtain ⟨h, held, stays⟩ := tends.held h' holds
    obtain ⟨e, found, backs⟩ := backed.entry h held
    refine ⟨e, ?_, ?_⟩
    · rw [stays.ruleId]
      exact stays.entry e found backs.active
    · exact ⟨stays.m ▸ backs.rule, stays.m ▸ backs.proto, stays.netGen ▸ backs.netGen,
        backs.active, backs.existed⟩
  renewing := by
    intro h' holds a live going shared
    obtain ⟨h, held, stays⟩ := tends.held h' holds
    exact backed.renewing h held a (tends.attempts ▸ live) going (stays.ruleId ▸ shared)

variable {a : Attempt} {reply : MapReply} {now : Instant} {backoff : Nat} (backed : Backed c)
include backed

theorem own (sound : Sound c') {f : Attempt → Attempt} (mapping : c'.lc.mapping = c.lc.mapping)
    (attempts : c'.attempts = alter Attempt.id c.attempts a.id f) (ctx : ∀ a, (f a).ctx = a.ctx)
    (outcome : ∀ a, (f a).outcome = none → a.outcome = none)
    (touches : OwnedRules.Touches a.ctx.ruleId c.lc.owned c'.lc.owned)
    (entry : ∀ h, c.lc.mapping = some h → h.ruleId = a.ctx.ruleId →
      ∀ e, c.lc.owned.get a.ctx.ruleId = some e → e.Backs h →
        ∃ e', c'.lc.owned.get a.ctx.ruleId = some e' ∧ e'.Backs h) :
    Backed c' where
  sound
  entry := by
    intro h holds
    obtain ⟨e, found, backs⟩ := backed.entry h (mapping ▸ holds)
    by_cases shared : h.ruleId = a.ctx.ruleId
    · rw [shared] at found ⊢
      exact entry h (mapping ▸ holds) shared e found backs
    · exact ⟨e, by rw [touches.others _ shared, found], backs⟩
  renewing := by
    intro h holds b live going shared
    rw [attempts] at live
    obtain ⟨b₀, held, ⟨-, rfl⟩ | ⟨-, rfl⟩⟩ := of_mem_alter live
    · rw [ctx] at shared ⊢
      exact backed.renewing h (mapping ▸ holds) b₀ held (outcome b₀ going) shared
    · exact backed.renewing h (mapping ▸ holds) b held going shared

theorem transmit (id index : Nat) : Backed (c.transmit id index) := by
  have sound := backed.sound.transmit id index
  rcases c.transmit_cases with same | ⟨a, request, live, -, going, -, -, is⟩
  · rw [same]
    exact backed
  rw [is] at sound ⊢
  obtain ⟨e₀, evidence, found₀, -, -, claim⟩ := backed.sound.attended.running a live going
  refine backed.own sound rfl rfl (fun a => by split <;> rfl)
    (fun a => by split <;> exact fun none => none)
    (.amend backed.sound.ids fun e => by split <;> rfl) ?_
  intro h holds shared e found backs
  obtain rfl : e = e₀ := some.inj (found.symm.trans found₀)
  refine ⟨_, get_enter found claim index c.clock, ?_⟩
  refine backs.amend rfl rfl rfl ?_
  intro _ existed pending
  cases pending
  exact backs.existed _ _ claim

theorem refused (live : a ∈ c.attempts) (going : a.outcome = none) (e : MapError) (now : Instant)
    (backoff : Nat) (sound : Sound (c.delivered a (.error e) now backoff)) :
    Backed (c.delivered a (.error e) now backoff) := by
  refine backed.own sound rfl rfl (fun _ => rfl) (by rintro _ ⟨⟩)
    (Lifecycle.mapRefused_touches backed.sound.ids) ?_
  intro h holds shared entry found backs
  have renews : c.lc.renews a.ctx = true := by
    rw [Lifecycle.renews, backed.renewing h holds a live going shared.symm, holds]
    simp [shared]
  obtain ⟨e', found', backs'⟩ := discardUnsent_backs found backs
  refine ⟨e', ?_, backs'⟩
  rw [← found', Client.delivered, Lifecycle.mapRefused]
  simp only [renews, if_true]

/-- A reply that came too late. Its rule is not that of the held mapping. -/
theorem late (stale : c.lc.attemptStale a.ctx = true)
    (apart : ∀ h, c.lc.mapping = some h → h.ruleId = a.ctx.ruleId →
      a.ctx.generation = c.lc.generation) (sound : Sound (c.delivered a (.ok reply) now backoff)) :
    Backed (c.delivered a (.ok reply) now backoff) := by
  have is : c.delivered a (.ok reply) now backoff = { c with
      lc := { c.lc with
        owned := c.lc.owned.orphanCommitted a.ctx.ruleId
          (leaseDeadline now (reply.mapping a.ctx.rule).lifetime) }
      attempts := alter Attempt.id c.attempts a.id fun a =>
        { a with outcome := some .settled }
      journal := Client.grantNotes a (.ok reply) now ++ c.journal } := by
    rw [Client.delivered, Lifecycle.mapSuccess_stale stale]
    rfl
  rw [is] at sound ⊢
  refine backed.own sound rfl rfl (fun _ => rfl) (by rintro _ ⟨⟩)
    (.amend backed.sound.ids fun e => by simp) ?_
  intro h holds shared
  have fresh := Lifecycle.attemptStale_eq_false.mpr
    ⟨apart h holds shared, backed.sound.held h holds⟩
  rw [fresh] at stale
  cases stale

theorem committed (live : a ∈ c.attempts) (going : a.outcome = none)
    (fresh : c.lc.attemptStale a.ctx = false)
    (sound : Sound (c.delivered a (.ok reply) now backoff)) :
    Backed (c.delivered a (.ok reply) now backoff) := by
  have mapping : (c.delivered a (.ok reply) now backoff).lc.mapping =
      some ⟨reply.mapping a.ctx.rule, Lease.new now reply.lifetime, a.ctx.netGen,
        a.ctx.ruleId⟩ := by
    rw [Client.delivered, mapSuccess_fresh fresh]
    rfl
  have owned : (c.delivered a (.ok reply) now backoff).lc.owned.get a.ctx.ruleId =
      (c.lc.owned.commit a.ctx.ruleId (leaseDeadline now reply.lifetime)).get a.ctx.ruleId := by
    rw [Client.delivered, mapSuccess_fresh fresh]
    exact Lifecycle.get_supersede _ _ _
  have attempts : (c.delivered a (.ok reply) now backoff).attempts =
      alter Attempt.id c.attempts a.id fun a =>
        { a with outcome := some .committed } := by
    rw [Client.delivered, mapSuccess_fresh fresh]
    rfl
  obtain ⟨e, evidence, found, rule, netGen, claim⟩ := backed.sound.attended.running a live going
  refine ⟨sound, ?_, ?_⟩
  · intro h holds
    rw [mapping] at holds
    cases holds
    refine ⟨(e.setState .active).grantObserved (leaseDeadline now reply.lifetime), ?_, ?_⟩
    · rw [owned, commit, get_amend fun e => by simp, if_pos rfl, found]
      rfl
    · rw [OwnedRule.observed_eq (OwnedRule.mapping_iff.mpr ⟨_, claim⟩)]
      exact ⟨rule.trans (MapReply.mapping_rule _ _).symm, by rw [rule]; rfl, netGen, rfl,
        by rintro _ _ ⟨⟩⟩
  · intro h holds b member undelivered shared
    rw [mapping] at holds
    cases holds
    rw [attempts] at member
    -- Only this attempt has the rule, and its result is in.
    obtain ⟨b₀, held, ⟨-, rfl⟩ | ⟨other, rfl⟩⟩ := of_mem_alter member
    · cases undelivered
    · exact (other (backed.sound.attended.alone b held a live shared)).elim

theorem mapDone {id : Nat} {result : Except MapError MapReply}
    (calm : Undisturbed c (.mapDone id result now backoff)) :
    Backed (c.mapDone id result now backoff) := by
  have sound := backed.sound.mapDone id result now backoff
  rcases c.mapDone_cases with same | ⟨a, live, -, found, going, -, -, is⟩
  · rw [same]
    exact backed
  rw [is] at sound ⊢
  cases result with
  | error e => exact backed.refused live going e now backoff sound
  | ok reply =>
    cases stale : c.lc.attemptStale a.ctx with
    | true => exact backed.late stale (calm a found) sound
    | false => exact backed.committed live going stale sound

theorem mapFinish (id : Nat) : Backed (c.mapFinish id) := by
  have sound := backed.sound.mapFinish id
  rw [Client.mapFinish] at sound ⊢
  cases found : c.attempt id with
  | none => exact backed
  | some a =>
    rw [found] at sound
    refine ⟨sound, ?_, ?_⟩
    · intro h holds
      obtain ⟨e, held, backs⟩ := backed.entry h holds
      by_cases shared : h.ruleId = a.ctx.ruleId
      · rw [shared] at held ⊢
        exact finishMap_backs held backs
      · have discarded := discardUnsent_touches backed.sound.ids a.ctx.ruleId
        have touches := discarded.trans (.amend discarded.ids OwnedRule.finished_id)
        exact ⟨e, (touches.others _ shared).trans held, backs⟩
    · intro h holds b member
      exact backed.renewing h holds b (mem_drop.mp member).1

variable (cfg : Config)

theorem start (reading : Lifecycle.Reading) : Backed (Client.maybeStart cfg c reading) := by
  have sound := backed.sound.start cfg reading
  obtain ⟨lc, idles, is⟩ | ⟨lc, id, ctx, started, reserves, is⟩ :=
    Client.maybeStart_cases backed.sound.ids <;> rw [is] at sound ⊢
  · refine ⟨sound, ?_, ?_⟩
    · intro h holds
      rw [show Lifecycle.owned lc = _ from idles.owned]
      exact backed.entry h (idles.mapping ▸ holds)
    · intro h holds
      exact backed.renewing h (idles.mapping ▸ holds)
  · obtain ⟨e', found', rule', netGen', claim', before⟩ := reserves.after
    refine ⟨sound, ?_, ?_⟩
    · intro h holds
      obtain ⟨e, found, backs⟩ := backed.entry h (started.mapping' ▸ holds)
      by_cases shared : h.ruleId = ctx.ruleId
      · rw [shared] at found ⊢
        obtain ⟨rule, -, kept⟩ := before e found
        obtain ⟨state, netGen⟩ := kept (by rw [backs.active]; decide)
        refine ⟨e', found', backs.amend rule netGen state ?_⟩
        intro _ existed pending
        rw [claim'] at pending
        cases pending
        exact (reserves.free e found).2
      · exact ⟨e, (reserves.others _ shared).trans found, backs⟩
    · intro h holds b member going shared
      have holds : c.lc.mapping = some h := started.mapping' ▸ holds
      rcases List.mem_append.mp member with held | new
      · exact backed.renewing h holds b held going shared
      · obtain rfl := List.mem_singleton.mp new
        obtain ⟨e, found, backs⟩ := backed.entry h holds
        rw [← shared] at found
        exact isSome_iff_ne_none.mpr (backs.renewed started holds found (reserves.free e found).2)

theorem getCached (now : Instant) (hasRuntime : Bool) (random : Option Nonce) (backoff : Nat) :
    Backed (Client.getCached cfg c now hasRuntime random backoff) := by
  have expired : Backed (c.expireIfDue now) :=
    backed.tends (backed.sound.aside (Client.expireIfDue_aside backed.sound.ids now))
      (Client.expireIfDue_tends backed.sound now)
  rw [Client.getCached]
  split
  · exact expired
  split
  · exact expired.start cfg _
  · exact expired

theorem step {ev : Event} (calm : Undisturbed c ev) : Backed (Client.step cfg c ev) := by
  cases apart : ev.attempting with
  | false =>
    exact backed.tends (backed.sound.step cfg ev) (Client.step_tends backed.sound apart)
  | true =>
    cases ev with
    | getCached now hasRuntime random backoff =>
      rw [Client.step]
      split
      · exact backed.getCached cfg now hasRuntime random backoff
      · exact backed
    | transmit id index => exact backed.transmit id index
    | mapDone id result now backoff =>
      rw [Client.step]
      split
      · exact backed.mapDone calm
      · exact backed
    | mapFinish id => exact backed.mapFinish id
    | _ => cases apart

end Backed

/-- What `publish` puts into the published state. -/
def Lifecycle.shown (l : Lifecycle) : Option Endpoint :=
  (l.mapping.filter fun _ => !l.rebindPending).map Held.endpoint

theorem Lifecycle.clockAged_rebindPending (l : Lifecycle) (now : Instant) (slept : Nat) :
    (l.clockAged now slept).1.rebindPending = l.rebindPending := by
  rw [clockAged]
  split
  · rw [leaseExpired]
    split <;> rfl
  · rfl

namespace Client

variable {c : Client}

/-- The published state is written, or it shows what it showed. -/
def Shows (c c' : Client) : Prop :=
  c'.published = c'.lc.shown ∨ c'.published = c.published ∧ c'.lc.shown = c.lc.shown

variable {c' : Client} {now wall : Nat}

theorem Shows.same (published : c'.published = c.published) (mapping : c'.lc.mapping = c.lc.mapping)
    (pending : c'.lc.rebindPending = c.lc.rebindPending) :
    Shows c c' :=
  .inr ⟨published, by rw [Lifecycle.shown, Lifecycle.shown, mapping, pending]⟩

theorem published_shows {c c' : Client} : Shows c c'.publish := .inl rfl

theorem Shows.refl {c : Client} : Shows c c := .same rfl rfl rfl

theorem Shows.trans {c' c'' : Client} (first : Shows c c') (second : Shows c' c'') :
    Shows c c'' := by
  rcases second with written | ⟨published, shown⟩
  · exact .inl written
  rcases first with written' | ⟨published', shown'⟩
  · exact .inl (by rw [published, written', shown])
  · exact .inr ⟨published.trans published', shown.trans shown'⟩

theorem Shows.shown (shows' : Shows c c') (before : c.published = c.lc.shown) :
    c'.published = c'.lc.shown := by
  rcases shows' with written | ⟨published, shown⟩
  · exact written
  · rw [published, before, shown]

theorem setLocalPort_shows (port : Option Port) : Shows c (c.setLocalPort port) := by
  rw [setLocalPort]
  split
  · exact published_shows
  case isFalse unchanged =>
    rw [Lifecycle.portChanged] at unchanged ⊢
    split
    · exact .refl
    case isFalse moved =>
      rw [if_neg moved] at unchanged
      dsimp only at unchanged ⊢
      rw [if_neg unchanged]
      exact .same rfl rfl rfl

theorem lookupDone_shows (id : Nat) {found : Found} : Shows c (c.lookupDone id found) := by
  rw [lookupDone]
  split
  · exact .refl
  dsimp only
  split
  · exact .same rfl rfl rfl
  split
  · exact .same rfl rfl rfl
  · split
    · exact published_shows
    · exact .same rfl rfl rfl
  · exact published_shows

theorem expireIfDue_shows (now : Instant) : Shows c (c.expireIfDue now) := by
  rw [expireIfDue]
  split
  · exact published_shows
  · exact .refl

/-- A wall clock that was set back ages nothing: the lease is as long as it was. -/
theorem set_back (observed : (c.lc.clockObserved now wall).2 = some 0) :
    ∃ before wallBefore, c.lc.lastClock = some (before, wallBefore) ∧
      wall + clockSkew < wallBefore + (now - before) := by
  cases last : c.lc.lastClock with
  | none =>
    rw [clockObserved, last] at observed
    cases observed
  | some seen =>
    obtain ⟨before, wallBefore⟩ := seen
    refine ⟨before, wallBefore, rfl, ?_⟩
    rw [clockObserved, last] at observed
    simp only [map_some] at observed
    split at observed
    case h_2 => cases observed
    case h_1 slept is =>
      cases observed
      split at is <;>
        simp only [some.injEq, Prod.mk.injEq, decide_eq_true_eq] at is <;> omega

theorem checkClock_shows (calm : Undisturbed c (.checkClock now wall)) :
    Shows c (c.checkClock now wall) := by
  rw [checkClock]
  dsimp only
  split
  · exact .same rfl rfl rfl
  case h_2 slept observed =>
    split
    · exact published_shows
    case isFalse unwritten =>
      cases held : c.lc.mapping with
      | none =>
        have aged : ((c.lc.clockObserved now wall).1.clockAged now slept).1.mapping = none := by
          simp [clockAged, clockObserved, held]
        exact .same rfl (by rw [held]; exact aged) (Lifecycle.clockAged_rebindPending _ _ _)
      | some h =>
        have idle : slept = 0 := by
          simpa [clockAged, clockObserved, held] using unwritten
        subst idle
        obtain ⟨before, wallBefore, last, back⟩ := set_back observed
        have good : h.lease.expired now = false := by
          by_contra late
          have := calm h held (by simpa using late) (before, wallBefore) last
          omega
        have aged : ((c.lc.clockObserved now wall).1.clockAged now 0).1.mapping =
            some (h.aged 0 now) := by
          have still : (h.aged 0 now).lease.expired now = false := good
          simp [clockAged, clockObserved, held, still]
        refine .inr ⟨rfl, ?_⟩
        have pending : (c.lc.clockObserved now wall).1.rebindPending = c.lc.rebindPending := rfl
        rw [Lifecycle.shown, Lifecycle.shown, aged, held, Lifecycle.clockAged_rebindPending,
          pending]
        cases c.lc.rebindPending <;> rfl

theorem maybeStart_shows (ids : c.lc.owned.Ids) (cfg : Config) (reading : Lifecycle.Reading) :
    Shows c (maybeStart cfg c reading) := by
  obtain ⟨lc, idles, is⟩ | ⟨lc, id, ctx, started, reserves, is⟩ :=
    Client.maybeStart_cases ids <;> rw [is]
  · exact .same rfl idles.mapping idles.rebindPending
  · exact .same rfl started.mapping' started.rebindPending'

theorem getCached_shows (ids : c.lc.owned.Ids) (cfg : Config) (now : Instant) {hasRuntime : Bool}
    {random : Option Nonce} {backoff : Nat} :
    Shows c (getCached cfg c now hasRuntime random backoff) := by
  have expired := expireIfDue_shows (c := c) now
  rw [getCached]
  split
  · exact expired
  split
  · exact expired.trans (maybeStart_shows (expireIfDue_aside ids now).lc.owned.ids cfg _)
  · exact expired

theorem mapDone_shows (id : Nat) {result : Except MapError MapReply} (now : Instant)
    {backoff : Nat} : Shows c (c.mapDone id result now backoff) := by
  rcases c.mapDone_cases with same | ⟨a, -, -, -, -, -, -, is⟩
  · rw [same]
    exact .refl
  rw [is]
  cases result with
  | error e => exact .same rfl rfl rfl
  | ok reply =>
    cases stale : c.lc.attemptStale a.ctx with
    | true =>
      rw [delivered, Lifecycle.mapSuccess_stale stale]
      exact .same rfl rfl rfl
    | false =>
      rw [delivered, mapSuccess_fresh stale]
      exact published_shows

theorem step_shows (sound : Sound c) (cfg : Config) {ev : Event} (calm : Undisturbed c ev) :
    Shows c (step cfg c ev) := by
  have due {now : Instant} {c' : Client} (after : Shows c c') :
      Shows c (if now ≤ c.clock then c' else c) := by
    split
    · exact after
    · exact .refl
  cases ev with
  | tick | denySends | routeLost | lookupStart | probeSend | mapFinish | closeFinish | releaseCap
  | deleteFence | deleteSend | finalSend | releaseFinish =>
    dsimp only [step, lookupStart, probeSend, mapFinish, Lifecycle.closeFinished, releaseCap,
      deleteFence, deleteSend, finalSend, releaseFinish]
    repeat' split
    all_goals exact .same rfl rfl rfl
  | probeStart | finalStart | deleteValidate | deleteDone =>
    refine due ?_
    dsimp only [probeStart, finalStart, Lifecycle.finalReleaseStarted, deleteValidate, deleteDone]
    repeat' split
    all_goals exact .same rfl rfl rfl
  | rebindStarted | rebindFailed | networkDown => exact published_shows
  | disable | enable | closeStart | dropRequested =>
    rw [step]
    split <;> first | exact published_shows | exact .refl
  | setLocalPort port => exact setLocalPort_shows port
  | lookupDone id found => exact lookupDone_shows id
  | checkClock now wall => exact due (checkClock_shows calm)
  | expireIfDue now => exact due (expireIfDue_shows now)
  | getCached now hasRuntime random backoff =>
    exact due (getCached_shows sound.ids cfg now)
  | probeDone =>
    refine due ?_
    dsimp only [probeDone]
    repeat' split
    all_goals first | exact published_shows | exact .same rfl rfl rfl
  | transmit id index =>
    rw [step]
    rcases c.transmit_cases with same | ⟨a, request, -, -, -, -, -, is⟩
    · rw [same]
      exact .refl
    · rw [is]
      exact .same rfl rfl rfl
  | mapDone id result now backoff => exact due (mapDone_shows id now)
  | cleanupStart closing now =>
    refine due ?_
    rw [cleanupStart]
    obtain is | ⟨-, is⟩ := c.lc.cleanupStarted_cases <;> rw [is] <;>
      dsimp only <;> split <;> exact .same rfl rfl rfl

end Client

/-- In every run that is not disturbed, a held mapping has its rule in the ledger, active, of the
same network, and out of reach of cleanups and of the final release; and what is published is
what is held. -/
theorem held_mapping_backed (cfg : Config) (events : List Event)
    (calm : Along (Client.step cfg) Undisturbed .new events) :
    (∀ h, (run (Client.step cfg) .new events).lc.mapping = some h →
      ∃ e, (run (Client.step cfg) .new events).lc.owned.get h.ruleId = some e ∧
        e.rule = h.m.rule ∧ e.netGen = h.netGen ∧ e.state = .active ∧ e.deleting = false ∧
          ∀ now, e.finallyDue now = false ∧ ∀ closing, e.deletable now closing = false) ∧
    ∀ shown, (run (Client.step cfg) .new events).published = some shown →
      ∃ h, (run (Client.step cfg) .new events).lc.mapping = some h ∧ h.endpoint = shown := by
  obtain ⟨backed, published⟩ := run_invariant (Client.step cfg) Undisturbed
    (fun c => Backed c ∧ c.published = c.lc.shown)
    (fun c ev held calm => ⟨held.1.step cfg calm,
      (Client.step_shows held.1.sound cfg calm).shown held.2⟩)
    .new events ⟨.initial, rfl⟩ calm
  constructor
  · intro h holds
    obtain ⟨e, found, backs⟩ := backed.entry h holds
    exact ⟨e, found, backs.rule, backs.netGen, backs.active, backs.deleting,
      fun now => ⟨backs.finallyDue now, backs.deletable now⟩⟩
  · intro shown is
    rw [published, Lifecycle.shown] at is
    obtain ⟨h, holds, rfl⟩ := map_eq_some_iff.mp is
    exact ⟨h, (filter_eq_some_iff.mp holds).1, rfl⟩

theorem held_mapping_backed_bringUp :
    (run (Client.step pmpOnly) .new (bringUp 7200)).lc.mapping.isSome = true ∧
    Along (Client.step pmpOnly) Undisturbed .new (bringUp 7200) ∧
    ((∀ h, (run (Client.step pmpOnly) .new (bringUp 7200)).lc.mapping = some h →
      ∃ e, (run (Client.step pmpOnly) .new (bringUp 7200)).lc.owned.get h.ruleId = some e ∧
        e.rule = h.m.rule ∧ e.netGen = h.netGen ∧ e.state = .active ∧ e.deleting = false ∧
          ∀ now, e.finallyDue now = false ∧ ∀ closing, e.deletable now closing = false) ∧
    ∀ shown, (run (Client.step pmpOnly) .new (bringUp 7200)).published = some shown →
      ∃ h, (run (Client.step pmpOnly) .new (bringUp 7200)).lc.mapping = some h ∧
        h.endpoint = shown) := by
  have held : (run (Client.step pmpOnly) .new (bringUp 7200)).lc.mapping.isSome = true := by
    decide +kernel
  have calm : Along (Client.step pmpOnly) Undisturbed .new (bringUp 7200) := by decide +kernel
  generalize bringUp 7200 = events at held calm ⊢
  exact ⟨held, calm, held_mapping_backed pmpOnly events calm⟩

/-- A renewal is cancelled by a rebind to the same port, which keeps the mapping, and its reply
still arrives. -/
def cancelledRenewal : List Event :=
  bringUp 7200 ++
    [.tick (secs 3600), .getCached (secs 3600) true none 0, .transmit 1 0, .transmit 1 1,
      .rebindStarted true, .mapDone 1 (.ok ⟨⟨9, 7000⟩, 7200, 200⟩) (secs 3600) 0, .mapFinish 1,
      .lookupStart, .lookupDone 1 (.gateway lan (some .interface)),
      .cleanupStart false (secs 3600)]

/-- The lease ends at a clock check that finds the wall clock set back. -/
def expiredUnseen : List Event :=
  bringUp 86400 ++
    [.checkClock 0 (secs 100000), .tick (secs 7200), .checkClock (secs 7200) (secs 50000),
      .cleanupStart false (secs 7200)]

/-- The held mapping is published while its rule is being deleted, and a mapping that is no longer
held stays published while its rule is being deleted. -/
theorem held_mapping_unbacked :
    ((run (Client.step pmpOnly) .new cancelledRenewal).published.isSome = true ∧
      (run (Client.step pmpOnly) .new cancelledRenewal).lc.mapping.map (·.ruleId) = some 0 ∧
      ((run (Client.step pmpOnly) .new cancelledRenewal).lc.owned.get 0).map
        (fun e => (e.state, e.deleting)) = some (.orphaned, true)) ∧
    ((run (Client.step pmpOnly) .new expiredUnseen).published.isSome = true ∧
      (run (Client.step pmpOnly) .new expiredUnseen).lc.mapping = none ∧
      ((run (Client.step pmpOnly) .new expiredUnseen).lc.owned.get 0).map
        (fun e => (e.state, e.deleting)) = some (.orphaned, true)) := by
  decide +kernel

end TailscaleRs.Portmapper
