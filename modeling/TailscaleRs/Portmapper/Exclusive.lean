import TailscaleRs.Portmapper.Start

namespace TailscaleRs.Portmapper

open Option OwnedRules Register OwnedRule Lifecycle

namespace OwnedRules

/-- Only the entry with this id may have changed. -/
structure Touches (id : RuleId) (l l' : OwnedRules) : Prop where
  ids : l'.Ids
  nextId : l'.nextId = l.nextId
  others : ∀ k, k ≠ id → l'.get k = l.get k
  absent : l.get id = none → l'.get id = none

namespace Touches

variable {id : RuleId} {l l' l'' : OwnedRules}

theorem refl (ids : l.Ids) : Touches id l l := ⟨ids, rfl, fun _ _ => rfl, fun absent => absent⟩

theorem trans (first : Touches id l l') (second : Touches id l' l'') : Touches id l l'' where
  ids := second.ids
  nextId := second.nextId.trans first.nextId
  others := fun k other => (second.others k other).trans (first.others k other)
  absent := fun none => second.absent (first.absent none)

theorem amend (ids : l.Ids) {f : OwnedRule → OwnedRule} (keeps : ∀ e, (f e).id = e.id) :
    Touches id l (l.amend id f) where
  ids := ids.amend keeps
  nextId := rfl
  others := fun k other => by rw [get_amend keeps, if_neg other]
  absent := fun none => by rw [get_amend keeps, if_pos rfl, none]; rfl

theorem remove (ids : l.Ids) : Touches id l (l.remove id) where
  ids := ids.remove
  nextId := rfl
  others := fun k other => by rw [get_remove, if_neg other]
  absent := fun _ => by rw [get_remove, if_pos rfl]

end Touches

section Own

variable {l : OwnedRules} {id : RuleId} {e : OwnedRule}

theorem discardUnsent_cases (l : OwnedRules) {id : RuleId} :
    l.discardUnsent id = l ∨
      ∃ e evidence existed, l.get id = some e ∧ e.claim = .map (.pending evidence existed) ∧
        evidence.attempted = none ∧
        (existed = true ∧ (∃ f : OwnedRule → OwnedRule, l.discardUnsent id = l.amend id f ∧
            (∀ e, (f e).id = e.id) ∧ f e = { e with ownership := .map e.state .settled }) ∨
          existed = false ∧ l.discardUnsent id = l.remove id) := by
  cases found : l.get id with
  | none => exact .inl (by rw [discardUnsent, found])
  | some e =>
    cases held : e.ownership with
    | idle state => exact .inl (by simp [discardUnsent, found, held])
    | delete => exact .inl (by simp [discardUnsent, found, held])
    | map state grant =>
      cases grant with
      | settled => exact .inl (by simp [discardUnsent, found, held])
      | pending evidence existed =>
        cases sent : evidence.attempted with
        | some elapsed =>
          exact .inl (by
            simp [discardUnsent, found, held, SendEvidence.possibleUntil, sent])
        | none =>
          refine .inr ⟨e, evidence, existed, rfl, by simp [claim, held], sent, ?_⟩
          cases existed with
          | true =>
            refine .inl ⟨rfl, fun e => { e with ownership := .map state .settled },
              ?_, fun _ => rfl, by simp [OwnedRule.state, held]⟩
            simp [discardUnsent, found, held, SendEvidence.possibleUntil, sent]
          | false =>
            simp [discardUnsent, found, held, SendEvidence.possibleUntil, sent]

theorem discardUnsent_touches (ids : l.Ids) (id : RuleId) : Touches id l (l.discardUnsent id) := by
  rcases l.discardUnsent_cases with same | ⟨e, evidence, existed, -, -, -, settled | removed⟩
  · rw [same]
    exact .refl ids
  · obtain ⟨-, f, is, keeps, -⟩ := settled
    rw [is]
    exact .amend ids keeps
  · rw [removed.2]
    exact .remove ids

theorem discardUnsent_mapping {e' : OwnedRule} (mapped : ∀ e, l.get id = some e → e.mapping = true)
    (found' : (l.discardUnsent id).get id = some e') : e'.mapping = true := by
  rcases l.discardUnsent_cases with same | ⟨e, evidence, existed, found, -, -, settled | removed⟩
  · rw [same] at found'
    exact mapped e' found'
  · obtain ⟨-, f, is, keeps, result⟩ := settled
    rw [is, get_amend keeps, if_pos rfl, found] at found'
    obtain rfl : f e = e' := some.inj found'
    rw [result]
    rfl
  · rw [removed.2, get_remove, if_pos rfl] at found'
    cases found'

end Own

end OwnedRules

namespace OwnedRule

variable {e : OwnedRule} (e : OwnedRule)

theorem grantObserved_mapping (limit : Instant) : (e.grantObserved limit).mapping = e.mapping := by
  cases held : e.ownership <;> simp [grantObserved, mapping, held]

theorem observed_eq {e : OwnedRule} (mapped : e.mapping = true) (state : RuleState)
    (limit : Instant) : (e.setState state).grantObserved limit =
      { e with ownership := .map state .settled, settledExpiry := limit } := by
  cases held : e.ownership <;> simp_all [mapping, setState, grantObserved]

theorem observed_mapping (state : RuleState) (limit : Instant) :
    ((e.setState state).grantObserved limit).mapping = e.mapping := by
  rw [grantObserved_mapping, (e.setState_kin state).mapping]

end OwnedRule

namespace OwnedRules

theorem get_enter {l : OwnedRules} {id : RuleId} {e : OwnedRule} {evidence : SendEvidence}
    {existed : Bool} (found : l.get id = some e)
    (claim : e.claim = .map (.pending evidence existed)) (index : Nat) (runtime : Instant) :
    (l.enter id index runtime).get id =
      some { e with
        ownership := .map e.state (.pending (evidence.enter index runtime) existed) } := by
  rw [enter, get_amend fun e => by split <;> rfl, if_pos rfl, found]
  cases held : e.ownership with
  | map state grant =>
    simp only [OwnedRule.claim, held, Claim.map.injEq] at claim
    subst claim
    simp [held, OwnedRule.state]
  | _ => simp [OwnedRule.claim, held] at claim

end OwnedRules

namespace Client

variable (c : Client)

/-- A send happens only for a live attempt whose result is not in yet. -/
theorem transmit_cases {id index : Nat} :
    c.transmit id index = c ∨ ∃ a request, a ∈ c.attempts ∧ a.id = id ∧ a.outcome = none ∧
      c.gate a.ctx.cap = true ∧ a.ctx.rule.requests[index]? = some request ∧
        c.transmit id index = c.transmitted a index request := by
  rw [transmit]
  split
  · exact .inl rfl
  case h_2 a found =>
    split
    · exact .inl rfl
    case h_2 request is =>
      split
      case isTrue going =>
        rw [Bool.and_eq_true, isNone_iff_eq_none] at going
        exact .inr ⟨a, request, mem_of_find found, key_of_find found, going.1, going.2, is, rfl⟩
      case isFalse => exact .inl rfl

theorem mapDone_cases {id : Nat} {result : Except MapError MapReply} {now : Instant}
    {backoff : Nat} :
    c.mapDone id result now backoff = c ∨ ∃ a, a ∈ c.attempts ∧ a.id = id ∧
      c.attempt id = some a ∧ a.outcome = none ∧ a.spawned ≤ now ∧
        (∀ t ∈ a.lastSend, t ≤ now) ∧
          c.mapDone id result now backoff = c.delivered a result now backoff := by
  rw [mapDone]
  split
  · exact .inl rfl
  case h_2 a found =>
    split
    case isTrue going =>
      simp only [Bool.and_eq_true, isNone_iff_eq_none, decide_eq_true_eq, all_eq_true] at going
      exact .inr ⟨a, mem_of_find found, key_of_find found, found, going.1.1,
        going.1.2, going.2, rfl⟩
    case isFalse => exact .inl rfl

end Client

/-- What holds of a client in every state it can be in. -/
structure Sound (c : Client) : Prop where
  ids : c.lc.owned.Ids
  attended : Attended c.lc c.attempts
  guarded : Guarded c.lc c.releases
  ops : ∀ op ∈ c.releases, op.id < c.nextOp
  held : ∀ h, c.lc.mapping = some h → c.lc.phase = .running ∧ c.lc.disabled = none

namespace Sound

variable {c c' : Client} {why : OwnedRule → Prop}

theorem initial : Sound Client.new where
  ids := ⟨List.nodup_nil, nofun⟩
  attended := by constructor <;> simp [Client.new, Distinct]
  guarded := by constructor <;> simp [Client.new, Distinct]
  ops := nofun
  held := nofun

variable (sound : Sound c)
include sound

theorem bystand (lc : Lifecycle.Bystands why c.lc c'.lc) (attempts : c'.attempts = c.attempts)
    (releases : c'.releases = c.releases) (nextOp : c.nextOp ≤ c'.nextOp) : Sound c' where
  ids := lc.owned.ids
  attended := by
    rw [attempts]
    refine sound.attended.evolve (.of_bystands lc.owned) (Nat.le_of_eq lc.attemptId.symm) ?_
    rcases lc.generation with newer | ⟨same, flight, -⟩
    · exact .inl newer
    · exact .inr ⟨same, flight⟩
  guarded := by
    rw [releases]
    exact sound.guarded.evolve (.of_bystands lc.owned lc.phase)
  ops := by
    rw [releases]
    exact fun op live => Nat.lt_of_lt_of_le (sound.ops op live) nextOp
  held := by
    intro h' found
    obtain ⟨h, held, keeps⟩ := lc.held h' found
    exact ⟨keeps.phase (sound.held h held).1, keeps.disabled (sound.held h held).2⟩

theorem touched {a : Attempt} (live : a ∈ c.attempts) {owned : OwnedRules}
    (touches : OwnedRules.Touches a.ctx.ruleId c.lc.owned owned) :
    c.lc.owned.SparesReleases c.lc.phase c.lc.phase owned :=
  .of_frame (Nat.le_of_eq touches.nextId.symm) (fun k other _ => touches.others k other)
    (fun _ => touches.absent)
    (fun e found released => by
      have unmapped := released.mapping
      rw [sound.attended.reserved a live e found] at unmapped
      cases unmapped) sound.ids

theorem own {a : Attempt} (live : a ∈ c.attempts) {f : Attempt → Attempt}
    (attempts : c'.attempts = alter Attempt.id c.attempts a.id f) (id : ∀ a, (f a).id = a.id)
    (ctx : ∀ a, (f a).ctx = a.ctx)
    (touches : OwnedRules.Touches a.ctx.ruleId c.lc.owned c'.lc.owned)
    (reserved : ∀ e, c'.lc.owned.get a.ctx.ruleId = some e → e.mapping = true)
    (running : (f a).outcome = none → ∃ e evidence, c'.lc.owned.get a.ctx.ruleId = some e ∧
      e.rule = a.ctx.rule ∧ e.netGen = a.ctx.netGen ∧
        e.claim = .map (.pending evidence a.ctx.existed))
    (lc : c'.lc.generation = c.lc.generation ∧ c'.lc.inflight = c.lc.inflight ∧
      c'.lc.nextAttemptId = c.lc.nextAttemptId ∧ c'.lc.phase = c.lc.phase)
    (releases : c'.releases = c.releases) (nextOp : c'.nextOp = c.nextOp)
    (held : ∀ h, c'.lc.mapping = some h → c'.lc.phase = .running ∧ c'.lc.disabled = none) :
    Sound c' where
  ids := touches.ids
  attended := by
    rw [attempts]
    exact sound.attended.own live id ctx touches.others touches.nextId lc.2.2.1 lc.1 lc.2.1
      reserved running
  guarded := by
    rw [releases]
    refine sound.guarded.evolve ?_
    rw [lc.2.2.2]
    exact sound.touched live touches
  ops := by
    rw [releases, nextOp]
    exact sound.ops
  held := held

theorem transmit (id index : Nat) : Sound (c.transmit id index) := by
  rcases c.transmit_cases with same | ⟨a, request, live, -, going, -, -, is⟩
  · rw [same]
    exact sound
  · rw [is]
    obtain ⟨e, evidence, held, rule, netGen, claim⟩ := sound.attended.running a live going
    have entered := get_enter held claim index c.clock
    refine sound.own live rfl (fun a => by split <;> rfl) (fun a => by split <;> rfl)
      (.amend sound.ids fun e => by split <;> rfl) (fun e' found => ?_) (fun _ => ?_)
      ⟨rfl, rfl, rfl, rfl⟩ rfl rfl sound.held
    · rw [← some.inj (entered.symm.trans found)]
      rfl
    · exact ⟨_, _, entered, rule, netGen, rfl⟩

end Sound

namespace Lifecycle

variable {l : Lifecycle} {ctx : AttemptCtx}

theorem mapRefused_touches (ids : l.owned.Ids) {e : MapError} {now : Instant} {backoff : Nat} :
    OwnedRules.Touches ctx.ruleId l.owned (l.mapRefused ctx e now backoff).owned := by
  have discarded := discardUnsent_touches ids ctx.ruleId
  rw [mapRefused]
  dsimp only
  split
  · exact discarded
  · refine discarded.trans ?_
    rw [settleRefused]
    split
    · exact .amend discarded.ids fun e => by simp
    · split
      · exact .amend discarded.ids fun e => by simp
      · exact .remove discarded.ids

theorem mapRefused_mapping (e : MapError) (now : Instant) {backoff : Nat}
    (reserved : ∀ e, l.owned.get ctx.ruleId = some e → e.mapping = true) (e' : OwnedRule)
    (found : (l.mapRefused ctx e now backoff).owned.get ctx.ruleId = some e') :
    e'.mapping = true := by
  have mapped (e₁ : OwnedRule)
      (held : (l.owned.discardUnsent ctx.ruleId).get ctx.ruleId = some e₁) :
      e₁.mapping = true := discardUnsent_mapping reserved held
  rw [mapRefused] at found
  dsimp only at found
  split at found
  · exact mapped e' found
  · rw [settleRefused] at found
    split at found
    · rw [orphanCommitted, get_amend fun e => by simp, if_pos rfl] at found
      obtain ⟨e₁, held, rfl⟩ := map_eq_some_iff.mp found
      rw [observed_mapping, mapped e₁ held]
    · split at found
      · rw [orphan, get_amend fun e => by simp, if_pos rfl] at found
        obtain ⟨e₁, held, rfl⟩ := map_eq_some_iff.mp found
        rw [(e₁.setState_kin .orphaned).mapping, mapped e₁ held]
      · rw [get_remove, if_pos rfl] at found
        cases found

theorem supersede_bystands {owned : OwnedRules} (ids : owned.Ids) (old : Option Held)
    (id : RuleId) : OwnedRules.Bystands Never owned (owned.supersede old id) := by
  cases old with
  | none => exact .refl ids
  | some h =>
    rw [supersede]
    split
    · exact .refl ids
    · exact .orphan ids

theorem get_supersede (owned : OwnedRules) (old : Option Held) (id : RuleId) :
    (owned.supersede old id).get id = owned.get id := by
  cases old with
  | none => rfl
  | some h =>
    rw [supersede]
    split
    · rfl
    case isFalse other =>
      rw [orphan, get_amend fun e => by simp,
        if_neg fun same => other same.symm]

theorem mapSuccess_stale (stale : l.attemptStale ctx = true) (m : Mapping) (now : Instant) :
    l.mapSuccess ctx m now =
      ({ l with owned := l.owned.orphanCommitted ctx.ruleId (leaseDeadline now m.lifetime) },
        false) := by
  rw [mapSuccess]
  simp only [stale]
  rfl

/-- The reply is recorded and its mapping held, before the rule it replaces is released. -/
def recorded (l : Lifecycle) (ctx : AttemptCtx) (m : Mapping) (now : Instant) : Lifecycle :=
  { l with
    owned := l.owned.commit ctx.ruleId (leaseDeadline now m.lifetime)
    mapping := some ⟨m, Lease.new now m.lifetime, ctx.netGen, ctx.ruleId⟩
    sched := l.sched.noteSuccess }

theorem mapSuccess_fresh (fresh : l.attemptStale ctx = false) (m : Mapping) (now : Instant) :
    l.mapSuccess ctx m now =
      ({ l.recorded ctx m now with
          owned := (l.recorded ctx m now).owned.supersede l.mapping ctx.ruleId }, true) := by
  rw [mapSuccess]
  simp only [fresh]
  rfl

theorem supersede_recorded (ids : l.owned.Ids) {m : Mapping} {now : Instant} :
    Bystands Never (l.recorded ctx m now)
      { l.recorded ctx m now with
        owned := (l.recorded ctx m now).owned.supersede l.mapping ctx.ruleId } where
  owned := supersede_bystands (ids.amend fun e => by simp) _ _
  attemptId := rfl
  generation := .inr ⟨rfl, rfl, rfl⟩
  phase := id
  held := by
    intro h is
    cases is
    exact ⟨_, rfl, rfl, rfl, rfl, rfl, get_supersede _ _ _, id, id, rfl⟩

theorem attemptStale_eq_false : l.attemptStale ctx = false ↔
    ctx.generation = l.generation ∧ l.phase = .running ∧ l.disabled = none := by
  simp [attemptStale, and_assoc]

end Lifecycle

theorem Lifecycle.Idles.bystands {l l' : Lifecycle} (ids : l.owned.Ids)
    (idles : Lifecycle.Idles l l') : Lifecycle.Bystands Lifecycle.Never l l' :=
  .same ids idles.owned idles.nextAttemptId idles.generation idles.inflight
    (by rw [idles.net]) idles.phase (fun enabled => idles.disabled ▸ enabled) idles.mapping

theorem Attended.start {l l' : Lifecycle} {attempts : List Attempt} {reading : Lifecycle.Reading}
    {id : Nat} {ctx : AttemptCtx} (attended : Attended l attempts)
    (started : Lifecycle.Started l l' reading id ctx)
    (reserves : Reserves l.owned l'.owned ctx reading) (clock : Instant) :
    Attended l' (attempts ++ [⟨id, ctx, clock, none, none⟩]) := by
  obtain ⟨e', found', rule, netGen, claim, -⟩ := reserves.after
  have other : ∀ a ∈ attempts, a.ctx.ruleId ≠ ctx.ruleId := by
    intro a live shared
    cases found : l.owned.get ctx.ruleId with
    | none =>
      have below := attended.known a live
      rw [shared, reserves.new found] at below
      exact Nat.lt_irrefl _ below
    | some e =>
      have mapped := attended.reserved a live e (shared ▸ found)
      have idle := (reserves.free e found).1
      rw [OwnedRule.reserved, mapped] at idle
      cases idle
  have stale : ∀ a ∈ attempts, a.ctx.generation ≠ l.generation := by
    intro a live current
    have flight := attended.inflight a live current
    rw [started.inflight] at flight
    cases flight
  have member_iff : ∀ a, a ∈ attempts ++ [(⟨id, ctx, clock, none, none⟩ : Attempt)] ↔
      a ∈ attempts ∨ a = ⟨id, ctx, clock, none, none⟩ := by simp
  refine ⟨attended.distinct.push fun a live => ?_, ?_, ?_, ?_, ?_, ?_, ?_, ?_⟩
  · rw [started.numbered]
    exact Nat.ne_of_lt (attended.numbered a live)
  all_goals intro a member
  all_goals rcases (member_iff a).mp member with live | rfl
  · rw [started.nextAttemptId']
    exact Nat.lt_succ_of_lt (attended.numbered a live)
  · rw [started.nextAttemptId', started.numbered]
    exact Nat.lt_succ_self _
  · exact Nat.lt_of_lt_of_le (attended.known a live) reserves.nextId
  · exact reserves.known
  · intro b member' shared
    rcases (member_iff b).mp member' with live' | rfl
    · exact attended.alone a live b live' shared
    · exact absurd shared (other a live)
  · intro b member' shared
    rcases (member_iff b).mp member' with live' | rfl
    · exact absurd shared.symm (other b live')
    · rfl
  · intro e found
    rw [reserves.others _ (other a live)] at found
    exact attended.reserved a live e found
  · intro e found
    obtain rfl : e' = e := some.inj (found'.symm.trans found)
    exact mapping_iff.mpr ⟨_, claim⟩
  · intro going
    rw [reserves.others _ (other a live)]
    exact attended.running a live going
  · exact fun _ => ⟨e', _, found', rule, netGen, claim⟩
  · rw [started.generation']
    exact attended.generation a live
  · rw [started.generation']
    exact Nat.le_of_eq started.generation
  · intro current
    rw [started.generation'] at current
    exact absurd current (stale a live)
  · exact fun _ => started.inflight'

namespace Sound

variable {c : Client} (sound : Sound c)
include sound

theorem observed_mapping {a : Attempt} (live : a ∈ c.attempts) (state : RuleState) (limit : Instant)
    (e' : OwnedRule)
    (found : (c.lc.owned.amend a.ctx.ruleId fun e =>
      (e.setState state).grantObserved limit).get a.ctx.ruleId = some e') :
    e'.mapping = true := by
  rw [get_amend fun e => by simp, if_pos rfl] at found
  obtain ⟨e, held, rfl⟩ := map_eq_some_iff.mp found
  rw [OwnedRule.observed_mapping, sound.attended.reserved a live e held]

theorem mapDone (id : Nat) (result : Except MapError MapReply) (now : Instant) (backoff : Nat) :
    Sound (c.mapDone id result now backoff) := by
  rcases c.mapDone_cases with same | ⟨a, live, -, -, going, -, -, is⟩
  · rw [same]
    exact sound
  rw [is]
  cases result with
  | error e =>
    exact sound.own live rfl (fun _ => rfl) (fun _ => rfl)
      (mapRefused_touches sound.ids)
      (mapRefused_mapping e now (sound.attended.reserved a live))
      nofun ⟨rfl, rfl, rfl, rfl⟩ rfl rfl sound.held
  | ok reply =>
    have touches (state : RuleState) (limit : Instant) : OwnedRules.Touches a.ctx.ruleId
        c.lc.owned (c.lc.owned.amend a.ctx.ruleId fun e =>
          (e.setState state).grantObserved limit) := .amend sound.ids fun e => by simp
    rw [Client.delivered]
    cases stale : c.lc.attemptStale a.ctx with
    | true =>
      rw [mapSuccess_stale stale]
      exact sound.own live rfl (fun _ => rfl) (fun _ => rfl) (touches _ _)
        (sound.observed_mapping live _ _) nofun ⟨rfl, rfl, rfl, rfl⟩ rfl
        rfl sound.held
    | false =>
      rw [mapSuccess_fresh stale]
      obtain ⟨-, running, enabled⟩ := attemptStale_eq_false.mp stale
      -- First the reply is recorded, then the rule it replaces is orphaned.
      have recorded : Sound { c with
          lc := c.lc.recorded a.ctx (reply.mapping a.ctx.rule) now
          attempts := alter Attempt.id c.attempts a.id fun a =>
            { a with outcome := some .committed } } :=
        sound.own live rfl (fun _ => rfl) (fun _ => rfl) (touches _ _)
          (sound.observed_mapping live _ _) nofun ⟨rfl, rfl, rfl, rfl⟩
          rfl rfl fun _ _ => ⟨running, enabled⟩
      exact recorded.bystand (supersede_recorded sound.ids) rfl rfl
        (Nat.le_refl _)

theorem mapFinish (id : Nat) : Sound (c.mapFinish id) := by
  rw [Client.mapFinish]
  split
  · exact sound
  case h_2 a found =>
    have live := mem_of_find found
    obtain rfl := key_of_find found
    have touches : OwnedRules.Touches a.ctx.ruleId c.lc.owned
        (c.lc.owned.finishMap a.ctx.ruleId) := by
      have discarded := discardUnsent_touches sound.ids a.ctx.ruleId
      exact discarded.trans (.amend discarded.ids fun e => e.finished_id)
    exact
      { ids := touches.ids
        attended := by
          refine sound.attended.finish live touches.others touches.nextId rfl rfl ?_
          intro i flight other
          rw [mapFinished, flight]
          simp [other]
        guarded := sound.guarded.evolve (sound.touched live touches)
        ops := sound.ops
        held := sound.held }

theorem start (cfg : Config) (reading : Lifecycle.Reading) :
    Sound (Client.maybeStart cfg c reading) := by
  obtain ⟨lc, idles, is⟩ | ⟨lc, id, ctx, started, reserves, is⟩ :=
    Client.maybeStart_cases sound.ids <;> rw [is]
  · exact sound.bystand (idles.bystands sound.ids) rfl rfl (Nat.le_refl _)
  · have free : ∀ e, c.lc.owned.get ctx.ruleId = some e → e.reserved = false := fun e found =>
      (reserves.free e found).1
    exact
      { ids := reserves.ids
        attended := sound.attended.start started reserves c.clock
        guarded := by
          refine sound.guarded.evolve ?_
          rw [show lc.phase = c.lc.phase from started.phase']
          refine .of_frame reserves.nextId (fun k other _ => reserves.others k other)
            (fun below none => absurd (reserves.new none) (Nat.ne_of_lt below)) ?_ sound.ids
          rintro e found (claimed | ⟨-, -, closed⟩)
          · have idle := free e found
            rw [reserved, claimed, Bool.or_true] at idle
            cases idle
          · exact closed started.phase
        ops := sound.ops
        held := by
          intro h held
          rw [started.phase', started.disabled']
          exact ⟨started.phase, started.disabled⟩ }

end Sound

end TailscaleRs.Portmapper
