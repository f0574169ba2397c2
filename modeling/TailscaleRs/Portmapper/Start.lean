import TailscaleRs.Portmapper.Sound

namespace TailscaleRs.Portmapper

open Option

namespace OwnedRules

variable {l : OwnedRules} {gateway : Gateway} {netGen : NetGen} {l' : OwnedRules} {id : RuleId}
  {rule : Rule}

theorem adopt_some {proto : Proto} {internal : Port} (ids : l.Ids)
    (taken : l.adopt proto internal gateway netGen = some (l', id, rule)) :
    ∃ e, l.get id = some e ∧ e.adoptable proto internal gateway = true ∧ e.rule = rule ∧
      l' = l.amend id (·.adopted gateway netGen) := by
  rw [adopt] at taken
  split at taken
  · cases taken
  case h_2 e found =>
    cases taken
    have is : e.adoptable proto internal gateway = true := by simpa using List.find?_some found
    exact ⟨e, ids.get (List.mem_of_find?_eq_some found), is, rfl, rfl⟩

theorem liveFor_some (ids : l.Ids) (live : l.liveFor rule netGen = some id) :
    ∃ e, l.get id = some e ∧ e.state ≠ .orphaned ∧ e.netGen = netGen ∧ e.rule = rule := by
  obtain ⟨e, found, rfl⟩ := map_eq_some_iff.mp live
  have is := List.find?_some found
  simp only [Bool.and_eq_true, bne_iff_ne, beq_iff_eq] at is
  exact ⟨e, ids.get (List.mem_of_find?_eq_some found), is.1.1, is.1.2, is.2⟩

theorem addPending_some {now : Instant}
    (added : l.addPending rule netGen gateway now = some (l', id)) :
    id = l.nextId ∧ l'.nextId = l.nextId + 1 ∧
      l'.entries = l.entries ++ [⟨l.nextId, rule, netGen, gateway, .idle .pending,
        .allowed .none, now, 0, none⟩] := by
  rw [addPending] at added
  split at added
  · cases added
  · cases added
    exact ⟨rfl, rfl, rfl⟩

def reservedFor (e : OwnedRule) (now runtime : Instant) (existed : Bool) (e' : OwnedRule) :
    OwnedRule :=
  { e' with
    ownership := .map e'.state (.pending (SendEvidence.new
      (if e.rule.proto = .pmp then 1 else 0) now runtime) existed) }

theorem claimMap_of_free {e : OwnedRule} (found : l.get id = some e) (free : e.reserved = false)
    (now runtime : Instant) (existed : Bool) :
    l.claimMap id now runtime existed = some (l.amend id (reservedFor e now runtime existed)) := by
  rw [claimMap, found]
  simp only [free]
  rfl

theorem claimMap_some {now runtime : Instant} {existed : Bool}
    (claimed : l.claimMap id now runtime existed = some l') :
    ∃ e, l.get id = some e ∧ e.reserved = false ∧
      l' = l.amend id (reservedFor e now runtime existed) := by
  cases found : l.get id with
  | none => rw [claimMap, found] at claimed; cases claimed
  | some e =>
    cases taken : e.reserved with
    | true => simp [claimMap, found, taken] at claimed
    | false =>
      rw [claimMap_of_free found taken] at claimed
      exact ⟨e, rfl, taken, (some.inj claimed).symm⟩

end OwnedRules

namespace Lifecycle

/-- Nothing that a reservation depends on has changed. -/
structure Idles (l l' : Lifecycle) : Prop where
  owned : l'.owned = l.owned
  mapping : l'.mapping = l.mapping
  generation : l'.generation = l.generation
  inflight : l'.inflight = l.inflight
  net : l'.net = l.net
  phase : l'.phase = l.phase
  disabled : l'.disabled = l.disabled
  nextAttemptId : l'.nextAttemptId = l.nextAttemptId
  rebindPending : l'.rebindPending = l.rebindPending

/-- Where the entry of a new attempt comes from, and the ledger just before it is reserved. -/
inductive Prepared (l : Lifecycle) (net : NetSnapshot) (now : Instant) (ctx : AttemptCtx) :
    OwnedRules → Prop
  | live (e : OwnedRule) (found : l.owned.get ctx.ruleId = some e) (rule : e.rule = ctx.rule)
      (netGen : e.netGen = net.netGen) (state : e.state ≠ .orphaned) (existed : ctx.existed = true)
      (prev : ctx.prev = none → l.previous ctx.rule.internal net ctx.rule.proto = none) :
      Prepared l net now ctx l.owned
  | adopted (e : OwnedRule) (found : l.owned.get ctx.ruleId = some e) (rule : e.rule = ctx.rule)
      (state : e.state = .orphaned) (free : e.reserved = false)
      (wire : sameWireGateway e.gateway net.gateway = true) (existed : ctx.existed = true) :
      Prepared l net now ctx (l.owned.amend ctx.ruleId (·.adopted net.gateway net.netGen))
  | added (owned : OwnedRules)
      (admitted : l.owned.addPending ctx.rule net.netGen net.gateway now =
        some (owned, ctx.ruleId)) (existed : ctx.existed = false) :
      Prepared l net now ctx owned

structure Started (l l' : Lifecycle) (reading : Reading) (id : Nat) (ctx : AttemptCtx) :
    Prop where
  phase : l.phase = .running
  disabled : l.disabled = none
  inflight : l.inflight = none
  numbered : id = l.nextAttemptId
  generation : ctx.generation = l.generation
  entry : ∃ net owned, l.net = some net ∧ ctx.cap = net.cap ∧ ctx.gateway = net.gateway ∧
    ctx.netGen = net.netGen ∧ Prepared l net reading.now ctx owned ∧
      owned.claimMap ctx.ruleId reading.now reading.runtime ctx.existed = some l'.owned
  mapping' : l'.mapping = l.mapping
  generation' : l'.generation = l.generation
  inflight' : l'.inflight = some ⟨id, ctx.ruleId⟩
  net' : l'.net = l.net
  phase' : l'.phase = l.phase
  disabled' : l'.disabled = l.disabled
  nextAttemptId' : l'.nextAttemptId = l.nextAttemptId + 1
  rebindPending' : l'.rebindPending = l.rebindPending

/-- A start either fails and changes no entry, or makes an attempt. -/
def StartOutcome (l : Lifecycle) (reading : Reading)
    (result : Lifecycle × Except StartError (Nat × AttemptCtx)) : Prop :=
  (∃ error, result.2 = .error error ∧ Idles l result.1) ∨
    ∃ id ctx, result.2 = .ok (id, ctx) ∧ Started l result.1 reading id ctx

variable {l : Lifecycle} {reading : Reading} {net : NetSnapshot}

theorem failed_outcome {l : Lifecycle} {sched : Schedule} {retryWanted : Bool}
    {error : StartError} :
    StartOutcome l reading ({ l with sched, retryWanted }, .error error) :=
  .inl ⟨error, rfl, rfl, rfl, rfl, rfl, rfl, rfl, rfl, rfl, rfl⟩

variable {owned : OwnedRules} {rule : Rule} {id : RuleId} (ids : l.owned.Ids)
include ids

theorem claimMap_added {now : Instant}
    (admitted : l.owned.addPending rule net.netGen net.gateway now = some (owned, id))
    (now' runtime : Instant) (existed : Bool) :
    owned.claimMap id now' runtime existed ≠ none := by
  obtain ⟨rfl, -, entries⟩ := OwnedRules.addPending_some admitted
  have found : owned.get l.owned.nextId = some ⟨l.owned.nextId, rule, net.netGen, net.gateway,
      .idle .pending, .allowed .none, now, 0, none⟩ := by
    have old : Register.find OwnedRule.id l.owned.entries l.owned.nextId = none :=
      Register.find_eq_none.mpr fun e member => Nat.ne_of_lt (ids.below e member)
    rw [OwnedRules.get, entries, Register.find_push, old]
    simp
  rw [OwnedRules.claimMap_of_free found rfl]
  exact some_ne_none _

omit ids

variable (phase : l.phase = .running) (disabled : l.disabled = none) (inflight : l.inflight = none)
  (known : l.net = some net)
include phase disabled inflight known

theorem launch_outcome {existed : Bool} {prev : Option Mapping}
    (prepared : Prepared l net reading.now
      ⟨l.generation, net.cap, net.gateway, net.netGen, rule, id, existed, prev⟩ owned)
    (stays : owned.claimMap id reading.now reading.runtime existed = none → owned = l.owned) :
    StartOutcome l reading ({ l with owned }.launch net reading rule id existed prev) := by
  rw [launch]
  split
  case h_1 failed =>
    refine .inl ⟨.busy, rfl, ?_⟩
    exact ⟨stays failed, rfl, rfl, rfl, rfl, rfl, rfl, rfl, rfl⟩
  case h_2 claimed =>
    refine .inr ⟨_, _, rfl, ?_⟩
    exact
      { phase
        disabled
        inflight
        numbered := rfl
        generation := rfl
        entry := ⟨net, owned, known, rfl, rfl, rfl, prepared, claimed⟩
        mapping' := rfl
        generation' := rfl
        inflight' := rfl
        net' := rfl
        phase' := rfl
        disabled' := rfl
        nextAttemptId' := rfl
        rebindPending' := rfl }

include ids

theorem claimFor_outcome {rule : Rule} {prev : Option Mapping}
    (fresh : prev = none → l.previous rule.internal net rule.proto = none) :
    StartOutcome l reading
      (l.claimFor net reading rule (l.owned.liveFor rule net.netGen) prev) := by
  cases live : l.owned.liveFor rule net.netGen with
  | some id =>
    obtain ⟨e, found, state, netGen, same⟩ := OwnedRules.liveFor_some ids live
    exact launch_outcome phase disabled inflight known
      (.live e found same netGen state rfl fresh) fun _ => rfl
  | none =>
    rw [claimFor]
    split
    · exact failed_outcome
    case h_2 owned id admitted =>
      exact launch_outcome phase disabled inflight known (.added owned admitted rfl)
        fun failed => absurd failed (claimMap_added ids admitted _ _ _)

theorem startRule_outcome {port : Port} {proto : Proto} :
    StartOutcome l reading (l.startRule port net proto reading) := by
  rw [startRule]
  split
  case h_1 h held =>
    exact claimFor_outcome ids phase disabled inflight known nofun
  case h_2 first =>
    split
    case h_1 owned id rule taken =>
      obtain ⟨e, found, is, rfl, rfl⟩ := OwnedRules.adopt_some ids taken
      simp only [OwnedRule.adoptable, Bool.and_eq_true, decide_eq_true_eq, Bool.not_eq_true'] at is
      refine launch_outcome phase disabled inflight known
        (.adopted e found rfl is.1.1.1.1 is.1.1.1.2 is.2 rfl) fun failed => ?_
      have taken : (l.owned.amend id (·.adopted net.gateway net.netGen)).get id =
          some (e.adopted net.gateway net.netGen) := by
        rw [OwnedRules.get_amend fun e => e.adopted_id, if_pos rfl, found]
        rfl
      have free : (e.adopted net.gateway net.netGen).reserved = false := by
        rw [OwnedRule.reserved_iff]
        exact (e.setState_kin .pending).claim.trans (OwnedRule.reserved_iff.mp is.1.1.1.2)
      rw [OwnedRules.claimMap_of_free taken free] at failed
      cases failed
    case h_2 =>
      split
      · exact failed_outcome
      case h_2 rule made =>
        refine claimFor_outcome ids phase disabled inflight known fun _ => ?_
        have shape : rule.internal = port ∧ rule.proto = proto := by
          cases proto with
          | pmp =>
            cases made
            exact ⟨rfl, rfl⟩
          | pcp =>
            obtain ⟨nonce, -, rfl⟩ := map_eq_some_iff.mp made
            exact ⟨rfl, rfl⟩
        rw [shape.1, shape.2]
        exact first

theorem startOn_outcome (cfg : Config) (port : Port) (proto : Proto) :
    StartOutcome l reading (l.startOn cfg port net proto reading) := by
  rw [startOn]
  split
  · exact startRule_outcome ids phase disabled inflight known
  case h_2 e _ =>
    split
    · exact failed_outcome
    · split
      · exact startRule_outcome ids phase disabled inflight known
      · exact failed_outcome

omit phase disabled inflight known

theorem mapStarted_outcome (cfg : Config) (allowed : Bool) (reading : Reading) :
    StartOutcome l reading (l.mapStarted cfg allowed reading) := by
  have wanted : ∀ result, StartOutcome { l with retryWanted := false } reading result →
      StartOutcome l reading result := by
    rintro result (⟨error, is, idles⟩ | ⟨id, ctx, is, started⟩)
    · exact .inl ⟨error, is, { idles with }⟩
    · obtain ⟨net, owned, known, cap, gateway, netGen, prepared, claimed⟩ := started.entry
      have same : Prepared l net reading.now ctx owned := by
        cases prepared with
        | live e found rule netGen state existed prev =>
          exact .live e found rule netGen state existed prev
        | adopted e found rule state free wire existed =>
          exact .adopted e found rule state free wire existed
        | added owned admitted existed => exact .added owned admitted existed
      exact .inr ⟨id, ctx, is, { started with
        entry := ⟨net, owned, known, cap, gateway, netGen, same, claimed⟩ }⟩
  rw [mapStarted]
  dsimp only
  split
  · exact failed_outcome
  case isFalse running =>
    split
    · exact failed_outcome
    case isFalse enabled =>
      simp only [Bool.or_eq_true, bne_iff_ne, Bool.not_eq_true', not_or, not_not] at running
      simp only [Bool.or_eq_true, Bool.not_eq_true', not_or, not_isSome_iff_eq_none]
        at enabled
      split
      · exact failed_outcome
      · exact failed_outcome
      case h_3 port net _ known =>
        split
        · exact failed_outcome
        case isFalse free =>
          simp only [Bool.or_eq_true, not_or, not_isSome_iff_eq_none] at free
          split
          · exact failed_outcome
          · split
            · exact failed_outcome
            · refine wanted _ (startOn_outcome ?_ ?_ ?_ ?_ ?_ cfg port _)
              · exact ids
              · exact running.1
              · exact enabled.1
              · exact free.1.1
              · exact known

end Lifecycle

/-- What a start does to the ledger: it reserves one entry that was free or is new. -/
structure Reserves (l l' : OwnedRules) (ctx : AttemptCtx) (reading : Lifecycle.Reading) :
    Prop where
  ids : l'.Ids
  nextId : l.nextId ≤ l'.nextId
  known : ctx.ruleId < l'.nextId
  others : ∀ k, k ≠ ctx.ruleId → l'.get k = l.get k
  free : ∀ e, l.get ctx.ruleId = some e → e.reserved = false ∧ ctx.existed = true
  new : l.get ctx.ruleId = none → ctx.ruleId = l.nextId
  after : ∃ e', l'.get ctx.ruleId = some e' ∧ e'.rule = ctx.rule ∧ e'.netGen = ctx.netGen ∧
    e'.claim = .map (.pending (.new (if ctx.rule.proto = .pmp then 1 else 0) reading.now
      reading.runtime) ctx.existed) ∧
    ∀ e, l.get ctx.ruleId = some e → e'.rule = e.rule ∧ e'.settledExpiry = e.settledExpiry ∧
      (e.state ≠ .orphaned → e'.state = e.state ∧ e'.netGen = e.netGen)

namespace Lifecycle

open OwnedRules (reservedFor)

theorem reservedFor_id (e : OwnedRule) {now runtime : Instant} (existed : Bool) (e' : OwnedRule) :
    (reservedFor e now runtime existed e').id = e'.id := rfl

theorem Started.reserves {l l' : Lifecycle} {reading : Reading} {id : Nat} {ctx : AttemptCtx}
    (ids : l.owned.Ids) (started : Started l l' reading id ctx) :
    Reserves l.owned l'.owned ctx reading := by
  obtain ⟨net, owned, -, -, -, netGen, prepared, claimed⟩ := started.entry
  obtain ⟨e₀, found₀, free₀, is⟩ := OwnedRules.claimMap_some claimed
  have get (k : RuleId) : l'.owned.get k = if k = ctx.ruleId then
      (owned.get k).map (reservedFor e₀ reading.now reading.runtime ctx.existed)
      else owned.get k := by
    rw [is, OwnedRules.get_amend fun e => reservedFor_id _ _ e]
  have after : l'.owned.get ctx.ruleId =
      some (reservedFor e₀ reading.now reading.runtime ctx.existed e₀) := by
    rw [get, if_pos rfl, found₀]
    rfl
  have ids' (ids : owned.Ids) : l'.owned.Ids := by
    rw [is]
    exact ids.amend fun e => reservedFor_id _ _ e
  have next : l'.owned.nextId = owned.nextId := by
    rw [is]
    rfl
  have held {e : OwnedRule} {P : OwnedRule → Prop} (found : l.owned.get ctx.ruleId = some e)
      (holds : P e) (e' : OwnedRule) (found' : l.owned.get ctx.ruleId = some e') : P e' :=
    some.inj (found.symm.trans found') ▸ holds
  have absent {e : OwnedRule} (found : l.owned.get ctx.ruleId = some e) {P : Prop}
      (none : l.owned.get ctx.ruleId = none) : P := by
    rw [found] at none
    cases none
  cases prepared with
  | live e found rule sameGen state existed prev =>
    obtain rfl : e = e₀ := some.inj (found.symm.trans found₀)
    exact
      { ids := ids' ids
        nextId := Nat.le_of_eq next.symm
        known := next ▸ ids.get_below found
        others := fun k other => by rw [get, if_neg other]
        free := held found ⟨free₀, existed⟩
        new := absent found
        after := ⟨_, after, rule, sameGen.trans netGen.symm, by rw [← rule]; rfl,
          held found ⟨rfl, rfl, fun _ => ⟨rfl, rfl⟩⟩⟩ }
  | adopted e found rule state free wire existed =>
    rw [OwnedRules.get_amend fun e => e.adopted_id, if_pos rfl, found] at found₀
    obtain rfl : e.adopted net.gateway net.netGen = e₀ := some.inj found₀
    have sameRule : (e.adopted net.gateway net.netGen).rule = e.rule :=
      (e.setState_kin .pending).rule
    exact
      { ids := ids' (ids.amend fun e => e.adopted_id)
        nextId := Nat.le_of_eq next.symm
        known := next ▸ ids.get_below found
        others := fun k other => by
          rw [get, if_neg other, OwnedRules.get_amend fun e => e.adopted_id, if_neg other]
        free := held found ⟨free, existed⟩
        new := absent found
        after := ⟨_, after, sameRule.trans rule, netGen.symm, by rw [← rule, ← sameRule]; rfl,
          held found ⟨sameRule, (e.setState_kin .pending).settledExpiry,
            fun live => absurd state live⟩⟩ }
  | added owned admitted existed =>
    obtain ⟨newId, grown, entries⟩ := OwnedRules.addPending_some admitted
    have old : l.owned.get ctx.ruleId = none := by
      rw [newId]
      exact Register.find_eq_none.mpr fun e member => Nat.ne_of_lt (ids.below e member)
    have found (k : RuleId) : owned.get k = (l.owned.get k).or
        (if l.owned.nextId = k then some ⟨l.owned.nextId, ctx.rule, net.netGen, net.gateway,
          .idle .pending, .allowed .none, reading.now, 0, none⟩ else none) := by
      rw [OwnedRules.get, entries, Register.find_push]
      rfl
    rw [found, old, newId, if_pos rfl] at found₀
    cases found₀
    exact
      { ids := ids'
          { distinct := by
              rw [entries]
              exact ids.distinct.push fun b held => Nat.ne_of_lt (ids.below b held)
            below := by
              intro e member
              rw [entries] at member
              rw [grown]
              rcases List.mem_append.mp member with held | last
              · exact Nat.lt_succ_of_lt (ids.below e held)
              · rw [List.mem_singleton.mp last]
                exact Nat.lt_succ_self _ }
        nextId := by rw [next, grown]; exact Nat.le_succ _
        known := by rw [next, grown, newId]; exact Nat.lt_succ_self _
        others := fun k other => by
          rw [get, if_neg other, found, if_neg fun is => other (is.symm.trans newId.symm)]
          exact or_none
        free := fun e found => absent found old
        new := fun _ => newId
        after := ⟨_, after, rfl, netGen.symm, rfl, fun e found => absent found old⟩ }

end Lifecycle

/-- A start fails and changes nothing that matters, or it makes an attempt for a rule that it has
reserved. -/
theorem Client.maybeStart_cases {c : Client} (ids : c.lc.owned.Ids) {cfg : Config}
    {reading : Lifecycle.Reading} :
    (∃ lc, Lifecycle.Idles c.lc lc ∧ maybeStart cfg c reading = { c with lc }) ∨
      ∃ lc id ctx, Lifecycle.Started c.lc lc reading id ctx ∧
        Reserves c.lc.owned lc.owned ctx reading ∧
          maybeStart cfg c reading =
            { c with lc, attempts := c.attempts ++ [⟨id, ctx, c.clock, none, none⟩] } := by
  have outcome := Lifecycle.mapStarted_outcome ids cfg c.allowed reading
  rw [maybeStart]
  split
  case h_1 lc error is =>
    rw [is] at outcome
    obtain ⟨-, -, idles⟩ | ⟨_, _, wrong, -⟩ := outcome
    · exact .inl ⟨lc, idles, rfl⟩
    · cases wrong
  case h_2 lc id ctx is =>
    rw [is] at outcome
    obtain ⟨_, wrong, -⟩ | ⟨_, _, same, started⟩ := outcome
    · cases wrong
    cases same
    exact .inr ⟨lc, id, ctx, started, started.reserves ids, rfl⟩

end TailscaleRs.Portmapper
