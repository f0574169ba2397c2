import TailscaleRs.Portmapper.Bystand
import TailscaleRs.Portmapper.Client

namespace TailscaleRs.Portmapper

open Register

namespace OwnedRule

/-- The entry may be listed by the finalizer of a release: it is claimed, or it was fenced and
handed back by a client that is no longer running. -/
def Released (e : OwnedRule) (phase : Phase) : Prop :=
  e.deleting = true ∨ e.releasable = false ∧ e.mapping = false ∧ phase ≠ .running

variable {e : OwnedRule}

theorem mapping_of_deleting (claimed : e.deleting = true) : e.mapping = false := by
  rw [deleting_iff] at claimed
  cases mapped : e.mapping with
  | false => rfl
  | true =>
    obtain ⟨grant, is⟩ := mapping_iff.mp mapped
    rw [is] at claimed
    cases claimed

theorem Released.mapping {phase : Phase} (released : e.Released phase) : e.mapping = false := by
  rcases released with claimed | ⟨-, unmapped, -⟩
  · exact mapping_of_deleting claimed
  · exact unmapped

theorem Kin.released {e e' : OwnedRule} {phase phase' : Phase} (kin : Kin e e')
    (later : phase ≠ .running → phase' ≠ .running) (released : e.Released phase) :
    e'.Released phase' := by
  rcases released with claimed | ⟨fenced, unmapped, closed⟩
  · exact .inl (kin.deleting ▸ claimed)
  · exact .inr ⟨kin.fenced fenced, kin.mapping ▸ unmapped, later closed⟩

theorem unclaimDelete_of_not_deleting (free : e.deleting = false) : e.unclaimDelete = e := by
  rw [unclaimDelete, free]
  rfl

end OwnedRule

namespace OwnedRules

open OwnedRule (Kin)

/-- Entries that a MAP has reserved stay reserved, and no old id comes back. -/
structure SparesMaps (l l' : OwnedRules) : Prop where
  nextId : l.nextId ≤ l'.nextId
  mapped : ∀ k e, l.get k = some e → e.mapping = true → ∃ e', l'.get k = some e' ∧ Kin e e'
  absent : ∀ k, k < l.nextId → l.get k = none → l'.get k = none

namespace SparesMaps

variable {l l' : OwnedRules}

theorem refl (l : OwnedRules) : SparesMaps l l :=
  ⟨Nat.le_refl _, fun _ e found _ => ⟨e, found, .refl⟩, fun _ _ absent => absent⟩

theorem of_bystands {why : OwnedRule → Prop} (bystands : Bystands why l l') :
    SparesMaps l l' where
  nextId := Nat.le_of_eq bystands.nextId.symm
  mapped := by
    intro k e found mapped
    cases found' : l'.get k with
    | none =>
      rw [(bystands.gone k e found found').1] at mapped
      cases mapped
    | some e' =>
      obtain ⟨e₀, found₀, kin⟩ := bystands.kept k e' found'
      rw [found] at found₀
      obtain rfl : e = e₀ := Option.some.inj found₀
      exact ⟨e', rfl, kin⟩
  absent := by
    intro k _ none
    cases found' : l'.get k with
    | none => rfl
    | some e' =>
      obtain ⟨e₀, found₀, _⟩ := bystands.kept k e' found'
      rw [none] at found₀
      cases found₀

theorem amendAll {f : OwnedRule → OwnedRule} (keeps : ∀ e, (f e).id = e.id)
    (same : ∀ e, e.mapping = true → Kin e (f e)) : SparesMaps l (l.amendAll f) where
  nextId := Nat.le_refl _
  mapped := fun k e found mapped => ⟨f e, by rw [get_amendAll keeps, found]; rfl, same e mapped⟩
  absent := fun k _ none => by rw [get_amendAll keeps, none]; rfl

end SparesMaps

/-- Entries that a release may list stay so, and no old id comes back. -/
structure SparesReleases (phase phase' : Phase) (l l' : OwnedRules) : Prop where
  nextId : l.nextId ≤ l'.nextId
  later : phase ≠ .running → phase' ≠ .running
  released : ∀ k e e', l.get k = some e → l'.get k = some e' → e.Released phase → e'.Released phase'
  absent : ∀ k, k < l.nextId → l.get k = none → l'.get k = none

namespace SparesReleases

variable {l l' : OwnedRules} {phase phase' : Phase}

theorem of_bystands {why : OwnedRule → Prop} (bystands : Bystands why l l')
    (later : phase ≠ .running → phase' ≠ .running) : SparesReleases phase phase' l l' where
  nextId := Nat.le_of_eq bystands.nextId.symm
  later := later
  released := by
    intro k e e' found found' released
    obtain ⟨e₀, found₀, kin⟩ := bystands.kept k e' found'
    rw [found] at found₀
    obtain rfl : e = e₀ := Option.some.inj found₀
    exact kin.released later released
  absent := (SparesMaps.of_bystands bystands).absent

theorem of_frame {id : RuleId} (nextId : l.nextId ≤ l'.nextId)
    (others : ∀ k, k ≠ id → k < l.nextId → l'.get k = l.get k)
    (absent : id < l.nextId → l.get id = none → l'.get id = none)
    (free : ∀ e, l.get id = some e → ¬ e.Released phase) (ids : l.Ids) :
    SparesReleases phase phase l l' where
  nextId := nextId
  later := fun closed => closed
  released := by
    intro k e e' found found' released
    by_cases same : k = id
    · exact absurd released (free e (same ▸ found))
    · rw [others k same (ids.get_below found), found] at found'
      obtain rfl : e = e' := Option.some.inj found'
      exact released
  absent := by
    intro k below none
    by_cases same : k = id
    · subst same
      exact absent below none
    · rw [others k same below, none]

theorem amendAll {f : OwnedRule → OwnedRule} (keeps : ∀ e, (f e).id = e.id)
    (same : ∀ e, e.Released phase → (f e).Released phase) :
    SparesReleases phase phase l (l.amendAll f) where
  nextId := Nat.le_refl _
  later := fun closed => closed
  released := by
    intro k e e' found found' released
    rw [get_amendAll keeps, found] at found'
    obtain rfl : f e = e' := Option.some.inj found'
    exact same e released
  absent := fun k _ none => by rw [get_amendAll keeps, none]; rfl

end SparesReleases

end OwnedRules

/-- Each live attempt holds the reservation of its entry, which nobody else has. -/
structure Attended (l : Lifecycle) (attempts : List Attempt) : Prop where
  distinct : Register.Distinct Attempt.id attempts
  numbered : ∀ a ∈ attempts, a.id < l.nextAttemptId
  known : ∀ a ∈ attempts, a.ctx.ruleId < l.owned.nextId
  alone : ∀ a ∈ attempts, ∀ b ∈ attempts, a.ctx.ruleId = b.ctx.ruleId → a.id = b.id
  reserved : ∀ a ∈ attempts, ∀ e, l.owned.get a.ctx.ruleId = some e → e.mapping = true
  running : ∀ a ∈ attempts, a.outcome = none → ∃ e evidence,
    l.owned.get a.ctx.ruleId = some e ∧ e.rule = a.ctx.rule ∧ e.netGen = a.ctx.netGen ∧
      e.claim = .map (.pending evidence a.ctx.existed)
  generation : ∀ a ∈ attempts, a.ctx.generation ≤ l.generation
  inflight : ∀ a ∈ attempts, a.ctx.generation = l.generation →
    l.inflight = some ⟨a.id, a.ctx.ruleId⟩

namespace Attended

variable {l l' : Lifecycle} {attempts : List Attempt} (attended : Attended l attempts)
include attended

theorem evolve (spares : l.owned.SparesMaps l'.owned)
    (attemptId : l.nextAttemptId ≤ l'.nextAttemptId)
    (generation : l.generation < l'.generation ∨
      l'.generation = l.generation ∧ l'.inflight = l.inflight) :
    Attended l' attempts where
  distinct := attended.distinct
  numbered := fun a live => Nat.lt_of_lt_of_le (attended.numbered a live) attemptId
  known := fun a live => Nat.lt_of_lt_of_le (attended.known a live) spares.nextId
  alone := attended.alone
  reserved := by
    intro a live e' found'
    cases found : l.owned.get a.ctx.ruleId with
    | none =>
      rw [spares.absent _ (attended.known a live) found] at found'
      cases found'
    | some e =>
      have mapped := attended.reserved a live e found
      obtain ⟨e₁, found₁, kin⟩ := spares.mapped _ e found mapped
      rw [found'] at found₁
      obtain rfl : e' = e₁ := Option.some.inj found₁
      rw [kin.mapping, mapped]
  running := by
    intro a live going
    obtain ⟨e, evidence, found, rule, netGen, claim⟩ := attended.running a live going
    obtain ⟨e', found', kin⟩ :=
      spares.mapped _ e found (OwnedRule.mapping_iff.mpr ⟨_, claim⟩)
    exact ⟨e', evidence, found', kin.rule.trans rule, kin.netGen.trans netGen,
      kin.claim.trans claim⟩
  generation := by
    intro a live
    have older := attended.generation a live
    omega
  inflight := by
    intro a live current
    have older := attended.generation a live
    rcases generation with newer | ⟨is, flight⟩
    · omega
    · rw [flight]
      exact attended.inflight a live (current.trans is)

/-- The attempt's own events: what they do to its entry, and to nothing else. -/
theorem own {a : Attempt} (live : a ∈ attempts) {f : Attempt → Attempt} (id : ∀ a, (f a).id = a.id)
    (ctx : ∀ a, (f a).ctx = a.ctx) (others : ∀ k, k ≠ a.ctx.ruleId → l'.owned.get k = l.owned.get k)
    (nextId : l'.owned.nextId = l.owned.nextId) (attemptId : l'.nextAttemptId = l.nextAttemptId)
    (generation : l'.generation = l.generation) (inflight : l'.inflight = l.inflight)
    (reserved : ∀ e, l'.owned.get a.ctx.ruleId = some e → e.mapping = true)
    (running : (f a).outcome = none → ∃ e evidence, l'.owned.get a.ctx.ruleId = some e ∧
      e.rule = a.ctx.rule ∧ e.netGen = a.ctx.netGen ∧
        e.claim = .map (.pending evidence a.ctx.existed)) :
    Attended l' (alter Attempt.id attempts a.id f) := by
  have shape : ∀ b ∈ alter Attempt.id attempts a.id f, ∃ b₀ ∈ attempts,
      b.id = b₀.id ∧ b.ctx = b₀.ctx ∧
        (b₀ = a ∧ b = f a ∨ b₀.ctx.ruleId ≠ a.ctx.ruleId ∧ b = b₀) := by
    intro b member
    obtain ⟨b₀, held, ⟨is, rfl⟩ | ⟨other, rfl⟩⟩ := of_mem_alter member
    · obtain rfl := attended.distinct.eq held live is
      exact ⟨b₀, held, id b₀, ctx b₀, .inl ⟨rfl, rfl⟩⟩
    · have apart : b.ctx.ruleId ≠ a.ctx.ruleId := fun is => other (attended.alone b held a live is)
      exact ⟨b, held, rfl, rfl, .inr ⟨apart, rfl⟩⟩
  refine ⟨attended.distinct.alter id, ?_, ?_, ?_, ?_, ?_, ?_, ?_⟩
  · intro b member
    obtain ⟨b₀, held, sameId, -, -⟩ := shape b member
    rw [sameId, attemptId]
    exact attended.numbered b₀ held
  · intro b member
    obtain ⟨b₀, held, -, sameCtx, -⟩ := shape b member
    rw [sameCtx, nextId]
    exact attended.known b₀ held
  · intro b member b' member' shared
    obtain ⟨b₀, held, sameId, sameCtx, -⟩ := shape b member
    obtain ⟨b₁, held', sameId', sameCtx', -⟩ := shape b' member'
    rw [sameId, sameId']
    rw [sameCtx, sameCtx'] at shared
    exact attended.alone b₀ held b₁ held' shared
  · intro b member e found
    obtain ⟨b₀, held, -, sameCtx, ⟨rfl, -⟩ | ⟨other, -⟩⟩ := shape b member
    · rw [sameCtx] at found
      exact reserved e found
    · rw [sameCtx, others _ other] at found
      exact attended.reserved b₀ held e found
  · intro b member going
    obtain ⟨b₀, held, -, sameCtx, ⟨rfl, rfl⟩ | ⟨other, rfl⟩⟩ := shape b member
    · rw [sameCtx]
      exact running going
    · rw [others _ other]
      exact attended.running b held going
  · intro b member
    obtain ⟨b₀, held, -, sameCtx, -⟩ := shape b member
    rw [sameCtx, generation]
    exact attended.generation b₀ held
  · intro b member current
    obtain ⟨b₀, held, sameId, sameCtx, -⟩ := shape b member
    rw [sameCtx, generation] at current
    rw [sameId, sameCtx, inflight]
    exact attended.inflight b₀ held current

theorem finish {a : Attempt} (live : a ∈ attempts)
    (others : ∀ k, k ≠ a.ctx.ruleId → l'.owned.get k = l.owned.get k)
    (nextId : l'.owned.nextId = l.owned.nextId) (attemptId : l'.nextAttemptId = l.nextAttemptId)
    (generation : l'.generation = l.generation)
    (inflight : ∀ i, l.inflight = some i → i.id ≠ a.id → l'.inflight = some i) :
    Attended l' (drop Attempt.id attempts a.id) := by
  have other : ∀ b ∈ drop Attempt.id attempts a.id,
      b ∈ attempts ∧ b.id ≠ a.id ∧ b.ctx.ruleId ≠ a.ctx.ruleId := by
    intro b member
    obtain ⟨held, apart⟩ := mem_drop.mp member
    exact ⟨held, apart, fun shared => apart (attended.alone b held a live shared)⟩
  refine ⟨attended.distinct.drop, ?_, ?_, ?_, ?_, ?_, ?_, ?_⟩
  · intro b member
    rw [attemptId]
    exact attended.numbered b (other b member).1
  · intro b member
    rw [nextId]
    exact attended.known b (other b member).1
  · exact fun b member b' member' => attended.alone b (other b member).1 b' (other b' member').1
  · intro b member e found
    rw [others _ (other b member).2.2] at found
    exact attended.reserved b (other b member).1 e found
  · intro b member going
    rw [others _ (other b member).2.2]
    exact attended.running b (other b member).1 going
  · intro b member
    rw [generation]
    exact attended.generation b (other b member).1
  · intro b member current
    rw [generation] at current
    exact inflight _ (attended.inflight b (other b member).1 current) (other b member).2.1

end Attended

/-- The entries that finalizers of releases give back: each is listed by one of them. -/
structure Guarded (l : Lifecycle) (releases : List Releasing) : Prop where
  distinct : Register.Distinct Releasing.id releases
  known : ∀ op ∈ releases, ∀ id ∈ op.guard, id < l.owned.nextId
  released : ∀ op ∈ releases, ∀ id ∈ op.guard, ∀ e, l.owned.get id = some e → e.Released l.phase
  apart : ∀ op ∈ releases, ∀ op' ∈ releases, ∀ id ∈ op.guard, id ∈ op'.guard → op.id = op'.id
  listed : ∀ op ∈ releases, ∀ e ∈ op.rest, e.id ∈ op.guard
  once : ∀ op ∈ releases, (op.rest.map (·.id)).Nodup
  closing : ∀ op ∈ releases, op.kind = .cleanup true → l.phase ≠ .running
  fencing : ∀ op ∈ releases, op.stage = .fencing → op.kind = .cleanup true

namespace Guarded

variable {l l' : Lifecycle} {releases : List Releasing}

theorem evolve (guarded : Guarded l releases)
    (spares : l.owned.SparesReleases l.phase l'.phase l'.owned) : Guarded l' releases := by
  refine { guarded with
    known := fun op live id listed =>
      Nat.lt_of_lt_of_le (guarded.known op live id listed) spares.nextId
    released := ?_
    closing := fun op live kind => spares.later (guarded.closing op live kind) }
  intro op live id listed e' found'
  cases found : l.owned.get id with
  | none =>
    rw [spares.absent id (guarded.known op live id listed) found] at found'
    cases found'
  | some e =>
    exact spares.released id e e' found found' (guarded.released op live id listed e found)

variable {op : Releasing} (guarded : Guarded l releases)
include guarded

/-- A release's own events: they touch only entries that it lists, and list no others. -/
theorem own (live : op ∈ releases) {f : Releasing → Releasing} (id : ∀ op, (f op).id = op.id)
    (kind : (f op).kind = op.kind) (guard : ∀ k ∈ (f op).guard, k ∈ op.guard)
    (listed : ∀ e ∈ (f op).rest, e.id ∈ (f op).guard) (once : ((f op).rest.map (·.id)).Nodup)
    (fencing : (f op).stage = .fencing → op.kind = .cleanup true)
    (others : ∀ k, k ∉ op.guard → l'.owned.get k = l.owned.get k)
    (released : ∀ k ∈ (f op).guard, ∀ e, l'.owned.get k = some e → e.Released l.phase)
    (nextId : l'.owned.nextId = l.owned.nextId) (phase : l'.phase = l.phase) :
    Guarded l' (alter Releasing.id releases op.id f) := by
  have shape : ∀ b ∈ alter Releasing.id releases op.id f, ∃ b₀ ∈ releases,
      b.id = b₀.id ∧ (b₀ = op ∧ b = f op ∨ b₀.id ≠ op.id ∧ b = b₀) := by
    intro b member
    obtain ⟨b₀, held, ⟨is, rfl⟩ | ⟨other, rfl⟩⟩ := of_mem_alter member
    · obtain rfl := guarded.distinct.eq held live is
      exact ⟨b₀, held, id b₀, .inl ⟨rfl, rfl⟩⟩
    · exact ⟨b, held, rfl, .inr ⟨other, rfl⟩⟩
  have shapeGuard : ∀ b ∈ alter Releasing.id releases op.id f, ∀ k ∈ b.guard,
      ∃ b₀ ∈ releases, b.id = b₀.id ∧ k ∈ b₀.guard := by
    intro b member k listed
    obtain ⟨b₀, held, same, ⟨rfl, rfl⟩ | ⟨-, rfl⟩⟩ := shape b member
    · exact ⟨b₀, held, same, guard k listed⟩
    · exact ⟨b, held, rfl, listed⟩
  refine ⟨guarded.distinct.alter id, ?_, ?_, ?_, ?_, ?_, ?_, ?_⟩
  · intro b member k listed
    obtain ⟨b₀, held, -, inGuard⟩ := shapeGuard b member k listed
    rw [nextId]
    exact guarded.known b₀ held k inGuard
  · intro b member k listed e found
    rw [phase]
    obtain ⟨b₀, held, -, ⟨rfl, rfl⟩ | ⟨other, rfl⟩⟩ := shape b member
    · exact released k listed e found
    · rw [others k fun shared => other (guarded.apart b held op live k listed shared)] at found
      exact guarded.released b held k listed e found
  · intro b member b' member' k listed listed'
    obtain ⟨b₀, held, same, inGuard⟩ := shapeGuard b member k listed
    obtain ⟨b₁, held', same', inGuard'⟩ := shapeGuard b' member' k listed'
    rw [same, same']
    exact guarded.apart b₀ held b₁ held' k inGuard inGuard'
  · intro b member
    obtain ⟨b₀, held, -, ⟨rfl, rfl⟩ | ⟨-, rfl⟩⟩ := shape b member
    · exact listed
    · exact guarded.listed b held
  · intro b member
    obtain ⟨b₀, held, -, ⟨rfl, rfl⟩ | ⟨-, rfl⟩⟩ := shape b member
    · exact once
    · exact guarded.once b held
  · intro b member is
    rw [phase]
    obtain ⟨b₀, held, -, ⟨rfl, rfl⟩ | ⟨-, rfl⟩⟩ := shape b member
    · exact guarded.closing b₀ held (kind ▸ is)
    · exact guarded.closing b held is
  · intro b member stage
    obtain ⟨b₀, held, -, ⟨rfl, rfl⟩ | ⟨-, rfl⟩⟩ := shape b member
    · exact kind.trans (fencing stage)
    · exact guarded.fencing b held stage

theorem finish (live : op ∈ releases) (others : ∀ k, k ∉ op.guard → l'.owned.get k = l.owned.get k)
    (nextId : l'.owned.nextId = l.owned.nextId) (phase : l'.phase = l.phase) :
    Guarded l' (drop Releasing.id releases op.id) := by
  have other : ∀ b ∈ drop Releasing.id releases op.id, b ∈ releases ∧
      ∀ k ∈ b.guard, k ∉ op.guard := by
    intro b member
    obtain ⟨held, apart⟩ := mem_drop.mp member
    exact ⟨held, fun k listed shared => apart (guarded.apart b held op live k listed shared)⟩
  refine ⟨guarded.distinct.drop, ?_, ?_, ?_, ?_, ?_, ?_, ?_⟩
  · intro b member k listed
    rw [nextId]
    exact guarded.known b (other b member).1 k listed
  · intro b member k listed e found
    rw [others k ((other b member).2 k listed)] at found
    rw [phase]
    exact guarded.released b (other b member).1 k listed e found
  · exact fun b member b' member' => guarded.apart b (other b member).1 b' (other b' member').1
  · exact fun b member => guarded.listed b (other b member).1
  · exact fun b member => guarded.once b (other b member).1
  · intro b member is
    rw [phase]
    exact guarded.closing b (other b member).1 is
  · exact fun b member => guarded.fencing b (other b member).1

theorem push (new : ∀ b ∈ releases, b.id ≠ op.id) (known : ∀ id ∈ op.guard, id < l.owned.nextId)
    (released : ∀ id ∈ op.guard, ∀ e, l.owned.get id = some e → e.Released l.phase)
    (free : ∀ b ∈ releases, ∀ id ∈ b.guard, id ∉ op.guard) (listed : ∀ e ∈ op.rest, e.id ∈ op.guard)
    (once : (op.rest.map (·.id)).Nodup) (closing : op.kind = .cleanup true → l.phase ≠ .running)
    (stage : op.stage = .next) :
    Guarded l (releases ++ [op]) := by
  have member_iff : ∀ b, b ∈ releases ++ [op] ↔ b ∈ releases ∨ b = op := by simp
  refine ⟨guarded.distinct.push new, ?_, ?_, ?_, ?_, ?_, ?_, ?_⟩
  all_goals intro b member
  all_goals rcases (member_iff b).mp member with held | rfl
  · exact guarded.known b held
  · exact known
  · exact guarded.released b held
  · exact released
  · intro b' member' id first second
    rcases (member_iff b').mp member' with held' | rfl
    · exact guarded.apart b held b' held' id first second
    · exact absurd second (free b held id first)
  · intro b' member' id first second
    rcases (member_iff b').mp member' with held' | rfl
    · exact absurd first (free b' held' id second)
    · rfl
  · exact guarded.listed b held
  · exact listed
  · exact guarded.once b held
  · exact once
  · exact guarded.closing b held
  · exact closing
  · exact guarded.fencing b held
  · intro is
    rw [stage] at is
    cases is

end Guarded

end TailscaleRs.Portmapper
