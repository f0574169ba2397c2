import TailscaleRs.Portmapper.Lifecycle

namespace TailscaleRs.Portmapper

inductive Claim
  | idle
  | map (grant : MapGrant)
  | delete

namespace OwnedRule

def claim (e : OwnedRule) : Claim :=
  match e.ownership with
  | .idle _ => .idle
  | .map _ grant => .map grant
  | .delete => .delete

variable {e : OwnedRule}

theorem mapping_iff : e.mapping = true ↔ ∃ grant, e.claim = .map grant := by
  cases held : e.ownership <;> simp [mapping, claim, held]

theorem deleting_iff : e.deleting = true ↔ e.claim = .delete := by
  cases held : e.ownership <;> simp [deleting, claim, held]

theorem reserved_iff : e.reserved = false ↔ e.claim = .idle := by
  cases held : e.ownership <;> simp [reserved, mapping, deleting, claim, held]

theorem routerExpiry_eq (e : OwnedRule) : e.routerExpiry =
    match e.claim with
    | .map (.pending evidence _) =>
      match evidence.possibleUntil with
      | none => e.settledExpiry
      | some limit => max e.settledExpiry limit
    | _ => e.settledExpiry := by
  rw [routerExpiry, claim]
  cases e.ownership with
  | map state grant => cases grant <;> rfl
  | _ => rfl

/-- The same rule under the same reservation. -/
structure Kin (e e' : OwnedRule) : Prop where
  id : e'.id = e.id
  rule : e'.rule = e.rule
  netGen : e'.netGen = e.netGen
  gateway : e'.gateway = e.gateway
  settledExpiry : e'.settledExpiry = e.settledExpiry
  claim : e'.claim = e.claim
  fenced : e.releasable = false → e'.releasable = false

namespace Kin

variable {e e' e'' : OwnedRule}

theorem refl {e : OwnedRule} : Kin e e := ⟨rfl, rfl, rfl, rfl, rfl, rfl, fun closed => closed⟩

theorem trans (first : Kin e e') (second : Kin e' e'') : Kin e e'' where
  id := second.id.trans first.id
  rule := second.rule.trans first.rule
  netGen := second.netGen.trans first.netGen
  gateway := second.gateway.trans first.gateway
  settledExpiry := second.settledExpiry.trans first.settledExpiry
  claim := second.claim.trans first.claim
  fenced := fun closed => second.fenced (first.fenced closed)

variable (kin : Kin e e')
include kin

theorem routerExpiry : e'.routerExpiry = e.routerExpiry := by
  rw [routerExpiry_eq, routerExpiry_eq, kin.claim, kin.settledExpiry]

theorem mapping : e'.mapping = e.mapping := by
  rw [Bool.eq_iff_iff, mapping_iff, mapping_iff, kin.claim]

theorem deleting : e'.deleting = e.deleting := by
  rw [Bool.eq_iff_iff, deleting_iff, deleting_iff, kin.claim]

theorem reserved : e'.reserved = e.reserved := by
  rw [OwnedRule.reserved, OwnedRule.reserved, kin.mapping, kin.deleting]

end Kin

variable (e : OwnedRule)

theorem setState_kin (state : RuleState) : Kin e (e.setState state) := by
  cases held : e.ownership <;> constructor <;> simp [setState, claim, releasable, held]

theorem fence_kin : Kin e e.fence :=
  ⟨rfl, rfl, rfl, rfl, rfl, rfl, fun _ => rfl⟩

theorem dutyOwed_kin : Kin e e.dutyOwed := by
  refine ⟨rfl, rfl, rfl, rfl, rfl, rfl, fun closed => ?_⟩
  cases held : e.release <;> simp_all [releasable, dutyOwed]

end OwnedRule

namespace OwnedRules

open OwnedRule (Kin)

/-- `l'` has the entries of `l` under the reservations they had, but for some that no MAP had
reserved, each gone for a reason. -/
structure Bystands (why : OwnedRule → Prop) (l l' : OwnedRules) : Prop where
  ids : l'.Ids
  nextId : l'.nextId = l.nextId
  kept : ∀ k e', l'.get k = some e' → ∃ e, l.get k = some e ∧ Kin e e'
  gone : ∀ k e, l.get k = some e → l'.get k = none → e.mapping = false ∧ why e

namespace Bystands

variable {why : OwnedRule → Prop} {l l' l'' : OwnedRules}

theorem refl (ids : l.Ids) : Bystands why l l where
  ids := ids
  nextId := rfl
  kept := fun _ e found => ⟨e, found, Kin.refl⟩
  gone := fun _ e found lost => by rw [found] at lost; cases lost

theorem trans (stable : ∀ e e', Kin e e' → why e' → why e) (first : Bystands why l l')
    (second : Bystands why l' l'') : Bystands why l l'' where
  ids := second.ids
  nextId := second.nextId.trans first.nextId
  kept := by
    intro k e'' found
    obtain ⟨e', found', kin'⟩ := second.kept k e'' found
    obtain ⟨e, found₀, kin⟩ := first.kept k e' found'
    exact ⟨e, found₀, kin.trans kin'⟩
  gone := by
    intro k e found lost
    cases between : l'.get k with
    | none => exact first.gone k e found between
    | some e' =>
      obtain ⟨e₀, found₀, kin⟩ := first.kept k e' between
      rw [found] at found₀
      obtain rfl : e = e₀ := Option.some.inj found₀
      obtain ⟨unreserved, reason⟩ := second.gone k e' between lost
      exact ⟨kin.mapping ▸ unreserved, stable e e' kin reason⟩

theorem mono {why' : OwnedRule → Prop} (bystands : Bystands why l l')
    (weaker : ∀ e, why e → why' e) : Bystands why' l l' :=
  { bystands with
    gone := fun k e found lost => (bystands.gone k e found lost).imp_right (weaker e) }

variable (ids : l.Ids)
include ids

theorem amendAll {f : OwnedRule → OwnedRule} (keeps : ∀ e, (f e).id = e.id)
    (kin : ∀ e, Kin e (f e)) : Bystands why l (l.amendAll f) where
  ids := ids.amendAll keeps
  nextId := rfl
  kept := by
    intro k e' found
    rw [get_amendAll keeps] at found
    obtain ⟨e, held, rfl⟩ := Option.map_eq_some_iff.mp found
    exact ⟨e, held, kin e⟩
  gone := by
    intro k e found lost
    rw [get_amendAll keeps, found] at lost
    cases lost

theorem orphan {id : RuleId} : Bystands why l (l.orphan id) :=
  amendAll ids (fun e => by split <;> simp) fun e => by
    split
    · exact e.setState_kin .orphaned
    · exact Kin.refl

theorem orphanAll : Bystands why l l.orphanAll :=
  amendAll ids (fun e => by simp) fun e => e.setState_kin .orphaned

theorem forgetOrphans : Bystands why l l.forgetOrphans :=
  amendAll ids (fun e => by split <;> simp) fun e => by
    split
    · exact e.fence_kin
    · exact Kin.refl

theorem requestFinalRelease : Bystands why l l.requestFinalRelease :=
  amendAll ids (fun e => by simp) fun e => e.dutyOwed_kin

theorem sweep {lost : OwnedRule → Bool} (reason : ∀ e, lost e = true → e.mapping = false ∧ why e) :
    Bystands why l (l.sweep lost) where
  ids := ids.sweep
  nextId := rfl
  kept := by
    intro k e found
    rw [ids.get_sweep] at found
    obtain ⟨held, _⟩ := Option.filter_eq_some_iff.mp found
    exact ⟨e, held, Kin.refl⟩
  gone := by
    intro k e found absent
    rw [ids.get_sweep, found, Option.filter_some] at absent
    refine reason e ?_
    by_contra kept
    rw [Bool.not_eq_true] at kept
    rw [kept] at absent
    cases absent

theorem dropProto {proto : Proto} {gateway : Gateway} (keep : Option RuleId) :
    Bystands (fun e => e.lostIn proto gateway keep = true) l (l.dropProto proto gateway keep) := by
  refine sweep ids fun e lost => ⟨?_, lost⟩
  simp only [OwnedRule.lostIn, OwnedRule.reserved, Bool.and_eq_true, Bool.not_eq_true',
    Bool.or_eq_false_iff] at lost
  exact lost.1.2.1

theorem dropExpired (now : Instant) :
    Bystands (fun e => e.routerExpiry ≤ now) l (l.dropExpired now) := by
  refine sweep ids fun e lost => ?_
  simp only [OwnedRule.overAt, OwnedRule.reserved, Bool.and_eq_true, Bool.not_eq_true',
    Bool.or_eq_false_iff, decide_eq_true_eq] at lost
  exact ⟨lost.1.2.1, lost.2⟩

theorem remove {id : RuleId} (reason : ∀ e, l.get id = some e → e.mapping = false ∧ why e) :
    Bystands why l (l.remove id) where
  ids := ids.remove
  nextId := rfl
  kept := by
    intro k e found
    rw [get_remove] at found
    split at found
    · cases found
    · exact ⟨e, found, Kin.refl⟩
  gone := by
    intro k e found lost
    rw [get_remove] at lost
    split at lost
    case isTrue same => exact reason e (same ▸ found)
    case isFalse => rw [found] at lost; cases lost

end Bystands

end OwnedRules

namespace Lifecycle

open OwnedRule (Kin)

/-- For events that remove no entry. -/
def Never (_ : OwnedRule) : Prop := False

/-- The mapping that is held stays held, on an entry that nobody touched. -/
structure Keeps (l l' : Lifecycle) (h h' : Held) : Prop where
  m : h'.m = h.m
  netGen : h'.netGen = h.netGen
  ruleId : h'.ruleId = h.ruleId
  committedAt : h'.lease.committedAt = h.lease.committedAt
  entry : l'.owned.get h.ruleId = l.owned.get h.ruleId
  phase : l.phase = .running → l'.phase = .running
  disabled : l.disabled = none → l'.disabled = none
  net : l'.net.map (·.gateway) = l.net.map (·.gateway)

theorem Keeps.refl (l : Lifecycle) (h : Held) : Keeps l l h h :=
  ⟨rfl, rfl, rfl, rfl, rfl, id, id, rfl⟩

theorem Keeps.trans {l l' l'' : Lifecycle} {h h' h'' : Held} (first : Keeps l l' h h')
    (second : Keeps l' l'' h' h'') : Keeps l l'' h h'' where
  m := second.m.trans first.m
  netGen := second.netGen.trans first.netGen
  ruleId := second.ruleId.trans first.ruleId
  committedAt := second.committedAt.trans first.committedAt
  entry := by rw [← first.entry, ← first.ruleId, second.entry]
  phase := fun open' => second.phase (first.phase open')
  disabled := fun enabled => second.disabled (first.disabled enabled)
  net := second.net.trans first.net

/-- An event that belongs to no operation. -/
structure Bystands (why : OwnedRule → Prop) (l l' : Lifecycle) : Prop where
  owned : OwnedRules.Bystands why l.owned l'.owned
  attemptId : l'.nextAttemptId = l.nextAttemptId
  /-- A cancelled attempt is of an older generation. -/
  generation : l.generation < l'.generation ∨
    l'.generation = l.generation ∧ l'.inflight = l.inflight ∧
      l'.net.map (·.gateway) = l.net.map (·.gateway)
  phase : l.phase ≠ .running → l'.phase ≠ .running
  held : ∀ h', l'.mapping = some h' → ∃ h, l.mapping = some h ∧ Keeps l l' h h'

namespace Bystands

variable {why : OwnedRule → Prop} {l l' l'' : Lifecycle}

theorem refl (ids : l.owned.Ids) : Bystands why l l where
  owned := .refl ids
  attemptId := rfl
  generation := .inr ⟨rfl, rfl, rfl⟩
  phase := id
  held := fun h found => ⟨h, found, .refl l h⟩

theorem trans (stable : ∀ e e', Kin e e' → why e' → why e) (first : Bystands why l l')
    (second : Bystands why l' l'') : Bystands why l l'' where
  owned := first.owned.trans stable second.owned
  attemptId := second.attemptId.trans first.attemptId
  generation := by
    rcases first.generation with newer | ⟨is, flight, net⟩ <;>
      rcases second.generation with newer' | ⟨is', flight', net'⟩
    · exact .inl (Nat.lt_trans newer newer')
    · exact .inl (is' ▸ newer)
    · exact .inl (is ▸ newer')
    · exact .inr ⟨is'.trans is, flight'.trans flight, net'.trans net⟩
  phase := fun closed => second.phase (first.phase closed)
  held := by
    intro h'' found
    obtain ⟨h', found', keeps'⟩ := second.held h'' found
    obtain ⟨h, found₀, keeps⟩ := first.held h' found'
    exact ⟨h, found₀, keeps.trans keeps'⟩

theorem same (ids : l.owned.Ids) (owned : l'.owned = l.owned)
    (attemptId : l'.nextAttemptId = l.nextAttemptId) (generation : l'.generation = l.generation)
    (inflight : l'.inflight = l.inflight) (net : l'.net.map (·.gateway) = l.net.map (·.gateway))
    (phase : l'.phase = l.phase) (disabled : l.disabled = none → l'.disabled = none)
    (mapping : l'.mapping = l.mapping) : Bystands why l l' where
  owned := by
    rw [owned]
    exact .refl ids
  attemptId := attemptId
  generation := .inr ⟨generation, inflight, net⟩
  phase := fun closed => phase ▸ closed
  held := fun h found =>
    ⟨h, mapping ▸ found, rfl, rfl, rfl, rfl, by rw [owned], fun open' => phase ▸ open',
      disabled, net⟩

theorem mono {why' : OwnedRule → Prop} (bystands : Bystands why l l')
    (weaker : ∀ e, why e → why' e) : Bystands why' l l' :=
  { bystands with owned := bystands.owned.mono weaker }

theorem withdrawn (owned : OwnedRules.Bystands why l.owned l'.owned)
    (attemptId : l'.nextAttemptId = l.nextAttemptId) (generation : l.generation < l'.generation)
    (phase : l.phase ≠ .running → l'.phase ≠ .running) (mapping : l'.mapping = none) :
    Bystands why l l' where
  owned := owned
  attemptId := attemptId
  generation := .inl generation
  phase := phase
  held := fun h found => by rw [mapping] at found; cases found

end Bystands

/-- What an accepted router reset may remove. -/
def LostTo (evidence : Invalidation) (e : OwnedRule) : Prop :=
  ∃ proto gateway keep, evidence = .reset proto gateway keep ∧ e.lostIn proto gateway keep = true

theorem LostTo.kin {evidence : Invalidation} {e e' : OwnedRule} (kin : Kin e e')
    (lost : LostTo evidence e') : LostTo evidence e := by
  obtain ⟨proto, gateway, keep, is, lost⟩ := lost
  refine ⟨proto, gateway, keep, is, ?_⟩
  rw [OwnedRule.lostIn, kin.rule, kin.gateway, kin.reserved, kin.id] at lost
  exact lost

theorem withdraw_bystands {owned : OwnedRules} (ids : owned.Ids) (evidence : Invalidation) :
    OwnedRules.Bystands (LostTo evidence) owned (owned.orphanAll.withdraw evidence) := by
  have orphaned : OwnedRules.Bystands (LostTo evidence) owned owned.orphanAll := .orphanAll ids
  refine orphaned.trans (fun _ _ => LostTo.kin) ?_
  cases evidence with
  | orphan => exact .refl orphaned.ids
  | fence => exact .forgetOrphans orphaned.ids
  | reset proto gateway keep =>
    exact (OwnedRules.Bystands.dropProto orphaned.ids keep).mono fun e lost =>
      ⟨proto, gateway, keep, rfl, lost⟩

section Events

variable {l : Lifecycle} {owned : OwnedRules} {proto : Proto} {epoch : Nat} {started : Instant}
  {gateway : Gateway} {e e' : OwnedRule} {l' : Lifecycle}

theorem orphan_bystands (ids : owned.Ids) :
    OwnedRules.Bystands Never owned (owned.orphanAll.withdraw .orphan) :=
  (withdraw_bystands ids .orphan).mono fun _ ⟨_, _, _, is, _⟩ => by cases is

variable (ids : l.owned.Ids)
include ids

theorem networkDown_bystands : Bystands Never l l.networkDown :=
  .withdrawn ((withdraw_bystands ids .fence).mono fun _ ⟨_, _, _, is, _⟩ => by cases is) rfl
    (Nat.lt_succ_self _) id rfl

theorem rebindFailed_bystands : Bystands Never l l.rebindFailed :=
  .withdrawn (orphan_bystands ids) rfl (Nat.lt_succ_self _) id rfl

theorem policyDisabled_bystands (reason : DisableReason) :
    Bystands Never l (l.policyDisabled reason) := by
  rw [policyDisabled]
  split
  · exact .refl ids
  · exact .withdrawn (orphan_bystands ids) rfl (Nat.lt_succ_self _) id rfl

theorem policyEnabled_bystands {allowed : Bool} : Bystands Never l (l.policyEnabled allowed).1 := by
  rw [policyEnabled]
  split
  · exact .same ids rfl rfl rfl rfl rfl rfl (fun _ => rfl) rfl
  · exact .refl ids

theorem closeStarted_bystands : Bystands Never l l.closeStarted := by
  rw [closeStarted]
  split
  · exact .withdrawn (orphan_bystands ids) rfl (Nat.lt_succ_self _)
      (fun _ is => nomatch (is : Phase.closing = .running)) rfl
  · exact .refl ids

theorem dropRequested_bystands : Bystands Never l l.dropRequested := by
  rw [dropRequested]
  split
  · exact .refl ids
  · refine .withdrawn ?_ rfl (Nat.lt_succ_self _)
      (fun _ is => nomatch (is : Phase.closed = .running)) rfl
    have orphaned := orphan_bystands ids
    exact orphaned.trans (fun _ _ _ => id) (.requestFinalRelease orphaned.ids)

theorem portChanged_bystands (port : Option Port) : Bystands Never l (l.portChanged port).1 := by
  rw [portChanged]
  split
  · exact .refl ids
  · dsimp only
    split
    · exact .withdrawn (orphan_bystands ids) rfl (Nat.lt_succ_self _) id rfl
    · exact .same ids rfl rfl rfl rfl rfl rfl id rfl

theorem closeFinished_bystands (withdrawn : l.phase ≠ .running → l.mapping = none) :
    Bystands Never l l.closeFinished := by
  rw [closeFinished]
  split
  case isTrue closing =>
    have none : l.mapping = none := withdrawn (by rw [closing]; decide)
    exact
      { owned := .requestFinalRelease ids
        attemptId := rfl
        generation := .inr ⟨rfl, rfl, rfl⟩
        phase := fun _ is => nomatch (is : Phase.closed = .running)
        held := fun h found => by rw [show l.mapping = some h from found] at none; cases none }
  case isFalse => exact .refl ids

theorem rebindStarted_bystands (same : Bool) : Bystands Never l (l.rebindStarted same) := by
  cases same with
  | false => exact .same ids rfl rfl rfl rfl rfl rfl id rfl
  | true =>
    exact
      { owned := .refl ids
        attemptId := rfl
        generation := .inl (Nat.lt_succ_self _)
        phase := id
        held := fun h found => ⟨h, found, rfl, rfl, rfl, rfl, rfl, id, id, rfl⟩ }

theorem networkValidated_bystands (gw : Gateway) {netGen : NetGen} (cap releaseCap : Cap) :
    Bystands Never l (l.networkValidated gw netGen cap releaseCap) := by
  by_cases same : (l.net.any fun n => n.gateway = gw) = true
  · have gateway : some gw = l.net.map (·.gateway) := by
      cases known : l.net with
      | none => rw [known] at same; cases same
      | some n => simpa [known, eq_comm] using same
    simp only [networkValidated, same]
    exact .same ids rfl rfl rfl rfl gateway rfl id rfl
  · simp only [networkValidated, same]
    exact .withdrawn (orphan_bystands ids) rfl (Nat.lt_succ_self _) id rfl

theorem leaseExpired_bystands {now : Instant} :
    Bystands (fun e => e.routerExpiry ≤ now) l (l.leaseExpired now) := by
  rw [leaseExpired]
  split
  · exact .refl ids
  case h_2 h held =>
    have orphaned : OwnedRules.Bystands (fun e => e.routerExpiry ≤ now) l.owned
        (l.owned.orphan h.ruleId) := .orphan ids
    refine ⟨?_, rfl, .inr ⟨rfl, rfl, rfl⟩, id, fun h found => nomatch found⟩
    dsimp only
    split
    · exact orphaned
    · refine orphaned.trans (fun _ _ kin => by rw [kin.routerExpiry]; exact id) ?_
      refine .remove orphaned.ids fun e found => ?_
      simp_all

omit ids

/-- Why a probe's report may remove an entry. -/
def ResetBy (l : Lifecycle) (proto : Proto) (epoch : Nat) (started : Instant) (gateway : Gateway)
    (e : OwnedRule) : Prop :=
  l.resetAccepted proto epoch started = true ∧ e.rule.proto = proto ∧
    sameWireGateway e.gateway gateway = true

theorem ResetBy.kin (kin : Kin e e') (lost : ResetBy l proto epoch started gateway e') :
    ResetBy l proto epoch started gateway e :=
  ⟨lost.1, kin.rule ▸ lost.2.1, kin.gateway ▸ lost.2.2⟩

theorem routerReset_bystands (ids : l.owned.Ids) {proto : Proto} {epoch : Nat} {started : Instant}
    {gateway : Gateway} :
    Bystands (ResetBy l proto epoch started gateway) l
      (l.routerReset proto epoch started gateway) := by
  rw [routerReset]
  split
  case isFalse => exact .refl ids
  case isTrue accepted =>
    refine .withdrawn ?_ rfl (Nat.lt_succ_self _) id rfl
    generalize (l.inflight.map (·.ruleId)).filter _ = keep
    have lost : OwnedRules.Bystands (ResetBy l proto epoch started gateway) l.owned
        (l.invalidate (.reset proto gateway keep)).owned := by
      refine (withdraw_bystands ids (.reset proto gateway keep)).mono fun e lost => ?_
      obtain ⟨_, _, _, is, lost⟩ := lost
      cases is
      simp only [OwnedRule.lostIn, Bool.and_eq_true, decide_eq_true_eq] at lost
      exact ⟨accepted, lost.1.1.1, lost.1.1.2⟩
    cases keep with
    | none => exact lost
    | some id => exact lost.trans (fun _ _ => ResetBy.kin) (.orphan lost.ids)

/-- A reset that is accepted after another report was looked at is accepted without it. -/
theorem resetAccepted_of_mapping (mapping : l'.mapping = none ∨ l'.mapping = l.mapping)
    (accepted : l'.resetAccepted proto epoch started = true) :
    l.resetAccepted proto epoch started = true := by
  rw [resetAccepted] at accepted ⊢
  rcases mapping with none | same
  · simp [none] at accepted
  · rwa [same] at accepted

/-- Why a probe's report may remove an entry: it says that the router of the entry restarted. -/
def ReportedBy (l : Lifecycle) (r : ProbeReport) (started : Instant) (gateway : Gateway)
    (e : OwnedRule) : Prop :=
  ∃ epoch, r.epoch e.rule.proto = some epoch ∧ ResetBy l e.rule.proto epoch started gateway e

theorem ReportedBy.kin {r : ProbeReport} (kin : Kin e e')
    (lost : ReportedBy l r started gateway e') :
    ReportedBy l r started gateway e := by
  obtain ⟨epoch, reported, reset⟩ := lost
  rw [kin.rule] at reported reset
  exact ⟨epoch, reported, reset.kin kin⟩

/-- One protocol's part of a report, read after another part that left the mapping alone or
withdrew it. -/
theorem epochObserved_bystands (ids : l'.owned.Ids)
    (mapping : l'.mapping = none ∨ l'.mapping = l.mapping) (r : ProbeReport) (proto : Proto)
    (started : Instant) (gateway : Gateway) :
    Bystands (ReportedBy l r started gateway) l' (l'.epochObserved r proto started gateway) := by
  rw [epochObserved]
  split
  · exact .refl ids
  case h_2 epoch reported =>
    refine (routerReset_bystands ids).mono fun e lost => ?_
    obtain ⟨accepted, rfl, wire⟩ := lost
    exact ⟨epoch, reported, resetAccepted_of_mapping mapping accepted, rfl, wire⟩

theorem epochObserved_mapping (l : Lifecycle) (r : ProbeReport) (proto : Proto) {started : Instant}
    {gateway : Gateway} :
    (l.epochObserved r proto started gateway).mapping = none ∨
      (l.epochObserved r proto started gateway).mapping = l.mapping := by
  rw [epochObserved]
  split
  · exact .inr rfl
  · rw [routerReset]
    split
    · exact .inl rfl
    · exact .inr rfl

include ids

theorem probeObserved_bystands (r : ProbeReport) {want : ProtoSet} {started now : Instant}
    {gateway : Gateway} :
    Bystands (ReportedBy l r started gateway) l (l.probeObserved r want started now gateway) := by
  have pmp : Bystands (ReportedBy l r started gateway) l
      (if want.pmp then l.pmpObserved r started now gateway else l) ∧
      ((if want.pmp then l.pmpObserved r started now gateway else l).mapping = none ∨
        (if want.pmp then l.pmpObserved r started now gateway else l).mapping = l.mapping) := by
    rw [pmpObserved]
    split
    case isFalse => exact ⟨.refl ids, .inr rfl⟩
    split
    case isFalse => exact ⟨.refl ids, .inr rfl⟩
    have observed := epochObserved_bystands ids (.inr rfl) r .pmp started gateway
    exact ⟨observed.trans (fun _ _ => ReportedBy.kin)
        (.same observed.owned.ids rfl rfl rfl rfl rfl rfl id rfl),
      epochObserved_mapping l r .pmp⟩
  rw [probeObserved]
  generalize (if want.pmp then l.pmpObserved r started now gateway else l) = l₁ at pmp ⊢
  obtain ⟨first, mapping⟩ := pmp
  have pcp : Bystands (ReportedBy l r started gateway) l₁
      (if want.pcp then l₁.pcpObserved r started now gateway else l₁) := by
    rw [pcpObserved]
    split
    case isFalse => exact .refl first.owned.ids
    split
    case isFalse => exact .refl first.owned.ids
    have observed := epochObserved_bystands first.owned.ids mapping r .pcp started gateway
    exact observed.trans (fun _ _ => ReportedBy.kin)
      (.same observed.owned.ids rfl rfl rfl rfl rfl rfl id rfl)
  have both := first.trans (fun _ _ => ReportedBy.kin) pcp
  exact both.trans (fun _ _ => ReportedBy.kin)
    (.same both.owned.ids rfl rfl rfl rfl rfl rfl id rfl)

theorem clockObserved_bystands (now wall : Nat) : Bystands Never l (l.clockObserved now wall).1 :=
  .same ids rfl rfl rfl rfl rfl rfl id rfl

theorem clockAged_bystands (now : Instant) (slept : Nat) :
    Bystands (fun e => e.routerExpiry ≤ now) l (l.clockAged now slept).1 := by
  have aged : Bystands (fun e => e.routerExpiry ≤ now) l
      { l with probe := .empty, mapping := l.mapping.map (·.aged slept now) } :=
    { owned := .refl ids
      attemptId := rfl
      generation := .inr ⟨rfl, rfl, rfl⟩
      phase := id
      held := by
        intro h' found
        obtain ⟨h, held, rfl⟩ := Option.map_eq_some_iff.mp found
        exact ⟨h, held, rfl, rfl, rfl, h.aged_committedAt now, rfl, id, id, rfl⟩ }
  rw [clockAged]
  split
  · exact aged.trans (fun _ _ kin => by rw [kin.routerExpiry]; exact id)
      (leaseExpired_bystands aged.owned.ids)
  · exact aged

end Events

end Lifecycle

end TailscaleRs.Portmapper
