import TailscaleRs.Portmapper.Interleaving

namespace TailscaleRs.Portmapper

open OwnedRules Register

/-- A note that says nothing about what the router may have granted. -/
def Note.quiet : Note → Bool
  | .mapSent _ _ | .granted _ _ _ _ _ => false
  | .deleteSent _ _ | .probeSent _ => true

/-- The events of an attempt, its start included. -/
def Event.attempting : Event → Bool
  | .getCached _ _ _ _ | .transmit _ _ | .mapDone _ _ _ _ | .mapFinish _ => true
  | _ => false

/-- Two states of an entry that no attempt has changed. -/
structure OwnedRule.Alike (e e' : OwnedRule) : Prop where
  rule : e'.rule = e.rule
  gateway : e'.gateway = e.gateway
  settledExpiry : e'.settledExpiry = e.settledExpiry
  claim : e'.claim = e.claim ∨ e.mapping = false ∧ e'.mapping = false

namespace OwnedRule

variable {e e' e'' : OwnedRule}

theorem Kin.alike (kin : Kin e e') : Alike e e' :=
  ⟨kin.rule, kin.gateway, kin.settledExpiry, .inl kin.claim⟩

namespace Alike

theorem refl {e : OwnedRule} : Alike e e := ⟨rfl, rfl, rfl, .inl rfl⟩

theorem mapping (alike : Alike e e') : e'.mapping = e.mapping := by
  rcases alike.claim with same | ⟨before, after⟩
  · exact Bool.eq_iff_iff.mpr (by rw [mapping_iff, mapping_iff, same])
  · rw [before, after]

theorem trans (first : Alike e e') (second : Alike e' e'') : Alike e e'' where
  rule := second.rule.trans first.rule
  gateway := second.gateway.trans first.gateway
  settledExpiry := second.settledExpiry.trans first.settledExpiry
  claim := by
    rcases second.claim with same | ⟨before, after⟩
    · rcases first.claim with same' | ⟨before', after'⟩
      · exact .inl (same.trans same')
      · exact .inr ⟨before', second.mapping.trans after'⟩
    · exact .inr ⟨first.mapping.symm.trans before, after⟩

theorem map (alike : Alike e e') {grant : MapGrant} (held : e'.claim = .map grant) :
    e.claim = .map grant := by
  rcases alike.claim with same | ⟨-, after⟩
  · exact same ▸ held
  · rw [mapping_iff.mpr ⟨grant, held⟩] at after
    cases after

theorem routerExpiry (alike : Alike e e') : e'.routerExpiry = e.routerExpiry := by
  rcases alike.claim with same | ⟨before, after⟩
  · rw [routerExpiry_eq, routerExpiry_eq, same, alike.settledExpiry]
  · have settled {e : OwnedRule} (free : e.mapping = false) : e.routerExpiry = e.settledExpiry := by
      cases held : e.ownership <;> simp_all [OwnedRule.mapping, OwnedRule.routerExpiry]
    rw [settled before, settled after, alike.settledExpiry]

end Alike

theorem unclaimDelete_alike (free : e.mapping = false) : Alike e e.unclaimDelete := by
  rw [unclaimDelete]
  split
  · exact ⟨rfl, rfl, rfl, .inr ⟨free, rfl⟩⟩
  · exact .refl

theorem abandoned_alike (free : e.mapping = false) : Alike e e.fence.unclaimDelete :=
  (fence_kin e).alike.trans (unclaimDelete_alike free)

end OwnedRule

namespace Client

open OwnedRule (Alike)

/-- A probe begins in the state `c`. -/
structure Begins (c : Client) (p : Probe) : Prop where
  started : p.started ≤ c.clock
  begun : p.begun = c.clock
  generation : p.generation = c.lc.generation
  gateway : c.lc.net.map (·.gateway) = some p.gateway

/-- No MAP was sent and none was answered. -/
structure Quiet (c c' : Client) : Prop where
  clock : c.clock ≤ c'.clock
  journal : ∃ notes : List Note, c'.journal = notes ++ c.journal ∧ ∀ n ∈ notes, n.quiet = true
  probes : ∀ p ∈ c'.probes, p ∈ c.probes ∨ c.Begins p

theorem Quiet.same {c c' : Client} (clock : c'.clock = c.clock) (journal : c'.journal = c.journal)
    (probes : c'.probes = c.probes) : Quiet c c' where
  clock := Nat.le_of_eq clock.symm
  journal := ⟨[], journal, List.forall_mem_nil _⟩
  probes := fun _ member => .inl (probes ▸ member)

/-- The mapping that is held stays held, on the entry it had. -/
structure Stays (c c' : Client) (h h' : Held) : Prop where
  m : h'.m = h.m
  netGen : h'.netGen = h.netGen
  ruleId : h'.ruleId = h.ruleId
  committedAt : h'.lease.committedAt = h.lease.committedAt
  net : c'.lc.net.map (·.gateway) = c.lc.net.map (·.gateway)
  entry : ∀ e, c.lc.owned.get h.ruleId = some e → e.state = .active →
    c'.lc.owned.get h.ruleId = some e

/-- What the calls of a client go by: the generation, the network and the held mapping. -/
def standing (c : Client) : Nat × Option NetSnapshot × Option Held :=
  (c.lc.generation, c.lc.net, c.lc.mapping)

theorem standing_iff {c c' : Client} : c'.standing = c.standing ↔
    c'.lc.generation = c.lc.generation ∧ c'.lc.net = c.lc.net ∧ c'.lc.mapping = c.lc.mapping := by
  simp [standing]

structure Tends (why : OwnedRule → Prop) (c c' : Client) : Prop where
  quiet : Quiet c c'
  attempts : c'.attempts = c.attempts
  nextId : c'.lc.owned.nextId = c.lc.owned.nextId
  kept : ∀ k e', c'.lc.owned.get k = some e' → ∃ e, c.lc.owned.get k = some e ∧ Alike e e'
  gone : ∀ k e, c.lc.owned.get k = some e → c'.lc.owned.get k = none → e.mapping = false ∧ why e
  generation : c.lc.generation < c'.lc.generation ∨
    c'.lc.generation = c.lc.generation ∧ c'.lc.net.map (·.gateway) = c.lc.net.map (·.gateway)
  held : ∀ h', c'.lc.mapping = some h' → ∃ h, c.lc.mapping = some h ∧ Stays c c' h h'

namespace Tends

variable {why : OwnedRule → Prop} {c c' : Client}

theorem of_aside (aside : Aside why c c') (quiet : Quiet c c') : Tends why c c' where
  quiet
  attempts := aside.attempts
  nextId := aside.lc.owned.nextId
  kept := fun k e' found =>
    have ⟨e, before, kin⟩ := aside.lc.owned.kept k e' found
    ⟨e, before, kin.alike⟩
  gone := aside.lc.owned.gone
  generation := aside.lc.generation.imp_right fun same => ⟨same.1, same.2.2⟩
  held := fun h' found =>
    have ⟨h, before, keeps⟩ := aside.lc.held h' found
    ⟨h, before, keeps.m, keeps.netGen, keeps.ruleId, keeps.committedAt, keeps.net,
      fun _ entry _ => keeps.entry.trans entry⟩

theorem of_ledger (quiet : Quiet c c') (attempts : c'.attempts = c.attempts)
    (nextId : c'.lc.owned.nextId = c.lc.owned.nextId)
    (kept : ∀ k e', c'.lc.owned.get k = some e' → ∃ e, c.lc.owned.get k = some e ∧ Alike e e')
    (gone : ∀ k e, c.lc.owned.get k = some e → c'.lc.owned.get k = none → e.mapping = false ∧ why e)
    (lc : c'.standing = c.standing)
    (active : ∀ h, c.lc.mapping = some h → ∀ e, c.lc.owned.get h.ruleId = some e →
      e.state = .active → c'.lc.owned.get h.ruleId = some e) : Tends why c c' where
  quiet
  attempts
  nextId
  kept
  gone
  generation := .inr ⟨(standing_iff.mp lc).1, by rw [(standing_iff.mp lc).2.1]⟩
  held := fun h found =>
    have before : c.lc.mapping = some h := (standing_iff.mp lc).2.2 ▸ found
    ⟨h, before, rfl, rfl, rfl, rfl, by rw [(standing_iff.mp lc).2.1], active h before⟩

theorem idle (quiet : Quiet c c') (attempts : c'.attempts = c.attempts)
    (owned : c'.lc.owned = c.lc.owned) (lc : c'.standing = c.standing) :
    Tends why c c' := by
  refine of_ledger quiet attempts (by rw [owned]) ?_ ?_ lc ?_
  · intro k e found
    exact ⟨e, owned ▸ found, .refl⟩
  · intro k e found lost
    rw [owned, found] at lost
    cases lost
  · intro h _ e found _
    rw [owned, found]

theorem refl : Tends why c c :=
  idle (.same rfl rfl rfl) rfl rfl rfl

/-- A release changes entries that it has claimed. None of them is that of the held mapping. -/
theorem of_release (sound : Sound c) {op : Releasing} (live : op ∈ c.releases) (quiet : Quiet c c')
    (attempts : c'.attempts = c.attempts) (nextId : c'.lc.owned.nextId = c.lc.owned.nextId)
    (others : ∀ k, k ∉ op.guard → c'.lc.owned.get k = c.lc.owned.get k)
    (kept : ∀ k ∈ op.guard, ∀ e', c'.lc.owned.get k = some e' →
      ∃ e, c.lc.owned.get k = some e ∧ (e.mapping = false → Alike e e'))
    (gone : ∀ k ∈ op.guard, ∀ e, c.lc.owned.get k = some e → c'.lc.owned.get k = none → why e)
    (lc : c'.standing = c.standing) : Tends why c c' := by
  have released := sound.guarded.released op live
  refine of_ledger quiet attempts nextId ?_ ?_ lc ?_
  · intro k e' found
    by_cases listed : k ∈ op.guard
    · obtain ⟨e, before, alike⟩ := kept k listed e' found
      exact ⟨e, before, alike (released k listed e before).mapping⟩
    · exact ⟨e', others k listed ▸ found, .refl⟩
  · intro k e found lost
    by_cases listed : k ∈ op.guard
    · exact ⟨(released k listed e found).mapping, gone k listed e found lost⟩
    · rw [others k listed, found] at lost
      cases lost
  · intro h holds e found active
    rw [others h.ruleId, found]
    intro listed
    rcases released h.ruleId listed e found with deleting | ⟨-, -, stopped⟩
    · rw [OwnedRule.deleting_iff] at deleting
      cases held : e.ownership <;> simp_all [OwnedRule.claim, OwnedRule.state]
    · exact stopped (sound.held h holds).1

theorem of_touch (sound : Sound c) {op : Releasing} (live : op ∈ c.releases) (quiet : Quiet c c')
    (attempts : c'.attempts = c.attempts) {e : OwnedRule} {rest : List OwnedRule}
    (is : op.rest = e :: rest) {f : OwnedRule → OwnedRule} (keeps : ∀ e, (f e).id = e.id)
    (owned : c'.lc.owned = c.lc.owned.amend e.id f)
    (alike : ∀ e : OwnedRule, e.mapping = false → Alike e (f e)) (lc : c'.standing = c.standing) :
    Tends why c c' := by
  have first : e.id ∈ op.guard := sound.guarded.listed op live e (is ▸ List.mem_cons_self)
  have get (k : RuleId) : c'.lc.owned.get k =
      if k = e.id then (c.lc.owned.get k).map f else c.lc.owned.get k := by
    rw [owned, get_amend keeps]
  refine of_release sound live quiet attempts (by rw [owned]; rfl) ?_ ?_ ?_ lc
  · intro k unlisted
    rw [get, if_neg]
    rintro rfl
    exact unlisted first
  · intro k _ e' found
    rw [get] at found
    split at found
    · obtain ⟨e₀, before, rfl⟩ := Option.map_eq_some_iff.mp found
      exact ⟨e₀, before, alike e₀⟩
    · exact ⟨e', found, fun _ => .refl⟩
  · intro k _ e₀ found lost
    rw [get, found] at lost
    split at lost <;> cases lost

end Tends

section Events

variable {c : Client} {now : Instant} {e : OwnedRule}

theorem probeStart_quiet (cfg : Config) (past : now ≤ c.clock) :
    Quiet c (probeStart cfg c now) := by
  rw [probeStart]
  split
  · exact .same rfl rfl rfl
  split
  · exact .same rfl rfl rfl
  case h_2 net known =>
    dsimp only
    split
    · exact .same rfl rfl rfl
    split
    · exact .same rfl rfl rfl
    · refine ⟨Nat.le_refl _, ⟨[], rfl, List.forall_mem_nil _⟩, fun p member => ?_⟩
      rcases List.mem_append.mp member with held | new
      · exact .inl held
      · rw [List.mem_singleton.mp new]
        exact .inr ⟨past, rfl, rfl, by rw [known]; rfl⟩

theorem note_quiet {entry : Note} (quiet : entry.quiet = true) : Quiet c (c.note entry) where
  clock := Nat.le_refl _
  journal := ⟨[entry], rfl, fun _ member => List.mem_singleton.mp member ▸ quiet⟩
  probes := fun _ member => .inl member

theorem probeDone_quiet (id : Nat) {report : Option ProbeReport} (now : Instant) :
    Quiet c (c.probeDone id report now) := by
  rw [probeDone]
  split
  · exact .same rfl rfl rfl
  · dsimp only
    have dropped (p : Probe) (member : p ∈ drop Probe.id c.probes id) : p ∈ c.probes :=
      (mem_drop.mp member).1
    have quiet {c' : Client} (clock : c'.clock = c.clock) (journal : c'.journal = c.journal)
        (probes : c'.probes = drop Probe.id c.probes id) : Quiet c c' :=
      ⟨Nat.le_of_eq clock.symm, ⟨[], journal, List.forall_mem_nil _⟩,
        fun p member => .inl (dropped p (probes ▸ member))⟩
    split
    · exact quiet rfl rfl rfl
    · split <;> exact quiet rfl rfl rfl

theorem expireIfDue_quiet {now : Instant} : Quiet c (c.expireIfDue now) := by
  rw [expireIfDue]
  split <;> exact .same rfl rfl rfl

theorem aside_quiet (cfg : Config) {ev : Event} (aside : ev.aside = true) :
    Quiet c (step cfg c ev) := by
  cases ev with
  | tick by' =>
    exact ⟨Nat.le_add_right _ _, ⟨[], rfl, List.forall_mem_nil _⟩, fun _ member => .inl member⟩
  | denySends | routeLost | rebindStarted | rebindFailed | networkDown | closeFinish | disable
  | enable | closeStart | dropRequested | setLocalPort | lookupStart | lookupDone | checkClock
  | expireIfDue =>
    dsimp only [step, setLocalPort, lookupStart, lookupDone, checkClock, expireIfDue]
    repeat' split
    all_goals exact .same rfl rfl rfl
  | probeStart now =>
    rw [step]
    split
    case isTrue past => exact probeStart_quiet cfg past
    case isFalse => exact .same rfl rfl rfl
  | probeDone id report now =>
    rw [step]
    split
    · exact probeDone_quiet id now
    · exact .same rfl rfl rfl
  | probeSend | deleteSend =>
    dsimp only [step, probeSend, deleteSend]
    repeat' split
    all_goals first | exact .same rfl rfl rfl | exact note_quiet rfl
  | _ => cases aside

variable {why : OwnedRule → Prop}

theorem claim_tends {owned : OwnedRules} (swept : OwnedRules.Bystands why c.lc.owned owned)
    (active : ∀ k e, c.lc.owned.get k = some e → e.state = .active → owned.get k = some e)
    (take : OwnedRule → Bool) (mark : OwnedRule → OwnedRule) (keeps : ∀ e, (mark e).id = e.id)
    (orphaned : ∀ e, take e = true → e.state = .orphaned ∧ e.mapping = false)
    (alike : ∀ e : OwnedRule, e.mapping = false → Alike e (mark e)) {c' : Client}
    (quiet : Quiet c c') (attempts : c'.attempts = c.attempts)
    (lc : c'.lc = { c.lc with owned := owned.amendAll fun e => if take e then mark e else e }) :
    Tends why c c' := by
  have get (k : RuleId) : c'.lc.owned.get k =
      (owned.get k).map fun e => if take e then mark e else e := by
    rw [lc, get_amendAll fun e => by split <;> simp [keeps]]
  refine .of_ledger quiet attempts ?_ ?_ ?_ ?_ ?_
  · rw [lc]
    exact swept.nextId
  · intro k e' found
    rw [get] at found
    obtain ⟨e₁, between, rfl⟩ := Option.map_eq_some_iff.mp found
    obtain ⟨e, before, kin⟩ := swept.kept k e₁ between
    refine ⟨e, before, kin.alike.trans ?_⟩
    split
    case isTrue taken => exact alike e₁ (orphaned e₁ taken).2
    case isFalse => exact .refl
  · intro k e found lost
    rw [get, Option.map_eq_none_iff] at lost
    exact swept.gone k e found lost
  · rw [standing, lc]
    rfl
  · intro h _ e found is
    rw [get, active h.ruleId e found is, Option.map_some]
    rw [if_neg fun taken => by rw [(orphaned e taken).1] at is; cases is]

variable (sound : Sound c)
include sound

theorem cleanupStart_tends (closing : Bool) (now : Instant) :
    Tends (fun e => e.routerExpiry ≤ now) c (c.cleanupStart closing now) := by
  have swept := OwnedRules.Bystands.dropExpired sound.ids now
  have active (k : RuleId) (e : OwnedRule) (found : c.lc.owned.get k = some e)
      (is : e.state = .active) : (c.lc.owned.dropExpired now).get k = some e := by
    rw [dropExpired, sound.ids.get_sweep, found]
    simp [OwnedRule.overAt, is]
  rw [cleanupStart]
  obtain is | ⟨-, is⟩ := c.lc.cleanupStarted_cases <;> rw [is]
  · refine .of_ledger (.same rfl rfl rfl) rfl swept.nextId ?_ swept.gone rfl
      fun h _ e found is => active h.ruleId e found is
    intro k e' found
    obtain ⟨e, before, kin⟩ := swept.kept k e' found
    exact ⟨e, before, kin.alike⟩
  · refine claim_tends swept active (·.deletable now closing) (·.claimDelete now)
      (fun e => e.claimDelete_id)
      (fun e taken => by grind [OwnedRule.deletable, OwnedRule.reserved])
      (fun e free => ⟨rfl, rfl, rfl, .inr ⟨free, rfl⟩⟩)
      ?_ ?_ ?_ <;> split <;> first | rfl | exact .same rfl rfl rfl

theorem finalStart_tends (now : Instant) : Tends why c (c.finalStart now) := by
  rw [finalStart, Lifecycle.finalReleaseStarted]
  split
  case isFalse => exact .refl
  case isTrue =>
    refine claim_tends (.refl sound.ids) (fun k e found _ => found) (·.finallyDue now)
      (·.claimFinal) (fun e => e.claimFinal_id)
      (fun e taken => by grind [OwnedRule.finallyDue, OwnedRule.reserved])
      (fun e free => ⟨rfl, rfl, rfl, .inr ⟨free, rfl⟩⟩)
      ?_ ?_ ?_ <;> dsimp only <;> split <;> first | rfl | exact .same rfl rfl rfl

omit sound in
theorem releaseCap_tends (id : Nat) {build : Option BindMode} :
    Tends why c (c.releaseCap id build) := by
  rw [releaseCap]
  split
  · exact .refl
  split
  · split <;> exact .idle (.same rfl rfl rfl) rfl rfl rfl
  · exact .refl

theorem deleteValidate_tends (id : Nat) (now : Instant) :
    Tends why c (c.deleteValidate id now) := by
  rw [deleteValidate]
  split
  · exact .refl
  case h_2 op found =>
    have live := mem_of_find found
    split
    case h_3 => exact .refl
    case h_1 closing e rest _ _ is =>
      cases closing with
      | true =>
        exact .of_touch sound live (.same rfl rfl rfl) rfl is (fun e => by simp) rfl
          (fun e free => OwnedRule.abandoned_alike free) rfl
      | false =>
        refine .of_touch sound live (.same rfl rfl rfl) rfl is (fun e => by simp) rfl
          (fun e free => ?_) rfl
        have alike := OwnedRule.unclaimDelete_alike free
        exact ⟨alike.rule, alike.gateway, alike.settledExpiry, alike.claim⟩
    case h_2 =>
      split <;> exact .idle (.same rfl rfl rfl) rfl rfl rfl

theorem deleteFence_tends (id : Nat) : Tends why c (c.deleteFence id) := by
  rw [deleteFence]
  split
  · exact .refl
  case h_2 op found =>
    split
    case h_2 => exact .refl
    case h_1 e rest _ is =>
      exact .of_touch sound (mem_of_find found) (.same rfl rfl rfl) rfl is
        (fun e => by simp) rfl (fun e free => OwnedRule.abandoned_alike free) rfl

omit sound in
theorem finalSend_tends (id : Nat) : Tends why c (c.finalSend id) := by
  rw [finalSend]
  split
  · exact .refl
  split
  case h_1 e _ _ _ _ =>
    split
    case isTrue =>
      have quiet : Quiet c (c.note (.deleteSent e.id c.clock)) := note_quiet rfl
      exact .idle ⟨quiet.clock, quiet.journal, quiet.probes⟩ rfl rfl rfl
    case isFalse => exact .idle (.same rfl rfl rfl) rfl rfl rfl
  · exact .refl

theorem deleteDone_tends (id : Nat) {acked : Bool} (now : Instant) :
    Tends (c.Sweeps (.deleteDone id acked now)) c (c.deleteDone id acked now) := by
  rw [deleteDone]
  split
  · exact .refl
  case h_2 op found =>
    have live := mem_of_find found
    split
    case h_2 => exact .refl
    case h_1 cap e rest stage is =>
      cases acked with
      | false =>
        refine .of_touch sound live (.same rfl rfl rfl) rfl is (fun e => by simp) rfl
          (fun e free => ?_) rfl
        have alike := OwnedRule.unclaimDelete_alike free
        exact ⟨alike.rule, alike.gateway, alike.settledExpiry, alike.claim⟩
      | true =>
        have first : e.id ∈ op.guard :=
          sound.guarded.listed op live e (is ▸ List.mem_cons_self)
        have get (k : RuleId) : (c.lc.owned.finishDelete e.id true now).get k =
            if k = e.id then none else c.lc.owned.get k := get_remove
        refine .of_release sound live (.same rfl rfl rfl) rfl rfl ?_ ?_ ?_ rfl
        · intro k unlisted
          refine (get k).trans (if_neg ?_)
          rintro rfl
          exact unlisted first
        · intro k _ e' found'
          have before := (get k).symm.trans found'
          split at before
          · cases before
          · exact ⟨e', before, fun _ => .refl⟩
        · intro k _ e₀ before lost
          have lost := (get k).symm.trans lost
          split at lost
          case isTrue same =>
            refine ⟨op, live, key_of_find found, cap, e, rest, stage, is, ?_⟩
            rw [id_of_get before, same]
          case isFalse =>
            rw [before] at lost
            cases lost

theorem releaseFinish_tends (id : Nat) : Tends why c (c.releaseFinish id) := by
  rw [releaseFinish]
  split
  · exact .refl
  case h_2 op found =>
    have get (k : RuleId) : (c.lc.cleanupCancelled op.guard).owned.get k =
        if k ∈ op.guard then (c.lc.owned.get k).map OwnedRule.unclaimDelete
        else c.lc.owned.get k := get_unclaims k
    refine .of_release sound (mem_of_find found) (.same rfl rfl rfl) rfl
      (unclaims_ids sound.ids).2 ?_ ?_ ?_ rfl
    · intro k unlisted
      exact (get k).trans (if_neg unlisted)
    · intro k listed e' found'
      have before := (get k).symm.trans found'
      rw [if_pos listed] at before
      obtain ⟨e, was, rfl⟩ := Option.map_eq_some_iff.mp before
      exact ⟨e, was, OwnedRule.unclaimDelete_alike⟩
    · intro k listed e before lost
      have lost := (get k).symm.trans lost
      rw [if_pos listed, before] at lost
      cases lost

end Events

theorem expireIfDue_tends {c : Client} (sound : Sound c) (now : Instant) :
    Tends (fun e => e.routerExpiry ≤ now) c (c.expireIfDue now) :=
  .of_aside (expireIfDue_aside sound.ids now) expireIfDue_quiet

/-- Every event but the start of an attempt and the parts of its exchange. -/
theorem step_tends {c : Client} (sound : Sound c) {cfg : Config} {ev : Event}
    (apart : ev.attempting = false) : Tends (c.Sweeps ev) c (step cfg c ev) := by
  by_cases aside : ev.aside = true
  · exact .of_aside (step_aside sound aside) (aside_quiet cfg aside)
  have due {why : OwnedRule → Prop} {now : Instant} {c' : Client} (after : Tends why c c') :
      Tends why c (if now ≤ c.clock then c' else c) := by
    split
    · exact after
    · exact .refl
  cases ev with
  | cleanupStart closing now =>
    rw [step]
    split
    case isTrue past =>
      have started := cleanupStart_tends sound closing now
      exact { started with gone := fun k e found lost =>
        ⟨(started.gone k e found lost).1, past, (started.gone k e found lost).2⟩ }
    case isFalse => exact .refl
  | releaseCap id build => exact releaseCap_tends id
  | deleteValidate id now => exact due (deleteValidate_tends sound id now)
  | deleteFence id => exact deleteFence_tends sound id
  | deleteDone id acked now => exact due (deleteDone_tends sound id now)
  | finalStart now => exact due (finalStart_tends sound now)
  | finalSend id => exact finalSend_tends id
  | releaseFinish id => exact releaseFinish_tends sound id
  | getCached | transmit | mapDone | mapFinish => cases apart
  | _ => exact (aside rfl).elim

end Client

end TailscaleRs.Portmapper
