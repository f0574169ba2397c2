import TailscaleRs.Lib.Register

namespace TailscaleRs.Portmapper

open Register

abbrev Instant : Type := Nat

def secs (n : Nat) : Nat := n * 1000000000

def leaseDeadline (now : Instant) (lifetime : Nat) : Instant := now + secs lifetime

inductive Proto
  | pmp
  | pcp
  deriving DecidableEq

structure Port where
  val : UInt16
  nonzero : val ≠ 0
  deriving DecidableEq

abbrev Nonce : Type := BitVec 96

inductive Rule
  | pmp (internal : Port)
  | pcp (internal : Port) (nonce : Nonce)
  deriving DecidableEq

namespace Rule

def internal : Rule → Port
  | pmp internal => internal
  | pcp internal _ => internal

def proto : Rule → Proto
  | pmp _ => .pmp
  | pcp _ _ => .pcp

/-- `Rule::new`; a PCP rule needs a nonce of the random source, which may fail. -/
def new (proto : Proto) (internal : Port) (random : Option Nonce) : Option Rule :=
  match proto with
  | .pmp => some (.pmp internal)
  | .pcp => random.map (.pcp internal)

end Rule

structure Gateway where
  gw : UInt32
  selfIp : UInt32
  prefixLen : UInt8
  ifIndex : UInt32
  ifName : String
  deriving DecidableEq

/-- Prefix length and interface name are not part of a router's mapping key. -/
def sameWireGateway (a b : Gateway) : Bool :=
  a.gw == b.gw && a.selfIp == b.selfIp && a.ifIndex == b.ifIndex

abbrev NetGen : Type := Nat
abbrev RuleId : Type := Nat

def requestedLifetime : Nat := 7200

/-- `cap::SendEvidence`: when the MAP request of one attempt was last handed to the socket, as
the time since the attempt was admitted. -/
structure SendEvidence where
  mapIndex : Nat
  logicalOrigin : Instant
  runtimeOrigin : Instant
  attempted : Option Nat
  deriving DecidableEq

namespace SendEvidence

def new (mapIndex : Nat) (now runtime : Instant) : SendEvidence :=
  ⟨mapIndex, now, runtime, none⟩

variable (evidence : SendEvidence)

def enter (index : Nat) (runtime : Instant) : SendEvidence :=
  if index = evidence.mapIndex then
    { evidence with
      attempted := some (max (evidence.attempted.getD 0) (runtime - evidence.runtimeOrigin)) }
  else evidence

/-- An unanswered MAP may have been granted for the lifetime `requestedLifetime`. -/
def possibleUntil : Option Instant :=
  evidence.attempted.map fun elapsed =>
    leaseDeadline (max (evidence.logicalOrigin + elapsed) (evidence.runtimeOrigin + elapsed))
      requestedLifetime

end SendEvidence

inductive RuleState
  | pending
  | active
  | orphaned
  deriving DecidableEq

inductive MapGrant
  | pending (evidence : SendEvidence) (existed : Bool)
  | settled
  deriving DecidableEq

inductive Ownership
  | idle (state : RuleState)
  | map (state : RuleState) (grant : MapGrant)
  | delete
  deriving DecidableEq

inductive FinalDuty
  | none
  | owed
  deriving DecidableEq

inductive Release
  | allowed (duty : FinalDuty)
  | fenced (duty : FinalDuty)
  deriving DecidableEq

def Release.duty : Release → FinalDuty
  | allowed duty => duty
  | fenced duty => duty

def maxOwned : Nat := 4
def maxDeleteTries : Nat := 3
def deleteRetryInterval : Nat := secs 600

structure OwnedRule where
  id : RuleId
  rule : Rule
  netGen : NetGen
  gateway : Gateway
  ownership : Ownership
  release : Release
  settledExpiry : Instant
  deleteTries : Nat
  retryAt : Option Instant
  deriving DecidableEq

namespace OwnedRule

variable (e : OwnedRule)

def state : RuleState :=
  match e.ownership with
  | .idle s => s
  | .map s _ => s
  | .delete => .orphaned

def mapping : Bool :=
  match e.ownership with
  | .map _ _ => true
  | _ => false

def deleting : Bool :=
  match e.ownership with
  | .delete => true
  | _ => false

def releasable : Bool :=
  match e.release with
  | .allowed _ => true
  | .fenced _ => false

def reserved : Bool := e.mapping || e.deleting

def setState (state : RuleState) : OwnedRule :=
  match e.ownership with
  | .idle _ => { e with ownership := .idle state }
  | .map _ grant => { e with ownership := .map state grant }
  | .delete => e

/-- The end of what the router may have granted. A running MAP extends it once it was sent. -/
def routerExpiry : Instant :=
  match e.ownership with
  | .map _ (.pending evidence _) =>
    match evidence.possibleUntil with
    | none => e.settledExpiry
    | some limit => max e.settledExpiry limit
  | _ => e.settledExpiry

def grantObserved (limit : Instant) : OwnedRule :=
  { e with
    settledExpiry := limit
    ownership :=
      match e.ownership with
      | .map state _ => .map state .settled
      | other => other }

def unclaimDelete : OwnedRule :=
  if e.deleting then { e with ownership := .idle .orphaned } else e

def fence : OwnedRule := { e with release := .fenced e.release.duty }

/-- What `finish_map` leaves of a reserved entry. -/
def finished : OwnedRule :=
  if e.mapping then
    { e with
      settledExpiry := e.routerExpiry
      ownership := .idle (if e.state = .pending then .orphaned else e.state) }
  else e

/-- Whether a create for this port on this network may take the entry over. -/
def adoptable (proto : Proto) (internal : Port) (gateway : Gateway) : Bool :=
  e.state = .orphaned && !e.reserved && e.rule.proto = proto && e.rule.internal = internal &&
    sameWireGateway e.gateway gateway

def adopted (gateway : Gateway) (netGen : NetGen) : OwnedRule :=
  { e.setState .pending with
    release := .allowed e.release.duty
    deleteTries := 0
    retryAt := none
    netGen
    gateway }

/-- Whether an accepted epoch rollback reported by `gateway` says that the rule is lost. -/
def lostIn (proto : Proto) (gateway : Gateway) (keep : Option RuleId) : Bool :=
  e.rule.proto = proto && sameWireGateway e.gateway gateway && !e.reserved && some e.id != keep

variable (now : Instant)

def overAt : Bool :=
  e.state = .orphaned && !e.reserved && decide (e.routerExpiry ≤ now)

/-- Whether a cleanup takes the entry; a closing client does not wait for the retry time. -/
def deletable (closing : Bool) : Bool :=
  e.state = .orphaned && e.releasable && !e.reserved &&
    (closing || e.retryAt.all fun at' => decide (at' ≤ now))

def claimDelete : OwnedRule :=
  { e with
    ownership := .delete
    retryAt :=
      if maxDeleteTries ≤ e.deleteTries then some (now + deleteRetryInterval) else e.retryAt }

def dutyOwed : OwnedRule :=
  { e with
    release :=
      match e.release with
      | .allowed _ => .allowed .owed
      | .fenced _ => .fenced .owed }

def finallyDue : Bool :=
  e.release.duty = .owed && e.releasable && !e.reserved && e.state = .orphaned &&
    decide (now < e.routerExpiry)

def claimFinal : OwnedRule :=
  { e with release := .allowed .none, ownership := .delete }

@[simp] theorem setState_id {state : RuleState} : (e.setState state).id = e.id := by
  rw [setState]
  split <;> rfl

@[simp] theorem grantObserved_id (limit : Instant) : (e.grantObserved limit).id = e.id := rfl

@[simp] theorem unclaimDelete_id : e.unclaimDelete.id = e.id := by
  rw [unclaimDelete]
  split <;> rfl

@[simp] theorem fence_id : e.fence.id = e.id := rfl

@[simp] theorem finished_id : e.finished.id = e.id := by
  rw [finished]
  split <;> rfl

@[simp] theorem adopted_id {gateway : Gateway} {netGen : NetGen} :
    (e.adopted gateway netGen).id = e.id :=
  e.setState_id

@[simp] theorem claimDelete_id {now : Instant} : (e.claimDelete now).id = e.id := rfl

@[simp] theorem dutyOwed_id : e.dutyOwed.id = e.id := rfl

@[simp] theorem claimFinal_id : e.claimFinal.id = e.id := rfl

end OwnedRule

structure OwnedRules where
  entries : List OwnedRule
  nextId : RuleId
  deriving DecidableEq

namespace OwnedRules

def empty : OwnedRules := ⟨[], 0⟩

variable (l : OwnedRules) (id : RuleId)

def get : Option OwnedRule :=
  find OwnedRule.id l.entries id

variable (f : OwnedRule → OwnedRule)

def amend : OwnedRules :=
  { l with entries := alter OwnedRule.id l.entries id f }

def hasRoom : Bool := l.entries.length < maxOwned

/-- The live entry for exactly this rule on this network: a renewal reuses it. -/
def liveFor (rule : Rule) (netGen : NetGen) : Option RuleId :=
  (l.entries.find? fun e =>
    e.state != .orphaned && e.netGen == netGen && e.rule == rule).map OwnedRule.id

/-- The wire identity: a router may share one table between the protocols. -/
def forIdentity (internal : Port) (gateway : Gateway) : Option OwnedRule :=
  l.entries.find? fun e => e.rule.internal == internal && sameWireGateway e.gateway gateway

/-- `claim_map`: reserve the entry for an attempt admitted at `now`. NAT-PMP sends the
public-address request first. -/
def claimMap (now runtime : Instant) (existed : Bool) : Option OwnedRules :=
  match l.get id with
  | none => none
  | some e =>
    if e.reserved then none
    else
      let evidence := SendEvidence.new (if e.rule.proto = .pmp then 1 else 0) now runtime
      some (l.amend id fun e =>
        { e with ownership := .map e.state (.pending evidence existed) })

/-- The attempt that reserved `id` hands request number `index` to the socket. -/
def enter (index : Nat) (runtime : Instant) : OwnedRules :=
  l.amend id fun e =>
    match e.ownership with
    | .map state (.pending evidence existed) =>
      { e with ownership := .map state (.pending (evidence.enter index runtime) existed) }
    | _ => e

def remove : OwnedRules :=
  { l with entries := drop OwnedRule.id l.entries id }

def discardUnsent : OwnedRules :=
  match l.get id with
  | none => l
  | some e =>
    match e.ownership with
    | .map state (.pending evidence existed) =>
      if evidence.possibleUntil.isSome then l
      else if existed then l.amend id fun e => { e with ownership := .map state .settled }
      else l.remove id
    | _ => l

def finishMap : OwnedRules :=
  (l.discardUnsent id).amend id OwnedRule.finished

def addPending (rule : Rule) (netGen : NetGen) (gateway : Gateway) (now : Instant) :
    Option (OwnedRules × RuleId) :=
  if !l.hasRoom || (l.forIdentity rule.internal gateway).isSome then none
  else
    some (
      { entries := l.entries ++
          [{ id := l.nextId
             rule
             netGen
             gateway
             ownership := .idle .pending
             release := .allowed .none
             settledExpiry := now
             deleteTries := 0
             retryAt := none }]
        nextId := l.nextId + 1 },
      l.nextId)

variable (routerExpiry : Instant)

def commit : OwnedRules :=
  l.amend id fun e => (e.setState .active).grantObserved routerExpiry

def orphanCommitted : OwnedRules :=
  l.amend id fun e => (e.setState .orphaned).grantObserved routerExpiry

def orphan : OwnedRules :=
  l.amend id (·.setState .orphaned)

def amendAll : OwnedRules :=
  { l with entries := l.entries.map f }

def orphanAll : OwnedRules := l.amendAll (·.setState .orphaned)

/-- `forget_orphans`: the orphans of a network that went down are never deleted. -/
def forgetOrphans : OwnedRules :=
  l.amendAll fun e => if e.state = .orphaned && e.releasable then e.fence else e

def adopt (proto : Proto) (internal : Port) (gateway : Gateway) (netGen : NetGen) :
    Option (OwnedRules × RuleId × Rule) :=
  match l.entries.find? (·.adoptable proto internal gateway) with
  | none => none
  | some e => some (l.amend e.id (·.adopted gateway netGen), e.id, e.rule)

def sweep (gone : OwnedRule → Bool) : OwnedRules :=
  { l with entries := l.entries.filter fun e => !gone e }

def dropProto (proto : Proto) (gateway : Gateway) (keep : Option RuleId) : OwnedRules :=
  l.sweep (·.lostIn proto gateway keep)

variable (now : Instant)

def dropExpired : OwnedRules := l.sweep (·.overAt now)

def claimOrphans (closing : Bool) : OwnedRules × List OwnedRule :=
  (l.amendAll fun e => if e.deletable now closing then e.claimDelete now else e,
    (l.entries.filter (·.deletable now closing)).map (·.claimDelete now))

def requestFinalRelease : OwnedRules := l.amendAll (·.dutyOwed)

def claimFinalReleases : OwnedRules × List OwnedRule :=
  (l.amendAll fun e => if e.finallyDue now then e.claimFinal else e,
    (l.entries.filter (·.finallyDue now)).map (·.claimFinal))

def abandon : OwnedRules :=
  l.amend id fun e => e.fence.unclaimDelete

def finishDelete (acked : Bool) (now : Instant) : OwnedRules :=
  if acked then l.remove id
  else
    l.amend id fun e =>
      let e := e.unclaimDelete
      let tries := e.deleteTries + 1
      { e with
        deleteTries := tries
        retryAt := if maxDeleteTries ≤ tries then some (now + deleteRetryInterval) else e.retryAt }

def deferDelete : OwnedRules :=
  l.amend id fun e => { e.unclaimDelete with retryAt := some (now + deleteRetryInterval) }

def unclaim : OwnedRules := l.amend id (·.unclaimDelete)

section Entries

variable {l : OwnedRules} {k : RuleId} {f : OwnedRule → OwnedRule} {id : RuleId} {e : OwnedRule}

theorem get_amend (keeps : ∀ e, (f e).id = e.id) :
    (l.amend id f).get k = if k = id then (l.get k).map f else l.get k :=
  find_alter keeps

theorem get_amendAll (keeps : ∀ e, (f e).id = e.id) : (l.amendAll f).get k = (l.get k).map f :=
  find_map keeps

theorem get_remove : (l.remove id).get k = if k = id then none else l.get k :=
  find_drop

theorem id_of_get (found : l.get k = some e) : e.id = k :=
  key_of_find found

theorem mem_of_get (found : l.get k = some e) : e ∈ l.entries :=
  mem_of_find found

end Entries

/-- Entries have ids of their own, given out in order. -/
structure Ids (l : OwnedRules) : Prop where
  distinct : Register.Distinct OwnedRule.id l.entries
  below : ∀ e ∈ l.entries, e.id < l.nextId

namespace Ids

variable {l : OwnedRules} {f : OwnedRule → OwnedRule} {e : OwnedRule} {k : RuleId}
  {gone : OwnedRule → Bool} {id : RuleId} (ids : l.Ids)
include ids

theorem get (member : e ∈ l.entries) : l.get e.id = some e :=
  ids.distinct.find member

theorem get_below (found : l.get k = some e) : k < l.nextId :=
  id_of_get found ▸ ids.below e (mem_of_get found)

theorem get_sweep : (l.sweep gone).get k = (l.get k).filter fun e => !gone e :=
  find_filter ids.distinct

theorem amendAll (keeps : ∀ e, (f e).id = e.id) : (l.amendAll f).Ids where
  distinct := ids.distinct.map keeps
  below := by
    intro e member
    obtain ⟨e₀, held, rfl⟩ := List.mem_map.mp member
    rw [keeps]
    exact ids.below e₀ held

theorem amend (keeps : ∀ e, (f e).id = e.id) : (l.amend id f).Ids :=
  ids.amendAll fun e => by split <;> simp [keeps]

theorem sweep : (l.sweep gone).Ids where
  distinct := ids.distinct.sublist List.filter_sublist
  below := fun e member => ids.below e (List.mem_of_mem_filter member)

theorem remove : (l.remove id).Ids where
  distinct := ids.distinct.drop
  below := fun e member => ids.below e (mem_drop.mp member).1

end Ids

end OwnedRules

end TailscaleRs.Portmapper
