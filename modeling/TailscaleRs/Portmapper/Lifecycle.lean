import TailscaleRs.Portmapper.Owned

namespace TailscaleRs.Portmapper

def maxTrusted : Nat := secs 7200
def minRenewDelay : Nat := secs 10
def maxRenewDelay : Nat := secs 3600
def attemptFloor : Nat := secs 2
def maxErrorHold : Nat := secs 1800

structure Lease where
  committedAt : Instant
  granted : Nat
  trusted : Nat
  renewAfter : Instant
  expiresAt : Instant
  routerExpiry : Instant
  deriving DecidableEq

namespace Lease

def new (now : Instant) (granted : Nat) : Lease :=
  let trusted := min (secs granted) maxTrusted
  let renewDelay := min (max (trusted / 2) minRenewDelay) maxRenewDelay
  { committedAt := now
    granted
    trusted
    renewAfter := now + min renewDelay trusted
    expiresAt := now + trusted
    routerExpiry := leaseDeadline now granted }

variable (lease : Lease)

def expired (now : Instant) : Bool := lease.expiresAt ≤ now

def renewDue (now : Instant) : Bool := lease.renewAfter ≤ now

def earlier (t : Instant) (by' : Nat) (now : Instant) : Instant := if by' ≤ t then t - by' else now

/-- The host slept for `by'`; the commit time stays. -/
def age (by' : Nat) (now : Instant) : Lease :=
  { lease with
    renewAfter := earlier lease.renewAfter by' now
    expiresAt := earlier lease.expiresAt by' now
    routerExpiry := earlier lease.routerExpiry by' now }

end Lease

inductive Failure
  | transient
  | notAuthorized
  | refused (hold : Option Nat)
  deriving DecidableEq

structure Schedule where
  nextAttemptAt : Option Instant
  lastStart : Option Instant
  failures : Nat
  deriving DecidableEq

namespace Schedule

variable (s : Schedule)

def earliestStart : Option Instant :=
  match s.nextAttemptAt, s.lastStart.map (· + attemptFloor) with
  | some a, some b => some (max a b)
  | some a, none => some a
  | none, b => b

variable (now : Instant)

def mayStart : Bool :=
  s.earliestStart.all fun t => decide (t ≤ now)

def noteStart : Schedule := { s with lastStart := some now }

def noteSuccess : Schedule := { s with failures := 0, nextAttemptAt := none }

/-- `backoff` is the jittered delay the random source gave for this failure. -/
def noteFailure (why : Failure) (backoff : Nat) : Schedule :=
  let hold :=
    match why with
    | .refused (some h) => max backoff (min h maxErrorHold)
    | _ => backoff
  { s with failures := s.failures + 1, nextAttemptAt := some (now + hold) }

def noteNetworkChange : Schedule := { s with failures := 0, nextAttemptAt := none }

end Schedule

structure SocketAddr where
  ip : UInt32
  port : UInt16
  deriving DecidableEq

structure Mapping where
  proto : Proto
  internal : Port
  external : SocketAddr
  lifetime : Nat
  epoch : Nat
  nonce : Option Nonce
  deriving DecidableEq

def Mapping.rule (m : Mapping) : Rule :=
  match m.proto, m.nonce with
  | .pcp, some nonce => .pcp m.internal nonce
  | _, _ => .pmp m.internal

structure MapReply where
  external : SocketAddr
  lifetime : Nat
  epoch : Nat
  deriving DecidableEq

/-- The mapping `map_pmp` and `map_pcp` return for the rule they asked for. -/
def MapReply.mapping (reply : MapReply) (rule : Rule) : Mapping where
  proto := rule.proto
  internal := rule.internal
  external := reply.external
  lifetime := reply.lifetime
  epoch := reply.epoch
  nonce :=
    match rule with
    | .pmp _ => none
    | .pcp _ nonce => some nonce

@[simp] theorem MapReply.mapping_rule (reply : MapReply) (rule : Rule) :
    (reply.mapping rule).rule = rule := by
  cases rule <;> rfl

/-- Result code 2 is "not authorized" in both protocols. -/
abbrev ResultCode : Type := UInt16

def notAuthorized : ResultCode := 2

inductive MapError
  | cap
  | noServices
  | pmp (code : ResultCode) (epoch : Nat)
  | pmpUnverified (code : ResultCode) (epoch : Nat)
  | pcp (code : ResultCode) (lifetime epoch : Nat)
  | pmpAddr (code : ResultCode) (epoch : Nat) (map : Option MapReply)
  | pcpUnverified (code : ResultCode) (lifetime epoch : Nat)
  | nonce
  deriving DecidableEq

/-- The MAP's own success reply, where only the public address was refused. -/
def MapError.grant : MapError → Option MapReply
  | .pmpAddr _ _ map => map
  | _ => none

def failureKind : MapError → Failure
  | .pmp code _ => if code = notAuthorized then .notAuthorized else .refused none
  | .pcp code lifetime _ =>
    if code = notAuthorized then .notAuthorized else .refused (some (secs lifetime))
  | .pcpUnverified _ lifetime _ => .refused (some (secs lifetime))
  | _ => .transient

/-- Whether a failed create may have left a rule: only a refusal tied to the request proves that
it did not. -/
def mayExist : MapError → Bool
  | .pmp _ _ => false
  | .pcp _ _ _ => false
  | _ => true

structure ProtoSet where
  pmp : Bool
  pcp : Bool
  deriving DecidableEq

def ProtoSet.has (set : ProtoSet) : Proto → Bool
  | .pmp => set.pmp
  | .pcp => set.pcp

structure ProbeReport where
  pmp : Bool
  pmpEpoch : Option Nat
  pmpPublicIp : Option UInt32
  pcp : Bool
  pcpEpoch : Option Nat
  deriving DecidableEq

/-- The epoch a protocol's answer carried. -/
def ProbeReport.epoch (r : ProbeReport) : Proto → Option Nat
  | .pmp => r.pmpEpoch
  | .pcp => r.pcpEpoch

structure Config where
  protos : ProtoSet
  /-- The lifetime requested for every mapping, never zero. -/
  lifetime : Nat
  deriving DecidableEq

def probeCacheTime : Nat := secs 600
def recentProbe : Nat := secs 5
def clockSkew : Nat := secs 30

structure ProbeCache where
  pmpSeenAt : Option Instant
  pmpPublicIp : Option UInt32
  pcpSeenAt : Option Instant
  lastProbeAt : Option Instant
  foundNothing : Bool
  deriving DecidableEq

namespace ProbeCache

def empty : ProbeCache := ⟨none, none, none, none, false⟩

def fresh (t : Option Instant) (now : Instant) : Bool :=
  t.any fun t => decide (now - t < probeCacheTime)

def sawPmp (cache : ProbeCache) (now : Instant) : Bool := fresh cache.pmpSeenAt now
def sawPcp (cache : ProbeCache) (now : Instant) : Bool := fresh cache.pcpSeenAt now

end ProbeCache

inductive Phase
  | running
  | closing
  | closed
  deriving DecidableEq

inductive DisableReason
  | onlyTcp443
  deriving DecidableEq

inductive BindMode
  | interface
  | sourceIp
  deriving DecidableEq

structure Cap where
  id : Nat
  bindMode : BindMode
  deriving DecidableEq

structure NetSnapshot where
  netGen : NetGen
  cap : Cap
  releaseCap : Cap
  gateway : Gateway
  deriving DecidableEq

structure Held where
  m : Mapping
  lease : Lease
  netGen : NetGen
  ruleId : RuleId
  deriving DecidableEq

/-- A mapping after a sleep: it is due for renewal now. -/
def Held.aged (h : Held) (slept : Nat) (now : Instant) : Held :=
  let lease := if slept = 0 then h.lease else h.lease.age slept now
  { h with lease := { lease with renewAfter := min lease.renewAfter now } }

theorem Held.aged_committedAt (h : Held) {slept : Nat} (now : Instant) :
    (h.aged slept now).lease.committedAt = h.lease.committedAt := by
  by_cases awake : slept = 0 <;> simp [aged, awake, Lease.age]

structure Inflight where
  id : Nat
  ruleId : RuleId
  deriving DecidableEq

/-- What the withdrawal of the held owner is evidence of. -/
inductive Invalidation
  | orphan
  | fence
  | reset (proto : Proto) (gateway : Gateway) (keep : Option RuleId)

structure Lifecycle where
  generation : Nat
  phase : Phase
  localPort : Option Port
  net : Option NetSnapshot
  nextNetGen : NetGen
  probe : ProbeCache
  mapping : Option Held
  sched : Schedule
  owned : OwnedRules
  releaseCaps : List (RuleId × Cap)
  rebindPending : Bool
  inflight : Option Inflight
  nextAttemptId : Nat
  retryWanted : Bool
  disabled : Option DisableReason
  lastClock : Option (Instant × Nat)
  /-- The capabilities whose send gate was invalidated. -/
  revoked : List Cap
  deriving DecidableEq

structure AttemptCtx where
  generation : Nat
  cap : Cap
  gateway : Gateway
  netGen : NetGen
  rule : Rule
  ruleId : RuleId
  existed : Bool
  prev : Option Mapping
  deriving DecidableEq

inductive StartError
  | closed
  | disabled
  | noLocalPort
  | noNetwork
  | busy
  | backoff
  | noServices
  | nonce
  | ledgerFull
  deriving DecidableEq

variable (owned : OwnedRules)

/-- What an invalidation does to the entries, once they are all orphaned. -/
def OwnedRules.withdraw : Invalidation → OwnedRules
  | .orphan => owned
  | .fence => owned.forgetOrphans
  | .reset proto gateway keep => owned.dropProto proto gateway keep

/-- The rule of a mapping that another one replaces is released. -/
def OwnedRules.supersede (old : Option Held) (id : RuleId) : OwnedRules :=
  match old with
  | none => owned
  | some h => if h.ruleId = id then owned else owned.orphan h.ruleId

namespace Lifecycle

def new : Lifecycle where
  generation := 0
  phase := .running
  localPort := none
  net := none
  nextNetGen := 1
  probe := .empty
  mapping := none
  sched := ⟨none, none, 0⟩
  owned := .empty
  releaseCaps := []
  rebindPending := false
  inflight := none
  nextAttemptId := 0
  retryWanted := false
  disabled := none
  lastClock := none
  revoked := []

section Invalidate

variable (l : Lifecycle)

/-- The attempt in flight is aborted; its reservation stays until its finalizer runs. -/
def cancelMapHandle : Lifecycle :=
  { l with generation := l.generation + 1, inflight := none }

def invalidate (evidence : Invalidation) : Lifecycle :=
  { l.cancelMapHandle with
    mapping := none
    owned := l.owned.orphanAll.withdraw evidence }

/-- Close the send gate of the network's capability. -/
def revokeNet : Lifecycle :=
  { l with revoked := (l.net.map (·.cap)).toList ++ l.revoked }

def networkDown : Lifecycle :=
  let l := (l.invalidate .fence).revokeNet
  { l with
    net := none
    revoked := l.releaseCaps.map Prod.snd ++ l.revoked
    rebindPending := false
    probe := .empty }

def leaseExpired (now : Instant) : Lifecycle :=
  match l.mapping with
  | none => l
  | some h =>
    let owned := l.owned.orphan h.ruleId
    let renewing := l.inflight.any fun i => i.ruleId = h.ruleId
    let held := (owned.get h.ruleId).any fun e => e.mapping || decide (now < e.routerExpiry)
    { l with
      mapping := none
      owned := if renewing || held then owned else owned.remove h.ruleId }

/-- Whether a probe that started at `started` shows that the router restarted. -/
def resetAccepted (proto : Proto) (epoch : Nat) (started : Instant) : Bool :=
  epoch != 0 &&
    l.mapping.any fun h =>
      h.m.proto = proto && decide (epoch < h.m.epoch) && decide (h.lease.committedAt ≤ started)

def routerReset (proto : Proto) (epoch : Nat) (started : Instant) (gateway : Gateway) : Lifecycle :=
  if l.resetAccepted proto epoch started then
    let inflight := (l.inflight.map (·.ruleId)).filter fun id =>
      (l.owned.get id).any fun e => e.rule.proto = proto
    let l := l.invalidate (.reset proto gateway inflight)
    { l with
      owned := match inflight with
        | none => l.owned
        | some id => l.owned.orphan id
      probe := match proto with
        | .pmp => { l.probe with pmpSeenAt := none, pmpPublicIp := none }
        | .pcp => { l.probe with pcpSeenAt := none } }
  else l

end Invalidate

section Attempts

variable (l : Lifecycle) (ctx : AttemptCtx)

def attemptStale : Bool :=
  ctx.generation != l.generation || l.phase != .running || l.disabled.isSome

/-- A reply was matched. The first flag says whether the new state is published. -/
def mapSuccess (m : Mapping) (now : Instant) : Lifecycle × Bool :=
  let lease := Lease.new now m.lifetime
  if l.attemptStale ctx then
    ({ l with owned := l.owned.orphanCommitted ctx.ruleId lease.routerExpiry }, false)
  else
    ({ l with
        owned := (l.owned.commit ctx.ruleId lease.routerExpiry).supersede l.mapping ctx.ruleId
        mapping := some ⟨m, lease, ctx.netGen, ctx.ruleId⟩
        sched := l.sched.noteSuccess }, true)

/-- Whether the attempt renews the mapping that is held now. -/
def renews : Bool :=
  ctx.prev.isSome && l.mapping.any fun h => h.ruleId = ctx.ruleId

/-- What a failed attempt says about its rule, unless it was a renewal. -/
def settleRefused (e : MapError) (now : Instant) : OwnedRules :=
  match e.grant with
  | some reply => owned.orphanCommitted ctx.ruleId (leaseDeadline now reply.lifetime)
  | none =>
    if ctx.existed || mayExist e then owned.orphan ctx.ruleId else owned.remove ctx.ruleId

def mapRefused (e : MapError) (now : Instant) (backoff : Nat) : Lifecycle :=
  let owned := l.owned.discardUnsent ctx.ruleId
  { l with
    owned := if l.renews ctx then owned else settleRefused owned ctx e now
    sched :=
      if l.attemptStale ctx then l.sched else l.sched.noteFailure now (failureKind e) backoff
    retryWanted := !l.attemptStale ctx || l.retryWanted }

def mapFinished (id : Nat) (ruleId : RuleId) : Lifecycle :=
  { l with
    owned := l.owned.finishMap ruleId
    inflight := if l.inflight.any fun i => i.id = id then none else l.inflight }

end Attempts

section Start

/-- What a start reads of its surroundings: the clock, the runtime and the random source. -/
structure Reading where
  now : Instant
  runtime : Instant
  hasRuntime : Bool
  random : Option Nonce
  backoff : Nat
  deriving DecidableEq

variable (l : Lifecycle) (net : NetSnapshot) (reading : Reading)

def launch (rule : Rule) (id : RuleId) (existed : Bool) (prev : Option Mapping) :
    Lifecycle × Except StartError (Nat × AttemptCtx) :=
  let kept := l.releaseCaps.filter fun held => (l.owned.get held.1).isSome && held.1 != id
  let l := { l with releaseCaps := (id, net.releaseCap) :: kept }
  match l.owned.claimMap id reading.now reading.runtime existed with
  | none => (l, .error .busy)
  | some owned =>
    ({ l with
        owned
        sched := l.sched.noteStart reading.now
        nextAttemptId := l.nextAttemptId + 1
        inflight := some ⟨l.nextAttemptId, id⟩ },
      .ok (l.nextAttemptId,
        { generation := l.generation
          cap := net.cap
          gateway := net.gateway
          netGen := net.netGen
          rule
          ruleId := id
          existed
          prev }))

def claimFor (rule : Rule) (existing : Option RuleId) (prev : Option Mapping) :
    Lifecycle × Except StartError (Nat × AttemptCtx) :=
  match existing with
  | some id => l.launch net reading rule id true prev
  | none =>
    match l.owned.addPending rule net.netGen net.gateway reading.now with
    | none => (l, .error .ledgerFull)
    | some (owned, id) => { l with owned }.launch net reading rule id false prev

/-- The mapping a start on this network and protocol renews. -/
def previous (port : Port) (net : NetSnapshot) (proto : Proto) : Option Held :=
  l.mapping.filter fun h =>
    h.netGen = net.netGen && h.m.proto = proto && h.m.internal = port

/-- Choose the rule: a renewal keeps its own, a create adopts an orphan of the port if it can. -/
def startRule (port : Port) (net : NetSnapshot) (proto : Proto) (reading : Reading) :
    Lifecycle × Except StartError (Nat × AttemptCtx) :=
  match l.previous port net proto with
  | some h => l.claimFor net reading h.m.rule (l.owned.liveFor h.m.rule net.netGen) (some h.m)
  | none =>
    match l.owned.adopt proto port net.gateway net.netGen with
    | some (owned, id, rule) => { l with owned }.claimFor net reading rule (some id) none
    | none =>
      match Rule.new proto port reading.random with
      | none => (l, .error .nonce)
      | some rule => l.claimFor net reading rule (l.owned.liveFor rule net.netGen) none

/-- An orphan still owns the wire identity of the port; its protocol is kept. -/
def startOn (cfg : Config) (port : Port) (net : NetSnapshot) (proto : Proto) (reading : Reading) :
    Lifecycle × Except StartError (Nat × AttemptCtx) :=
  match l.owned.forIdentity port net.gateway with
  | none => l.startRule port net proto reading
  | some e =>
    if e.reserved then ({ l with retryWanted := true }, .error .busy)
    else if cfg.protos.has e.rule.proto then l.startRule port net e.rule.proto reading
    else (l, .error .busy)

/-- `map_started`; `allowed` is the shared policy's permission for LAN sends. -/
def mapStarted (cfg : Config) (allowed : Bool) (reading : Reading) :
    Lifecycle × Except StartError (Nat × AttemptCtx) :=
  let l := { l with retryWanted := false }
  let now := reading.now
  if l.phase != .running || !reading.hasRuntime then (l, .error .closed)
  else if l.disabled.isSome || !allowed then (l, .error .disabled)
  else
    match l.localPort, l.net with
    | none, _ => (l, .error .noLocalPort)
    | some _, none => (l, .error .noNetwork)
    | some port, some net =>
      if l.inflight.isSome || net.cap ∈ l.revoked || l.rebindPending then (l, .error .busy)
      else if !l.sched.mayStart now then ({ l with retryWanted := true }, .error .backoff)
      else
        let recentPmp := l.probe.sawPmp now
        let recentPcp := l.probe.sawPcp now
        let probedRecently := l.probe.lastProbeAt.any fun t => decide (now - t < recentProbe)
        if (!cfg.protos.pmp && !cfg.protos.pcp) ||
            (probedRecently && !recentPmp && !recentPcp) then
          ({ l with
              sched := (l.sched.noteStart now).noteFailure now .transient reading.backoff
              retryWanted := true }, .error .noServices)
        else
          let preferPcp := cfg.protos.pcp && (!cfg.protos.pmp || (!recentPmp && recentPcp))
          l.startOn cfg port net (if preferPcp then .pcp else .pmp) reading

end Start

section Network

variable (l : Lifecycle)

def networkLookupStarted : Lifecycle × NetGen :=
  ({ l with nextNetGen := l.nextNetGen + 1 }, l.nextNetGen)

/-- A gateway was validated. The same network keeps the mapping, whatever it is held for. -/
def networkValidated (gw : Gateway) (netGen : NetGen) (cap releaseCap : Cap) : Lifecycle :=
  let same := l.net.any fun n => n.gateway = gw
  let l := { l.revokeNet with net := none }
  let l :=
    if same then l
    else
      { l.invalidate .orphan with
        probe := .empty
        sched := l.sched.noteNetworkChange }
  let ids := (l.owned.entries.filter fun e => e.gateway = gw).map (·.id)
  { l with
    releaseCaps := ids.map (·, releaseCap) ++ l.releaseCaps.filter fun held => held.1 ∉ ids
    rebindPending := false
    net := some ⟨netGen, cap, releaseCap, gw⟩ }

def clockObserved (now wall : Nat) : Lifecycle × Option Nat :=
  let seen := l.lastClock.map fun (before, wallBefore) =>
    let mono := now - before
    if wallBefore ≤ wall then
      let real := wall - wallBefore
      (decide (clockSkew < max (real - mono) (mono - real)), real - mono)
    else (decide (clockSkew < wallBefore - wall + mono), 0)
  ({ l with lastClock := some (now, wall) },
    match seen with
    | some (true, slept) => some slept
    | _ => none)

/-- `clock_aged`; the flag says whether the trusted lease changed. -/
def clockAged (now : Instant) (slept : Nat) : Lifecycle × Bool :=
  let aged : Lifecycle := { l with
    probe := .empty
    mapping := l.mapping.map fun h => h.aged slept now }
  (if aged.mapping.any fun h => h.lease.expired now then aged.leaseExpired now else aged,
    l.mapping.isSome && slept != 0)

/-- `port_changed`; the flag says whether anything was invalidated. -/
def portChanged (port : Option Port) : Lifecycle × Bool :=
  if l.localPort = port then (l, false)
  else
    let had := l.localPort.isSome || l.mapping.isSome || l.inflight.isSome
    let l := { l with localPort := port }
    (if had then l.invalidate .orphan else l, had)

/-- A rebind to the same port keeps the mapping, until the network is validated again. -/
def rebindStarted (same : Bool) : Lifecycle :=
  let l := if same then l.cancelMapHandle else l
  { l.revokeNet with rebindPending := true }

def rebindFailed : Lifecycle :=
  { l with localPort := none }.invalidate .orphan

def probeCached (now : Instant) : Lifecycle :=
  { l with probe := { l.probe with lastProbeAt := some now } }

variable (r : ProbeReport)

/-- The reset check runs before the answer is recorded, since a reset clears the record. -/
def epochObserved (proto : Proto) (started : Instant) (gateway : Gateway) : Lifecycle :=
  match r.epoch proto with
  | none => l
  | some epoch => l.routerReset proto epoch started gateway

def pmpObserved (started now : Instant) (gateway : Gateway) : Lifecycle :=
  if r.pmp then
    let l := l.epochObserved r .pmp started gateway
    { l with probe := { l.probe with pmpSeenAt := some now, pmpPublicIp := r.pmpPublicIp } }
  else l

def pcpObserved (started now : Instant) (gateway : Gateway) : Lifecycle :=
  if r.pcp then
    let l := l.epochObserved r .pcp started gateway
    { l with probe := { l.probe with pcpSeenAt := some now } }
  else l

def probeObserved (want : ProtoSet) (started now : Instant) (gateway : Gateway) : Lifecycle :=
  let l := if want.pmp then l.pmpObserved r started now gateway else l
  let l := if want.pcp then l.pcpObserved r started now gateway else l
  let probe := { l.probe with lastProbeAt := some now }
  { l with probe := { probe with foundNothing := !probe.sawPmp now && !probe.sawPcp now } }

end Network

section Policy

variable (l : Lifecycle)

def policyDisabled (why : DisableReason) : Lifecycle :=
  if l.disabled = some why then l else { l with disabled := some why }.invalidate .orphan

/-- `policy_enabled`; the flag is the permission for LAN sends afterwards. -/
def policyEnabled (allowed : Bool) : Lifecycle × Bool :=
  if l.disabled.isSome then ({ l with disabled := none }, l.phase = .running || allowed)
  else (l, allowed)

def cleanupStarted (closing allowed : Bool) (now : Instant) : Lifecycle × List OwnedRule :=
  let l := { l with owned := l.owned.dropExpired now }
  if !allowed || l.phase != (if closing then .closing else .running) then (l, [])
  else
    let claim := l.owned.claimOrphans now closing
    ({ l with owned := claim.1 }, claim.2)

variable (id : RuleId) (closing : Bool)

def deleteValidationFailed (now : Instant) : Lifecycle :=
  { l with owned := if closing then l.owned.abandon id else l.owned.deferDelete id now }

/-- Whether the delete of a claimed entry may go on with a capability that was just validated. -/
def deleteAdmitted : Bool :=
  (closing || l.phase = .running) && (l.owned.get id).any fun e => e.releasable && e.deleting

def deleteValidated (cap : Cap) : Lifecycle :=
  { l with releaseCaps := (id, cap) :: l.releaseCaps.filter fun held => held.1 != id }

def deleteFenced : Lifecycle :=
  { l with owned := l.owned.abandon id }

def deleteFinished (acked : Bool) (now : Instant) : Lifecycle :=
  { l with owned := l.owned.finishDelete id acked now }

def cleanupCancelled (ids : List RuleId) : Lifecycle :=
  { l with owned := ids.foldl OwnedRules.unclaim l.owned }

def finalReleaseStarted (allowed : Bool) (now : Instant) : Lifecycle × List OwnedRule :=
  if allowed then
    let claim := l.owned.claimFinalReleases now
    ({ l with owned := claim.1 }, claim.2)
  else (l, [])

def closeStarted : Lifecycle :=
  if l.phase = .running then ({ l with phase := .closing }.invalidate .orphan).revokeNet else l

def closeFinished : Lifecycle :=
  if l.phase = .closing then
    { l with phase := .closed, owned := l.owned.requestFinalRelease }
  else l

def dropRequested : Lifecycle :=
  if l.phase = .closed then l
  else
    let l := ({ l with phase := .closed }.invalidate .orphan).revokeNet
    { l with owned := l.owned.requestFinalRelease }

end Policy

end Lifecycle

end TailscaleRs.Portmapper
