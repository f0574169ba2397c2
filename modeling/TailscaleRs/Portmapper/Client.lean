import TailscaleRs.Lib.Run
import TailscaleRs.Portmapper.Lifecycle

namespace TailscaleRs.Portmapper

open Register

/-- What was sent and what was answered, newest first. -/
inductive Note
  | mapSent (rule : RuleId) (at' : Instant)
  | granted (rule : RuleId) (limit : Instant) (gateway : Gateway) (proto : Proto) (epoch : Nat)
  | deleteSent (rule : RuleId) (at' : Instant)
  | probeSent (at' : Instant)
  deriving DecidableEq

inductive Request
  | publicAddress
  | map
  deriving DecidableEq

def Rule.requests : Rule → List Request
  | .pmp _ => [.publicAddress, .map]
  | .pcp _ _ => [.map]

inductive Outcome
  | committed
  | settled
  deriving DecidableEq

/-- A MAP attempt that holds its reservation: its task is running, or aborted and not yet gone. -/
structure Attempt where
  id : Nat
  ctx : AttemptCtx
  spawned : Instant
  lastSend : Option Instant
  /-- How its exchange ended, once the result was delivered. -/
  outcome : Option Outcome
  deriving DecidableEq

structure Probe where
  id : Nat
  generation : Nat
  cap : Cap
  gateway : Gateway
  want : ProtoSet
  started : Instant
  /-- When the probe's exchange began, which is no earlier than its reading of the clock. -/
  begun : Instant
  deriving DecidableEq

structure Lookup where
  id : Nat
  generation : Nat
  candidate : NetGen
  known : Option (Gateway × NetGen × Bool)
  deriving DecidableEq

inductive Found
  | nothing
  | gateway (gw : Gateway) (build : Option BindMode)
  deriving DecidableEq

inductive Discovery
  | unchanged
  | down
  | ready (gw : Gateway) (netGen : NetGen) (bindMode : BindMode)
  deriving DecidableEq

def Lookup.discover (lookup : Lookup) : Found → Discovery
  | .nothing => .down
  | .gateway gw build =>
    let ready (netGen : NetGen) : Discovery :=
      match build with
      | none => .down
      | some bindMode => .ready gw netGen bindMode
    match lookup.known with
    | none => ready lookup.candidate
    | some (old, netGen, valid) =>
      if old = gw then if valid then .unchanged else ready netGen
      else ready lookup.candidate

inductive ReleaseKind
  | cleanup (closing : Bool)
  | final
  deriving DecidableEq

/-- How far a release is with its first entry. -/
inductive Stage
  | next
  | validating (cap : Option Cap)
  | fencing
  | exchanging (cap : Cap)
  deriving DecidableEq

/-- A cleanup or a final release: the entries it still has to do, and those its finalizer gives
back. -/
structure Releasing where
  id : Nat
  kind : ReleaseKind
  rest : List OwnedRule
  stage : Stage
  guard : List RuleId
  deriving DecidableEq

namespace Releasing

def closing (op : Releasing) : Bool :=
  match op.kind with
  | .cleanup closing => closing
  | .final => true

/-- Go on with the next entry; the finalizer still gives this one back. -/
def skip (op : Releasing) : Releasing := { op with rest := op.rest.tail, stage := .next }

/-- The entry is settled: the finalizer leaves it alone. -/
def settled (op : Releasing) (id : RuleId) : Releasing :=
  { op.skip with guard := op.guard.filter fun other => other != id }

end Releasing

structure Endpoint where
  external : SocketAddr
  proto : Proto
  expiresAt : Instant
  deriving DecidableEq

def Held.endpoint (h : Held) : Endpoint := ⟨h.m.external, h.m.proto, h.lease.expiresAt⟩

structure Client where
  lc : Lifecycle
  /-- The shared policy's permission for LAN sends. -/
  allowed : Bool
  clock : Instant
  /-- The mapping in the published state. -/
  published : Option Endpoint
  attempts : List Attempt
  probes : List Probe
  lookups : List Lookup
  releases : List Releasing
  nextOp : Nat
  nextCap : Nat
  journal : List Note
  deriving DecidableEq

inductive Event
  | tick (by' : Nat)
  | denySends
  | disable (why : DisableReason)
  | enable
  | setLocalPort (port : Option Port)
  | rebindStarted (same : Bool)
  | rebindFailed
  | networkDown
  | lookupStart
  | lookupDone (id : Nat) (found : Found)
  | routeLost (cap : Cap)
  | checkClock (now wall : Nat)
  | expireIfDue (now : Instant)
  | getCached (now : Instant) (hasRuntime : Bool) (random : Option Nonce) (backoff : Nat)
  | probeStart (now : Instant)
  | probeSend (id : Nat)
  | probeDone (id : Nat) (report : Option ProbeReport) (now : Instant)
  | transmit (id : Nat) (index : Nat)
  | mapDone (id : Nat) (result : Except MapError MapReply) (now : Instant) (backoff : Nat)
  | mapFinish (id : Nat)
  | cleanupStart (closing : Bool) (now : Instant)
  | releaseCap (id : Nat) (build : Option BindMode)
  | deleteValidate (id : Nat) (now : Instant)
  | deleteFence (id : Nat)
  | deleteSend (id : Nat)
  | deleteDone (id : Nat) (acked : Bool) (now : Instant)
  | finalStart (now : Instant)
  | finalSend (id : Nat)
  | releaseFinish (id : Nat)
  | closeStart
  | closeFinish
  | dropRequested

namespace Client

def new : Client where
  lc := .new
  allowed := true
  clock := 0
  published := none
  attempts := []
  probes := []
  lookups := []
  releases := []
  nextOp := 0
  nextCap := 0
  journal := []

section Sections

variable (c : Client)

/-- `snapshot` and `publish`: a mapping is not shown while a rebind is pending. -/
def publish : Client :=
  { c with
    published := (c.lc.mapping.filter fun _ => !c.lc.rebindPending).map Held.endpoint }

/-- The final check of a send, and the send, hold the permit that an invalidation needs. -/
def gate (cap : Cap) : Bool := c.allowed && cap ∉ c.lc.revoked

def note (entry : Note) : Client := { c with journal := entry :: c.journal }

variable (id : Nat)

def attempt : Option Attempt := find Attempt.id c.attempts id
def releasing : Option Releasing :=
  find Releasing.id c.releases id

def amendRelease (f : Releasing → Releasing) : Client :=
  { c with releases := alter Releasing.id c.releases id f }

def setLocalPort (port : Option Port) : Client :=
  let changed := c.lc.portChanged port
  let c := { c with lc := changed.1 }
  if changed.2 then c.publish else c

def lookupStart : Client :=
  if c.lc.phase = .running then
    let started := c.lc.networkLookupStarted
    { c with
      lc := started.1
      lookups := c.lookups ++
        [⟨c.nextOp, c.lc.generation, started.2,
          c.lc.net.map fun n => (n.gateway, n.netGen, n.cap ∉ c.lc.revoked)⟩]
      nextOp := c.nextOp + 1 }
  else c

def lookupDone (found : Found) : Client :=
  match find Lookup.id c.lookups id with
  | none => c
  | some lookup =>
    let c := { c with lookups := drop Lookup.id c.lookups id }
    if c.lc.phase != .running || c.lc.generation != lookup.generation then c
    else
      match lookup.discover found with
      | .unchanged => c
      | .down => if c.lc.net.isSome then { c with lc := c.lc.networkDown }.publish else c
      | .ready gw netGen bindMode =>
        { c with
          lc := c.lc.networkValidated gw netGen ⟨c.nextCap, bindMode⟩ ⟨c.nextCap + 1, bindMode⟩
          nextCap := c.nextCap + 2 }.publish

def checkClock (now wall : Nat) : Client :=
  let observed := c.lc.clockObserved now wall
  match observed.2 with
  | none => { c with lc := observed.1 }
  | some slept =>
    let aged := observed.1.clockAged now slept
    let c := { c with lc := aged.1 }
    if aged.2 then c.publish else c

variable (now : Instant)

def expireIfDue : Client :=
  if c.lc.mapping.any fun h => h.lease.expired now then
    { c with lc := c.lc.leaseExpired now }.publish
  else c

variable (cfg : Config)

def maybeStart (c : Client) (reading : Lifecycle.Reading) : Client :=
  match c.lc.mapStarted cfg c.allowed reading with
  | (lc, .error _) => { c with lc }
  | (lc, .ok (id, ctx)) =>
    { c with lc, attempts := c.attempts ++ [⟨id, ctx, c.clock, none, none⟩] }

def getCached (c : Client) (now : Instant) (hasRuntime : Bool) (random : Option Nonce)
    (backoff : Nat) : Client :=
  let c := c.expireIfDue now
  if c.lc.rebindPending then c
  else if c.lc.mapping.all fun h => h.lease.renewDue now then
    maybeStart cfg c ⟨now, c.clock, hasRuntime, random, backoff⟩
  else c

def probeStart (c : Client) (now : Instant) : Client :=
  if c.lc.phase != .running || c.lc.disabled.isSome || !c.allowed then c
  else
    match c.lc.net with
    | none => c
    | some net =>
      let want : ProtoSet :=
        ⟨cfg.protos.pmp && !c.lc.probe.sawPmp now, cfg.protos.pcp && !c.lc.probe.sawPcp now⟩
      if !want.pmp && !want.pcp then { c with lc := c.lc.probeCached now }
      else if c.lc.probe.foundNothing && !c.lc.sched.mayStart now then c
      else
        { c with
          probes := c.probes ++
            [⟨c.nextOp, c.lc.generation, net.cap, net.gateway, want, now, c.clock⟩]
          nextOp := c.nextOp + 1 }

def probeSend : Client :=
  match find Probe.id c.probes id with
  | none => c
  | some probe => if c.gate probe.cap then c.note (.probeSent c.clock) else c

def probeDone (report : Option ProbeReport) (now : Instant) : Client :=
  match find Probe.id c.probes id with
  | none => c
  | some probe =>
    let c := { c with probes := drop Probe.id c.probes id }
    match report with
    | none => c
    | some r =>
      if probe.generation != c.lc.generation || c.lc.phase != .running ||
          c.lc.disabled.isSome then c
      else
        { c with
          lc := c.lc.probeObserved r probe.want probe.started now probe.gateway }.publish

variable (a : Attempt)

def transmitted (index : Nat) (request : Request) : Client :=
  { c with
    lc := { c.lc with owned := c.lc.owned.enter a.ctx.ruleId index c.clock }
    attempts := alter Attempt.id c.attempts a.id fun a =>
      if request = .map then { a with lastSend := some c.clock } else a
    journal :=
      if request = .map then .mapSent a.ctx.ruleId c.clock :: c.journal else c.journal }

def transmit (index : Nat) : Client :=
  match c.attempt id with
  | none => c
  | some a =>
    match a.ctx.rule.requests[index]? with
    | none => c
    | some request =>
      if a.outcome.isNone && c.gate a.ctx.cap then c.transmitted a index request else c

def grantOf : Except MapError MapReply → Option MapReply
  | .ok reply => some reply
  | .error e => e.grant

variable (result : Except MapError MapReply)

def grantNotes (now : Instant) : List Note :=
  (grantOf result).toList.map fun reply =>
    .granted a.ctx.ruleId (leaseDeadline now reply.lifetime) a.ctx.gateway a.ctx.rule.proto
      reply.epoch

def delivered (now : Instant) (backoff : Nat) : Client :=
  let ended (lc : Lifecycle) (outcome : Outcome) : Client :=
    { c with
      lc
      attempts := alter Attempt.id c.attempts a.id fun a =>
        { a with outcome := some outcome }
      journal := grantNotes a result now ++ c.journal }
  match result with
  | .ok reply =>
    let success := c.lc.mapSuccess a.ctx (reply.mapping a.ctx.rule) now
    if success.2 then (ended success.1 .committed).publish else ended success.1 .settled
  | .error e => ended (c.lc.mapRefused a.ctx e now backoff) .settled

/-- `run_attempt` reads the clock once its exchange is over. -/
def mapDone (now : Instant) (backoff : Nat) : Client :=
  match c.attempt id with
  | none => c
  | some a =>
    if a.outcome.isNone && decide (a.spawned ≤ now) && a.lastSend.all (· ≤ now) then
      c.delivered a result now backoff
    else c

def mapFinish : Client :=
  match c.attempt id with
  | none => c
  | some a =>
    { c with
      lc := c.lc.mapFinished id a.ctx.ruleId
      attempts := drop Attempt.id c.attempts id }

def release (kind : ReleaseKind) (claimed : List OwnedRule) : Client :=
  { c with
    releases := c.releases ++ [⟨c.nextOp, kind, claimed, .next, claimed.map (·.id)⟩]
    nextOp := c.nextOp + 1 }

def cleanupStart (closing : Bool) (now : Instant) : Client :=
  let started := c.lc.cleanupStarted closing c.allowed now
  let c := { c with lc := started.1 }
  if started.2.isEmpty then c else c.release (.cleanup closing) started.2

/-- Get the capability for the next delete: a cleanup builds a new one, a closing client and a
final release use the one they kept, if it is still good. -/
def releaseCap (build : Option BindMode) : Client :=
  match c.releasing id with
  | none => c
  | some op =>
    match op.stage, op.rest with
    | .next, e :: _ =>
      if op.closing then
        let kept := ((c.lc.releaseCaps.find? (·.1 = e.id)).map Prod.snd).filter
          fun cap => cap ∉ c.lc.revoked
        c.amendRelease id fun op => { op with stage := .validating kept }
      else
        let built := build.map fun bindMode => (⟨c.nextCap, bindMode⟩ : Cap)
        { c with nextCap := c.nextCap + 1 }.amendRelease id fun op =>
          { op with stage := .validating built }
    | _, _ => c

def deleteValidate : Client :=
  match c.releasing id with
  | none => c
  | some op =>
    match op.kind, op.stage, op.rest with
    | .cleanup closing, .validating none, e :: _ =>
      { c with lc := c.lc.deleteValidationFailed e.id closing now }.amendRelease id
        fun op => op.settled e.id
    | .cleanup closing, .validating (some cap), e :: _ =>
      if c.lc.deleteAdmitted e.id closing then
        { c with lc := c.lc.deleteValidated e.id cap }.amendRelease id fun op =>
          { op with
            stage := if closing && cap.bindMode = BindMode.sourceIp then .fencing
              else .exchanging cap }
      else c.amendRelease id Releasing.skip
    | _, _, _ => c

def deleteFence : Client :=
  match c.releasing id with
  | none => c
  | some op =>
    match op.stage, op.rest with
    | .fencing, e :: _ =>
      { c with lc := c.lc.deleteFenced e.id }.amendRelease id Releasing.skip
    | _, _ => c

def deleteSend : Client :=
  match c.releasing id with
  | none => c
  | some op =>
    match op.stage, op.rest with
    | .exchanging cap, e :: _ =>
      if c.gate cap then c.note (.deleteSent e.id c.clock) else c
    | _, _ => c

def deleteDone (acked : Bool) (now : Instant) : Client :=
  match c.releasing id with
  | none => c
  | some op =>
    match op.stage, op.rest with
    | .exchanging _, e :: _ =>
      { c with lc := c.lc.deleteFinished e.id acked now }.amendRelease id fun op =>
        op.settled e.id
    | _, _ => c

def finalStart : Client :=
  let started := c.lc.finalReleaseStarted c.allowed now
  let c := { c with lc := started.1 }
  if started.2.isEmpty then c else c.release .final started.2

def finalSend : Client :=
  match c.releasing id with
  | none => c
  | some op =>
    match op.kind, op.stage, op.rest with
    | .final, .validating cap, e :: _ =>
      let c := if cap.any c.gate then c.note (.deleteSent e.id c.clock) else c
      c.amendRelease id Releasing.skip
    | _, _, _ => c

def releaseFinish : Client :=
  match c.releasing id with
  | none => c
  | some op =>
    { c with
      lc := c.lc.cleanupCancelled op.guard
      releases := drop Releasing.id c.releases id }

end Sections

/-- A section under the state lock, a datagram handed to a socket, or time passing; an operation
that is cancelled between two steps leaves its finalizer. -/
def step (cfg : Config) (c : Client) : Event → Client
  | .tick by' => { c with clock := c.clock + by' }
  | .denySends => { c with allowed := false }
  | .disable why =>
    if c.lc.disabled = some why then c
    else { c with lc := c.lc.policyDisabled why }.publish
  | .enable =>
    if c.lc.disabled.isSome then
      let enabled := c.lc.policyEnabled c.allowed
      { c with lc := enabled.1, allowed := enabled.2 }.publish
    else c
  | .setLocalPort port => c.setLocalPort port
  | .rebindStarted same => { c with lc := c.lc.rebindStarted same }.publish
  | .rebindFailed => { c with lc := c.lc.rebindFailed }.publish
  | .networkDown => { c with lc := c.lc.networkDown }.publish
  | .lookupStart => c.lookupStart
  | .lookupDone id found => c.lookupDone id found
  | .routeLost cap => { c with lc := { c.lc with revoked := cap :: c.lc.revoked } }
  | .checkClock now wall => if now ≤ c.clock then c.checkClock now wall else c
  | .expireIfDue now => if now ≤ c.clock then c.expireIfDue now else c
  | .getCached now hasRuntime random backoff =>
    if now ≤ c.clock then getCached cfg c now hasRuntime random backoff else c
  | .probeStart now => if now ≤ c.clock then probeStart cfg c now else c
  | .probeSend id => c.probeSend id
  | .probeDone id report now => if now ≤ c.clock then c.probeDone id report now else c
  | .transmit id index => c.transmit id index
  | .mapDone id result now backoff => if now ≤ c.clock then c.mapDone id result now backoff else c
  | .mapFinish id => c.mapFinish id
  | .cleanupStart closing now => if now ≤ c.clock then c.cleanupStart closing now else c
  | .releaseCap id build => c.releaseCap id build
  | .deleteValidate id now => if now ≤ c.clock then c.deleteValidate id now else c
  | .deleteFence id => c.deleteFence id
  | .deleteSend id => c.deleteSend id
  | .deleteDone id acked now => if now ≤ c.clock then c.deleteDone id acked now else c
  | .finalStart now => if now ≤ c.clock then c.finalStart now else c
  | .finalSend id => c.finalSend id
  | .releaseFinish id => c.releaseFinish id
  | .closeStart => if c.lc.phase = .running then { c with lc := c.lc.closeStarted }.publish else c
  | .closeFinish => { c with lc := c.lc.closeFinished }
  | .dropRequested =>
    if c.lc.phase = .closed then c else { c with lc := c.lc.dropRequested }.publish

end Client

def lan : Gateway := ⟨1, 2, 24, 4, "en0"⟩

def pmpOnly : Config := ⟨⟨true, false⟩, 7200⟩

/-- A port, a network and a first mapping that is granted for `lifetime`. -/
def bringUp (lifetime : Nat) : List Event :=
  [.setLocalPort (some ⟨41641, by decide⟩), .lookupStart,
    .lookupDone 0 (.gateway lan (some .interface)), .getCached 0 true none 0, .transmit 0 0,
    .transmit 0 1, .mapDone 0 (.ok ⟨⟨9, 7000⟩, lifetime, 100⟩) 0 0, .mapFinish 0]

end TailscaleRs.Portmapper
