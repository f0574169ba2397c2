import TailscaleRs.Control.Node
import TailscaleRs.Lib.KeyedMap
import TailscaleRs.Lib.Selection
import TailscaleRs.Time.Scheduler

namespace TailscaleRs.Magicsock

open Net (IpAddr)
open Control (SocketAddr)
open Time (Instant Duration fromMillis fromSecs)

abbrev DiscoPublicKey : Type := Bytes

abbrev NodePublicKey : Type := Bytes

abbrev TxId : Type := BitVec 96

def trustDuration : Duration := fromMillis 6500
def refreshBeforeExpiry : Duration := fromMillis 3500
def pingTimeout : Duration := fromSecs 5
def discoPingInterval : Duration := fromSecs 5
def goodEnoughLatency : Duration := fromMillis 5
def upgradeUdpDirectInterval : Duration := fromSecs 60
def sessionActiveTimeout : Duration := fromSecs 45
def maxLearnedCandidatesPerPeer : Nat := 32

/-- By how many percent one latency is below the other. -/
def fasterBy (fast slow : Duration) : Int :=
  100 - if fast * 100 / slow < 2 ^ 63 then fast * 100 / slow else 100

def kindPoints (ip : IpAddr) : Int :=
  (if ip.isLoopback then 50 else if ip.isLinkLocal then 30 else if ip.isPrivate then 20 else 0) +
    if ip.isIpv4 then 0 else 10

/-- `better_addr`: whether the first path is better than the second. -/
def betterAddr (a b : SocketAddr × Duration) : Bool :=
  if a.1 = b.1 then false
  else
    let slower := b.2 < a.2 && a.2 ≠ 0
    let aPoints := (if !slower && b.2 ≠ 0 then fasterBy a.2 b.2 else 0) + kindPoints a.1.ip
    let bPoints := (if slower then fasterBy b.2 a.2 else 0) + kindPoints b.1.ip
    if aPoints ≤ 1 && bPoints = 0 then false else bPoints < aPoints

inductive CandidateSource
  | netmap
  | learned
  deriving DecidableEq

structure Candidate where
  latency : Option Duration := none
  source : CandidateSource := .learned
  lastPing : Option Instant := none
  lastLearned : Option Instant := none
  deriving DecidableEq

structure InFlight where
  target : SocketAddr
  sent : Instant
  deriving DecidableEq

structure LearnedCandidates where
  accepted : List SocketAddr := []
  evicted : List SocketAddr := []
  deriving DecidableEq

structure PeerPaths where
  candidates : KeyedMap SocketAddr Candidate := ∅
  inFlight : KeyedMap TxId InFlight := ∅
  best : Option SocketAddr := none
  trustUntil : Option Instant := none
  lastFullPing : Option Instant := none
  heartbeatDisabled : Bool := false
  lastActive : Option Instant := none
  deriving DecidableEq

namespace PeerPaths

variable (pp : PeerPaths) (now : Instant)

def bestAddr : Option SocketAddr :=
  match pp.trustUntil with
  | some until' => if now ≤ until' then pp.best else none
  | none => none

section Learning

def learnedCandidateCount : Nat :=
  (pp.candidates.entries.filter fun entry => entry.2.source = .learned).length

/-- The place of an address in the order of `SocketAddr`. -/
def addrRank (addr : SocketAddr) : Nat :=
  ((if addr.ip.isIpv4 then 0 else 2 ^ 128) +
    addr.ip.octets.foldl (fun n octet => n * 256 + octet.toNat) 0) * 2 ^ 16 + addr.port.toNat

/-- A candidate that was never stamped comes before every stamped one. -/
def stampRank (candidate : Candidate) : Nat :=
  match candidate.lastLearned with
  | none => 0
  | some t => t + 1

/-- The order of `min_by_key(|(addr, c)| (c.last_learned, **addr))`. -/
def staler (a b : Σ _ : SocketAddr, Candidate) : Prop :=
  stampRank a.2 < stampRank b.2 ∨ stampRank a.2 = stampRank b.2 ∧ addrRank a.1 < addrRank b.1

instance stalerDecidable : DecidableRel staler := fun _ _ =>
  inferInstanceAs (Decidable (_ ∨ _ ∧ _))

variable (namedNow : List SocketAddr)

/-- A learned candidate that may be evicted by a message that names these addresses. -/
def evictable (addr : SocketAddr) (candidate : Candidate) : Bool :=
  candidate.source = .learned && pp.best ≠ some addr && addr ∉ namedNow

def stalestEvictableLearned : Option SocketAddr :=
  (Selection.pick staler
    (pp.candidates.entries.filter fun entry => pp.evictable namedNow entry.1 entry.2)).map (·.1)

variable (source : CandidateSource) (now : Instant)

/-- `candidates.entry(ep).or_default()`, and the stamp of its source. -/
def nameCandidate (ep : SocketAddr) : PeerPaths :=
  { pp with
    candidates := pp.candidates.upsert ep {} fun candidate =>
      match source with
      | .netmap => { candidate with source := .netmap }
      | .learned => { candidate with lastLearned := some now } }

def evict (stalest : SocketAddr) : PeerPaths :=
  { pp with
    candidates := pp.candidates.erase stalest
    inFlight := pp.inFlight.retain fun _ inflight => inflight.target ≠ stalest }

def addCandidate (endpoints : List SocketAddr) (acc : PeerPaths × LearnedCandidates)
    (ep : SocketAddr) : PeerPaths × LearnedCandidates :=
  if source = .learned ∧ ep ∉ acc.1.candidates ∧
      maxLearnedCandidatesPerPeer ≤ acc.1.learnedCandidateCount then
    match acc.1.stalestEvictableLearned endpoints with
    | none => acc
    | some stalest =>
      ((acc.1.evict stalest).nameCandidate source now ep,
        ⟨acc.2.accepted ++ [ep], acc.2.evicted ++ [stalest]⟩)
  else
    (acc.1.nameCandidate source now ep, { acc.2 with accepted := acc.2.accepted ++ [ep] })

variable (endpoints : List SocketAddr)

def addCandidates (source : CandidateSource) (now : Instant) : PeerPaths × LearnedCandidates :=
  endpoints.foldl (addCandidate source now endpoints) (pp, {})

def addLearnedCandidatesAt (now : Instant) : PeerPaths × LearnedCandidates :=
  pp.addCandidates endpoints .learned now

end Learning

def setHeartbeatDisabled (disabled : Bool) : PeerPaths :=
  { pp with heartbeatDisabled := disabled }

/-- Under silent disco, a packet from the best address extends its trust. -/
def noteRecvActivity (src : SocketAddr) (now : Instant) : PeerPaths :=
  if pp.heartbeatDisabled ∧ pp.best = some src then
    { pp with trustUntil := some (now + trustDuration) }
  else pp

def isActive : Bool :=
  match pp.lastActive with
  | none => false
  | some t => now - t ≤ sessionActiveTimeout

/-- With whether the peer was idle until now. -/
def noteActive : PeerPaths × Bool :=
  ({ pp with lastActive := some ((pp.lastActive.map fun t => max t now).getD now) },
    !pp.isActive now)

section Invalidation

/-- After a rebind: the candidates stay, what was confirmed over the old socket does not. -/
def invalidateBest : PeerPaths :=
  { pp with best := none, trustUntil := none, inFlight := ∅ }

/-- After a change of the peer's disco key: the best address stays, but nothing is trusted or
measured. -/
def invalidateDiscoPath : PeerPaths :=
  { pp with
    trustUntil := none
    inFlight := ∅
    lastFullPing := none
    candidates := KeyedMap.mapVal
      (fun candidate : Candidate =>
        { source := candidate.source, lastLearned := candidate.lastLearned }) pp.candidates }

variable (endpoints : List SocketAddr)

/-- A candidate stays unless control advertised it and does so no longer. -/
def kept (addr : SocketAddr) (candidate : Candidate) : Bool :=
  candidate.source ≠ .netmap || addr ∈ endpoints

/-- The candidate set of `reconcile_netmap_candidates`. -/
def reconciled : KeyedMap SocketAddr Candidate :=
  endpoints.foldl
    (fun candidates ep => KeyedMap.upsert candidates ep {} fun candidate =>
      { candidate with source := .netmap })
    (pp.candidates.retain (kept endpoints))

/-- With the addresses that were removed. -/
def reconcileNetmapCandidates : PeerPaths × List SocketAddr :=
  let candidates := pp.reconciled endpoints
  let pruned := pp.best.any fun best => best ∉ candidates
  ({ pp with
      candidates
      best := if pruned then none else pp.best
      trustUntil := if pruned then none else pp.trustUntil
      inFlight := pp.inFlight.retain fun _ inflight => inflight.target ∈ candidates },
    (pp.candidates.entries.filter fun entry => !kept endpoints entry.1 entry.2).map (·.1))

end Invalidation

def candidateAddrs : List SocketAddr := pp.candidates.keys

/-- The rungs of Go's `wantFullPingLocked`; the first that applies decides. -/
def wantFullPing : Bool :=
  match pp.bestAddr now, pp.lastFullPing with
  | none, _ => true
  | some _, none => true
  | some best, some lastFull =>
    let bestLatency := (pp.candidates.lookup best).bind (·.latency)
    if bestLatency.any (· ≤ goodEnoughLatency) then false
    else upgradeUdpDirectInterval ≤ now - lastFull

/-- Whether a candidate is pinged in this cycle. -/
def duePing (best : Option SocketAddr) (fullSweep : Bool) (now : Instant) (addr : SocketAddr)
    (candidate : Candidate) : Bool :=
  if some addr = best then true
  else if !fullSweep && candidate.lastPing.isSome then false
  else !candidate.lastPing.any fun t => now - t < discoPingInterval

def candidatesToPing : PeerPaths × List SocketAddr :=
  let best := if pp.heartbeatDisabled then none else pp.bestAddr now
  let fullSweep := pp.wantFullPing now
  ({ pp with lastFullPing := if fullSweep then some now else pp.lastFullPing },
    (pp.candidates.entries.filter fun entry => duePing best fullSweep now entry.1 entry.2).map
      (·.1))

def forcePingSweep : PeerPaths × List SocketAddr :=
  ({ pp with lastFullPing := some now }, pp.candidateAddrs)

def needsRefresh : Bool :=
  if pp.heartbeatDisabled then (pp.bestAddr now).isNone
  else
    match pp.trustUntil with
    | some until' => until' ≤ now + refreshBeforeExpiry
    | none => true

def pingsDue : PeerPaths × List SocketAddr :=
  if !pp.isActive now || !pp.needsRefresh now then (pp, []) else pp.candidatesToPing now

def notePingSent (txId : TxId) (target : SocketAddr) (sent : Instant) : PeerPaths :=
  { pp with
    inFlight :=
      (pp.inFlight.retain fun _ inflight => sent - inflight.sent < pingTimeout).insert txId
        ⟨target, sent⟩
    candidates := pp.candidates.upsert target {} fun candidate =>
      { candidate with lastPing := some sent } }

def currentBest : Option (SocketAddr × Duration) :=
  pp.best.bind fun addr =>
    ((pp.candidates.lookup addr).bind (·.latency)).map fun rtt => (addr, rtt)

/-- The address that just ponged against the best one. -/
def recomputeBest (confirmed : SocketAddr) : PeerPaths :=
  match (pp.candidates.lookup confirmed).bind (·.latency) with
  | none => pp
  | some latency =>
    let bestUntrusted := (pp.bestAddr now).isNone
    let better := pp.currentBest.all fun current => betterAddr (confirmed, latency) current
    let best := if bestUntrusted || better then some confirmed else pp.best
    { pp with
      best
      trustUntil := if best = some confirmed then some (now + trustDuration) else pp.trustUntil }

/-- With the latency, if the transaction was in flight. -/
def notePong (txId : TxId) (now : Instant) : PeerPaths × Option Duration :=
  match pp.inFlight.lookup txId with
  | none => (pp, none)
  | some inflight =>
    let latency := now - inflight.sent
    let measured : PeerPaths :=
      { pp with
        inFlight := pp.inFlight.erase txId
        candidates := pp.candidates.upsert inflight.target {} fun candidate =>
          { candidate with latency := some latency } }
    (measured.recomputeBest now inflight.target, some latency)

end PeerPaths

end TailscaleRs.Magicsock
