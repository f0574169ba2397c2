import Mathlib.Logic.Function.Basic
import TailscaleRs.Tunnel.Handshake

namespace TailscaleRs.Tunnel

open Function
open Time (Instant Duration)

def maxQueuedPerPeer : Nat := 32

/-- A bounded packet queue that drops its oldest packets when full. -/
structure Queue where
  packets : List Bytes
  bounded : packets.length ≤ maxQueuedPerPeer

def Queue.empty : Queue := ⟨[], Nat.zero_le maxQueuedPerPeer⟩

def Queue.append (queue : Queue) (packets : List Bytes) : Queue where
  packets :=
    let newPackets := min packets.length maxQueuedPerPeer
    let dropIncoming := packets.length - newPackets
    let keepQueued := maxQueuedPerPeer - newPackets
    let dropQueued := queue.packets.length - keepQueued
    queue.packets.drop dropQueued ++ packets.drop dropIncoming
  bounded := by
    have held := queue.bounded
    simp only [List.length_append, List.length_drop]
    omega

def Queue.newWith (packets : List Bytes) : Queue := Queue.empty.append packets

/-- Session ids and node keys in use, each with its peer. -/
structure IdMap where
  sessions : SessionId → Option PeerId
  nodeKeys : Bytes → Option PeerId

namespace IdMap

def empty : IdMap := ⟨fun _ => none, fun _ => none⟩

variable (ids : IdMap)

/-- `None` if the key is already in use. -/
def addPeer (id : PeerId) (key : Bytes) : Option IdMap :=
  if (ids.nodeKeys key).isSome then none
  else some { ids with nodeKeys := update ids.nodeKeys key (some id) }

/-- The first unused of the ids drawn at random, and the draws after it. -/
def firstVacant (ids : IdMap) : List SessionId → Option (SessionId × List SessionId)
  | [] => none
  | id :: rest =>
    match ids.sessions id with
    | none => some (id, rest)
    | some _ => ids.firstVacant rest

def allocateSession (peer : PeerId) (drawn : List SessionId) :
    Except Halt (IdMap × SessionId × List SessionId) :=
  match ids.firstVacant drawn with
  | none => .error .starved
  | some (id, rest) =>
    .ok ({ ids with sessions := update ids.sessions id (some peer) }, id, rest)

/-- Panics if the id isn't currently in use. -/
def removeSession (id : SessionId) : Except Halt IdMap :=
  match ids.sessions id with
  | none => .error .removeSession
  | some _ => .ok { ids with sessions := update ids.sessions id none }

def removeSessions (gone : List SessionId) : Except Halt IdMap :=
  gone.foldlM removeSession ids

/-- Frees the in-flight initiation's id and the tentative responder's id. -/
def removeHandshakeSession (handshake : Handshake) : Except Halt IdMap :=
  ids.removeSessions (handshake.initiatedSessionId.toList ++ handshake.respondedSessionId.toList)

/-- Panics if no peer uses the key. -/
def removePeer (key : Bytes) : Except Halt IdMap :=
  match ids.nodeKeys key with
  | none => .error .removePeer
  | some _ => .ok { ids with nodeKeys := update ids.nodeKeys key none }

end IdMap

structure ActiveSession where
  recv : ReceiveSession
  recvPrev : Option ReceiveSession
  send : TransmitSession
  isInitiator : Bool
  lastMinuteHandshakeSent : Bool

inductive SessionState where
  | none (queue : Queue)
  | active (session : ActiveSession)

inductive RecvSlot where
  | current
  | previous

namespace SessionState

variable (W : WgCrypto)

/-- Existing sessions are rotated; packets queued for the session come back sealed. -/
def activate (ids : IdMap) (next : SessionPair) (isInitiator : Bool) :
    SessionState → Except Halt (SessionState × IdMap × List Bytes)
  | .none queue =>
    let (send, ret) := next.send.encrypt W queue.packets
    .ok (.active ⟨next.recv, .none, send, isInitiator, false⟩, ids, ret)
  | .active session => do
      let ids ← ids.removeSessions (session.recvPrev.toList.map ReceiveSession.id)
      return (.active ⟨next.recv, some session.recv, next.send, isInitiator, false⟩, ids, [])

variable (now : Instant)

/-- Whether packets received now are to trigger a rekey: only the initiator of a session
does so, once, when the session is old. -/
def receiveRekeyDue : SessionState → Bool
  | .none _ => false
  | .active session =>
    session.isInitiator && !session.lastMinuteHandshakeSent && session.send.needsReceiveRekey now

/-- A due rekey is reported once. -/
def keepKeyFreshReceiving : SessionState → SessionState × Bool
  | .none queue => (.none queue, false)
  | .active session =>
    if (SessionState.active session).receiveRekeyDue now then
      (.active { session with lastMinuteHandshakeSent := true }, true)
    else (.active session, false)

/-- The queue of a session that is not active is dropped too. -/
def deactivate (ids : IdMap) : SessionState → Except Halt (SessionState × IdMap)
  | .none _ => .ok (.none Queue.empty, ids)
  | .active session => do
      let ids ← ids.removeSessions
        (session.recv.id :: session.recvPrev.toList.map ReceiveSession.id)
      return (.none Queue.empty, ids)

/-- `encrypt_keepalive` and `encrypt_priority`: one message on the current keypair, nothing
if it cannot send. -/
def encryptOne (msg : Bytes) : SessionState → Option (SessionState × Bytes)
  | .none _ => .none
  | .active session =>
    if session.send.expired now then .none
    else
      let (send, packet) := session.send.encrypt W [msg]
      packet.getLast?.map (fun packet => (.active { session with send := send }, packet))

def encryptKeepalive : SessionState → Option (SessionState × Bytes) :=
  encryptOne W now []

def encryptPriority (msg : Bytes) : SessionState → Option (SessionState × Bytes) :=
  encryptOne W now msg

/-- Without a session that can send, the packets are queued and nothing is returned. -/
def encryptOrQueue (ids : IdMap) (packets : List Bytes) :
    SessionState → Except Halt (SessionState × IdMap × Option (List Bytes))
  | .none queue => .ok (.none (queue.append packets), ids, .none)
  | .active session =>
    if session.send.expired now then do
      let (_, ids) ← (SessionState.active session).deactivate ids
      return (.none (Queue.newWith packets), ids, .none)
    else
      let (send, packets) := session.send.encrypt W packets
      .ok (.active { session with send := send }, ids, some packets)

/-- The live receive session with the given id, and the slot it is in. -/
def getRecv (id : SessionId) : SessionState → Option (RecvSlot × ReceiveSession)
  | .none _ => .none
  | .active session =>
    if session.recv.id = id && !session.recv.expired now then some (.current, session.recv)
    else match session.recvPrev with
      | .none => .none
      | some prev =>
        if prev.id = id && !prev.expired now then some (.previous, prev) else .none

def putRecv (slot : RecvSlot) (recv : ReceiveSession) : SessionState → SessionState
  | .none queue => .none queue
  | .active session =>
    match slot with
    | .current => .active { session with recv := recv }
    | .previous => .active { session with recvPrev := some recv }

def needsRotation : SessionState → Bool
  | .none _ => true
  | .active session => session.send.stale now

end SessionState

open Time (Instant Duration Handle Scheduler TimeRange)

def keepaliveTimeout : Duration := Time.fromSecs 10
def rekeyTimeout : Duration := Time.fromSecs 5
def rekeyTimeoutJitterMaxMs : Nat := 334
def handshakeRetransmitCoalesce : Duration := Time.fromMillis 50
def underLoadInitiations : Nat := 128
def underLoadWindow : Duration := Time.fromSecs 1
def maxPriorityMessageContentSize : Nat := 512
def maxTimerHandshakes : Nat := 18

inductive Event where
  | handshakeTimeout (peer : PeerId)
  | maybeSendKeepalive (peer : PeerId)
  | persistentKeepalive (peer : PeerId)
  | newHandshakeTimeout (peer : PeerId)
  deriving DecidableEq, Repr

structure HandshakeLoad where
  window : Option (Instant × Nat)
  underLoadUntil : Option Instant

namespace HandshakeLoad

def default : HandshakeLoad := ⟨none, none⟩

def underLoad (load : HandshakeLoad) (now : Instant) : Bool :=
  match load.underLoadUntil with
  | none => false
  | some stop => now < stop

/-- Count one arriving initiation and report whether the endpoint is under load. -/
def recordInitiation (load : HandshakeLoad) (now : Instant) : HandshakeLoad × Bool :=
  let load := match load.window with
    | some (start, count) =>
      if now - start < underLoadWindow then
        { window := some (start, count + 1)
          underLoadUntil :=
            if underLoadInitiations ≤ count + 1 then some (now + underLoadWindow)
            else load.underLoadUntil }
      else { load with window := some (now, 1) }
    | none => { load with window := some (now, 1) }
  (load, load.underLoad now)

end HandshakeLoad

structure EndpointState where
  myKey : NodeKeyPair
  myCookie : MacReceiver
  cookies : CookieGenerator
  load : HandshakeLoad
  ids : IdMap
  timestamps : Tai64nClock
  scheduler : Scheduler Event

/-- What a call takes from the random source and the wall clock. -/
structure Draws where
  sessionIds : List SessionId
  ephemerals : List Bytes
  jitter : List UInt64
  wallClock : List Int
  cookieSecrets : List Bytes
  cookieNonces : List Bytes

/-- A packet that was opened for a peer and handed to the local side. -/
structure Delivery extends Opened where
  peer : PeerId

/-- What happens to receive sessions: one is created, or one delivers a message. -/
inductive Happening where
  | created (key : Bytes)
  | delivered (delivery : Delivery)

namespace Happening

def createdKey : Happening → Option Bytes
  | created key => some key
  | delivered _ => none

def delivery : Happening → Option Delivery
  | created _ => none
  | delivered delivery => some delivery

end Happening

section

variable (happened : List Happening)

def createdIn : List Bytes := happened.filterMap Happening.createdKey

def deliveredIn : List Delivery := happened.filterMap Happening.delivery

def payloadsIn (peer : PeerId) : List Bytes :=
  ((deliveredIn happened).filter (fun d => d.peer = peer)).map (fun d => d.payload)

end

section

variable (first second : List Happening)

theorem createdIn_append : createdIn (first ++ second) = createdIn first ++ createdIn second :=
  List.filterMap_append

theorem deliveredIn_append :
    deliveredIn (first ++ second) = deliveredIn first ++ deliveredIn second :=
  List.filterMap_append

theorem payloadsIn_append (peer : PeerId) :
    payloadsIn (first ++ second) peer = payloadsIn first peer ++ payloadsIn second peer := by
  simp [payloadsIn, deliveredIn_append]

end

/-- The sessions with these receive keys were created. -/
def creations (keys : List Bytes) : List Happening := keys.map Happening.created

def deliveries (peer : PeerId) (opened : List Opened) : List Happening :=
  opened.map (fun one => .delivered ⟨one, peer⟩)

theorem payloadsIn_creations (keys : List Bytes) (peer : PeerId) :
    payloadsIn (creations keys) peer = [] := by
  simp [payloadsIn, deliveredIn, creations, Happening.delivery, Function.comp_def]

theorem deliveredIn_deliveries (peer : PeerId) (opened : List Opened) :
    deliveredIn (deliveries peer opened) = opened.map (fun one => ⟨one, peer⟩) := by
  simp [deliveredIn, deliveries, Happening.delivery, Function.comp_def]

theorem payloadsIn_deliveries (peer other : PeerId) (opened : List Opened) :
    payloadsIn (deliveries peer opened) other =
      if other = peer then opened.map Opened.payload else [] := by
  rw [payloadsIn, deliveredIn_deliveries]
  split
  · case _ same =>
      rw [List.filter_eq_self.mpr (by simp [same]), List.map_map]
      rfl
  · case _ foreign =>
      rw [List.filter_eq_nil_iff.mpr (by simp [Ne.symm foreign])]
      rfl

/-- `SendResult`, `RecvResult` and `EventResult`: what a call hands back to its caller. Beside
it stands a record that the code does not keep, of what happened to the receive sessions. -/
structure Outbox where
  toPeers : PeerId → Option (List Bytes)
  toLocal : PeerId → Option (List Bytes)
  sessionsEstablished : List PeerId
  happened : List Happening
  heard : ∀ peer, (toLocal peer).getD [] = payloadsIn happened peer

namespace Outbox

def empty : Outbox := ⟨fun _ => none, fun _ => none, [], [], fun _ => rfl⟩

variable (out : Outbox) (peer : PeerId) (packets : List Bytes)

def queueToPeer : Outbox :=
  { out with
    toPeers := Function.update out.toPeers peer (some ((out.toPeers peer).getD [] ++ packets)) }

def queueToLocal (opened : List Opened) : Outbox :=
  { out with
    toLocal := update out.toLocal peer
      (some ((out.toLocal peer).getD [] ++ opened.map Opened.payload))
    happened := out.happened ++ deliveries peer opened
    heard := fun other => by
      rw [payloadsIn_append, payloadsIn_deliveries, ← out.heard]
      by_cases same : other = peer
      · subst same
        rw [update_self, if_pos rfl]
        rfl
      · rw [update_of_ne same, if_neg same, List.append_nil] }

def noteSessionEstablished : Outbox :=
  { out with sessionsEstablished := out.sessionsEstablished ++ [peer] }

def noteCreated (keys : List Bytes) : Outbox :=
  { out with
    happened := out.happened ++ creations keys
    heard := fun other => by
      rw [payloadsIn_append, payloadsIn_creations, List.append_nil, out.heard] }

end Outbox

structure Ctx where
  state : EndpointState
  draws : Draws
  out : Outbox

namespace Ctx

variable (ctx : Ctx)

def setIds (ids : IdMap) : Ctx := { ctx with state := { ctx.state with ids := ids } }

variable (peer : PeerId)

def allocateSession : Except Halt (Ctx × SessionId) := do
  let (ids, id, rest) ← ctx.state.ids.allocateSession peer ctx.draws.sessionIds
  return ({ ctx.setIds ids with draws := { ctx.draws with sessionIds := rest } }, id)

def schedule (when : TimeRange) (event : Event) : Ctx × Handle :=
  let (scheduler, handle) := ctx.state.scheduler.add when event
  ({ ctx with state := { ctx.state with scheduler := scheduler } }, handle)

def cancel (handle : Handle) : Ctx :=
  { ctx with state := { ctx.state with scheduler := ctx.state.scheduler.cancel handle } }

def cancelSlot (slot : Option Handle) : Ctx :=
  match slot with
  | none => ctx
  | some handle => ctx.cancel handle

def drawEphemeral : Ctx × Bytes :=
  ({ ctx with draws := { ctx.draws with ephemerals := ctx.draws.ephemerals.tail } },
    ctx.draws.ephemerals.headD [])

def drawJitter : Ctx × Duration :=
  ({ ctx with draws := { ctx.draws with jitter := ctx.draws.jitter.tail } },
    Time.fromMillis ((ctx.draws.jitter.headD 0).toNat % rekeyTimeoutJitterMaxMs))

/-- The next handshake timestamp, from a reading of the wall clock. -/
def timestamp : Ctx × Tai64n :=
  let (timestamps, stamp) := ctx.state.timestamps.now (ctx.draws.wallClock.headD 0)
  ({ ctx with
      state := { ctx.state with timestamps := timestamps }
      draws := { ctx.draws with wallClock := ctx.draws.wallClock.tail } }, stamp)

def queueToPeer (packets : List Bytes) : Ctx :=
  { ctx with out := ctx.out.queueToPeer peer packets }

def queueToLocal (opened : List Opened) : Ctx :=
  { ctx with out := ctx.out.queueToLocal peer opened }

def noteSessionEstablished : Ctx :=
  { ctx with out := ctx.out.noteSessionEstablished peer }

def noteCreated (keys : List Bytes) : Ctx := { ctx with out := ctx.out.noteCreated keys }

@[simp] theorem setIds_ids (ids : IdMap) : (ctx.setIds ids).state.ids = ids := rfl

@[simp] theorem cancelSlot_ids {slot : Option Handle} :
    (ctx.cancelSlot slot).state.ids = ctx.state.ids := by
  cases slot <;> rfl

end Ctx

end TailscaleRs.Tunnel
