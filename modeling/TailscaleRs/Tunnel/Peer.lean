import TailscaleRs.Tunnel.SessionState

namespace TailscaleRs.Tunnel

open Time (Instant Duration Handle TimeRange)

structure PeerConfig where
  key : Bytes
  psk : Bytes
  persistentKeepaliveInterval : Option Duration

/-- A zero interval means off. -/
def PeerConfig.effectivePersistentKeepalive (config : PeerConfig) : Option Duration :=
  match config.persistentKeepaliveInterval with
  | some interval => if interval = 0 then none else some interval
  | none => none

structure Peer where
  id : PeerId
  config : PeerConfig
  session : SessionState
  handshake : Handshake
  lastSeenTimestamp : Option Tai64n
  cookieSender : MacSender
  keepalive : Option Handle
  sendAnotherKeepalive : Bool
  persistentKeepalive : Option Handle
  newHandshake : Option Handle
  handshakeAttempts : Nat

namespace Peer

variable (W : WgCrypto)

def new (id : PeerId) (config : PeerConfig) : Peer where
  id := id
  config := config
  session := .none Queue.empty
  handshake := Handshake.none
  lastSeenTimestamp := none
  cookieSender := MacSender.new W config.key
  keepalive := none
  sendAnotherKeepalive := false
  persistentKeepalive := none
  newHandshake := none
  handshakeAttempts := 0

/-- The window of a handshake timer: it extends only forward from its target. -/
def handshakeWindow (target : Instant) : TimeRange :=
  ⟨target, target + handshakeRetransmitCoalesce, Nat.le_add_right _ _⟩

variable (now : Instant) (peer : Peer) (ctx : Ctx)

/-- Arm the "stopped hearing back" timer, unless it is already pending. -/
def armNewHandshake : Peer × Ctx :=
  match peer.newHandshake with
  | some _ => (peer, ctx)
  | none =>
    let (ctx, jitter) := ctx.drawJitter
    let target := now + (keepaliveTimeout + rekeyTimeout + jitter)
    let (ctx, handle) := ctx.schedule (handshakeWindow target) (.newHandshakeTimeout peer.id)
    ({ peer with newHandshake := some handle }, ctx)

def cancelNewHandshake : Peer × Ctx :=
  ({ peer with newHandshake := none }, ctx.cancelSlot peer.newHandshake)

def scheduleKeepalive : Peer × Ctx :=
  match peer.keepalive with
  | some _ => ({ peer with sendAnotherKeepalive := true }, ctx)
  | none =>
    let range := TimeRange.newAround (now + keepaliveTimeout) (Time.fromSecs 1)
    let (ctx, handle) := ctx.schedule range (.maybeSendKeepalive peer.id)
    ({ peer with keepalive := some handle }, ctx)

/-- The window of a persistent keepalive ends at the interval, with a small lead. -/
def persistentWindow (interval : Duration) : TimeRange :=
  let deadline := now + interval
  let lead := min (Time.fromSecs 1) (interval / 4)
  ⟨max (deadline - lead) now, deadline,
    Nat.max_le.mpr ⟨Nat.sub_le deadline lead, Nat.le_add_right now interval⟩⟩

/-- Replace the persistent-keepalive timer, if the peer has an interval for it. -/
def armPersistentKeepalive : Peer × Ctx :=
  match peer.config.effectivePersistentKeepalive with
  | none => (peer, ctx)
  | some interval =>
    let (ctx, handle) := ctx.schedule (persistentWindow now interval) (.persistentKeepalive peer.id)
    ({ peer with persistentKeepalive := some handle }, ctx.cancelSlot peer.persistentKeepalive)

def noteDataSent : Peer × Ctx :=
  let (peer, ctx) := peer.armPersistentKeepalive now ctx
  peer.armNewHandshake now ctx

/-- Send an initiation with the given session id and arm its timer. -/
def initiate (sessionId : SessionId) (peer : Peer) (ctx : Ctx) : Ctx × Initiation :=
  let (ctx, timestamp) := ctx.timestamp
  let (ctx, ephemeral) := ctx.drawEphemeral
  let (sent, unsigned) := initiateHandshake W ctx.state.myKey.secret peer.config.key sessionId
    timestamp ephemeral
  let (packet, mac1) := peer.cookieSender.writeMacs W now unsigned
  let (ctx, jitter) := (ctx.queueToPeer peer.id [packet]).drawJitter
  let (ctx, timeout) := ctx.schedule (handshakeWindow (now + (rekeyTimeout + jitter)))
    (.handshakeTimeout peer.id)
  (ctx, ⟨sent, timeout, mac1⟩)

variable (debug : Bool) (now : Instant)

/-- Callers are to run this with no initiation in flight. A retry keeps the give-up
counter. -/
def startHandshake (isRetry : Bool) (peer : Peer) (ctx : Ctx) : Except Halt (Peer × Ctx) := do
  let attempts := if isRetry then peer.handshakeAttempts else 0
  let (ctx, sessionId) ← ctx.allocateSession peer.id
  let (ctx, initiation) := peer.initiate W now sessionId ctx
  let handshake ← peer.handshake.setInitiated debug initiation
  return ({ peer with handshake := handshake, handshakeAttempts := attempts }, ctx)

/-- Sealed packets go out and arm the timers of a data send. -/
def queueSealed (peer : Peer) (ctx : Ctx) : Option (List Bytes) → Peer × Ctx
  | none => (peer, ctx)
  | some packets =>
    let (peer, ctx) := if packets = [] then (peer, ctx) else peer.noteDataSent now ctx
    (peer, ctx.queueToPeer peer.id packets)

def send (packets : List Bytes) (peer : Peer) (ctx : Ctx) : Except Halt (Peer × Ctx) := do
  let (session, ids, sealed) ← peer.session.encryptOrQueue W now ctx.state.ids packets
  let peer := { peer with session := session }
  let (peer, ctx) := peer.queueSealed now (ctx.setIds ids) sealed
  if peer.handshake.isActive then return (peer, ctx)
  else if !peer.session.needsRotation now then return (peer, ctx)
  else peer.startHandshake W debug now false ctx

/-- Nothing is queued and no handshake started for a message that cannot go out now. -/
def sendPriorityMessage (msg : Bytes) (peer : Peer) (ctx : Ctx) : Peer × Ctx × Bool :=
  if msg = [] then (peer, ctx, false)
  else if maxPriorityMessageContentSize < msg.length then (peer, ctx, false)
  else match peer.session.encryptPriority W now msg with
    | none => (peer, ctx, false)
    | some (session, packet) =>
      let peer := { peer with session := session }
      let (peer, ctx) := peer.noteDataSent now ctx
      (peer, ctx.queueToPeer peer.id [packet], true)

def recvCookieReply (packet : CookieReply) (peer : Peer) : Peer :=
  match peer.handshake.mac1 with
  | none => peer
  | some mac1 =>
    { peer with cookieSender := peer.cookieSender.receiveCookie W now packet mac1 }

/-- The packets that confirm a session we initiated: those that were queued, or one empty
packet. -/
def confirmation (session : SessionState) (ids : IdMap) (packets : List Bytes) :
    Except Halt (SessionState × IdMap × List Bytes) :=
  if packets = [] then do
    let (session, ids, sealed) ← session.encryptOrQueue W now ids [[]]
    match sealed with
    | none => .error .sessionJustActivated
    | some sealed => .ok (session, ids, sealed)
  else .ok (session, ids, packets)

def recvHandshakeResponse (packet : HandshakeResponse) (peer : Peer) (ctx : Ctx) :
    Except Halt (Peer × Ctx) :=
  match peer.handshake.finish W packet peer.config.psk ctx.state.myCookie now with
  | none => .ok (peer, ctx)
  | some (handshake, next, timeout) => do
      let peer := { peer with handshake := handshake, handshakeAttempts := 0 }
      let (peer, ctx) := peer.cancelNewHandshake (ctx.cancel timeout)
      let (session, ids, packets) ← peer.session.activate W ctx.state.ids next true
      let (session, ids, packets) ← confirmation W now session ids packets
      let peer := { peer with session := session }
      let ctx := (ctx.setIds ids).noteCreated [next.recv.key]
      let (peer, ctx) := peer.armPersistentKeepalive now ctx
      return (peer, (ctx.queueToPeer peer.id packets).noteSessionEstablished peer.id)

/-- Authentic payloads go up, and may arm the reactive keepalive. -/
def deliver (arm : Bool) (opened : List Opened) (peer : Peer) (ctx : Ctx) : Peer × Ctx :=
  let (peer, ctx) := peer.cancelNewHandshake ctx
  let ctx := ctx.queueToLocal peer.id opened
  if arm then peer.scheduleKeepalive now ctx else (peer, ctx)

/-- What follows from authentic packets on an established session. Only data arms the
keepalive. The handshake that an old session of ours starts here does not look whether one
is in flight. -/
def recvAuthenticated (opened : List Opened) (peer : Peer) (ctx : Ctx) :
    Except Halt (Peer × Ctx) :=
  let dataReceived := opened.any (fun one => one.payload ≠ [])
  let (peer, ctx) := peer.deliver now dataReceived opened ctx
  let (session, due) := peer.session.keepKeyFreshReceiving now
  let peer := { peer with session := session }
  if due then peer.startHandshake W debug now false ctx
  else .ok (peer, ctx)

/-- A tentative session that its first transport message confirmed becomes the current
one. -/
def recvConfirmed (session : SessionPair) (opened : List Opened) (peer : Peer) (ctx : Ctx) :
    Except Halt (Peer × Ctx) := do
  let (peer, ctx) := peer.deliver now true opened ctx
  let (session, ids, packets) ← peer.session.activate W ctx.state.ids session false
  let peer := { peer with session := session }
  let (peer, ctx) := peer.armPersistentKeepalive now (ctx.setIds ids)
  let ctx := if packets = [] then ctx else ctx.queueToPeer peer.id packets
  return (peer, ctx.noteSessionEstablished peer.id)

def recvTransportData (sessionId : SessionId) (packets : List Bytes) (peer : Peer) (ctx : Ctx) :
    Except Halt (Peer × Ctx) :=
  match peer.session.getRecv now sessionId with
  | some (slot, recv) => do
      let (recv, opened) ← recv.decrypt W debug packets
      let peer := { peer with session := peer.session.putRecv slot recv }
      if opened = [] then return (peer, ctx)
      else peer.recvAuthenticated W debug now opened ctx
  | none => do
      let (handshake, confirmed) ← peer.handshake.confirm W debug sessionId packets now
      let peer := { peer with handshake := handshake }
      match confirmed with
      | none => return (peer, ctx)
      | some (session, opened) => peer.recvConfirmed W now session opened ctx

/-- The handshake messages of a group take effect in order; the transport messages are
kept for later. -/
def recvHandshakes (W : WgCrypto) (debug : Bool) (now : Instant) :
    List Bytes → Peer → Ctx → Except Halt (Peer × Ctx × List Bytes)
  | [], peer, ctx => .ok (peer, ctx, [])
  | packet :: rest, peer, ctx =>
    match Message.parse packet with
    | none => recvHandshakes W debug now rest peer ctx
    | some (.transportData _) => do
        let (peer, ctx, kept) ← recvHandshakes W debug now rest peer ctx
        return (peer, ctx, packet :: kept)
    | some (.handshakeResponse resp) => do
        let (peer, ctx) ← peer.recvHandshakeResponse W now resp ctx
        recvHandshakes W debug now rest peer ctx
    | some (.cookieReply resp) =>
      recvHandshakes W debug now rest (peer.recvCookieReply W now resp) ctx
    | some (.handshakeInitiation _) =>
      if debug then .error .unexpectedInitiation
      else recvHandshakes W debug now rest peer ctx

def recv (sessionId : SessionId) (packets : List Bytes) (peer : Peer) (ctx : Ctx) :
    Except Halt (Peer × Ctx) := do
  let (peer, ctx, packets) ← recvHandshakes W debug now packets peer ctx
  peer.recvTransportData W debug now sessionId packets ctx

variable (received : ReceivedHandshake)

/-- An initiation that is no newer than the last one answered is a replay. -/
def replayed : Bool :=
  match peer.lastSeenTimestamp with
  | none => false
  | some timestamp => received.timestamp.le timestamp

def respondToHandshake (peer : Peer) (ctx : Ctx) : Except Halt (Peer × Ctx) :=
  if peer.replayed received then .ok (peer, ctx)
  else do
    let peer := { peer with lastSeenTimestamp := some received.timestamp }
    let (peer, ctx) := peer.cancelNewHandshake ctx
    let (ctx, sessionId) ← ctx.allocateSession peer.id
    let (ctx, ephemeral) := ctx.drawEphemeral
    let (handshake, packet, displaced) := peer.handshake.respond W sessionId received
      peer.config.psk peer.cookieSender now ephemeral
    let ids ← ctx.state.ids.removeSessions displaced.toList
    let ctx := (ctx.setIds ids).queueToPeer peer.id [packet]
    return ({ peer with handshake := handshake },
      ctx.noteCreated (handshake.recvs.map ReceiveSession.key))

def newHandshakeTimeout (peer : Peer) (ctx : Ctx) : Except Halt (Peer × Ctx) :=
  let peer := { peer with newHandshake := none }
  if peer.handshake.isActive then .ok (peer, ctx)
  else peer.startHandshake W debug now false ctx

/-- Both ids of the handshake are freed; after too many attempts the session goes too. -/
def handshakeTimeout (peer : Peer) (ctx : Ctx) : Except Halt (Peer × Ctx) :=
  if !peer.handshake.isActive then .ok (peer, ctx)
  else do
    let ids ← ctx.state.ids.removeHandshakeSession peer.handshake
    let peer := { peer with handshake := Handshake.none }
    if maxTimerHandshakes ≤ peer.handshakeAttempts then
      let (session, ids) ← peer.session.deactivate ids
      let peer := { peer with session := session, handshakeAttempts := 0 }
      return peer.cancelNewHandshake (ctx.setIds ids)
    else
      let peer := { peer with handshakeAttempts := peer.handshakeAttempts + 1 }
      peer.startHandshake W debug now true (ctx.setIds ids)

/-- On a session that cannot send, the fired timer's slot stays as it is. -/
def sendKeepalive (peer : Peer) (ctx : Ctx) : Peer × Ctx :=
  match peer.session.encryptKeepalive W now with
  | none => (peer, ctx)
  | some (session, packet) =>
    let peer := { peer with session := session, keepalive := none }
    let ctx := ctx.queueToPeer peer.id [packet]
    if peer.sendAnotherKeepalive then
      let (peer, ctx) := peer.scheduleKeepalive now ctx
      ({ peer with sendAnotherKeepalive := false }, ctx)
    else (peer, ctx)

def sendPersistentKeepalive (peer : Peer) (ctx : Ctx) : Peer × Ctx :=
  let peer := { peer with persistentKeepalive := none }
  match peer.session.encryptKeepalive W now with
  | none => (peer, ctx)
  | some (session, packet) =>
    let peer := { peer with session := session }
    peer.armPersistentKeepalive now (ctx.queueToPeer peer.id [packet])

def cancelAllTimers : Peer × Ctx :=
  let ctx := (ctx.cancelSlot peer.keepalive).cancelSlot peer.persistentKeepalive
  let peer := { peer with keepalive := none, persistentKeepalive := none }
  peer.cancelNewHandshake ctx

def shutdown : Except Halt (Peer × Ctx) := do
  let (session, ids) ← peer.session.deactivate ctx.state.ids
  let ids ← ids.removeHandshakeSession peer.handshake
  let ctx := (ctx.setIds ids).cancelSlot (peer.handshake.initiated.map Initiation.timeout)
  let peer := { peer with session := session, handshake := Handshake.none }
  return peer.cancelAllTimers ctx

end Peer

end TailscaleRs.Tunnel
