import Mathlib.Data.List.Dedup
import Mathlib.Data.List.Perm.Basic
import TailscaleRs.Tunnel.Peer

namespace TailscaleRs.Tunnel

open Function
open Time (Instant Duration Scheduler)

/-- A WireGuard endpoint that communicates with any number of peers. -/
structure Endpoint where
  state : EndpointState
  peers : PeerId → Option Peer

variable (W : WgCrypto)

def Endpoint.new (myKey : NodeKeyPair) : Endpoint where
  state :=
    { myKey := myKey
      myCookie := MacReceiver.new W myKey.publicKey
      cookies := CookieGenerator.new W myKey.publicKey
      load := HandshakeLoad.default
      ids := IdMap.empty
      timestamps := Tai64nClock.new
      scheduler := Scheduler.empty }
  peers := fun _ => none

structure Work where
  peers : PeerId → Option Peer
  ctx : Ctx

def cookieBinding (peer : PeerId) : Bytes := littleEndian 4 peer.val.toNat

/-- The receiver id that a packet is grouped by; zero if it has none. -/
def routingKey (packet : Bytes) : SessionId :=
  ((Message.parse packet).bind Message.receiverId).getD ⟨0⟩

/-- The packets that carry a receiver id, by that id. -/
def routed (packets : List Bytes) : List (SessionId × List Bytes) :=
  let keys := ((packets.map routingKey).filter (fun key => key ≠ ⟨0⟩)).dedup
  keys.map (fun key => (key, packets.filter (fun packet => routingKey packet = key)))

/-- A hash map's iteration order: each pick chooses the next of the remaining items. -/
def shuffle {α : Type} : List Nat → List α → List α
  | [], items => items
  | pick :: picks, items =>
    match items[pick % items.length]? with
    | none => items
    | some item => item :: shuffle picks (items.eraseIdx (pick % items.length))

theorem shuffle_perm {α : Type} (picks : List Nat) (items : List α) :
    (shuffle picks items).Perm items := by
  induction picks generalizing items with
  | nil => exact List.Perm.refl items
  | cons pick picks ih =>
    rw [shuffle]
    split
    · exact List.Perm.refl items
    · case _ item found =>
        obtain ⟨inside, rfl⟩ := List.getElem?_eq_some_iff.mp found
        exact ((ih _).cons _).trans (List.getElem_cons_eraseIdx_perm inside)

namespace Work

/-- Run an operation of a peer, if there is such a peer. -/
def onPeer (id : PeerId) (op : Peer → Ctx → Except Halt (Peer × Ctx)) (w : Work) :
    Except Halt Work :=
  match w.peers id with
  | none => .ok w
  | some peer => do
      let (peer, ctx) ← op peer w.ctx
      return ⟨update w.peers id (some peer), ctx⟩

/-- A changed interval re-arms the persistent keepalive of a live session and otherwise
cancels it. -/
def reconcileKeepalive (now : Instant) (previous : Option Duration) (peer : Peer) (ctx : Ctx) :
    Peer × Ctx :=
  let interval := peer.config.effectivePersistentKeepalive
  if interval = previous then (peer, ctx)
  else match interval, peer.session with
    | some _, .active _ => peer.armPersistentKeepalive now ctx
    | _, _ =>
      ({ peer with persistentKeepalive := none }, ctx.cancelSlot peer.persistentKeepalive)

/-- The old configuration is returned, if there was one. -/
def upsertPeer (now : Instant) (id : PeerId) (cfg : PeerConfig) (w : Work) :
    Except Halt (Work × Option PeerConfig) :=
  if (w.ctx.state.ids.nodeKeys cfg.key).any (fun owner => owner ≠ id) then
    .error .nodekeyCollision
  else match w.peers id with
    | some peer =>
      if peer.config.key ≠ cfg.key ∨ peer.config.psk ≠ cfg.psk then do
        let (old, ctx) ← peer.shutdown w.ctx
        let ids ← ctx.state.ids.removePeer old.config.key
        match ids.addPeer id cfg.key with
        | none => .error .nodekeyCollision
        | some ids =>
          .ok (⟨update w.peers id (some (Peer.new W id cfg)), ctx.setIds ids⟩, some old.config)
      else
        let previous := peer.config.effectivePersistentKeepalive
        let (updated, ctx) := reconcileKeepalive now previous { peer with config := cfg } w.ctx
        .ok (⟨update w.peers id (some updated), ctx⟩, some peer.config)
    | none =>
      match w.ctx.state.ids.addPeer id cfg.key with
      | none => .error .nodekeyCollision
      | some ids =>
        .ok (⟨update w.peers id (some (Peer.new W id cfg)), w.ctx.setIds ids⟩, none)

/-- Also returned is whether the peer existed. -/
def removePeer (id : PeerId) (w : Work) : Except Halt (Work × Bool) :=
  match w.peers id with
  | none => .ok (w, false)
  | some peer => do
      let (peer, ctx) ← peer.shutdown w.ctx
      let ids ← ctx.state.ids.removePeer peer.config.key
      return (⟨update w.peers id none, ctx.setIds ids⟩, true)

variable (debug : Bool) (now : Instant)

def send (packets : List (PeerId × List Bytes)) (w : Work) : Except Halt Work :=
  packets.foldlM (fun w item => w.onPeer item.1 (Peer.send W debug now item.2)) w

def sendPriorityMessage (id : PeerId) (msg : Bytes) (w : Work) : Except Halt Work :=
  w.onPeer id (fun peer ctx =>
    let (peer, ctx, _) := peer.sendPriorityMessage W now msg ctx
    .ok (peer, ctx))

/-- Answer an initiation with a cookie instead of the work it asks for. -/
def sendCookieReply (origin : PeerId) (init : HandshakeInitiation) (w : Work) : Work :=
  let draws := w.ctx.draws
  let (cookies, reply) := w.ctx.state.cookies.createReply W init (cookieBinding origin) now
    (draws.cookieSecrets.headD []) (draws.cookieNonces.headD [])
  let draws := { draws with
    cookieSecrets := draws.cookieSecrets.tail, cookieNonces := draws.cookieNonces.tail }
  let ctx := { w.ctx with state := { w.ctx.state with cookies := cookies }, draws := draws }
  { w with ctx := ctx.queueToPeer origin [reply] }

/-- Under load, an initiation from a known origin must carry a cookie of ours. -/
def challenged (underLoad : Bool) (origin : Option PeerId) (init : HandshakeInitiation) (w : Work) :
    Option PeerId :=
  match origin with
  | none => none
  | some origin =>
    if underLoad && !w.ctx.state.cookies.checkMac2 W init.raw (cookieBinding origin) now then
      some origin
    else none

/-- An initiation worth its handshake work is answered by the peer with its static key. -/
def respond (init : HandshakeInitiation) (w : Work) : Except Halt Work :=
  match ReceivedHandshake.new W init w.ctx.state.myKey w.ctx.state.myCookie with
  | none => .ok w
  | some received =>
    match w.ctx.state.ids.nodeKeys received.peerStatic with
    | none => .ok w
    | some id => w.onPeer id (Peer.respondToHandshake W now received)

variable (origin : Option PeerId)

def processOneHandshake (packet : Bytes) (w : Work) : Except Halt Work :=
  match Message.parse packet with
  | some (.handshakeInitiation init) =>
    let (load, underLoad) := w.ctx.state.load.recordInitiation now
    let w := { w with ctx := { w.ctx with state := { w.ctx.state with load := load } } }
    if !w.ctx.state.myCookie.verifyMacs W init.raw then .ok w
    else match w.challenged W now underLoad origin init with
      | some origin => .ok (w.sendCookieReply W now origin init)
      | none => w.respond W now init
  | _ => .ok w

/-- A group of packets goes to the peer that owns their receiver id. -/
def recvGroup (group : SessionId × List Bytes) (w : Work) : Except Halt Work :=
  match w.ctx.state.ids.sessions group.1 with
  | none => .ok w
  | some id => w.onPeer id (Peer.recv W debug now group.1 group.2)

/-- Packets without a receiver id come first; the groups of the others follow in the hash
map's order. -/
def recvFrom (packets : List Bytes) (order : List Nat) (w : Work) :
    Except Halt Work := do
  let handshakes := packets.filter (fun packet => routingKey packet = ⟨0⟩)
  let w ← handshakes.foldlM (fun w packet => w.processOneHandshake W now origin packet) w
  (shuffle order (routed packets)).foldlM (fun w group => w.recvGroup W debug now group) w

def handleEvent (w : Work) : Event → Except Halt Work
  | .handshakeTimeout id => w.onPeer id (Peer.handshakeTimeout W debug now)
  | .maybeSendKeepalive id =>
    w.onPeer id (fun peer ctx => .ok (peer.sendKeepalive W now ctx))
  | .persistentKeepalive id =>
    w.onPeer id (fun peer ctx => .ok (peer.sendPersistentKeepalive W now ctx))
  | .newHandshakeTimeout id => w.onPeer id (Peer.newHandshakeTimeout W debug now)

/-- Handle the events due at or before `due`; peers read their own clock. -/
def dispatchEvents (due : Instant) (w : Work) : Except Halt Work :=
  let (scheduler, events) := w.ctx.state.scheduler.dispatch due
  let w := { w with ctx := { w.ctx with state := { w.ctx.state with scheduler := scheduler } } }
  events.foldlM (fun w event => w.handleEvent W debug now event) w

end Work

inductive Call where
  | upsertPeer (id : PeerId) (cfg : PeerConfig)
  | removePeer (id : PeerId)
  | send (packets : List (PeerId × List Bytes))
  | sendPriorityMessage (id : PeerId) (msg : Bytes)
  | recvFrom (origin : Option PeerId) (packets : List Bytes) (order : List Nat)
  | dispatchEvents (due : Instant)

/-- `Endpoint::recv`: packets from nowhere in particular. -/
def Call.recv (packets : List Bytes) (order : List Nat) : Call := .recvFrom none packets order

/-- A call, the instant it is made at and what it draws at random. -/
structure Stimulus where
  now : Instant
  draws : Draws
  call : Call

def Work.perform (debug : Bool) (now : Instant) (w : Work) : Call → Except Halt Work
  | .upsertPeer id cfg => do return (← w.upsertPeer W now id cfg).1
  | .removePeer id => do return (← w.removePeer id).1
  | .send packets => w.send W debug now packets
  | .sendPriorityMessage id msg => w.sendPriorityMessage W now id msg
  | .recvFrom origin packets order => w.recvFrom W debug now origin packets order
  | .dispatchEvents due => w.dispatchEvents W debug now due

namespace Endpoint

def begin (e : Endpoint) (draws : Draws) : Work := ⟨e.peers, e.state, draws, Outbox.empty⟩

def call (debug : Bool) (e : Endpoint) (stimulus : Stimulus) : Except Halt (Endpoint × Outbox) := do
  let w ← (e.begin stimulus.draws).perform W debug stimulus.now stimulus.call
  return (⟨w.ctx.state, w.peers⟩, w.ctx.out)

end Endpoint

end TailscaleRs.Tunnel
