import TailscaleRs.Lib.Run
import TailscaleRs.Tunnel.PeerIds

namespace TailscaleRs.Tunnel

open Function List Endpoint
open Time (Instant Duration)

variable (peers : PeerId → Option Peer)

/-- The session ids owned under a peer id; none if there is no such peer. -/
def owned (id : PeerId) : List SessionId :=
  (peers id).elim [] Peer.ids

theorem owned_update (id : PeerId) (after : Option Peer) :
    owned (update peers id after) = update (owned peers) id (after.elim [] Peer.ids) := by
  funext other
  by_cases same : other = id
  · subst same
    simp [owned]
  · simp [owned, update_of_ne same]

/-- The table of sessions maps exactly the ids owned by live peers: each id is owned by one
slot and mapped to that slot's peer. -/
structure Endpoint.IdsOwned (e : Endpoint) : Prop where
  keyed : ∀ id peer, e.peers id = some peer → peer.id = id
  balanced : Balanced e.state.ids.sessions (owned e.peers)

/-- The invariant of an endpoint during a call on a batch of packets. -/
structure Work.Settled (W : WgCrypto) (now : Instant) (batch : List Bytes) (w : Work) : Prop where
  keyed : ∀ id peer, w.peers id = some peer → peer.id = id
  quiet : ∀ id peer, w.peers id = some peer → peer.Quiet W now batch
  balanced : Balanced w.ctx.state.ids.sessions (owned w.peers)

theorem subset_of_mem_routed {packets : List Bytes} {group : SessionId × List Bytes}
    (member : group ∈ routed packets) : group.2 ⊆ packets := by
  obtain ⟨key, _, rfl⟩ := mem_map.mp member
  exact filter_subset_self _

namespace Work

variable (W : WgCrypto) {debug : Bool} (now : Instant) {batch : List Bytes} {w : Work}

theorem Settled.update (settled : Settled W now batch w) (id : PeerId) (after : Option Peer)
    (ctx : Ctx)
    (account : Account w.ctx.state.ids.sessions ctx.state.ids.sessions id (after.elim [] Peer.ids))
    (fits : ∀ peer, after = some peer → peer.id = id ∧ peer.Quiet W now batch) :
    Settled W now batch ⟨update w.peers id after, ctx⟩ := by
  refine ⟨fun other peer found => ?_, fun other peer found => ?_, ?_⟩
  · by_cases same : other = id
    · subst same
      exact (fits peer (by simpa using found)).1
    · exact settled.keyed other peer (by simpa [update_of_ne same] using found)
  · by_cases same : other = id
    · subst same
      exact (fits peer (by simpa using found)).2
    · exact settled.quiet other peer (by simpa [update_of_ne same] using found)
  · rw [owned_update]
    exact settled.balanced.settle account

theorem Settled.account (settled : Settled W now batch w) (id : PeerId) (present : Option Peer)
    (found : w.peers id = present) :
    Account w.ctx.state.ids.sessions w.ctx.state.ids.sessions id (present.elim [] Peer.ids) := by
  subst found
  exact settled.balanced.account id

variable {id : PeerId}

theorem onPeer_settled {op : Peer → Ctx → Except Halt (Peer × Ctx)}
    (keeps : ∀ origin peer ctx, Peer.Settled W now batch origin id (peer, ctx) →
      Safe Halt.Tolerated (Peer.Settled W now batch origin id) (op peer ctx))
    (settled : Settled W now batch w) :
    Safe Halt.Tolerated (Settled W now batch) (w.onPeer id op) := by
  unfold onPeer
  cases present : w.peers id with
  | none => exact settled
  | some peer =>
    have account := settled.account W now id (some peer) present
    apply (keeps _ peer w.ctx
      ⟨settled.keyed id peer present, account, settled.quiet id peer present⟩).bind
    rintro ⟨after, ctx⟩ kept
    apply settled.update W now id (some after) ctx kept.account
    rintro peer ⟨⟩
    exact ⟨kept.id, kept.quiet⟩

theorem removePeer_settled (settled : Settled W now [] w) :
    Safe Halt.Tolerated (fun r => Settled W now [] r.1) (w.removePeer id) := by
  unfold removePeer
  cases present : w.peers id with
  | none => exact settled
  | some peer =>
    apply (Peer.shutdown_safe (settled.account W now id (some peer) present)).bind
    rintro ⟨old, ctx⟩ account
    apply ctx.state.ids.removePeer_safe.bind
    intro ids kept
    refine settled.update W now id none (ctx.setIds ids) ?_ (fun _ gone => nomatch gone)
    rw [Ctx.setIds_ids, kept]
    exact account

theorem reconcileKeepalive_untouched (previous : Option Duration) (peer : Peer) (ctx : Ctx) :
    Peer.Untouched peer ctx (reconcileKeepalive now previous peer ctx) := by
  unfold reconcileKeepalive
  dsimp only
  split
  · exact Peer.Untouched.refl peer ctx
  · split
    · exact Peer.armPersistentKeepalive_untouched now peer ctx
    · exact ⟨rfl, rfl, rfl, ctx.cancelSlot_ids⟩

theorem upsertPeer_settled (cfg : PeerConfig) (settled : Settled W now [] w) :
    Safe Halt.Tolerated (fun r => Settled W now [] r.1) (w.upsertPeer W now id cfg) := by
  have created (ctx : Ctx) (ids : IdMap)
      (account : Account w.ctx.state.ids.sessions ids.sessions id []) :
      Settled W now [] ⟨update w.peers id (some (Peer.new W id cfg)), ctx.setIds ids⟩ := by
    apply settled.update W now id (some (Peer.new W id cfg)) (ctx.setIds ids) account
    rintro peer ⟨⟩
    exact ⟨rfl, Peer.quiet_nil⟩
  unfold upsertPeer
  split
  · exact ⟨by decide, by decide⟩
  · cases present : w.peers id with
    | some peer =>
      have account := settled.account W now id (some peer) present
      dsimp only
      split
      · apply (Peer.shutdown_safe account).bind
        rintro ⟨old, ctx⟩ closed
        apply ctx.state.ids.removePeer_safe.bind
        intro ids kept
        cases added : ids.addPeer id cfg.key with
        | none => exact ⟨by decide, by decide⟩
        | some after =>
          apply created ctx after
          rw [ids.addPeer_sessions after added, kept]
          exact closed
      · have same := reconcileKeepalive_untouched now
          peer.config.effectivePersistentKeepalive { peer with config := cfg } w.ctx
        generalize reconcileKeepalive now _ { peer with config := cfg } w.ctx = after at same ⊢
        have kept : Peer.Settled W now [] w.ctx.state.ids.sessions id after :=
          same.settled ⟨settled.keyed id peer present, account, Peer.quiet_nil⟩
        obtain ⟨updated, ctx⟩ := after
        apply settled.update W now id (some updated) ctx kept.account
        rintro peer ⟨⟩
        exact ⟨kept.id, Peer.quiet_nil⟩
    | none =>
      dsimp only
      cases added : w.ctx.state.ids.addPeer id cfg.key with
      | none => exact ⟨by decide, by decide⟩
      | some after =>
        apply created w.ctx after
        rw [w.ctx.state.ids.addPeer_sessions after added]
        exact settled.account W now id none present

theorem send_settled {packets : List (PeerId × List Bytes)} (settled : Settled W now [] w) :
    Safe Halt.Tolerated (Settled W now []) (w.send W debug now packets) :=
  Safe.foldlM packets (fun _ _ _ settled =>
    onPeer_settled W now (fun _ _ _ => Peer.send_settled W) settled)
    w settled

theorem sendPriorityMessage_settled (msg : Bytes) (settled : Settled W now [] w) :
    Safe Halt.Tolerated (Settled W now []) (w.sendPriorityMessage W now id msg) := by
  apply onPeer_settled W now _ settled
  exact fun origin peer ctx settled => Peer.sendPriorityMessage_settled W msg settled

theorem handleEvent_settled {event : Event} (settled : Settled W now [] w) :
    Safe Halt.Tolerated (Settled W now []) (w.handleEvent W debug now event) := by
  cases event with
  | handshakeTimeout id =>
    exact onPeer_settled W now (fun _ _ _ => Peer.handshakeTimeout_settled W) settled
  | maybeSendKeepalive id =>
    rw [handleEvent]
    apply onPeer_settled W now _ settled
    exact fun origin peer ctx settled => Peer.sendKeepalive_settled W settled
  | persistentKeepalive id =>
    rw [handleEvent]
    apply onPeer_settled W now _ settled
    exact fun origin peer ctx settled => Peer.sendPersistentKeepalive_settled W settled
  | newHandshakeTimeout id =>
    exact onPeer_settled W now
      (fun _ _ _ => Peer.newHandshakeTimeout_settled W) settled

theorem dispatchEvents_settled (due : Instant) (settled : Settled W now [] w) :
    Safe Halt.Tolerated (Settled W now []) (w.dispatchEvents W debug now due) :=
  Safe.foldlM _ (fun _ _ _ settled => handleEvent_settled W now settled) _
    ⟨settled.keyed, settled.quiet, settled.balanced⟩

variable (settled : Settled W now batch w)
include settled

theorem respond_settled (init : HandshakeInitiation) :
    Safe Halt.Tolerated (Settled W now batch) (w.respond W now init) := by
  unfold respond
  split
  · exact settled
  · case _ received _ =>
      split
      · exact settled
      · case _ id _ =>
          exact onPeer_settled W now
            (fun _ _ _ settled => Peer.respondToHandshake_settled settled) settled

variable {origin : Option PeerId}

theorem processOneHandshake_settled {packet : Bytes} :
    Safe Halt.Tolerated (Settled W now batch) (w.processOneHandshake W now origin packet) := by
  unfold processOneHandshake
  split
  · case _ init _ =>
      dsimp only
      split
      · exact ⟨settled.keyed, settled.quiet, settled.balanced⟩
      · split
        · exact ⟨settled.keyed, settled.quiet, settled.balanced⟩
        · apply respond_settled
          exact ⟨settled.keyed, settled.quiet, settled.balanced⟩
  · exact settled

theorem recvGroup_settled {group : SessionId × List Bytes} (inBatch : group.2 ⊆ batch) :
    Safe Halt.Tolerated (Settled W now batch) (w.recvGroup W debug now group) := by
  unfold recvGroup
  split
  · exact settled
  · case _ id _ =>
      exact onPeer_settled W now
        (fun _ _ _ settled => Peer.recv_settled settled inBatch) settled

/-- A batch that reaches no clashing peer keeps the ids in place. -/
theorem recvFrom_settled {order : List Nat} :
    Safe Halt.Tolerated (Settled W now batch) (w.recvFrom W debug now origin batch order) := by
  unfold recvFrom
  apply (Safe.foldlM _ (fun _ packet _ settled =>
    processOneHandshake_settled W now settled) w settled).bind
  intro w settled
  apply Safe.foldlM _ (fun _ group member settled => ?_) w settled
  have part := subset_of_mem_routed ((shuffle_perm order _).mem_iff.mp member)
  exact recvGroup_settled W now settled part

end Work

namespace Endpoint

def addressee (e : Endpoint) (packet : Bytes) : Option Peer :=
  (e.state.ids.sessions (routingKey packet)).bind e.peers

/-- No packet of a batch is authentic on a session of a peer that has an initiation in flight
while its receive-triggered rekey is due. -/
def undisturbed (W : WgCrypto) (e : Endpoint) (stimulus : Stimulus) : Bool :=
  match stimulus.call with
  | .recvFrom _ packets _ => packets.all (fun packet =>
    (e.addressee packet).all (fun peer =>
      !(peer.clashing stimulus.now && peer.session.hears W stimulus.now packet)))
  | _ => true

theorem routingKey_of_opens (W : WgCrypto) (session : ReceiveSession) {packet : Bytes}
    (opened : session.opens W packet) : routingKey packet = session.id := by
  unfold ReceiveSession.opens at opened
  split at opened
  · case _ header parsed =>
      simp only [Bool.and_eq_true, decide_eq_true_eq] at opened
      rw [routingKey, parsed]
      exact opened.1
  · cases opened

variable {e : Endpoint} {W : WgCrypto} {now : Instant}

/-- Owned ids lead a packet to the peer that can open it, so checking its addressee is
enough. -/
theorem IdsOwned.quiet (ids : e.IdsOwned) (W : WgCrypto) (now : Instant) (packets : List Bytes)
    (calm : ∀ packet ∈ packets, ∀ peer, e.addressee packet = some peer →
      (peer.clashing now && peer.session.hears W now packet) = false)
    (id : PeerId) (peer : Peer) (present : e.peers id = some peer) :
    peer.Quiet W now packets := by
  intro clashes packet member heard
  suffices found : e.addressee packet = some peer by
    have both := calm packet member peer found
    rw [clashes, heard] at both
    cases both
  obtain ⟨recv, held, opened⟩ := any_eq_true.mp heard
  rw [Bool.and_eq_true] at opened
  have owns : recv.id ∈ owned e.peers id := by
    rw [owned, present]
    exact mem_append_left _ (mem_map_of_mem held)
  rw [addressee, routingKey_of_opens W recv opened.2, ((ids.balanced id).2 recv.id).mpr owns]
  exact present

theorem IdsOwned.of_settled {batch : List Bytes} {called : Except Halt Work}
    (settled : Safe Halt.Tolerated (Work.Settled W now batch) called) :
    Safe Halt.Tolerated (fun w => (⟨w.ctx.state, w.peers⟩ : Endpoint).IdsOwned) called :=
  settled.mono fun _ after => ⟨after.keyed, after.balanced⟩

theorem IdsOwned.settled {origin : Option PeerId} {packets : List Bytes} {order : List Nat}
    (ids : e.IdsOwned) (draws : Draws)
    (calm : e.undisturbed W ⟨now, draws, .recvFrom origin packets order⟩) :
    (e.begin draws).Settled W now packets := by
  refine ⟨ids.keyed, ids.quiet W now packets ?_, ids.balanced⟩
  intro packet member peer found
  have undisturbed := all_eq_true.mp calm packet member
  rw [found, Option.all_some, Bool.not_eq_true'] at undisturbed
  exact undisturbed

variable (W : WgCrypto) (debug : Bool)

theorem perform_idsOwned {stimulus : Stimulus} (ids : e.IdsOwned)
    (calm : e.undisturbed W stimulus) :
    Safe Halt.Tolerated (fun w => (⟨w.ctx.state, w.peers⟩ : Endpoint).IdsOwned)
      ((e.begin stimulus.draws).perform W debug stimulus.now stimulus.call) := by
  obtain ⟨now, draws, call⟩ := stimulus
  have settled : (e.begin draws).Settled W now [] :=
    ⟨ids.keyed, fun _ peer _ => Peer.quiet_nil, ids.balanced⟩
  cases call with
  | upsertPeer id cfg =>
    exact IdsOwned.of_settled
      ((Work.upsertPeer_settled W now cfg settled).bind fun _ after => after)
  | removePeer id =>
    exact IdsOwned.of_settled ((Work.removePeer_settled W now settled).bind fun _ after => after)
  | send packets => exact IdsOwned.of_settled (Work.send_settled W now settled)
  | sendPriorityMessage id msg =>
    exact IdsOwned.of_settled (Work.sendPriorityMessage_settled W now msg settled)
  | recvFrom origin packets order =>
    exact IdsOwned.of_settled (Work.recvFrom_settled W now (ids.settled draws calm))
  | dispatchEvents due => exact IdsOwned.of_settled (Work.dispatchEvents_settled W now due settled)

variable (life : Except Halt Endpoint)

/-- The next state of an endpoint's life; a call that halts ends it. -/
def step (stimulus : Stimulus) :
    Except Halt Endpoint := do
  let e ← life
  let (e, _) ← e.call W debug stimulus
  return e

/-- The call does not disturb the endpoint, if it is still there. -/
def Undisturbed (stimulus : Stimulus) : Prop :=
  Safe (fun _ => True) (fun e => e.undisturbed W stimulus = true) life

instance Undisturbed.decidable (W : WgCrypto) (life : Except Halt Endpoint)
    (stimulus : Stimulus) : Decidable (Undisturbed W life stimulus) :=
  inferInstanceAs (Decidable (Safe _ _ life))

theorem step_idsOwned (stimulus : Stimulus) (ids : Safe Halt.Tolerated IdsOwned life)
    (calm : Undisturbed W life stimulus) :
    Safe Halt.Tolerated IdsOwned (step W debug life stimulus) := by
  cases life with
  | error halt => exact ids
  | ok e =>
    apply ((perform_idsOwned W debug ids calm).bind (fun w owned => owned) :
      Safe Halt.Tolerated (fun r => r.1.IdsOwned) (e.call W debug stimulus)).bind
    exact fun r owned => owned

theorem new_idsOwned {myKey : NodeKeyPair} : (new W myKey).IdsOwned :=
  ⟨fun _ _ found => (nomatch found), fun _ => ⟨nodup_nil, fun _ => ⟨nofun, nofun⟩⟩⟩

/-- In every run in which no call disturbs the endpoint, the table of sessions maps exactly the
ids owned by live peers, no id that is removed is missing and no initiation in flight is
overwritten. -/
theorem session_ids_owned (myKey : NodeKeyPair) (stimuli : List Stimulus)
    (calm : Along (step W debug) (Undisturbed W) (.ok (new W myKey)) stimuli) :
    Safe Halt.Tolerated IdsOwned (run (step W debug) (.ok (new W myKey)) stimuli) :=
  run_invariant (step W debug) (Undisturbed W) (Safe Halt.Tolerated IdsOwned)
    (step_idsOwned W debug) (.ok (new W myKey)) stimuli (new_idsOwned W) calm

end Endpoint

instance Halt.Tolerated.decidable : DecidablePred Halt.Tolerated :=
  fun halt => inferInstanceAs (Decidable (halt ≠ _ ∧ halt ≠ _))

/-- Primitives in which a tag is a checksum. -/
def WgCrypto.toy : WgCrypto :=
  let checksum (bytes : Bytes) : UInt8 := bytes.foldl (fun sum byte => 3 * sum + byte) 1
  let encrypt (key nonce aad plaintext : Bytes) : Bytes :=
    plaintext ++ replicate 16 (checksum (key ++ nonce ++ aad ++ plaintext))
  let decrypt (key nonce aad ciphertext : Bytes) : Option Bytes :=
    let plaintext := ciphertext.take (ciphertext.length - 16)
    if encrypt key nonce aad plaintext = ciphertext then some plaintext else none
  { blake2s256 := fun data => replicate 32 (checksum data)
    blake2sMac := fun key data => replicate 16 (checksum (key ++ data))
    hkdf := fun salt ikm size => replicate size (checksum (salt ++ ikm))
    publicKey := id
    diffieHellman := fun secret publicKey => zipWith (fun a b => a + b) secret publicKey
    aeadEncrypt := encrypt
    aeadDecrypt := decrypt
    xaeadEncrypt := encrypt
    xaeadDecrypt := decrypt }

@[irreducible] def toyLife (debug : Bool) (key : UInt8) (stimuli : List Stimulus) :
    Except Halt Endpoint :=
  run (step WgCrypto.toy debug)
    (.ok (new WgCrypto.toy ⟨replicate 32 key, replicate 32 key⟩)) stimuli

/-- A call at a second, with one session id to draw. -/
def toyAt (secs : Nat) (id : UInt32) (call : Call) : Stimulus :=
  ⟨Time.fromSecs secs, ⟨[⟨id⟩], [replicate 32 9], [], [1700000000000000000], [], []⟩, call⟩

def toyUpsert (id : PeerId) (key : UInt8) : Stimulus :=
  toyAt 0 0 (.upsertPeer id ⟨replicate 32 key, replicate 32 0, none⟩)

/-- What a toy endpoint sends to a peer in the last call of a run. -/
def toySent (key : UInt8) (past : List Stimulus) (last : Stimulus) (id : PeerId) : List Bytes :=
  match toyLife false key past with
  | .error _ => []
  | .ok e =>
    match e.call WgCrypto.toy false last with
    | .error _ => []
    | .ok (_, out) => (out.toPeers id).getD []

def toyNear : PeerId := ⟨1⟩
def toyFar : PeerId := ⟨2⟩

/- The near endpoint initiates with session id 101, the far one responds with 201, and both
have a session at the first second. -/
def toyDial : Stimulus := toyUpsert toyFar 20
def toyInitiate : Stimulus := toyAt 0 101 (.send [(toyFar, [[65, 66]])])
def toyAccept : Stimulus := toyUpsert toyNear 10
def toyRespond : Stimulus := toyAt 1 201 (.recv (toySent 10 [toyDial] toyInitiate toyFar) [])
def toyFinish : Stimulus := toyAt 1 0 (.recv (toySent 20 [toyAccept] toyRespond toyNear) [])
def toyConfirm : Stimulus :=
  toyAt 1 0 (.recv (toySent 10 [toyDial, toyInitiate] toyFinish toyFar) [])

/-- The near endpoint sends on its stale session, which starts a handshake. -/
def toyRekey : Stimulus := toyAt 163 102 (.send [(toyFar, [[68]])])

def toyReply : Stimulus := toyAt 166 202 (.send [(toyNear, [[67]])])
def toyHear : Stimulus :=
  toyAt 167 103
    (.recv ((toySent 20 [toyAccept, toyRespond, toyConfirm] toyReply toyNear).take 1) [])

/-- On its own, the packet triggers one handshake, and the old and the new id are owned. -/
theorem session_ids_owned_toyHear :
    Safe Halt.Tolerated Endpoint.IdsOwned
      (toyLife true 10 [toyDial, toyInitiate, toyFinish, toyHear]) ∧
    Returns (fun e => owned e.peers toyFar = [⟨101⟩, ⟨103⟩])
      (toyLife true 10 [toyDial, toyInitiate, toyFinish, toyHear]) := by
  constructor
  · rw [toyLife]
    refine session_ids_owned WgCrypto.toy true _
      [toyDial, toyInitiate, toyFinish, toyHear] ?_
    decide +kernel
  · decide +kernel

/-- Four seconds after a handshake that is still unanswered, the packet triggers a second one.
A release build then has an id that no slot owns, and a debug build panics. -/
theorem session_id_leaked :
    ¬Safe Halt.Tolerated Endpoint.IdsOwned
      (toyLife false 10 [toyDial, toyInitiate, toyFinish, toyRekey, toyHear]) ∧
    ¬Safe Halt.Tolerated Endpoint.IdsOwned
      (toyLife true 10 [toyDial, toyInitiate, toyFinish, toyRekey, toyHear]) := by
  constructor
  · have leaked : Returns
        (fun e => e.state.ids.sessions ⟨102⟩ = some toyFar ∧ ⟨102⟩ ∉ owned e.peers toyFar)
        (toyLife false 10 [toyDial, toyInitiate, toyFinish, toyRekey, toyHear]) := by
      decide +kernel
    refine (leaked.mono fun e leaked safe => ?_).refutes
    exact leaked.2 (((safe.balanced toyFar).2 ⟨102⟩).mp leaked.1)
  · intro safe
    have halted : ¬Safe Halt.Tolerated (fun _ => True)
        (toyLife true 10 [toyDial, toyInitiate, toyFinish, toyRekey, toyHear]) := by
      decide +kernel
    exact halted (safe.mono (fun _ _ => trivial))

end TailscaleRs.Tunnel
