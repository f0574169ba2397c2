import TailscaleRs.Tunnel.Ownership
import TailscaleRs.Tunnel.Timers

namespace TailscaleRs.Tunnel

open Function List
open Time (Instant Duration Handle FutureEvent Booked)

def slots (peers : PeerId → Option Peer) (event : Event) : Option Handle :=
  (peers event.peer).bind (fun peer => peer.slot event)

section

variable (peers : PeerId → Option Peer) (id : PeerId) (peer : Peer)

theorem slots_update (own : peer.id = id) :
    slots (update peers id (some peer)) = slotsWith (slots peers) peer := by
  funext event
  rw [slotsWith, own, slots]
  split
  · case _ here =>
      rw [here, update_self]
      rfl
  · case _ other =>
      rw [update_of_ne other]
      rfl

theorem slots_remove (own : peer.id = id) (empty : ∀ event, peer.slot event = none) :
    slots (update peers id none) = slotsWith (slots peers) peer := by
  funext event
  rw [slotsWith, own, slots]
  split
  · case _ here =>
      rw [here, update_self, empty]
      rfl
  · case _ other =>
      rw [update_of_ne other]
      rfl

end

variable (now : Instant) (due : List Event)

/-- The peer can send a keepalive even after the other events of a dispatch. -/
def Peer.usable (peer : Peer) : Bool :=
  peer.session.sendable now (decide (.persistentKeepalive peer.id ∈ due)) &&
    (decide (.handshakeTimeout peer.id ∉ due) ||
      decide (peer.handshakeAttempts < maxTimerHandshakes))

theorem SessionState.sendable_mono (spare less : Bool) (session : SessionState)
    (fewer : less → spare) (able : session.sendable now spare) : session.sendable now less := by
  cases session with
  | none queue => cases able
  | active state =>
    cases spare with
    | false => exact Bool.eq_false_iff.mpr (fun holds => Bool.noConfusion (fewer holds)) ▸ able
    | true =>
      rw [SessionState.sendable, Bool.and_eq_true] at able
      rw [SessionState.sendable, Bool.and_eq_true]
      refine ⟨able.1, ?_⟩
      cases less with
      | false => rfl
      | true => exact able.2

theorem Peer.usable_iff {peer : Peer} :
    peer.usable now due ↔
      peer.session.sendable now (decide (.persistentKeepalive peer.id ∈ due)) ∧
        (.handshakeTimeout peer.id ∈ due → peer.handshakeAttempts < maxTimerHandshakes) := by
  rw [Peer.usable, Bool.and_eq_true, Bool.or_eq_true, decide_eq_true_eq, decide_eq_true_eq,
    imp_iff_not_or]

/-- A handler that keeps the session and the attempts keeps the peer usable for the rest. -/
theorem Peer.usable_mono {due rest : List Event} {peer after : Peer} (fewer : rest ⊆ due)
    (able : peer.usable now due) (same : after.id = peer.id)
    (session : after.session = peer.session)
    (attempts : .handshakeTimeout peer.id ∈ rest →
      after.handshakeAttempts ≤ peer.handshakeAttempts) : after.usable now rest := by
  rw [usable_iff] at able ⊢
  rw [same, session]
  refine ⟨SessionState.sendable_mono now _ _ _ ?_ able.1, fun waiting => ?_⟩
  · intro holds
    exact decide_eq_true (fewer (of_decide_eq_true holds))
  · exact Nat.lt_of_le_of_lt (attempts waiting) (able.2 (fewer waiting))

namespace Work

/-- The timers of an endpoint are in their slots, and the keepalives that are owed can be sent. -/
structure Timed (now : Instant) (owed : List (FutureEvent Event)) (w : Work) : Prop where
  keyed : ∀ id peer, w.peers id = some peer → peer.id = id
  booked : Booked Event.Loose w.ctx.state.scheduler owed (slots w.peers)
  ready : ∀ id peer, w.peers id = some peer → .maybeSendKeepalive id ∈ owed.map FutureEvent.what →
    peer.usable now (owed.map FutureEvent.what)

variable (W : WgCrypto) {debug : Bool} (now : Instant) {owed rest : List (FutureEvent Event)}
  {w : Work}

theorem Timed.peer (timed : Timed now owed w) (id : PeerId) (peer : Peer)
    (present : w.peers id = some peer) : Peer.Timed (slots w.peers) id owed (peer, w.ctx) := by
  have own := timed.keyed id peer present
  refine ⟨own, ?_⟩
  rw [← slots_update w.peers id peer own, update_eq_self_iff.mpr present.symm]
  exact timed.booked

theorem Timed.update (timed : Timed now owed w) (fewer : rest ⊆ owed) (id : PeerId) (peer : Peer)
    (ctx : Ctx) (kept : Peer.Timed (slots w.peers) id rest (peer, ctx))
    (able : .maybeSendKeepalive id ∈ rest.map FutureEvent.what →
      peer.usable now (rest.map FutureEvent.what)) :
    Timed now rest ⟨update w.peers id (some peer), ctx⟩ := by
  have kinds : rest.map FutureEvent.what ⊆ owed.map FutureEvent.what := map_subset _ fewer
  refine ⟨fun other found present => ?_, ?_, fun other found present => ?_⟩ <;>
    dsimp only at *
  · by_cases same : other = id
    · subst same
      rw [update_self] at present
      cases present
      exact kept.id
    · rw [update_of_ne same] at present
      exact timed.keyed other found present
  · rw [slots_update w.peers id peer kept.id]
    exact kept.booked
  · by_cases same : other = id
    · subst same
      rw [update_self] at present
      cases present
      exact able
    · rw [update_of_ne same] at present
      intro waiting
      exact Peer.usable_mono now kinds (timed.ready other found present (kinds waiting)) rfl rfl
        (fun _ => Nat.le_refl _)

variable (id : PeerId)

/-- Outside of a dispatch nothing is owed. -/
theorem onPeer_timed {op : Peer → Ctx → Except Halt (Peer × Ctx)}
    (keeps : ∀ base peer, w.peers id = some peer → Peer.Timed base id [] (peer, w.ctx) →
      Timely (Peer.Timed base id []) (op peer w.ctx)) (timed : Timed now [] w) :
    Timely (Timed now []) (w.onPeer id op) := by
  unfold onPeer
  cases present : w.peers id with
  | none => exact timed
  | some peer =>
    apply (keeps (slots w.peers) peer present (timed.peer now id peer present)).bind
    rintro ⟨after, ctx⟩ kept
    exact timed.update now (List.Subset.refl _) id after ctx kept nofun

theorem removePeer_timed (timed : Timed now [] w) :
    Timely (fun r => Timed now [] r.1) (w.removePeer id) := by
  unfold removePeer
  cases present : w.peers id with
  | none => exact timed
  | some peer =>
    apply (Peer.shutdown_timed (timed.peer now id peer present)).bind
    rintro ⟨old, ctx⟩ ⟨kept, empty⟩
    apply Safe.skip
    intro ids
    refine ⟨fun other found present => ?_, ?_, fun _ _ _ waiting => nomatch waiting⟩
    · dsimp only at present
      by_cases same : other = id
      · rw [same, update_self] at present
        cases present
      · rw [update_of_ne same] at present
        exact timed.keyed other found present
    · rw [slots_remove w.peers id old kept.id empty]
      exact kept.booked

theorem reconcileKeepalive_timed {base : Event → Option Handle} {owner : PeerId} {peer : Peer}
    {ctx : Ctx} (previous : Option Duration) (timed : Peer.Timed base owner [] (peer, ctx)) :
    Peer.Timed base owner [] (reconcileKeepalive now previous peer ctx) := by
  unfold reconcileKeepalive
  dsimp only
  split
  · exact timed
  · split
    · exact Peer.armPersistentKeepalive_timed now nofun timed
    · refine ⟨timed.id, ?_⟩
      rw [slotsWith_persistentKeepalive]
      exact booked_cancelSlot ctx timed.booked _ _ (slotsWith_own base peer _ rfl) (.inr nofun)

theorem new_slot (cfg : PeerConfig) (event : Event) : (Peer.new W id cfg).slot event = none := by
  cases event <;> rfl

theorem upsertPeer_timed (cfg : PeerConfig) (timed : Timed now [] w) :
    Timely (fun r => Timed now [] r.1) (w.upsertPeer W now id cfg) := by
  unfold upsertPeer
  split
  · trivial
  · cases present : w.peers id with
    | some peer =>
      have mine := timed.peer now id peer present
      dsimp only
      split
      · apply (Peer.shutdown_timed mine).bind
        rintro ⟨old, ctx⟩ ⟨kept, empty⟩
        apply Safe.skip
        intro ids
        cases ids.addPeer id cfg.key with
        | none => trivial
        | some ids =>
          refine timed.update now (List.Subset.refl _) id _ _ ⟨rfl, ?_⟩ nofun
          rw [← slots_remove w.peers id (Peer.new W id cfg) rfl (new_slot W id cfg),
            slots_remove w.peers id old kept.id empty]
          exact kept.booked
      · have kept : Peer.Timed (slots w.peers) id [] (reconcileKeepalive now
            peer.config.effectivePersistentKeepalive { peer with config := cfg } w.ctx) :=
          reconcileKeepalive_timed now _ ⟨mine.id, mine.booked⟩
        exact timed.update now (List.Subset.refl _) id _ _ kept nofun
    | none =>
      cases w.ctx.state.ids.addPeer id cfg.key with
      | none => trivial
      | some ids =>
        refine timed.update now (List.Subset.refl _) id _ _ ⟨rfl, ?_⟩ nofun
        rw [← slots_remove w.peers id (Peer.new W id cfg) rfl (new_slot W id cfg),
          update_eq_self_iff.mpr present.symm]
        exact timed.booked

theorem send_timed {packets : List (PeerId × List Bytes)} (timed : Timed now [] w) :
    Timely (Timed now []) (w.send W debug now packets) :=
  Safe.foldlM packets (fun _ item _ timed =>
    onPeer_timed now item.1 (fun _ _ _ timed => Peer.send_timed timed now)
      timed) w timed

theorem sendPriorityMessage_timed (msg : Bytes) (timed : Timed now [] w) :
    Timely (Timed now []) (w.sendPriorityMessage W now id msg) :=
  onPeer_timed now id (fun _ _ _ timed => Peer.sendPriorityMessage_timed timed msg) timed

theorem respond_timed (init : HandshakeInitiation) (timed : Timed now [] w) :
    Timely (Timed now []) (w.respond W now init) := by
  unfold respond
  split
  · exact timed
  · case _ received _ =>
      split
      · exact timed
      · case _ id _ =>
          exact onPeer_timed now id
            (fun _ _ _ timed => Peer.respondToHandshake_timed timed) timed

theorem processOneHandshake_timed {origin : Option PeerId} {packet : Bytes}
    (timed : Timed now [] w) :
    Timely (Timed now []) (w.processOneHandshake W now origin packet) := by
  unfold processOneHandshake
  split
  · dsimp only
    split
    · exact ⟨timed.keyed, timed.booked, timed.ready⟩
    · split
      · exact ⟨timed.keyed, timed.booked, timed.ready⟩
      · apply respond_timed
        exact ⟨timed.keyed, timed.booked, timed.ready⟩
  · exact timed

variable {batch : List Bytes} {o : FutureEvent Event}

theorem recvGroup_timed {group : SessionId × List Bytes} (inBatch : group.2 ⊆ batch)
    (settled : Settled W now batch w) (timed : Timed now [] w) :
    Timely (Timed now []) (w.recvGroup W debug now group) := by
  unfold recvGroup
  split
  · exact timed
  · case _ id _ =>
      refine onPeer_timed now id (fun base peer present own => ?_) timed
      have account := settled.account W now id (some peer) present
      exact Peer.recv_timed own inBatch
        ⟨settled.keyed id peer present, account, settled.quiet id peer present⟩

/-- A batch that reaches no clashing peer keeps the timers in their slots. -/
theorem recvFrom_timed {origin : Option PeerId} {order : List Nat} (settled : Settled W now batch w)
    (timed : Timed now [] w) :
    Timely (Timed now []) (w.recvFrom W debug now origin batch order) := by
  apply Safe.bind (Safe.foldlM _ (fun _ packet _ both =>
    (processOneHandshake_settled W now both.1).both
      (processOneHandshake_timed W now both.2)) w ⟨settled, timed⟩)
  intro w both
  have groups : Timely (fun w => Settled W now batch w ∧ Timed now [] w)
      ((shuffle order (routed batch)).foldlM (fun w group => w.recvGroup W debug now group) w) := by
    refine Safe.foldlM _ (fun _ group member both => ?_) w both
    have part := subset_of_mem_routed ((shuffle_perm order _).mem_iff.mp member)
    exact (recvGroup_settled W now both.1 part).both
      (recvGroup_timed W now part both.1 both.2)
  exact groups.mono (fun _ both => both.2)

variable {id : PeerId} (timed : Timed now (o :: rest) w)
include timed

/-- An owed event takes its turn; the peer it is for stays usable for the rest. -/
theorem onPeer_turn (mine : o.what.peer = id) {op : Peer → Ctx → Except Halt (Peer × Ctx)}
    (keeps : o.what ∉ rest.map FutureEvent.what → ∀ base peer, peer.id = id →
      Peer.Timed base id (o :: rest) (peer, w.ctx) →
      (.maybeSendKeepalive id ∈ (o :: rest).map FutureEvent.what →
        peer.usable now ((o :: rest).map FutureEvent.what)) →
      Timely (fun r => Peer.Timed base id rest r ∧
        (.maybeSendKeepalive id ∈ rest.map FutureEvent.what →
          r.1.usable now (rest.map FutureEvent.what))) (op peer w.ctx)) :
    Timely (Timed now rest) (w.onPeer id op) := by
  unfold onPeer
  cases present : w.peers id with
  | none =>
    have vacant : slots w.peers o.what = none := by
      rw [slots, mine, present]
      rfl
    have booked := timed.booked.spend
    rw [update_eq_self_iff.mpr vacant.symm] at booked
    refine ⟨timed.keyed, booked, fun other peer found waiting => ?_⟩
    exact Peer.usable_mono now (subset_cons_self _ _)
      (timed.ready other peer found (mem_cons_of_mem _ waiting)) rfl rfl
      (fun _ => Nat.le_refl _)
  | some peer =>
    have single := (nodup_cons.mp timed.booked.kinds).1
    apply (keeps single (slots w.peers) peer (timed.keyed id peer present)
      (timed.peer now id peer present) (timed.ready id peer present)).bind
    rintro ⟨after, ctx⟩ ⟨kept, able⟩
    exact timed.update now (subset_cons_self o rest) id after ctx kept able

theorem handshakeTimeout_turn (what : o.what = .handshakeTimeout id) :
    Timely (Timed now rest) (w.onPeer id (Peer.handshakeTimeout W debug now)) := by
  refine onPeer_turn now timed (by rw [what]; rfl) (fun single base peer own mine ready => ?_)
  refine Safe.mono (Peer.handshakeTimeout_timed (by rw [what, own]) mine) ?_
  rintro after ⟨kept, session⟩
  refine ⟨kept, fun waiting => ?_⟩
  have able := ready (mem_cons_of_mem _ waiting)
  have attempts := ((Peer.usable_iff now _).mp able).2 (by rw [own, map_cons, what]; simp)
  refine Peer.usable_mono now (subset_cons_self _ _) able (kept.id.trans own.symm)
    (session attempts) (fun again => ?_)
  rw [own, ← what] at again
  exact absurd again single

theorem maybeSendKeepalive_turn (what : o.what = .maybeSendKeepalive id) :
    Timely (Timed now rest) (w.onPeer id (fun peer ctx => .ok (peer.sendKeepalive W now ctx))) := by
  refine onPeer_turn now timed (by rw [what]; rfl) (fun single base peer own mine ready => ?_)
  have able := ready (by rw [map_cons, what]; exact mem_cons_self)
  have sendable := SessionState.sendable_mono now _ false peer.session
    (fun never => Bool.noConfusion never) ((Peer.usable_iff now _).mp able).1
  exact ⟨Peer.sendKeepalive_timed W (by rw [what, own]) sendable mine,
    fun again => absurd (what ▸ again) single⟩

theorem persistentKeepalive_turn (what : o.what = .persistentKeepalive id) :
    Timely (Timed now rest)
      (w.onPeer id (fun peer ctx => .ok (peer.sendPersistentKeepalive W now ctx))) := by
  refine onPeer_turn now timed (by rw [what]; rfl) (fun single base peer own mine ready => ?_)
  obtain ⟨kept, session, attempts⟩ :=
    Peer.sendPersistentKeepalive_timed W (by rw [what, own]) mine
  refine ⟨kept, fun waiting => ?_⟩
  have able := (Peer.usable_iff now _).mp (ready (mem_cons_of_mem _ waiting))
  have due : Event.persistentKeepalive peer.id ∈ (o :: rest).map FutureEvent.what := by
    rw [map_cons, what, own]
    exact mem_cons_self
  rw [decide_eq_true due] at able
  rw [what] at single
  rw [Peer.usable_iff, kept.id, decide_eq_false single, attempts]
  refine ⟨session able.1, fun again => able.2 ?_⟩
  rw [own]
  exact mem_cons_of_mem _ again

theorem newHandshakeTimeout_turn (what : o.what = .newHandshakeTimeout id) :
    Timely (Timed now rest) (w.onPeer id (Peer.newHandshakeTimeout W debug now)) := by
  refine onPeer_turn now timed (by rw [what]; rfl) (fun _ base peer own mine ready => ?_)
  refine Safe.mono (Peer.newHandshakeTimeout_timed (by rw [what, own]) mine) ?_
  rintro after ⟨kept, session, attempts⟩
  refine ⟨kept, fun waiting => ?_⟩
  exact Peer.usable_mono now (subset_cons_self _ _) (ready (mem_cons_of_mem _ waiting))
    (kept.id.trans own.symm) session (fun _ => attempts)

theorem handleEvent_timed : Timely (Timed now rest) (w.handleEvent W debug now o.what) := by
  cases what : o.what with
  | handshakeTimeout id => exact handshakeTimeout_turn W now timed what
  | maybeSendKeepalive id => exact maybeSendKeepalive_turn W now timed what
  | persistentKeepalive id => exact persistentKeepalive_turn W now timed what
  | newHandshakeTimeout id => exact newHandshakeTimeout_turn W now timed what

omit timed

theorem handleEvents_timed (timed : Timed now owed w) :
    Timely (Timed now []) ((owed.map FutureEvent.what).foldlM
      (fun w event => w.handleEvent W debug now event) w) := by
  induction owed generalizing w with
  | nil => exact timed
  | cons o rest ih =>
    rw [map_cons, foldlM_cons]
    exact (handleEvent_timed W now timed).bind (fun _ timed => ih timed)

end Work

namespace Endpoint

/-- Every timer slot of every peer is full exactly when its event is pending, and holds the
handle of that event. -/
def TimersPending (e : Endpoint) : Prop :=
  ∀ id peer, e.peers id = some peer → ∀ event : Event, event.peer = id →
    ∀ handle, peer.slot event = some handle ↔
      ∃ pending ∈ e.state.scheduler.events, pending.what = event ∧ pending.tag = handle.tag

variable (W : WgCrypto)

/-- A call neither disturbs the endpoint nor lets a keepalive fire on a session that cannot
send. -/
def punctual (e : Endpoint) (stimulus : Stimulus) : Bool :=
  e.undisturbed W stimulus &&
    match stimulus.call with
    | .dispatchEvents due =>
      let events := (e.state.scheduler.dispatch due).2
      events.all (fun event =>
        match event with
        | .maybeSendKeepalive id => (e.peers id).all (fun peer => peer.usable stimulus.now events)
        | _ => true)
    | _ => true

/-- The timers are in their slots between two calls. -/
structure TimersBooked (e : Endpoint) : Prop where
  ids : e.IdsOwned
  booked : Booked Event.Loose e.state.scheduler [] (slots e.peers)

theorem TimersBooked.pending {e : Endpoint} (timers : e.TimersBooked) : e.TimersPending := by
  rintro _ peer present event rfl handle
  rw [← timers.booked.full_iff, slots, present]
  rfl

theorem perform_timed {debug : Bool} {e : Endpoint} {stimulus : Stimulus} (timers : e.TimersBooked)
    (calm : e.punctual W stimulus) :
    Timely (fun w => w.Timed stimulus.now [])
      ((e.begin stimulus.draws).perform W debug stimulus.now stimulus.call) := by
  obtain ⟨now, draws, call⟩ := stimulus
  rw [punctual, Bool.and_eq_true] at calm
  have ids := timers.ids
  have timed : (e.begin draws).Timed now [] :=
    ⟨ids.keyed, timers.booked, fun _ _ _ waiting => nomatch waiting⟩
  cases call with
  | upsertPeer id cfg =>
    exact (Work.upsertPeer_timed W now id cfg timed).bind (fun _ after => after)
  | removePeer id => exact (Work.removePeer_timed now id timed).bind (fun _ after => after)
  | send packets => exact Work.send_timed W now timed
  | sendPriorityMessage id msg => exact Work.sendPriorityMessage_timed W now id msg timed
  | recvFrom origin packets order =>
    exact Work.recvFrom_timed W now (ids.settled draws calm.1) timed
  | dispatchEvents due =>
    refine Work.handleEvents_timed W now
      ⟨timed.keyed, timed.booked.dispatch due, fun id peer present waiting => ?_⟩
    have able := all_eq_true.mp calm.2 _ waiting
    have found : e.peers id = some peer := present
    dsimp only at able
    rw [found, Option.all_some] at able
    exact able

/-- The call is punctual, if the endpoint is still there. -/
def Punctual (life : Except Halt Endpoint) (stimulus : Stimulus) : Prop :=
  Safe (fun _ => True) (fun e => e.punctual W stimulus = true) life

instance Punctual.decidable (W : WgCrypto) (life : Except Halt Endpoint)
    (stimulus : Stimulus) : Decidable (Punctual W life stimulus) :=
  inferInstanceAs (Decidable (Safe _ _ life))

theorem step_timersBooked {debug : Bool} (life : Except Halt Endpoint) (stimulus : Stimulus)
    (timers : Safe Halt.Tolerated TimersBooked life) (calm : Punctual W life stimulus) :
    Safe Halt.Tolerated TimersBooked (step W debug life stimulus) := by
  cases life with
  | error halt => exact timers
  | ok e =>
    have punctual : e.punctual W stimulus := calm
    have undisturbed : e.undisturbed W stimulus := by
      rw [Endpoint.punctual, Bool.and_eq_true] at punctual
      exact punctual.1
    have performed := (perform_timed W timers calm).both
      (perform_idsOwned W debug timers.ids undisturbed)
    apply (performed.bind (fun w both => ⟨both.2, both.1.booked⟩) :
      Safe Halt.Tolerated (fun r => r.1.TimersBooked) (e.call W debug stimulus)).bind
    exact fun r timers => timers

/-- In every run of punctual calls, a timer slot is full exactly when its event is pending. -/
theorem timers_pending (W : WgCrypto) (debug : Bool) (myKey : NodeKeyPair) (stimuli : List Stimulus)
    (calm : Along (step W debug) (Punctual W) (.ok (Endpoint.new W myKey)) stimuli) :
    Safe Halt.Tolerated TimersPending
      (run (step W debug) (.ok (Endpoint.new W myKey)) stimuli) := by
  have timers := run_invariant (step W debug) (Punctual W) (Safe Halt.Tolerated TimersBooked)
    (step_timersBooked W) (.ok (Endpoint.new W myKey)) stimuli ⟨new_idsOwned W, .empty⟩ calm
  exact timers.mono (fun _ timers => timers.pending)

end Endpoint

/-- The far endpoint sends data on the new session, which arms a keepalive of the near one. -/
def toyTalk : Stimulus := toyAt 2 202 (.send [(toyNear, [[67]])])
def toyListen : Stimulus :=
  toyAt 2 103 (.recv (toySent 20 [toyAccept, toyRespond, toyConfirm] toyTalk toyNear) [])

/-- The timers run at a second; everything armed before has fired by then. -/
def toyTick (secs : Nat) : Stimulus := toyAt secs 104 (.dispatchEvents (Time.fromSecs secs))

/-- The keepalive fires while the session is live, and its slot is empty. -/
theorem timers_pending_toyTick :
    Safe Halt.Tolerated Endpoint.TimersPending
      (toyLife true 10 [toyDial, toyInitiate, toyFinish, toyListen, toyTick 20]) ∧
    Returns (fun e => ((e.peers toyFar).map Peer.keepalive) = some none)
      (toyLife true 10 [toyDial, toyInitiate, toyFinish, toyListen, toyTick 20]) := by
  constructor
  · rw [toyLife]
    refine Endpoint.timers_pending WgCrypto.toy true _
      [toyDial, toyInitiate, toyFinish, toyListen, toyTick 20] ?_
    decide +kernel
  · decide +kernel

variable (e : Endpoint) (event : Event)

/-- A slot is full although its event is not pending. -/
def Endpoint.stuck : Bool :=
  (slots e.peers event).isSome && e.state.scheduler.events.all (fun pending => pending.what ≠ event)

theorem Endpoint.not_pending_of_stuck (stuck : e.stuck event) : ¬e.TimersPending := by
  intro timers
  rw [Endpoint.stuck, Bool.and_eq_true, Option.isSome_iff_exists] at stuck
  obtain ⟨⟨handle, full⟩, gone⟩ := stuck
  obtain ⟨peer, present, held⟩ := Option.bind_eq_some_iff.mp full
  obtain ⟨pending, member, what, -⟩ := (timers _ peer present event rfl handle).mp held
  exact of_decide_eq_true (all_eq_true.mp gone pending member) what

/-- An event of a peer is pending although its slot does not hold it. -/
def Endpoint.astray : Bool :=
  e.state.scheduler.events.any (fun pending =>
    (e.peers pending.what.peer).any (fun peer => peer.slot pending.what ≠ some ⟨pending.tag⟩))

theorem Endpoint.not_pending_of_astray (astray : e.astray) : ¬e.TimersPending := by
  intro timers
  obtain ⟨pending, member, lost⟩ := any_eq_true.mp astray
  cases present : e.peers pending.what.peer with
  | none => simp [present] at lost
  | some peer =>
    rw [present, Option.any_some] at lost
    have held := (timers _ peer present pending.what rfl ⟨pending.tag⟩).mpr
      ⟨pending, member, rfl, rfl⟩
    exact of_decide_eq_true lost held

/-- The keepalive fires after the session has expired: its slot stays full although no event is
pending any more. And a handshake that overwrites one in flight leaves the timeout of the old
one pending, with no slot for it. -/
theorem keepalive_slot_stuck :
    ¬Safe Halt.Tolerated Endpoint.TimersPending
      (toyLife true 10 [toyDial, toyInitiate, toyFinish, toyListen, toyTick 200]) ∧
    ¬Safe Halt.Tolerated Endpoint.TimersPending
      (toyLife false 10 [toyDial, toyInitiate, toyFinish, toyRekey, toyHear]) := by
  constructor
  · have stuck : Returns (fun e => e.stuck (.maybeSendKeepalive toyFar) = true)
        (toyLife true 10 [toyDial, toyInitiate, toyFinish, toyListen, toyTick 200]) := by
      decide +kernel
    exact (stuck.mono fun e => e.not_pending_of_stuck _).refutes
  · have astray : Returns (fun e => e.astray = true)
        (toyLife false 10 [toyDial, toyInitiate, toyFinish, toyRekey, toyHear]) := by
      decide +kernel
    exact (astray.mono fun e => e.not_pending_of_astray).refutes

end TailscaleRs.Tunnel
