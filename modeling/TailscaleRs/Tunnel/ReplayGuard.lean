import TailscaleRs.Tunnel.ReplayPeer
import TailscaleRs.Tunnel.TimerSlots

namespace TailscaleRs.Tunnel

open Function List Peer
open Time (Instant Duration)

theorem held_update (peers : PeerId → Option Peer) (id : PeerId) (after : Option Peer) :
    held (update peers id after) = update (held peers) id (after.elim [] recvs) := by
  funext other
  by_cases same : other = id
  · subst same
    simp [held]
  · simp [held, update_of_ne same]

namespace Work

/-- In the middle of a call: what happened before it and in it so far has left the receive
sessions guarded. -/
structure Traced (W : WgCrypto) (batch : List Bytes) (past : List Happening) (w : Work) : Prop where
  sound : ∀ id, Sound (held w.peers id)
  guarded : (createdIn (past ++ w.ctx.out.happened)).Nodup →
    Guarded (held w.peers) (past ++ w.ctx.out.happened)
  genuine : ∀ d ∈ deliveredIn w.ctx.out.happened, d.packet ∈ batch ∧ d.Authentic W

section

variable {W : WgCrypto} {batch : List Bytes} {past : List Happening} {w : Work}
  (traced : Traced W batch past w) (id : PeerId)
include traced

theorem Traced.replace (after : Option Peer) (ctx : Ctx)
    (kept : (after.elim [] recvs).Subperm (held w.peers id))
    (same : ctx.out.happened = w.ctx.out.happened) :
    Traced W batch past ⟨update w.peers id after, ctx⟩ := by
  refine ⟨fun other session member => ?_, fun fresh => ?_, same ▸ traced.genuine⟩
  · rw [held_update] at member
    rcases mem_update member with ⟨rfl, own⟩ | ⟨-, foreign⟩
    · exact traced.sound other session (kept.subset own)
    · exact traced.sound other session foreign
  · rw [same] at fresh ⊢
    rw [held_update]
    exact (traced.guarded fresh).rearrange kept

theorem Traced.evolve (peer after : Peer) (ctx : Ctx) (present : w.peers id = some peer)
    (evolved : Peer.Evolved W batch peer w.ctx (after, ctx)) :
    Traced W batch past ⟨update w.peers id (some after), ctx⟩ := by
  have own : held w.peers id = peer.recvs := by
    rw [held, present]
    rfl
  refine ⟨fun other session member => ?_, fun fresh => ?_, evolved.recvs.genuine traced.genuine⟩
  · rw [held_update] at member
    rcases mem_update member with ⟨rfl, own'⟩ | ⟨-, foreign⟩
    · exact evolved.recvs.sound (own ▸ traced.sound other) session own'
    · exact traced.sound other session foreign
  · rw [held_update]
    have before : (createdIn (past ++ w.ctx.out.happened)).Nodup := by
      obtain ⟨more, grown⟩ := evolved.recvs.grows
      dsimp only at fresh grown
      rw [← grown, ← append_assoc, createdIn_append] at fresh
      exact fresh.of_append_left
    exact Guarded.evolve evolved.recvs (traced.guarded before) own fresh

theorem onPeer_traced (op : Peer → Ctx → Except Halt (Peer × Ctx))
    (keeps : ∀ peer, Sound peer.recvs →
      Unbroken (Peer.Evolved W batch peer w.ctx) (op peer w.ctx)) :
    Unbroken (Traced W batch past) (w.onPeer id op) := by
  unfold onPeer
  cases present : w.peers id with
  | none => exact traced
  | some peer =>
    have sound := traced.sound id
    rw [held, present] at sound
    apply (keeps peer sound).bind
    rintro ⟨after, ctx⟩ evolved
    exact traced.evolve id peer after ctx present evolved

end

variable (W : WgCrypto) (debug : Bool) (now : Instant) {batch : List Bytes}
  {past : List Happening} {w : Work}

theorem removePeer_traced (id : PeerId) (traced : Traced W batch past w) :
    Unbroken (fun r => Traced W batch past r.1) (w.removePeer id) := by
  unfold removePeer
  cases present : w.peers id with
  | none => exact traced
  | some peer =>
    apply shutdown_evolved.bind
    rintro ⟨old, ctx⟩ ⟨-, same⟩
    apply ctx.state.ids.removePeer_unbroken.bind
    intro ids _
    exact traced.replace id none (ctx.setIds ids) nil_subperm same

theorem reconcileKeepalive_out (previous : Option Duration) (peer : Peer) (ctx : Ctx) :
    (reconcileKeepalive now previous peer ctx).2.out = ctx.out := by
  unfold reconcileKeepalive
  dsimp only
  split
  · rfl
  · split
    · exact armPersistentKeepalive_out now peer ctx
    · exact cancelSlot_out ctx peer.persistentKeepalive

variable (traced : Traced W batch past w)
include traced

theorem upsertPeer_traced (id : PeerId) (cfg : PeerConfig) :
    Unbroken (fun r => Traced W batch past r.1) (w.upsertPeer W now id cfg) := by
  unfold upsertPeer
  split
  · exact Halt.noConfusion
  · cases present : w.peers id with
    | some peer =>
      dsimp only
      split
      · apply shutdown_evolved.bind
        rintro ⟨old, ctx⟩ ⟨-, same⟩
        apply ctx.state.ids.removePeer_unbroken.bind
        intro ids _
        cases ids.addPeer id cfg.key with
        | none => exact Halt.noConfusion
        | some ids => exact traced.replace id _ (ctx.setIds ids) nil_subperm same
      · have untouched := reconcileKeepalive_untouched now
          peer.config.effectivePersistentKeepalive { peer with config := cfg } w.ctx
        have same := reconcileKeepalive_out now
          peer.config.effectivePersistentKeepalive { peer with config := cfg } w.ctx
        refine traced.replace id _ _ ?_ (congrArg Outbox.happened same)
        rw [held, present]
        simp only [Option.elim_some]
        rw [recvs, untouched.session, untouched.handshake]
        exact List.Subperm.refl _
    | none =>
      cases w.ctx.state.ids.addPeer id cfg.key with
      | none => exact Halt.noConfusion
      | some ids => exact traced.replace id _ (w.ctx.setIds ids) nil_subperm rfl

theorem send_traced {packets : List (PeerId × List Bytes)} :
    Unbroken (Traced W batch past) (w.send W debug now packets) :=
  Safe.foldlM packets (fun _ item _ traced =>
    onPeer_traced traced item.1 _ (fun _ _ => send_evolved W debug now)) w traced

theorem sendPriorityMessage_traced (id : PeerId) (msg : Bytes) :
    Unbroken (Traced W batch past) (w.sendPriorityMessage W now id msg) :=
  onPeer_traced traced id _ (fun _ _ => sendPriorityMessage_evolved W now msg)

theorem handleEvent_traced {event : Event} :
    Unbroken (Traced W batch past) (w.handleEvent W debug now event) := by
  cases event with
  | handshakeTimeout id =>
    exact onPeer_traced traced id _ (fun _ _ => handshakeTimeout_evolved W debug now)
  | maybeSendKeepalive id =>
    rw [handleEvent]
    apply onPeer_traced traced id
    exact fun _ _ => sendKeepalive_evolved W now
  | persistentKeepalive id =>
    rw [handleEvent]
    apply onPeer_traced traced id
    exact fun _ _ => sendPersistentKeepalive_evolved W now
  | newHandshakeTimeout id =>
    exact onPeer_traced traced id _ (fun _ _ => newHandshakeTimeout_evolved W debug now)

theorem dispatchEvents_traced (due : Instant) :
    Unbroken (Traced W batch past) (w.dispatchEvents W debug now due) :=
  Safe.foldlM _ (fun _ _ _ traced => handleEvent_traced W debug now traced) _
    ⟨traced.sound, traced.guarded, traced.genuine⟩

theorem respond_traced (init : HandshakeInitiation) :
    Unbroken (Traced W batch past) (w.respond W now init) := by
  unfold respond
  split
  · exact traced
  · split
    · exact traced
    · case _ id _ =>
        exact onPeer_traced traced id _ (fun _ _ => respondToHandshake_evolved W now)

theorem processOneHandshake_traced (origin : Option PeerId) (packet : Bytes) :
    Unbroken (Traced W batch past) (w.processOneHandshake W now origin packet) := by
  unfold processOneHandshake
  split
  · dsimp only
    have counted : Traced W batch past { w with ctx := { w.ctx with
        state := { w.ctx.state with load := (w.ctx.state.load.recordInitiation now).1 } } } :=
      ⟨traced.sound, traced.guarded, traced.genuine⟩
    split
    · exact counted
    · split
      · exact ⟨counted.sound, counted.guarded, counted.genuine⟩
      · exact respond_traced W now counted _
  · exact traced

theorem recvGroup_traced {group : SessionId × List Bytes} (inBatch : group.2 ⊆ batch) :
    Unbroken (Traced W batch past) (w.recvGroup W debug now group) := by
  unfold recvGroup
  split
  · exact traced
  · case _ id _ =>
      exact onPeer_traced traced id _ (fun _ sound => recv_evolved W debug now inBatch sound)

theorem recvFrom_traced (origin : Option PeerId) (order : List Nat) :
    Unbroken (Traced W batch past) (w.recvFrom W debug now origin batch order) := by
  apply Safe.bind (Safe.foldlM _ (fun _ packet _ traced =>
    processOneHandshake_traced W now traced origin packet) w traced)
  intro after answered
  exact Safe.foldlM _ (fun _ group member traced => recvGroup_traced W debug now traced
    (subset_of_mem_routed ((shuffle_perm order _).mem_iff.mp member))) after answered

end Work

/-- The receive sessions of an endpoint between two calls, with what happened so far. -/
structure Endpoint.Watched (e : Endpoint) (past : List Happening) : Prop where
  sound : ∀ id, Sound (held e.peers id)
  guarded : (createdIn past).Nodup → Guarded (held e.peers) past

/-- Each delivery is of an authentic packet of the batch. -/
def CallRecord.Genuine (W : WgCrypto) (record : CallRecord) : Prop :=
  ∀ d ∈ deliveredIn record.happened, d.packet ∈ record.stimulus.call.packets ∧ d.Authentic W

def happenedIn (records : List CallRecord) : List Happening :=
  records.flatMap CallRecord.happened

namespace Endpoint

variable (W : WgCrypto) (debug : Bool) {e : Endpoint} {past : List Happening} (stimulus : Stimulus)

theorem perform_traced (watched : e.Watched past) :
    Unbroken (Work.Traced W stimulus.call.packets past)
      ((e.begin stimulus.draws).perform W debug stimulus.now stimulus.call) := by
  obtain ⟨now, draws, call⟩ := stimulus
  have traced (batch : List Bytes) : (e.begin draws).Traced W batch past := by
    refine ⟨watched.sound, fun fresh => ?_, fun d member => (nomatch member)⟩
    rw [begin, Outbox.empty, append_nil] at fresh ⊢
    exact watched.guarded fresh
  cases call with
  | upsertPeer id cfg =>
    exact (Work.upsertPeer_traced W now (traced []) id cfg).bind (fun _ after => after)
  | removePeer id => exact (Work.removePeer_traced W id (traced [])).bind (fun _ after => after)
  | send packets => exact Work.send_traced W debug now (traced [])
  | sendPriorityMessage id msg => exact Work.sendPriorityMessage_traced W now (traced []) id msg
  | recvFrom origin packets order =>
    exact Work.recvFrom_traced W debug now (traced packets) origin order
  | dispatchEvents due => exact Work.dispatchEvents_traced W debug now (traced []) due

theorem call_watched (watched : e.Watched past) :
    Unbroken (fun r => r.1.Watched (past ++ r.2.happened) ∧ CallRecord.Genuine W ⟨stimulus, r.2⟩)
      (e.call W debug stimulus) := by
  apply (perform_traced W debug stimulus watched).bind
  intro w traced
  exact ⟨⟨traced.sound, traced.guarded⟩, traced.genuine⟩

theorem run_error (halt : Halt) (stimuli : List Stimulus) :
    run (step W debug) (.error halt) stimuli = .error halt := by
  induction stimuli with
  | nil => rfl
  | cons stimulus rest ih => exact ih

theorem run_watched {stimuli : List Stimulus} (watched : e.Watched past) :
    (∀ record ∈ e.records W debug stimuli, record.Genuine W) ∧
    ((createdIn (past ++ happenedIn (e.records W debug stimuli))).Nodup →
      ((deliveredIn (past ++ happenedIn (e.records W debug stimuli))).map Delivery.message).Nodup) ∧
    Unbroken (fun after => after.Watched (past ++ happenedIn (e.records W debug stimuli)))
      (run (step W debug) (.ok e) stimuli) := by
  have here : (createdIn (past ++ [])).Nodup →
      ((deliveredIn (past ++ [])).map Delivery.message).Nodup := by
    rw [append_nil]
    exact fun fresh => (watched.guarded fresh).once
  induction stimuli generalizing e past with
  | nil =>
    refine ⟨nofun, here, ?_⟩
    rw [records, happenedIn, flatMap_nil, append_nil]
    exact watched
  | cons stimulus rest ih =>
    have called := call_watched W debug stimulus watched
    have stepped : run (step W debug) (.ok e) (stimulus :: rest) =
        run (step W debug) (step W debug (.ok e) stimulus) rest := rfl
    rw [records, stepped]
    cases result : e.call W debug stimulus with
    | error halt =>
      rw [result] at called
      have halted : step W debug (.ok e) stimulus = .error halt := by
        simp only [step, bind, Except.bind, result]
      refine ⟨nofun, here, ?_⟩
      rw [halted, run_error]
      exact called
    | ok made =>
      obtain ⟨after, out⟩ := made
      rw [result] at called
      obtain ⟨next, genuine⟩ := called
      have advanced : step W debug (.ok e) stimulus = .ok after := by
        simp only [step, bind, Except.bind, result]
        rfl
      obtain ⟨all, once, last⟩ := ih next (by
        rw [append_nil]
        exact fun fresh => (next.guarded fresh).once)
      rw [happenedIn, flatMap_cons, ← append_assoc, advanced]
      exact ⟨forall_mem_cons.mpr ⟨genuine, all⟩, once, last⟩

theorem new_watched {myKey : NodeKeyPair} : (Endpoint.new W myKey).Watched [] :=
  ⟨nofun, fun _ => Guarded.empty⟩

/-- The windows of all receive sessions are what the delivered messages leave behind. -/
def WindowsFollow (e : Endpoint) (happened : List Happening) : Prop :=
  ∀ id, ∀ session ∈ held e.peers id,
    ReplayWindow.having (countersIn happened session.key) = .ok session.window

/-- In every run, if the AEAD opens only what was sealed and the keys of sessions differ: no
message is delivered twice, each was sealed under its session's key and counter, the replay windows
follow the deliveries alone, and `ReplayWindow::set` does not panic. -/
theorem delivers_at_most_once (myKey : NodeKeyPair) (stimuli : List Stimulus)
    (sealed : (key : Bytes) → (counter : UInt64) → (ciphertext : Bytes) → Prop)
    (unforged : ∀ key counter ciphertext payload,
      W.aeadDecrypt key (nonceBytes counter) [] ciphertext = some payload →
        sealed key counter ciphertext)
    (distinct : (createdIn (happenedIn ((Endpoint.new W myKey).records W debug stimuli))).Nodup) :
    let records := (Endpoint.new W myKey).records W debug stimuli
    ((deliveredIn (happenedIn records)).map Delivery.message).Nodup ∧
    (∀ record ∈ records,
      (∀ id, (record.out.toLocal id).getD [] = payloadsIn record.happened id) ∧
      ∀ d ∈ deliveredIn record.happened, d.packet ∈ record.stimulus.call.packets ∧
        d.Authentic W ∧ sealed d.key d.counter (d.packet.drop 16)) ∧
    Safe (fun halt => halt ≠ .replaySet) (fun e => e.WindowsFollow (happenedIn records))
      (run (step W debug) (.ok (Endpoint.new W myKey)) stimuli) := by
  obtain ⟨genuine, once, last⟩ := run_watched W debug (new_watched W)
  refine ⟨once distinct, fun record member => ⟨record.out.heard, ?_⟩, ?_⟩
  · intro d delivered
    obtain ⟨received, authentic⟩ := genuine record member d delivered
    exact ⟨received, authentic, unforged _ _ _ _ authentic.2⟩
  · exact last.mono (fun e watched => (watched.guarded distinct).windows)

end Endpoint

/-- A packet that arrives twice is delivered once. -/
theorem delivers_at_most_once_toyListen :
    let stimuli := [toyDial, toyInitiate, toyFinish, toyListen, toyListen]
    let myKey : NodeKeyPair := ⟨replicate 32 10, replicate 32 10⟩
    let records := (Endpoint.new WgCrypto.toy myKey).records WgCrypto.toy true stimuli
    ((deliveredIn (happenedIn records)).map Delivery.message).Nodup ∧
    records.map (fun record => ((record.out.toLocal toyFar).getD []).length) = [0, 0, 0, 1, 0] := by
  refine ⟨(Endpoint.delivers_at_most_once WgCrypto.toy true _ _
    (fun key counter ciphertext =>
      (WgCrypto.toy.aeadDecrypt key (nonceBytes counter) [] ciphertext).isSome)
    (fun _ _ _ _ opened => Option.isSome_of_eq_some opened) ?_).1, ?_⟩
  · decide +kernel
  · decide +kernel

end TailscaleRs.Tunnel
