import TailscaleRs.Time.Slots
import TailscaleRs.Tunnel.PeerIds

namespace TailscaleRs.Tunnel

open Function TransmitSession Safe
open Time (Instant Handle Scheduler FutureEvent Booked)

def Event.peer : Event → PeerId
  | .handshakeTimeout peer => peer
  | .maybeSendKeepalive peer => peer
  | .persistentKeepalive peer => peer
  | .newHandshakeTimeout peer => peer

/-- A peer that gives up a handshake also gives up on hearing back, in the middle of a
dispatch that may have taken the event for it already. -/
def Event.Loose : Event → Prop
  | .newHandshakeTimeout _ => True
  | _ => False

def Peer.slot (peer : Peer) : Event → Option Handle
  | .handshakeTimeout _ => peer.handshake.initiated.map Initiation.timeout
  | .maybeSendKeepalive _ => peer.keepalive
  | .persistentKeepalive _ => peer.persistentKeepalive
  | .newHandshakeTimeout _ => peer.newHandshake

/-- All slots of an endpoint, those of one peer as it is in the middle of a call. -/
def slotsWith (base : Event → Option Handle) (peer : Peer) (event : Event) : Option Handle :=
  if event.peer = peer.id then peer.slot event else base event

/-- What happens in a call is always allowed to end in a panic. -/
abbrev Timely {α : Type} (post : α → Prop) : Except Halt α → Prop := Safe (fun _ => True) post

theorem Ctx.allocateSession_scheduler (ctx : Ctx) {peer : PeerId} :
    Timely (fun r => r.1.state.scheduler = ctx.state.scheduler) (ctx.allocateSession peer) := by
  unfold Ctx.allocateSession
  cases ctx.state.ids.allocateSession peer ctx.draws.sessionIds with
  | error halt => trivial
  | ok made => rfl

variable {owed : List (FutureEvent Event)}

theorem booked_vacant {loose : Event → Prop} {s : Scheduler Event} {slot : Event → Option Handle}
    (booked : Booked loose s owed slot) {what : Event} (vacant : slot what = none)
    (strict : ¬loose what) : ∀ o ∈ owed, o.what ≠ what := by
  rintro o waiting rfl
  rcases booked.unsettled o waiting with full | ⟨loose, -⟩
  · rw [vacant] at full
    cases full
  · exact strict loose

theorem booked_cancelSlot {slots : Event → Option Handle} (ctx : Ctx)
    (booked : Booked Event.Loose ctx.state.scheduler owed slots) (what : Event)
    (slot : Option Handle) (here : slots what = slot)
    (free : what.Loose ∨ ∀ o ∈ owed, o.what ≠ what) :
    Booked Event.Loose (ctx.cancelSlot slot).state.scheduler owed (update slots what none) := by
  cases slot with
  | none =>
    rw [update_eq_self_iff.mpr here.symm]
    exact booked
  | some handle => exact booked.cancel what handle here free

section

variable (base : Event → Option Handle) (peer : Peer)

theorem slotsWith_own (event : Event) (own : event.peer = peer.id) :
    slotsWith base peer event = peer.slot event := if_pos own

variable (slot : Option Handle)

theorem slotsWith_keepalive :
    slotsWith base { peer with keepalive := slot } =
      update (slotsWith base peer) (.maybeSendKeepalive peer.id) slot := by
  funext event
  cases event <;> grind [slotsWith, Event.peer, Peer.slot]

theorem slotsWith_persistentKeepalive :
    slotsWith base { peer with persistentKeepalive := slot } =
      update (slotsWith base peer) (.persistentKeepalive peer.id) slot := by
  funext event
  cases event <;> grind [slotsWith, Event.peer, Peer.slot]

theorem slotsWith_newHandshake :
    slotsWith base { peer with newHandshake := slot } =
      update (slotsWith base peer) (.newHandshakeTimeout peer.id) slot := by
  funext event
  cases event <;> grind [slotsWith, Event.peer, Peer.slot]

theorem slotsWith_handshake (handshake : Handshake) :
    slotsWith base { peer with handshake := handshake } =
      update (slotsWith base peer) (.handshakeTimeout peer.id)
        (handshake.initiated.map Initiation.timeout) := by
  funext event
  cases event <;> grind [slotsWith, Event.peer, Peer.slot]

end

namespace Peer

/-- The timers of an endpoint are in their slots, as far as one peer's call has come. -/
structure Timed (base : Event → Option Handle) (owner : PeerId) (owed : List (FutureEvent Event))
    (after : Peer × Ctx) : Prop where
  id : after.1.id = owner
  booked : Booked Event.Loose after.2.state.scheduler owed (slotsWith base after.1)

variable {base : Event → Option Handle} {owner : PeerId} {owed : List (FutureEvent Event)}
  {peer : Peer} {ctx : Ctx}

theorem cancelNewHandshake_timed (timed : Timed base owner owed (peer, ctx)) :
    Timed base owner owed (peer.cancelNewHandshake ctx) := by
  refine ⟨timed.id, ?_⟩
  unfold cancelNewHandshake
  rw [slotsWith_newHandshake]
  exact booked_cancelSlot ctx timed.booked _ _ (slotsWith_own base peer _ rfl) (.inl trivial)

variable (now : Instant)

theorem scheduleKeepalive_timed (timed : Timed base owner owed (peer, ctx)) :
    Timed base owner owed (peer.scheduleKeepalive now ctx) := by
  unfold scheduleKeepalive
  split
  · exact ⟨timed.id, timed.booked⟩
  · case _ slot =>
      have here : slotsWith base peer (.maybeSendKeepalive peer.id) = none :=
        (slotsWith_own base peer _ rfl).trans slot
      refine ⟨timed.id, ?_⟩
      rw [slotsWith_keepalive]
      exact timed.booked.add _ _ here (booked_vacant timed.booked here (fun loose => loose))

theorem armNewHandshake_timed (timed : Timed base owner [] (peer, ctx)) :
    Timed base owner [] (peer.armNewHandshake now ctx) := by
  unfold armNewHandshake
  split
  · exact timed
  · case _ slot =>
      have here : slotsWith base peer (.newHandshakeTimeout peer.id) = none :=
        (slotsWith_own base peer _ rfl).trans slot
      refine ⟨timed.id, ?_⟩
      rw [slotsWith_newHandshake]
      exact timed.booked.add _ _ here nofun

theorem armPersistentKeepalive_timed (free : ∀ o ∈ owed, o.what ≠ .persistentKeepalive peer.id)
    (timed : Timed base owner owed (peer, ctx)) :
    Timed base owner owed (peer.armPersistentKeepalive now ctx) := by
  unfold armPersistentKeepalive
  split
  · exact timed
  · have here : slotsWith base peer (.persistentKeepalive peer.id) = peer.persistentKeepalive :=
      slotsWith_own base peer _ rfl
    refine ⟨timed.id, ?_⟩
    rw [slotsWith_persistentKeepalive]
    cases slot : peer.persistentKeepalive with
    | none => exact timed.booked.add _ _ (here.trans slot) free
    | some old => exact timed.booked.replace _ _ old (here.trans slot) free

theorem noteDataSent_timed (timed : Timed base owner [] (peer, ctx)) :
    Timed base owner [] (peer.noteDataSent now ctx) :=
  armNewHandshake_timed now
    (armPersistentKeepalive_timed now nofun timed)

theorem queueSealed_timed {sealed : Option (List Bytes)} (timed : Timed base owner [] (peer, ctx)) :
    Timed base owner [] (peer.queueSealed now ctx sealed) := by
  cases sealed with
  | none => exact timed
  | some packets =>
    have noted : Timed base owner []
        (if packets = [] then (peer, ctx) else peer.noteDataSent now ctx) := by
      split
      · exact timed
      · exact noteDataSent_timed now timed
    exact ⟨noted.id, noted.booked⟩

theorem deliver_timed (arm : Bool) (opened : List Opened)
    (timed : Timed base owner owed (peer, ctx)) :
    Timed base owner owed (peer.deliver now arm opened ctx) := by
  have cancelled := cancelNewHandshake_timed timed
  have queued : Timed base owner owed ((peer.cancelNewHandshake ctx).1,
      (peer.cancelNewHandshake ctx).2.queueToLocal peer.id opened) :=
    ⟨cancelled.id, cancelled.booked⟩
  cases arm with
  | false => exact queued
  | true => exact scheduleKeepalive_timed now queued

variable {W : WgCrypto}

/-- Starting a handshake arms its timer, if none was in flight. -/
theorem startHandshake_timed {debug : Bool} {now : Instant} {isRetry : Bool}
    (idle : peer.handshake.isActive = false) (timed : Timed base owner owed (peer, ctx)) :
    Timely (fun r => Timed base owner owed r ∧ r.1.session = peer.session ∧
        (isRetry = false → r.1.handshakeAttempts = 0))
      (peer.startHandshake W debug now isRetry ctx) := by
  apply ctx.allocateSession_scheduler.bind
  rintro ⟨ctx', sessionId⟩ same
  dsimp only at same ⊢
  obtain ⟨range, scheduled, handle⟩ : ∃ range,
      (peer.initiate W now sessionId ctx').1.state.scheduler =
        (ctx.state.scheduler.add range (.handshakeTimeout peer.id)).1 ∧
      (peer.initiate W now sessionId ctx').2.timeout =
        (ctx.state.scheduler.add range (.handshakeTimeout peer.id)).2 := by
    rw [← same]
    exact ⟨_, rfl, rfl⟩
  generalize peer.initiate W now sessionId ctx' = initiated at scheduled handle ⊢
  obtain ⟨ctx'', initiation⟩ := initiated
  rw [(peer.handshake.setInitiated_idle idle).1]
  have here : slotsWith base peer (.handshakeTimeout peer.id) = none := by
    have none : peer.handshake.initiated = none :=
      Option.isNone_iff_eq_none.mp (Option.isSome_eq_false_iff.mp idle)
    rw [slotsWith_own base peer _ rfl, Peer.slot, none]
    rfl
  refine ⟨⟨timed.id, ?_⟩, rfl, fun fresh => by simp [fresh]⟩
  have booked := timed.booked.add range _ here
    (booked_vacant timed.booked here (fun loose => loose))
  rw [← scheduled, ← handle] at booked
  exact (slotsWith_handshake base peer { peer.handshake with initiated := some initiation }) ▸
    booked

section

variable (timed : Timed base owner [] (peer, ctx))
include timed

theorem send_timed {debug : Bool} (now : Instant) {packets : List Bytes} :
    Timely (Timed base owner []) (peer.send W debug now packets ctx) := by
  apply skip
  rintro ⟨session, ids, sealed⟩
  have queued : Timed base owner []
      (queueSealed now { peer with session := session } (ctx.setIds ids) sealed) :=
    queueSealed_timed now ⟨timed.id, timed.booked⟩
  dsimp only
  split
  · exact queued
  · case _ idle =>
      split
      · exact queued
      · exact (startHandshake_timed (Bool.eq_false_iff.mpr idle) queued).mono
          (fun _ kept => kept.1)

variable {now : Instant}

theorem sendPriorityMessage_timed (msg : Bytes) :
    Timed base owner [] ((peer.sendPriorityMessage W now msg ctx).1,
      (peer.sendPriorityMessage W now msg ctx).2.1) := by
  unfold sendPriorityMessage
  split
  · exact timed
  · split
    · exact timed
    · cases peer.session.encryptPriority W now msg with
      | none => exact timed
      | some made =>
        have noted : Timed base owner [] (noteDataSent now { peer with session := made.1 } ctx) :=
          noteDataSent_timed now ⟨timed.id, timed.booked⟩
        exact ⟨noted.id, noted.booked⟩

variable {packet : HandshakeResponse}

theorem finish_timed (psk : Bytes) (cookies : MacReceiver) {handshake : Handshake}
    (next : SessionPair) {timeout : Handle}
    (finished : peer.handshake.finish W packet psk cookies now = some (handshake, next, timeout)) :
    Timed base owner [] ({ peer with handshake := handshake }, ctx.cancel timeout) := by
  unfold Handshake.finish at finished
  rw [Option.bind_eq_bind, Option.bind_eq_some_iff] at finished
  obtain ⟨initiation, initiated, finished⟩ := finished
  obtain ⟨pair, -, same⟩ := Option.bind_eq_some_iff.mp finished
  cases same
  have here : slotsWith base peer (.handshakeTimeout peer.id) = some initiation.timeout := by
    rw [slotsWith_own base peer _ rfl, Peer.slot, initiated]
    rfl
  refine ⟨timed.id, ?_⟩
  rw [slotsWith_handshake]
  exact timed.booked.cancel _ _ here (.inr nofun)

theorem recvHandshakeResponse_timed :
    Timely (Timed base owner []) (peer.recvHandshakeResponse W now packet ctx) := by
  unfold recvHandshakeResponse
  cases finished : peer.handshake.finish W packet peer.config.psk ctx.state.myCookie now with
  | none => exact timed
  | some made =>
    obtain ⟨handshake, next, timeout⟩ := made
    have done := finish_timed timed _ _ next finished
    have cancelled : Timed base owner [] (cancelNewHandshake
        { peer with handshake := handshake, handshakeAttempts := 0 } (ctx.cancel timeout)) :=
      cancelNewHandshake_timed ⟨done.id, done.booked⟩
    dsimp only
    generalize cancelNewHandshake
      { peer with handshake := handshake, handshakeAttempts := 0 } (ctx.cancel timeout) = after
      at cancelled ⊢
    obtain ⟨peer, ctx⟩ := after
    apply skip
    rintro ⟨session, ids, packets⟩
    apply skip
    rintro ⟨session, ids, packets⟩
    have armed : Timed base owner [] (armPersistentKeepalive now { peer with session := session }
        ((ctx.setIds ids).noteCreated [next.recv.key])) :=
      armPersistentKeepalive_timed now nofun ⟨cancelled.id, cancelled.booked⟩
    exact ⟨armed.id, armed.booked⟩

theorem respondToHandshake_timed {received : ReceivedHandshake} :
    Timely (Timed base owner []) (peer.respondToHandshake W now received ctx) := by
  unfold respondToHandshake
  split
  · exact timed
  · have cancelled : Timed base owner [] (cancelNewHandshake
        { peer with lastSeenTimestamp := some received.timestamp } ctx) :=
      cancelNewHandshake_timed ⟨timed.id, timed.booked⟩
    dsimp only
    generalize cancelNewHandshake
      { peer with lastSeenTimestamp := some received.timestamp } ctx = after at cancelled ⊢
    obtain ⟨peer, ctx⟩ := after
    apply ctx.allocateSession_scheduler.bind
    rintro ⟨ctx', sessionId⟩ same
    apply skip
    intro ids
    refine ⟨cancelled.id, ?_⟩
    have booked := cancelled.booked
    rw [← same] at booked
    exact booked

theorem recvAuthenticated_timed {debug : Bool} (now : Instant) {opened : List Opened}
    (clear : peer.clashing now = false) :
    Timely (Timed base owner []) (peer.recvAuthenticated W debug now opened ctx) := by
  have same := deliver_untouched now peer ctx (opened.any (fun one => one.payload ≠ [])) opened
  have delivered := deliver_timed now (opened.any (fun one => one.payload ≠ [])) opened timed
  unfold recvAuthenticated
  dsimp only
  generalize peer.deliver now _ opened ctx = after at same delivered ⊢
  have fires := (after.1.session.keepKeyFreshReceiving_spec now).1
  rw [clashing, ← same.session, ← same.handshake] at clear
  obtain ⟨peer, ctx⟩ := after
  generalize peer.session.keepKeyFreshReceiving now = kept at fires ⊢
  obtain ⟨session, due⟩ := kept
  have kept : Timed base owner [] ({ peer with session := session }, ctx) :=
    ⟨delivered.id, delivered.booked⟩
  split
  · case _ isDue =>
      have idle : peer.handshake.isActive = false := by
        rw [← fires, isDue, Bool.and_true] at clear
        exact clear
      refine mono (startHandshake_timed ?_ kept) (fun _ kept => kept.1)
      exact idle
  · exact kept

theorem recvConfirmed_timed {next : SessionPair} {opened : List Opened} :
    Timely (Timed base owner []) (peer.recvConfirmed W now next opened ctx) := by
  have delivered := deliver_timed now true opened timed
  unfold recvConfirmed
  generalize peer.deliver now true opened ctx = after at delivered ⊢
  obtain ⟨peer, ctx⟩ := after
  apply skip
  rintro ⟨session, ids, packets⟩
  have armed : Timed base owner []
      (armPersistentKeepalive now { peer with session := session } (ctx.setIds ids)) :=
    armPersistentKeepalive_timed now nofun ⟨delivered.id, delivered.booked⟩
  dsimp only
  split
  · exact ⟨armed.id, armed.booked⟩
  · exact ⟨armed.id, armed.booked⟩

end

theorem confirm_initiated {debug : Bool} (now : Instant) {handshake : Handshake} (id : SessionId)
    {packets : List Bytes} :
    Timely (fun r => r.1.initiated = handshake.initiated)
      (handshake.confirm W debug id packets now) := by
  unfold Handshake.confirm
  split
  · rfl
  · case _ tentative _ =>
      split
      · rfl
      · split
        · rfl
        · apply skip
          rintro ⟨recv, opened⟩
          dsimp only
          split
          · rfl
          · rfl

section

variable {debug : Bool} {now : Instant} {batch : List Bytes} {origin : SessionId → Option PeerId}
  (timed : Timed base owner [] (peer, ctx))
include timed

/-- A packet of a quiet batch that opens reaches a peer whose initiations do not clash. -/
theorem recvTransportData_timed (id : SessionId) (packets : List Bytes)
    (transport : ∀ packet ∈ packets, IsTransport packet) (inBatch : packets ⊆ batch)
    (quiet : peer.Quiet W now batch) :
    Timely (Timed base owner []) (peer.recvTransportData W debug now id packets ctx) := by
  unfold recvTransportData
  cases lent : peer.session.getRecv now id with
  | some found =>
    obtain ⟨slot, recv⟩ := found
    apply (recv.decrypt_safe W transport).yields.bind
    rintro ⟨after, opened⟩ ⟨moved, source⟩
    dsimp only at moved source ⊢
    obtain ⟨-, due, -, heard⟩ :=
      peer.session.putRecv_getRecv W now lent
    rw [← moved] at due
    have kept : Timed base owner []
        ({ peer with session := peer.session.putRecv slot after }, ctx) :=
      ⟨timed.id, timed.booked⟩
    split
    · exact kept
    · case _ yielded =>
        obtain ⟨packet, member, opens⟩ := source yielded
        refine recvAuthenticated_timed kept now ?_
        rw [clashing, due]
        exact Bool.eq_false_iff.mpr
          (fun clashes => quiet clashes packet (inBatch member) (heard packet opens))
  | none =>
    apply (confirm_initiated now id).bind
    rintro ⟨handshake, confirmed⟩ same
    have kept : Timed base owner [] ({ peer with handshake := handshake }, ctx) := by
      refine ⟨timed.id, ?_⟩
      have unchanged : slotsWith base { peer with handshake := handshake } =
          slotsWith base peer := by
        rw [slotsWith_handshake]
        rw [same, ← slotsWith_handshake]
      rw [unchanged]
      exact timed.booked
    cases confirmed with
    | none => exact kept
    | some made => exact recvConfirmed_timed kept

theorem recvHandshakes_timed {packets : List Bytes} :
    Timely (fun r => Timed base owner [] (r.1, r.2.1))
      (recvHandshakes W debug now packets peer ctx) := by
  induction packets generalizing peer ctx with
  | nil => exact timed
  | cons first rest ih =>
    rw [recvHandshakes]
    split
    · exact ih timed
    · apply (ih timed).bind
      rintro ⟨peer, ctx, kept⟩ timed
      exact timed
    · case _ resp _ =>
        apply (recvHandshakeResponse_timed timed).bind
        rintro ⟨peer, ctx⟩ timed
        exact ih timed
    · case _ resp _ =>
        apply ih
        unfold recvCookieReply
        split
        · exact timed
        · exact ⟨timed.id, timed.booked⟩
    · split
      · trivial
      · exact ih timed

theorem recv_timed {id : SessionId} {packets : List Bytes} (inBatch : packets ⊆ batch)
    (settled : Settled W now batch origin owner (peer, ctx)) :
    Timely (Timed base owner []) (peer.recv W debug now id packets ctx) := by
  refine ((recvHandshakes_settled settled).both
    (recvHandshakes_timed timed)).bind ?_
  rintro ⟨peer, ctx, kept⟩ ⟨⟨settled, part⟩, timed⟩
  exact recvTransportData_timed timed id kept
    (fun packet member => (part packet member).2)
    (fun packet member => inBatch (part packet member).1) settled.quiet

end

theorem cancelAllTimers_timed (timed : Timed base owner [] (peer, ctx)) :
    Timed base owner [] (peer.cancelAllTimers ctx) := by
  have free (what : Event) : ∀ o ∈ ([] : List (FutureEvent Event)), o.what ≠ what := nofun
  have silent : Timed base owner []
      ({ peer with keepalive := none }, ctx.cancelSlot peer.keepalive) := by
    refine ⟨timed.id, ?_⟩
    rw [slotsWith_keepalive]
    exact booked_cancelSlot ctx timed.booked _ _ (slotsWith_own base peer _ rfl) (.inr (free _))
  have quiet : Timed base owner []
      ({ peer with keepalive := none, persistentKeepalive := none },
        (ctx.cancelSlot peer.keepalive).cancelSlot peer.persistentKeepalive) := by
    refine ⟨timed.id, ?_⟩
    have booked := booked_cancelSlot _ silent.booked (.persistentKeepalive peer.id)
      peer.persistentKeepalive (slotsWith_own base _ _ rfl) (.inr (free _))
    exact slotsWith_persistentKeepalive base { peer with keepalive := none } none ▸ booked
  exact cancelNewHandshake_timed quiet

theorem shutdown_timed (timed : Timed base owner [] (peer, ctx)) :
    Timely (fun r => Timed base owner [] r ∧ ∀ event, r.1.slot event = none)
      (peer.shutdown ctx) := by
  apply skip
  rintro ⟨session, ids⟩
  apply skip
  intro ids
  have idle : Timed base owner [] ({ peer with session := session, handshake := Handshake.none },
      (ctx.setIds ids).cancelSlot (peer.handshake.initiated.map Initiation.timeout)) := by
    refine ⟨timed.id, ?_⟩
    have booked := booked_cancelSlot (ctx.setIds ids) timed.booked
      (.handshakeTimeout peer.id) _ (slotsWith_own base peer _ rfl) (.inr nofun)
    exact slotsWith_handshake base { peer with session := session } Handshake.none ▸ booked
  refine ⟨cancelAllTimers_timed idle, ?_⟩
  intro event
  cases event <;> rfl

variable {debug : Bool} {now : Instant} {o : FutureEvent Event}

theorem newHandshakeTimeout_timed (turn : o.what = .newHandshakeTimeout peer.id)
    (timed : Timed base owner (o :: owed) (peer, ctx)) :
    Timely (fun r => Timed base owner owed r ∧ r.1.session = peer.session ∧
        r.1.handshakeAttempts ≤ peer.handshakeAttempts)
      (peer.newHandshakeTimeout W debug now ctx) := by
  have spent : Timed base owner owed ({ peer with newHandshake := none }, ctx) := by
    refine ⟨timed.id, ?_⟩
    rw [slotsWith_newHandshake, ← turn]
    exact timed.booked.spend
  unfold newHandshakeTimeout
  dsimp only
  split
  · exact ⟨spent, rfl, Nat.le_refl _⟩
  · case _ idle =>
      refine mono (startHandshake_timed (Bool.eq_false_iff.mpr idle) spent)
        ?_
      intro r kept
      exact ⟨kept.1, kept.2.1, kept.2.2 rfl ▸ Nat.zero_le _⟩

/-- The initiation that went unanswered is dropped with its fired timer. -/
theorem handshakeTimeout_timed (turn : o.what = .handshakeTimeout peer.id)
    (timed : Timed base owner (o :: owed) (peer, ctx)) :
    Timely (fun r => Timed base owner owed r ∧
        (peer.handshakeAttempts < maxTimerHandshakes → r.1.session = peer.session))
      (peer.handshakeTimeout W debug now ctx) := by
  have spent : Booked Event.Loose ctx.state.scheduler owed
      (update (slotsWith base peer) (.handshakeTimeout peer.id) none) := by
    rw [← turn]
    exact timed.booked.spend
  unfold handshakeTimeout
  split
  · case _ idle =>
      have none : peer.handshake.initiated.map Initiation.timeout = none := by
        have absent : peer.handshake.initiated = none := by
          simpa [Handshake.isActive] using idle
        rw [absent]
        rfl
      rw [← none, ← slotsWith_handshake] at spent
      exact ⟨⟨timed.id, spent⟩, fun _ => rfl⟩
  · apply skip
    intro ids
    have dropped : Timed base owner owed
        ({ peer with handshake := Handshake.none }, ctx.setIds ids) :=
      ⟨timed.id, slotsWith_handshake base peer Handshake.none ▸ spent⟩
    dsimp only
    split
    · case _ exhausted =>
        apply skip
        rintro ⟨session, ids⟩
        refine ⟨cancelNewHandshake_timed ⟨timed.id, dropped.booked⟩, ?_⟩
        exact fun more => absurd more (Nat.not_lt.mpr exhausted)
    · have counted : Timed base owner owed ({ peer with
          handshake := Handshake.none
          handshakeAttempts := peer.handshakeAttempts + 1 }, ctx.setIds ids) :=
        ⟨timed.id, dropped.booked⟩
      refine mono (startHandshake_timed rfl counted) ?_
      exact fun r kept => ⟨kept.1, fun _ => kept.2.1⟩

end Peer

/-- The session can send now, with a message to spare if one goes out before. -/
def SessionState.sendable (now : Instant) (spare : Bool) : SessionState → Bool
  | .none _ => false
  | .active session =>
    !session.send.expired now && (!spare || session.send.nonce.toNat + 1 < rejectAfterMessages)

theorem SessionState.encryptOne_sendable (W : WgCrypto) {now : Instant} {msg : Bytes}
    (session : SessionState) (able : session.sendable now false) :
    ∃ after packet, session.encryptOne W now msg = some (after, packet) := by
  cases session with
  | none queue => cases able
  | active session =>
    have live : session.send.expired now = false := by
      simpa [SessionState.sendable] using able
    rw [SessionState.encryptOne, if_neg (by simp [live])]
    dsimp only [encrypt]
    rw [encryptFrom]
    split
    · exact ⟨_, _, rfl⟩
    · exact ⟨_, _, rfl⟩

/-- Sending uses up the message to spare. -/
theorem SessionState.encryptOne_spare (W : WgCrypto) (now : Instant) {msg packet : Bytes}
    {session after : SessionState} (able : session.sendable now true)
    (sent : session.encryptOne W now msg = some (after, packet)) : after.sendable now false := by
  cases session with
  | none queue => cases sent
  | active session =>
    simp only [SessionState.sendable, Bool.and_eq_true, Bool.not_eq_true', Bool.not_true,
      Bool.false_or, decide_eq_true_eq] at able
    obtain ⟨live, room⟩ := able
    rw [SessionState.encryptOne, if_neg (by simp [live])] at sent
    obtain ⟨_, _, same⟩ := Option.map_eq_some_iff.mp sent
    cases same
    have next : (batchEnd session.send.nonce [msg].length).toNat =
        session.send.nonce.toNat + 1 := by
      unfold rejectAfterMessages at room
      rw [batchEnd_toNat, List.length_singleton]
      omega
    simp only [expired, Bool.or_eq_false_iff, decide_eq_false_iff_not] at live
    simp only [SessionState.sendable, expired, next, Bool.not_false, Bool.true_or,
      Bool.and_true, Bool.not_eq_true', Bool.or_eq_false_iff,
      decide_eq_false_iff_not]
    exact ⟨live.1, Nat.not_le.mpr room⟩

namespace Peer

variable {base : Event → Option Handle} {owner : PeerId} {owed : List (FutureEvent Event)}
  {peer : Peer} {ctx : Ctx} (W : WgCrypto) {now : Instant} {o : FutureEvent Event}

/-- A keepalive that can be sent empties its slot before it is armed again. -/
theorem sendKeepalive_timed (turn : o.what = .maybeSendKeepalive peer.id)
    (able : peer.session.sendable now false) (timed : Timed base owner (o :: owed) (peer, ctx)) :
    Timed base owner owed (peer.sendKeepalive W now ctx) := by
  obtain ⟨session, packet, sent⟩ := peer.session.encryptOne_sendable W able
  have spent : Timed base owner owed
      ({ peer with session := session, keepalive := none }, ctx.queueToPeer peer.id [packet]) := by
    refine ⟨timed.id, ?_⟩
    have booked := timed.booked.spend
    rw [turn] at booked
    exact slotsWith_keepalive base { peer with session := session } none ▸ booked
  unfold sendKeepalive SessionState.encryptKeepalive
  rw [sent]
  dsimp only
  split
  · have scheduled := scheduleKeepalive_timed now spent
    exact ⟨scheduled.id, scheduled.booked⟩
  · exact spent

theorem sendPersistentKeepalive_timed (turn : o.what = .persistentKeepalive peer.id)
    (timed : Timed base owner (o :: owed) (peer, ctx)) :
    Timed base owner owed (peer.sendPersistentKeepalive W now ctx) ∧
      (peer.session.sendable now true →
        (peer.sendPersistentKeepalive W now ctx).1.session.sendable now false) ∧
      (peer.sendPersistentKeepalive W now ctx).1.handshakeAttempts = peer.handshakeAttempts := by
  have spent : Timed base owner owed ({ peer with persistentKeepalive := none }, ctx) := by
    refine ⟨timed.id, ?_⟩
    rw [slotsWith_persistentKeepalive, ← turn]
    exact timed.booked.spend
  unfold sendPersistentKeepalive SessionState.encryptKeepalive
  dsimp only
  cases sent : peer.session.encryptOne W now [] with
  | none =>
    refine ⟨spent, fun able => ?_, rfl⟩
    have sendable : peer.session.sendable now false := by
      cases session : peer.session with
      | none queue => simp [session, SessionState.sendable] at able
      | active state =>
        rw [session, SessionState.sendable, Bool.and_eq_true] at able
        simp [SessionState.sendable, able.1]
    obtain ⟨after, packet, some⟩ := peer.session.encryptOne_sendable W sendable
    rw [sent] at some
    cases some
  | some made =>
    obtain ⟨session, packet⟩ := made
    dsimp only
    have ready : Timed base owner owed ({ peer with
        persistentKeepalive := none, session := session },
        ctx.queueToPeer peer.id [packet]) := ⟨spent.id, spent.booked⟩
    have empty : slotsWith base { peer with persistentKeepalive := none, session := session }
        (.persistentKeepalive peer.id) = none := slotsWith_own base _ _ rfl
    have same := armPersistentKeepalive_untouched now
      { peer with persistentKeepalive := none, session := session }
      (ctx.queueToPeer peer.id [packet])
    refine ⟨?_, fun able => ?_, ?_⟩
    · refine armPersistentKeepalive_timed now ?_ ready
      exact booked_vacant ready.booked empty (fun loose => loose)
    · rw [same.session]
      exact SessionState.encryptOne_spare W now able sent
    · unfold armPersistentKeepalive
      split <;> rfl

end Peer

end TailscaleRs.Tunnel
