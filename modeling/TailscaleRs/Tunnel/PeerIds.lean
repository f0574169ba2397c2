import TailscaleRs.Tunnel.SessionIds

namespace TailscaleRs.Tunnel

open List

open Time (Instant Handle)

def IsTransport (packet : Bytes) : Prop :=
  ∃ header, Message.parse packet = some (.transportData header)

variable (W : WgCrypto)

/-- The packet is a transport message addressed to the session and authentic under its
key. -/
def ReceiveSession.opens (session : ReceiveSession) (packet : Bytes) : Bool :=
  match Message.parse packet with
  | some (.transportData header) =>
    header.receiverId = session.id &&
      (W.aeadDecrypt session.key (nonceBytes header.nonce) [] (packet.drop 16)).isSome
  | _ => false

variable (now : Instant)

/-- Some live receive session of the peer opens the packet. -/
def SessionState.hears (session : SessionState) (packet : Bytes) : Bool :=
  session.recvs.any (fun recv => !recv.expired now && recv.opens W packet)

/-- An initiation is in flight while packets received now would trigger another one. -/
def Peer.clashing (peer : Peer) : Bool :=
  peer.handshake.isActive && peer.session.receiveRekeyDue now

/-- No packet of the batch reaches a peer whose initiations would clash. -/
def Peer.Quiet (batch : List Bytes) (peer : Peer) : Prop :=
  peer.clashing now → ∀ packet ∈ batch, ¬peer.session.hears W now packet

section

variable {debug : Bool} (now : Instant)

theorem ofPrefix_of_parse {packet : Bytes} {header : TransportDataHeader}
    (parsed : Message.parse packet = some (.transportData header)) :
    TransportDataHeader.ofPrefix packet = some header := by
  unfold Message.parse at parsed
  unfold TransportDataHeader.ofPrefix
  cases first : packet.head? with
  | none =>
    rw [first] at parsed
    cases parsed
  | some msgType =>
    rw [first] at parsed
    repeat' split at parsed
    all_goals cases parsed
    case _ transport size =>
      subst transport
      simp [size]

theorem ReplayWindow.set_safe (window : ReplayWindow) {counter : UInt64} :
    Safe Halt.Tolerated (fun _ => True) (window.set counter) := by
  unfold ReplayWindow.set
  split
  · exact ⟨by decide, by decide⟩
  · extract_lets moved block
    split
    · exact ⟨by decide, by decide⟩
    · trivial

namespace ReceiveSession

variable (session : ReceiveSession)

theorem decryptOne_safe {packet : Bytes} (transport : IsTransport packet) :
    Safe Halt.Tolerated
      (fun r => r.1 = { session with window := r.1.window } ∧ (r.2.isSome → session.opens W packet))
      (session.decryptOne W debug packet) := by
  obtain ⟨header, parsed⟩ := transport
  unfold decryptOne opens
  rw [ofPrefix_of_parse parsed, parsed]
  dsimp only
  split
  · split
    · exact ⟨by decide, by decide⟩
    · exact ⟨rfl, nofun⟩
  · case _ addressed =>
      split
      · exact ⟨rfl, nofun⟩
      · cases opened :
            W.aeadDecrypt session.key (nonceBytes header.nonce) [] (packet.drop 16) with
        | none => exact ⟨rfl, nofun⟩
        | some payload =>
          apply session.window.set_safe.bind
          intro window _
          refine ⟨rfl, fun _ => ?_⟩
          simp [Decidable.not_not.mp addressed]

theorem decrypt_safe {packets : List Bytes} (transport : ∀ packet ∈ packets, IsTransport packet) :
    Safe Halt.Tolerated
      (fun r => r.1 = { session with window := r.1.window } ∧
        (r.2 ≠ [] → ∃ packet ∈ packets, session.opens W packet))
      (session.decrypt W debug packets) := by
  induction packets generalizing session with
  | nil => exact ⟨rfl, fun some => absurd rfl some⟩
  | cons packet rest ih =>
    apply (decryptOne_safe W session (transport packet mem_cons_self)).bind
    rintro ⟨first, one⟩ ⟨moved, opened⟩
    have later (other : Bytes) (member : other ∈ rest) : IsTransport other :=
      transport other (mem_cons_of_mem packet member)
    apply (ih first later).bind
    rintro ⟨last, others⟩ ⟨movedOn, openedRest⟩
    dsimp only at moved movedOn
    refine ⟨?_, fun yielded => ?_⟩
    · dsimp only
      rw [movedOn, moved]
    · cases one with
      | some one => exact ⟨packet, mem_cons_self, opened rfl⟩
      | none =>
        obtain ⟨later, member, opens⟩ := openedRest yielded
        rw [moved] at opens
        exact ⟨later, mem_cons_of_mem packet member, opens⟩

end ReceiveSession

namespace SessionState

variable (session : SessionState)

/-- The guard fires once: after it no rekey is due, and the ids stay. -/
theorem keepKeyFreshReceiving_spec :
    (session.keepKeyFreshReceiving now).2 = session.receiveRekeyDue now ∧
    (session.keepKeyFreshReceiving now).1.ids = session.ids ∧
    (session.keepKeyFreshReceiving now).1.receiveRekeyDue now = false := by
  cases session with
  | none queue => exact ⟨rfl, rfl, rfl⟩
  | active session =>
    rw [keepKeyFreshReceiving]
    split
    · case _ due => exact ⟨due.symm, rfl, by simp [receiveRekeyDue]⟩
    · case _ fresh =>
        have fresh := Bool.eq_false_iff.mpr fresh
        exact ⟨fresh.symm, rfl, fresh⟩

/-- A borrowed session that comes back with another window changes nothing that matters to
ids, rekeys or which packets are heard. -/
theorem putRecv_getRecv {id : SessionId} {slot : RecvSlot} {recv : ReceiveSession}
    {window : ReplayWindow} (lent : session.getRecv now id = some (slot, recv)) :
    (session.putRecv slot { recv with window := window }).ids = session.ids ∧
    (session.putRecv slot { recv with window := window }).receiveRekeyDue now =
      session.receiveRekeyDue now ∧
    (∀ packet, (session.putRecv slot { recv with window := window }).hears W now packet =
      session.hears W now packet) ∧
    ∀ packet, recv.opens W packet → session.hears W now packet := by
  cases session with
  | none queue => cases lent
  | active session =>
    rw [getRecv] at lent
    split at lent
    · case _ current =>
        cases lent
        refine ⟨rfl, rfl, fun packet => rfl, fun packet opened => ?_⟩
        simp only [Bool.and_eq_true] at current
        simp [hears, recvs, opened, current.2]
    · cases previous : session.recvPrev with
      | none =>
        rw [previous] at lent
        cases lent
      | some prev =>
        rw [previous] at lent
        dsimp only at lent
        split at lent
        · case _ live =>
            cases lent
            simp only [Bool.and_eq_true] at live
            refine ⟨?_, rfl, fun packet => ?_, fun packet opened => ?_⟩
            · simp [putRecv, ids, recvs, previous]
            · simp [putRecv, hears, recvs, previous, ReceiveSession.expired, ReceiveSession.opens]
            · simp [hears, recvs, previous, opened, live.2]
        · cases lent

end SessionState

namespace Handshake

variable (handshake : Handshake)

theorem setInitiated_idle {initiation : Initiation} (idle : handshake.isActive = false) :
    handshake.setInitiated debug initiation = .ok { handshake with initiated := some initiation } ∧
      ({ handshake with initiated := some initiation } : Handshake).ids =
        initiation.sent.id :: handshake.ids := by
  obtain ⟨initiated, responded⟩ := handshake
  cases initiated with
  | some other => cases idle
  | none => exact ⟨by simp [setInitiated], rfl⟩

theorem finish_ids (handshake after : Handshake) (packet : HandshakeResponse) (psk : Bytes)
    (cookies : MacReceiver) (session : SessionPair) (timeout : Handle)
    (finished : handshake.finish W packet psk cookies now = some (after, session, timeout)) :
    handshake.ids = session.recv.id :: after.ids ∧ after.isActive = false := by
  obtain ⟨initiated, responded⟩ := handshake
  cases initiated with
  | none => cases finished
  | some initiation =>
    obtain ⟨pair, completed, same⟩ := Option.bind_eq_some_iff.mp finished
    cases same
    rw [SentHandshake.complete] at completed
    split at completed
    · cases completed
    · obtain ⟨_, -, made⟩ := Option.bind_eq_some_iff.mp completed
      cases made
      exact ⟨rfl, rfl⟩

/-- Confirming hands the tentative session's id over; otherwise the slots stay as they
are. -/
theorem confirm_safe (id : SessionId) {packets : List Bytes}
    (transport : ∀ packet ∈ packets, IsTransport packet) :
    Safe Halt.Tolerated
      (fun r => r.1.isActive = handshake.isActive ∧
        handshake.ids.Perm ((r.2.map (fun made => made.1.recv.id)).toList ++ r.1.ids))
      (handshake.confirm W debug id packets now) := by
  obtain ⟨initiated, responded⟩ := handshake
  cases responded with
  | none => exact ⟨rfl, List.Perm.refl _⟩
  | some tentative =>
    rw [confirm]
    dsimp only
    split
    · exact ⟨rfl, List.Perm.refl _⟩
    · split
      · exact ⟨rfl, List.Perm.refl _⟩
      · apply (tentative.recv.decrypt_safe W transport).bind
        rintro ⟨recv, opened⟩ ⟨moved, _⟩
        rw [moved]
        split
        · exact ⟨rfl, List.Perm.refl _⟩
        · refine ⟨rfl, ?_⟩
          simp only [ids, respondedSessionId, Option.map_none, Option.toList_none, append_nil]
          exact perm_append_comm

end Handshake

end

namespace Peer

/-- The invariant of a peer during a call on a batch of packets. -/
structure Settled (W : WgCrypto) (now : Instant) (batch : List Bytes)
    (origin : SessionId → Option PeerId) (owner : PeerId) (after : Peer × Ctx) : Prop where
  id : after.1.id = owner
  account : Account origin after.2.state.ids.sessions owner after.1.ids
  quiet : Quiet W now batch after.1

section

variable {W : WgCrypto} {now : Instant} {batch : List Bytes} {origin : SessionId → Option PeerId}
  {owner : PeerId} {peer : Peer} {ctx : Ctx}

theorem quiet_nil {peer : Peer} : Quiet W now [] peer := nofun

theorem Quiet.of_clear (clear : peer.clashing now = false) : Quiet W now batch peer := by
  intro clashes
  rw [clear] at clashes
  cases clashes

theorem Untouched.settled {after : Peer × Ctx} (same : Untouched peer ctx after)
    (settled : Settled W now batch origin owner (peer, ctx)) :
    Settled W now batch origin owner after where
  id := same.id.trans settled.id
  account := by
    rw [same.ids, Peer.ids, same.session, same.handshake]
    exact settled.account
  quiet := by
    rw [Quiet, clashing, same.session, same.handshake]
    exact settled.quiet

end

section

variable {debug : Bool} {now : Instant} {batch : List Bytes} {origin : SessionId → Option PeerId}
  {owner : PeerId} {peer : Peer} {ctx : Ctx} {isRetry : Bool}

theorem startHandshake_safe (id : peer.id = owner)
    (account : Account origin ctx.state.ids.sessions owner peer.ids)
    (idle : peer.handshake.isActive = false) :
    Safe Halt.Tolerated
      (fun r => r.1.id = owner ∧ r.1.session = peer.session ∧
        Account origin r.2.state.ids.sessions owner r.1.ids)
      (peer.startHandshake W debug now isRetry ctx) := by
  subst id
  apply (ctx.allocateSession_safe account).bind
  rintro ⟨ctx, sessionId⟩ granted
  have kept : (peer.initiate W now sessionId ctx).1.state.ids = ctx.state.ids := rfl
  have named : (peer.initiate W now sessionId ctx).2.sent.id = sessionId := rfl
  dsimp only at granted ⊢
  generalize peer.initiate W now sessionId ctx = initiated at kept named ⊢
  obtain ⟨ctx, initiation⟩ := initiated
  obtain ⟨set, ids⟩ := peer.handshake.setInitiated_idle idle
  rw [set]
  refine ⟨rfl, rfl, ?_⟩
  rw [kept, Peer.ids]
  rw [ids, named]
  exact granted.perm perm_middle.symm

theorem startHandshake_settled (settled : Settled W now [] origin owner (peer, ctx))
    (idle : peer.handshake.isActive = false) :
    Safe Halt.Tolerated (Settled W now [] origin owner)
      (peer.startHandshake W debug now isRetry ctx) :=
  (startHandshake_safe W settled.id settled.account idle).mono
    (fun _ kept => ⟨kept.1, kept.2.2, quiet_nil⟩)

theorem send_settled {packets : List Bytes} (settled : Settled W now [] origin owner (peer, ctx)) :
    Safe Halt.Tolerated (Settled W now [] origin owner) (peer.send W debug now packets ctx) := by
  apply (peer.session.encryptOrQueue_safe W now ctx.state.ids peer.handshake.ids packets
    settled.account).bind
  rintro ⟨session, ids, sealed⟩ account
  have same := queueSealed_untouched now { peer with session := session } (ctx.setIds ids) sealed
  dsimp only
  generalize queueSealed now { peer with session := session } (ctx.setIds ids) sealed = queued
    at same ⊢
  have settled : Settled W now [] origin owner queued :=
    same.settled ⟨settled.id, account, quiet_nil⟩
  obtain ⟨peer, ctx⟩ := queued
  split
  · exact settled
  · case _ idle =>
      split
      · exact settled
      · exact startHandshake_settled W settled (Bool.eq_false_iff.mpr idle)

theorem Settled.encrypted (settled : Settled W now batch origin owner (peer, ctx))
    {msg packet : Bytes} {session : SessionState}
    (sent : peer.session.encryptOne W now msg = some (session, packet)) :
    Account origin ctx.state.ids.sessions owner (session.ids ++ peer.handshake.ids) := by
  rw [SessionState.ids, peer.session.encryptOne_recvs W now sent]
  exact settled.account

theorem sendPriorityMessage_settled (msg : Bytes)
    (settled : Settled W now [] origin owner (peer, ctx)) :
    Settled W now [] origin owner ((peer.sendPriorityMessage W now msg ctx).1,
      (peer.sendPriorityMessage W now msg ctx).2.1) := by
  unfold sendPriorityMessage
  split
  · exact settled
  · split
    · exact settled
    · cases sent : peer.session.encryptPriority W now msg with
      | none => exact settled
      | some made =>
        obtain ⟨session, packet⟩ := made
        have account := settled.encrypted W sent
        have same := noteDataSent_untouched now { peer with session := session } ctx
        have noted : Settled W now [] origin owner _ :=
          same.settled ⟨settled.id, account, quiet_nil⟩
        exact ⟨noted.id, noted.account, quiet_nil⟩

variable (settled : Settled W now [] origin owner (peer, ctx))
include settled

theorem sendKeepalive_settled : Settled W now [] origin owner (peer.sendKeepalive W now ctx) := by
  unfold sendKeepalive
  cases sent : peer.session.encryptKeepalive W now with
  | none => exact settled
  | some made =>
    obtain ⟨session, packet⟩ := made
    have account := settled.encrypted W sent
    dsimp only
    split
    · have same := scheduleKeepalive_untouched now
        { peer with session := session, keepalive := none } (ctx.queueToPeer peer.id [packet])
      have scheduled : Settled W now [] origin owner _ :=
        same.settled ⟨settled.id, account, quiet_nil⟩
      exact ⟨scheduled.id, scheduled.account, quiet_nil⟩
    · exact ⟨settled.id, account, quiet_nil⟩

theorem sendPersistentKeepalive_settled :
    Settled W now [] origin owner (peer.sendPersistentKeepalive W now ctx) := by
  unfold sendPersistentKeepalive
  dsimp only
  cases sent : peer.session.encryptKeepalive W now with
  | none => exact ⟨settled.id, settled.account, quiet_nil⟩
  | some made =>
    obtain ⟨session, packet⟩ := made
    have account := settled.encrypted W sent
    apply (armPersistentKeepalive_untouched now _ _).settled
    exact ⟨settled.id, account, quiet_nil⟩

theorem newHandshakeTimeout_settled :
    Safe Halt.Tolerated (Settled W now [] origin owner)
      (peer.newHandshakeTimeout W debug now ctx) := by
  have cleared : Settled W now [] origin owner ({ peer with newHandshake := none }, ctx) :=
    ⟨settled.id, settled.account, quiet_nil⟩
  unfold newHandshakeTimeout
  dsimp only
  split
  · exact cleared
  · case _ idle =>
      exact startHandshake_settled W cleared (Bool.eq_false_iff.mpr idle)

/-- The handshake's ids are freed before a new one is taken. -/
theorem handshakeTimeout_settled :
    Safe Halt.Tolerated (Settled W now [] origin owner)
      (peer.handshakeTimeout W debug now ctx) := by
  unfold handshakeTimeout
  split
  · exact settled
  · apply (ctx.state.ids.removeSessions_safe
      (settled.account.perm perm_append_comm)).bind
    intro ids account
    have alone : Account origin ids.sessions owner (peer.session.ids ++ []) := by
      rw [append_nil]
      exact account
    dsimp only
    split
    · apply (peer.session.deactivate_safe ids [] alone).bind
      rintro ⟨session, ids⟩ ⟨empty, account⟩
      apply (cancelNewHandshake_untouched _ _).settled
      refine ⟨settled.id, ?_, quiet_nil⟩
      rw [Peer.ids, empty]
      exact account
    · exact startHandshake_settled W ⟨settled.id, alone, quiet_nil⟩ rfl

omit settled

theorem shutdown_safe (account : Account origin ctx.state.ids.sessions owner peer.ids) :
    Safe Halt.Tolerated (fun r => Account origin r.2.state.ids.sessions owner [])
      (peer.shutdown ctx) := by
  apply (peer.session.deactivate_safe ctx.state.ids peer.handshake.ids account).bind
  rintro ⟨session, ids⟩ ⟨_, account⟩
  have last : Account origin ids.sessions owner (peer.handshake.ids ++ []) := by
    rw [append_nil]
    exact account
  apply (ids.removeSessions_safe last).bind
  intro ids account
  have same := cancelAllTimers_untouched
    { peer with session := session, handshake := Handshake.none }
    ((ctx.setIds ids).cancelSlot (peer.handshake.initiated.map Initiation.timeout))
  show Account origin (cancelAllTimers _ _).2.state.ids.sessions owner []
  rw [same.ids, Ctx.cancelSlot_ids]
  exact account

end

variable {W : WgCrypto} {debug : Bool} {now : Instant} {batch : List Bytes}
  {origin : SessionId → Option PeerId} {owner : PeerId} {peer : Peer} {ctx : Ctx}

theorem confirmation_safe {session : SessionState} (ids : IdMap) {packets : List Bytes}
    {rest : List SessionId} (account : Account origin ids.sessions owner (session.ids ++ rest)) :
    Safe Halt.Tolerated (fun r => Account origin r.2.1.sessions owner (r.1.ids ++ rest))
      (confirmation W now session ids packets) := by
  unfold confirmation
  split
  · apply (session.encryptOrQueue_safe W now ids rest [[]] account).bind
    rintro ⟨session, ids, sealed⟩ account
    cases sealed with
    | none => exact ⟨by decide, by decide⟩
    | some sealed => exact account
  · exact account

variable (settled : Settled W now batch origin owner (peer, ctx))
include settled

theorem recvHandshakeResponse_settled (packet : HandshakeResponse) :
    Safe Halt.Tolerated (Settled W now batch origin owner)
      (peer.recvHandshakeResponse W now packet ctx) := by
  unfold recvHandshakeResponse
  cases finished : peer.handshake.finish W packet peer.config.psk ctx.state.myCookie now with
  | none => exact settled
  | some made =>
    obtain ⟨handshake, next, timeout⟩ := made
    obtain ⟨moved, idle⟩ := Handshake.finish_ids W now _ _ _ _ _ _ _ finished
    have account : Account origin ctx.state.ids.sessions owner
        (next.recv.id :: peer.session.ids ++ handshake.ids) := by
      apply settled.account.perm
      rw [Peer.ids, moved]
      exact perm_middle
    simp only [cancelNewHandshake, Ctx.cancelSlot_ids]
    apply (peer.session.activate_safe W now ctx.state.ids handshake.ids account).bind
    rintro ⟨session, ids, packets⟩ ⟨account, _⟩
    apply (confirmation_safe ids account).bind
    rintro ⟨session, ids, packets⟩ account
    have same := armPersistentKeepalive_untouched now
      { peer with handshake := handshake, handshakeAttempts := 0, newHandshake := none,
                  session := session }
      ((((ctx.cancel timeout).cancelSlot peer.newHandshake).setIds ids).noteCreated [next.recv.key])
    have armed : Settled W now batch origin owner _ :=
      same.settled ⟨settled.id, account, Quiet.of_clear (by rw [clashing, idle, Bool.false_and])⟩
    exact ⟨armed.id, armed.account, armed.quiet⟩

/-- An answered initiation takes an id and frees that of the session it displaces. -/
theorem respondToHandshake_settled {received : ReceivedHandshake} :
    Safe Halt.Tolerated (Settled W now batch origin owner)
      (peer.respondToHandshake W now received ctx) := by
  unfold respondToHandshake
  split
  · exact settled
  · simp only [cancelNewHandshake]
    have account : Account origin (ctx.cancelSlot peer.newHandshake).state.ids.sessions owner
        peer.ids := by
      rw [Ctx.cancelSlot_ids]
      exact settled.account
    rw [settled.id]
    apply (Ctx.allocateSession_safe _ account).bind
    rintro ⟨ctx, sessionId⟩ granted
    have reordered : (sessionId :: peer.ids).Perm (peer.handshake.respondedSessionId.toList ++
        (peer.session.ids ++ (peer.handshake.initiatedSessionId.toList ++ [sessionId]))) := by
      rw [Peer.ids, Handshake.ids, perm_iff_count]
      simp only [count_cons, count_append, count_nil]
      omega
    apply (IdMap.removeSessions_safe _ (granted.perm reordered)).bind
    intro ids account
    exact ⟨rfl, account, settled.quiet⟩

/-- Authentic packets start a handshake only where none is in flight. -/
theorem recvAuthenticated_settled {opened : List Opened} (clear : peer.clashing now = false) :
    Safe Halt.Tolerated (Settled W now batch origin owner)
      (peer.recvAuthenticated W debug now opened ctx) := by
  have same := deliver_untouched now peer ctx (opened.any (fun one => one.payload ≠ [])) opened
  unfold recvAuthenticated
  dsimp only
  generalize peer.deliver now _ opened ctx = delivered at same ⊢
  have settled := same.settled settled
  have clear : delivered.1.clashing now = false := by
    rw [clashing, same.session, same.handshake]
    exact clear
  obtain ⟨peer, ctx⟩ := delivered
  obtain ⟨fires, ids, fired⟩ := peer.session.keepKeyFreshReceiving_spec now
  generalize peer.session.keepKeyFreshReceiving now = kept at fires ids fired ⊢
  obtain ⟨session, due⟩ := kept
  have account : Account origin ctx.state.ids.sessions owner
      (session.ids ++ peer.handshake.ids) := by
    rw [ids]
    exact settled.account
  -- after the guard no rekey is due, so the peer cannot clash again in this batch
  have calm (after : Peer) (kept : after.session = session) : Quiet W now batch after :=
    Quiet.of_clear (by rw [clashing, kept, fired, Bool.and_false])
  split
  · case _ isDue =>
      have idle : peer.handshake.isActive = false := by
        rw [clashing, ← fires, isDue, Bool.and_true] at clear
        exact clear
      refine Safe.mono (startHandshake_safe W settled.id account idle) ?_
      exact fun r kept => ⟨kept.1, kept.2.2, calm r.1 kept.2.1⟩
  · exact ⟨settled.id, account, calm _ rfl⟩

omit settled in
theorem recvConfirmed_settled (next : SessionPair) {opened : List Opened} (id : peer.id = owner)
    (account : Account origin ctx.state.ids.sessions owner
      (next.recv.id :: peer.session.ids ++ peer.handshake.ids)) :
    Safe Halt.Tolerated (Settled W now batch origin owner)
      (peer.recvConfirmed W now next opened ctx) := by
  have same := deliver_untouched now peer ctx true opened
  unfold recvConfirmed
  generalize peer.deliver now true opened ctx = delivered at same ⊢
  obtain ⟨peer', ctx'⟩ := delivered
  obtain ⟨sameId, sameSession, sameHandshake, sameIds⟩ := same
  rw [← sameIds, ← sameSession, ← sameHandshake] at account
  apply (peer'.session.activate_safe W now ctx'.state.ids peer'.handshake.ids
    account).bind
  rintro ⟨session, ids, packets⟩ ⟨account, due⟩
  have calm : session.receiveRekeyDue now = false :=
    Bool.eq_false_iff.mpr (fun isDue => Bool.noConfusion (due isDue))
  have armed : Settled W now batch origin owner
      (armPersistentKeepalive now { peer' with session := session } (ctx'.setIds ids)) := by
    apply (armPersistentKeepalive_untouched now _ _).settled
    exact ⟨sameId.trans id, account, Quiet.of_clear (by rw [clashing, calm, Bool.and_false])⟩
  dsimp only
  split
  · exact ⟨armed.id, armed.account, armed.quiet⟩
  · exact ⟨armed.id, armed.account, armed.quiet⟩

/-- Where nothing in the batch reaches a clashing peer, transport messages keep the ids in
place. -/
theorem recvTransportData_settled (id : SessionId) (packets : List Bytes)
    (transport : ∀ packet ∈ packets, IsTransport packet) (inBatch : packets ⊆ batch) :
    Safe Halt.Tolerated (Settled W now batch origin owner)
      (peer.recvTransportData W debug now id packets ctx) := by
  unfold recvTransportData
  cases lent : peer.session.getRecv now id with
  | some found =>
    obtain ⟨slot, recv⟩ := found
    apply (recv.decrypt_safe W transport).bind
    rintro ⟨after, opened⟩ ⟨moved, source⟩
    dsimp only at moved source ⊢
    obtain ⟨ids, due, hears, heard⟩ :=
      peer.session.putRecv_getRecv W now lent
    rw [← moved] at ids due hears
    have kept : Settled W now batch origin owner
        ({ peer with session := peer.session.putRecv slot after }, ctx) := by
      refine ⟨settled.id, ?_, fun clashes packet member => ?_⟩
      · rw [Peer.ids, ids]
        exact settled.account
      · rw [clashing, due] at clashes
        rw [hears packet]
        exact settled.quiet clashes packet member
    split
    · exact kept
    · case _ yielded =>
        obtain ⟨packet, member, opens⟩ := source yielded
        apply recvAuthenticated_settled kept
        rw [clashing, due]
        -- the packet that was opened is in the batch, so the peer does not clash
        exact Bool.eq_false_iff.mpr
          (fun clashes => settled.quiet clashes packet (inBatch member) (heard packet opens))
  | none =>
    apply (peer.handshake.confirm_safe W now id transport).bind
    rintro ⟨handshake, confirmed⟩ ⟨active, moved⟩
    have account := settled.account.perm (moved.append_left peer.session.ids)
    cases confirmed with
    | none =>
      refine ⟨settled.id, account, fun clashes => ?_⟩
      rw [clashing, active] at clashes
      exact settled.quiet clashes
    | some made =>
      obtain ⟨next, opened⟩ := made
      exact recvConfirmed_settled next settled.id (account.perm perm_middle)

theorem recvHandshakes_settled {packets : List Bytes} :
    Safe Halt.Tolerated
      (fun r => Settled W now batch origin owner (r.1, r.2.1) ∧
        ∀ packet ∈ r.2.2, packet ∈ packets ∧ IsTransport packet)
      (recvHandshakes W debug now packets peer ctx) := by
  induction packets generalizing peer ctx with
  | nil => exact ⟨settled, nofun⟩
  | cons first rest ih =>
    have later {peer : Peer} {ctx : Ctx}
        (settled : Settled W now batch origin owner (peer, ctx)) :
        Safe Halt.Tolerated
          (fun r => Settled W now batch origin owner (r.1, r.2.1) ∧
            ∀ packet ∈ r.2.2, packet ∈ first :: rest ∧ IsTransport packet)
          (recvHandshakes W debug now rest peer ctx) :=
      (ih settled).mono (fun r kept => ⟨kept.1, fun packet member =>
        ⟨mem_cons_of_mem first (kept.2 packet member).1, (kept.2 packet member).2⟩⟩)
    rw [recvHandshakes]
    split
    · exact later settled
    · case _ header parsed =>
        apply (later settled).bind
        rintro ⟨peer, ctx, kept⟩ ⟨settled, part⟩
        refine ⟨settled, fun packet member => ?_⟩
        rcases mem_cons.mp member with rfl | member
        · exact ⟨mem_cons_self, header, parsed⟩
        · exact part packet member
    · case _ resp _ =>
        apply (recvHandshakeResponse_settled settled resp).bind
        rintro ⟨peer, ctx⟩ settled
        exact later settled
    · apply later
      unfold recvCookieReply
      split
      · exact settled
      · exact ⟨settled.id, settled.account, settled.quiet⟩
    · split
      · exact ⟨by decide, by decide⟩
      · exact later settled

theorem recv_settled {id : SessionId} {packets : List Bytes} (inBatch : packets ⊆ batch) :
    Safe Halt.Tolerated (Settled W now batch origin owner)
      (peer.recv W debug now id packets ctx) := by
  apply (recvHandshakes_settled settled).bind
  rintro ⟨peer, ctx, kept⟩ ⟨settled, part⟩
  exact recvTransportData_settled settled id kept (fun packet member => (part packet member).2)
    (fun packet member => inBatch (part packet member).1)

end Peer

end TailscaleRs.Tunnel
