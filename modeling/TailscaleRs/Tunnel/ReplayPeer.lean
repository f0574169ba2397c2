import TailscaleRs.Tunnel.Deliveries

namespace TailscaleRs.Tunnel

open Function List Evolves List.Subperm
open Time (Instant Handle)

/-- Whatever else may go wrong, `ReplayWindow::set` does not panic. -/
abbrev Unbroken {α : Type} (post : α → Prop) : Except Halt α → Prop :=
  Safe (fun halt => halt ≠ .replaySet) post

theorem IdMap.removeSessions_unbroken (ids : IdMap) {gone : List SessionId} :
    Unbroken (fun _ => True) (ids.removeSessions gone) := by
  refine Safe.foldlM gone (fun ids id _ _ => ?_) ids trivial
  unfold IdMap.removeSession
  split
  · exact Halt.noConfusion
  · trivial

theorem IdMap.removePeer_unbroken (ids : IdMap) {key : Bytes} :
    Unbroken (fun _ => True) (ids.removePeer key) := by
  unfold IdMap.removePeer
  split
  · exact Halt.noConfusion
  · trivial

theorem Ctx.allocateSession_unbroken (ctx : Ctx) (peer : PeerId) :
    Unbroken (fun r => r.1.out = ctx.out) (ctx.allocateSession peer) := by
  unfold Ctx.allocateSession IdMap.allocateSession
  cases ctx.state.ids.firstVacant ctx.draws.sessionIds with
  | none => exact Halt.noConfusion
  | some found => rfl

namespace SessionState

variable {W : WgCrypto} (now : Instant) {ids : IdMap} (session : SessionState)

theorem deactivate_unbroken : Unbroken (fun r => r.1.recvs = []) (session.deactivate ids) := by
  cases session with
  | none queue => rfl
  | active session =>
    apply ids.removeSessions_unbroken.bind
    exact fun _ _ => rfl

theorem activate_unbroken {next : SessionPair} {isInitiator : Bool} :
    Unbroken (fun r => r.1.recvs.Sublist (next.recv :: session.recvs))
      (session.activate W ids next isInitiator) := by
  cases session with
  | none queue => exact List.Sublist.refl _
  | active session =>
    apply ids.removeSessions_unbroken.bind
    intro ids _
    exact ((nil_sublist _).cons_cons session.recv).cons_cons next.recv

theorem encryptOrQueue_unbroken {packets : List Bytes} :
    Unbroken (fun r => r.1.recvs.Sublist session.recvs)
      (session.encryptOrQueue W now ids packets) := by
  cases session with
  | none queue => exact List.Sublist.refl _
  | active session =>
    rw [encryptOrQueue]
    split
    · apply (deactivate_unbroken (.active session)).bind
      exact fun _ _ => nil_sublist _
    · exact List.Sublist.refl _

theorem keepKeyFreshReceiving_recvs :
    (session.keepKeyFreshReceiving now).1.recvs = session.recvs := by
  cases session with
  | none queue => rfl
  | active session =>
    rw [keepKeyFreshReceiving]
    split <;> rfl

theorem getRecv_putRecv (id : SessionId) (slot : RecvSlot) (recv : ReceiveSession)
    (lent : session.getRecv now id = some (slot, recv)) :
    ∃ others, session.recvs.Perm (recv :: others) ∧
      ∀ back, (session.putRecv slot back).recvs.Perm (back :: others) := by
  cases session with
  | none queue => cases lent
  | active session =>
    rw [getRecv] at lent
    split at lent
    · cases lent
      exact ⟨session.recvPrev.toList, List.Perm.refl _, fun back => List.Perm.refl _⟩
    · split at lent
      · cases lent
      · case _ prev held =>
          split at lent
          · cases lent
            refine ⟨[session.recv], ?_, fun back => List.Perm.swap _ _ _⟩
            rw [recvs, held]
            exact List.Perm.swap _ _ _
          · cases lent

end SessionState

namespace ReceiveSession

variable (W : WgCrypto) (debug : Bool) {batch : List Bytes} (peer : PeerId)
  (session : ReceiveSession)

/-- A packet is delivered only if it is authentic and its counter passes the check, and only
then the window changes. -/
theorem decryptOne_evolves (packet : Bytes) (inBatch : packet ∈ batch)
    (sound : ∃ seen, ReplayWindow.having seen = .ok session.window) :
    Unbroken (fun r => ∀ rest log, Evolves W batch (session :: rest, log)
        (r.1 :: rest, log ++ deliveries peer r.2.toList))
      (session.decryptOne W debug packet) := by
  have ignored (rest : List ReceiveSession) (log : List Happening) : Evolves W batch
      (session :: rest, log) (session :: rest, log ++ deliveries peer []) := by
    rw [deliveries, map_nil, append_nil]
    exact refl _
  unfold decryptOne
  cases parsed : TransportDataHeader.ofPrefix packet with
  | none => exact ignored
  | some header =>
    dsimp only
    split
    · split
      · exact Halt.noConfusion
      · exact ignored
    · split
      · exact ignored
      · case _ passes =>
          cases opened :
              W.aeadDecrypt session.key (nonceBytes header.nonce) [] (packet.drop 16) with
          | none => exact ignored
          | some payload =>
            obtain ⟨seen, made⟩ := sound
            obtain ⟨window, accepted, -⟩ := (ReplayWindow.having_records seen _ made).set
              header.nonce (not_not.mp passes)
            rw [accepted]
            have authentic : Opened.Authentic W ⟨session.key, packet, header.nonce, payload⟩ := by
              refine ⟨?_, opened⟩
              rw [parsed]
              rfl
            exact fun rest log => accept session rest log ⟨_, peer⟩ window rfl inBatch authentic
              accepted

theorem decrypt_evolves (packets : List Bytes) (inBatch : packets ⊆ batch)
    (sound : ∃ seen, ReplayWindow.having seen = .ok session.window) :
    Unbroken (fun r => ∀ rest log, Evolves W batch (session :: rest, log)
        (r.1 :: rest, log ++ deliveries peer r.2))
      (session.decrypt W debug packets) := by
  induction packets generalizing session with
  | nil =>
    intro rest log
    rw [deliveries, map_nil, append_nil]
    exact refl _
  | cons packet rest ih =>
    apply (decryptOne_evolves W debug peer session packet (inBatch mem_cons_self) sound).bind
    rintro ⟨after, first⟩ step
    have next := (step [] []).sound (fun s member => mem_singleton.mp member ▸ sound)
    apply (ih after (fun p member => inBatch (mem_cons_of_mem packet member))
      (next after mem_cons_self)).bind
    rintro ⟨last, others⟩ steps
    intro rest log
    rw [deliveries, map_append, ← append_assoc]
    exact (step rest log).trans (steps rest _)

end ReceiveSession

/-- A tentative session that decrypts a message leaves its slot. -/
theorem Handshake.confirm_evolves (W : WgCrypto) (debug : Bool) (now : Instant) {batch : List Bytes}
    (peer : PeerId) (h : Handshake) (id : SessionId) (packets : List Bytes)
    (inBatch : packets ⊆ batch) (sound : Sound h.recvs) :
    Unbroken (fun r => ∀ rest log, Evolves W batch (h.recvs ++ rest, log)
        ((r.2.map (fun made => made.1.recv)).toList ++ r.1.recvs ++ rest,
          log ++ deliveries peer ((r.2.map Prod.snd).getD [])))
      (h.confirm W debug id packets now) := by
  obtain ⟨initiated, responded⟩ := h
  have unmoved (responded : Option SessionPair) (rest : List ReceiveSession)
      (log : List Happening) : Evolves W batch (Handshake.recvs ⟨initiated, responded⟩ ++ rest, log)
        (Handshake.recvs ⟨initiated, responded⟩ ++ rest, log ++ deliveries peer []) := by
    rw [deliveries, map_nil, append_nil]
    exact refl _
  cases responded with
  | none => exact unmoved .none
  | some tentative =>
    rw [confirm]
    dsimp only
    split
    · exact unmoved (some tentative)
    · split
      · exact unmoved (some tentative)
      · apply (tentative.recv.decrypt_evolves W debug peer packets inBatch
          (sound tentative.recv mem_cons_self)).bind
        rintro ⟨recv, opened⟩ step
        split
        · case _ nothing =>
            obtain rfl : opened = [] := nothing
            exact step
        · exact step

namespace Peer

/-- What an operation does to a peer's receive sessions, as the record has it. -/
structure Evolved (W : WgCrypto) (batch : List Bytes) (peer : Peer) (ctx : Ctx)
    (after : Peer × Ctx) : Prop where
  id : after.1.id = peer.id
  recvs : Evolves W batch (peer.recvs, ctx.out.happened) (after.1.recvs, after.2.out.happened)

section

variable {W : WgCrypto} {batch : List Bytes} {peer : Peer} {ctx : Ctx} {after : Peer × Ctx}

theorem Evolved.trans {mid : Peer × Ctx} (one : Evolved W batch peer ctx mid)
    (two : Evolved W batch mid.1 mid.2 after) : Evolved W batch peer ctx after :=
  ⟨two.id.trans one.id, one.recvs.trans two.recvs⟩

theorem Evolved.silent (id : after.1.id = peer.id) (kept : after.1.recvs.Subperm peer.recvs)
    (same : after.2.out.happened = ctx.out.happened) : Evolved W batch peer ctx after :=
  ⟨id, same ▸ rearrange _ kept⟩

theorem Evolved.still (id : after.1.id = peer.id)
    (kept : after.1.session.recvs.Sublist peer.session.recvs)
    (responded : after.1.handshake.responded = peer.handshake.responded)
    (same : after.2.out.happened = ctx.out.happened) : Evolved W batch peer ctx after := by
  refine Evolved.silent id ?_ same
  rw [Peer.recvs, Peer.recvs, Handshake.recvs, Handshake.recvs, responded]
  exact (kept.append_right _).subperm

theorem Untouched.evolved (untouched : Untouched peer ctx after)
    (same : after.2.out.happened = ctx.out.happened) : Evolved W batch peer ctx after :=
  Evolved.still untouched.id (untouched.session ▸ List.Sublist.refl _)
    (untouched.handshake ▸ rfl) same

end

section

variable (now : Instant) (peer : Peer) (ctx : Ctx)

theorem cancelSlot_out (slot : Option Handle) : (ctx.cancelSlot slot).out = ctx.out := by
  cases slot <;> rfl

theorem armNewHandshake_out : (peer.armNewHandshake now ctx).2.out = ctx.out := by
  unfold armNewHandshake
  split <;> rfl

theorem scheduleKeepalive_out : (peer.scheduleKeepalive now ctx).2.out = ctx.out := by
  unfold scheduleKeepalive
  split <;> rfl

theorem armPersistentKeepalive_out : (peer.armPersistentKeepalive now ctx).2.out = ctx.out := by
  unfold armPersistentKeepalive
  split
  · rfl
  · exact cancelSlot_out _ peer.persistentKeepalive

theorem noteDataSent_out : (peer.noteDataSent now ctx).2.out = ctx.out :=
  (armNewHandshake_out now _ _).trans (armPersistentKeepalive_out now peer ctx)

theorem queueSealed_happened {sealed : Option (List Bytes)} :
    (peer.queueSealed now ctx sealed).2.out.happened = ctx.out.happened := by
  cases sealed with
  | none => rfl
  | some packets =>
    have same : (if packets = [] then (peer, ctx) else
        peer.noteDataSent now ctx).2.out.happened = ctx.out.happened := by
      split
      · rfl
      · rw [noteDataSent_out]
    exact same

theorem deliver_happened (arm : Bool) (opened : List Opened) :
    (peer.deliver now arm opened ctx).2.out.happened =
      ctx.out.happened ++ deliveries peer.id opened := by
  have queued : ((peer.cancelNewHandshake ctx).2.queueToLocal peer.id opened).out.happened =
      ctx.out.happened ++ deliveries peer.id opened := by
    rw [cancelNewHandshake, Ctx.queueToLocal, Outbox.queueToLocal, cancelSlot_out]
  cases arm with
  | false => exact queued
  | true => exact (congrArg Outbox.happened (scheduleKeepalive_out now _ _)).trans queued

end

variable (W : WgCrypto) (debug : Bool) (now : Instant) {batch : List Bytes} {peer : Peer}
  {ctx : Ctx}

theorem scheduleKeepalive_evolved : Evolved W batch peer ctx (peer.scheduleKeepalive now ctx) :=
  (scheduleKeepalive_untouched now peer ctx).evolved (by rw [scheduleKeepalive_out])

theorem armPersistentKeepalive_evolved :
    Evolved W batch peer ctx (peer.armPersistentKeepalive now ctx) :=
  (armPersistentKeepalive_untouched now peer ctx).evolved (by rw [armPersistentKeepalive_out])

theorem noteDataSent_evolved : Evolved W batch peer ctx (peer.noteDataSent now ctx) :=
  (noteDataSent_untouched now peer ctx).evolved (by rw [noteDataSent_out])

theorem cancelNewHandshake_evolved : Evolved W batch peer ctx (peer.cancelNewHandshake ctx) :=
  (cancelNewHandshake_untouched peer ctx).evolved
    (congrArg Outbox.happened (cancelSlot_out ctx peer.newHandshake))

theorem startHandshake_kept (isRetry : Bool) :
    Unbroken (fun r => r.1.id = peer.id ∧ r.1.recvs = peer.recvs ∧
        r.2.out.happened = ctx.out.happened)
      (peer.startHandshake W debug now isRetry ctx) := by
  apply (ctx.allocateSession_unbroken peer.id).bind
  rintro ⟨allocated, sessionId⟩ same
  have queued : (peer.initiate W now sessionId allocated).1.out.happened =
      allocated.out.happened :=
    rfl
  dsimp only at same ⊢
  generalize peer.initiate W now sessionId allocated = initiated at queued ⊢
  obtain ⟨ctx', initiation⟩ := initiated
  unfold Handshake.setInitiated
  split
  · exact Halt.noConfusion
  · exact ⟨rfl, rfl, queued.trans (by rw [same])⟩

theorem startHandshake_evolved {isRetry : Bool} :
    Unbroken (Evolved W batch peer ctx) (peer.startHandshake W debug now isRetry ctx) :=
  (startHandshake_kept W debug now isRetry).mono
    (fun _ kept => Evolved.silent kept.1 (kept.2.1 ▸ refl _) kept.2.2)

theorem send_evolved {packets : List Bytes} :
    Unbroken (Evolved W batch peer ctx) (peer.send W debug now packets ctx) := by
  apply (peer.session.encryptOrQueue_unbroken now).bind
  rintro ⟨session, ids, sealed⟩ kept
  have encrypted : Evolved W batch peer ctx ({ peer with session := session }, ctx.setIds ids) :=
    Evolved.still rfl kept rfl rfl
  have quiet := encrypted.trans ((queueSealed_untouched now { peer with session := session }
    (ctx.setIds ids) sealed).evolved (queueSealed_happened now _ _))
  dsimp only
  split
  · exact quiet
  · split
    · exact quiet
    · exact (startHandshake_evolved W debug now).mono (fun _ started => quiet.trans started)

theorem encryptOne_sublist {msg packet : Bytes} {session : SessionState}
    (sent : peer.session.encryptOne W now msg = some (session, packet)) :
    session.recvs.Sublist peer.session.recvs := by
  rw [peer.session.encryptOne_recvs W now sent]

theorem sendPriorityMessage_evolved (msg : Bytes) :
    Evolved W batch peer ctx ((peer.sendPriorityMessage W now msg ctx).1,
      (peer.sendPriorityMessage W now msg ctx).2.1) := by
  have refl : Evolved W batch peer ctx (peer, ctx) := (Untouched.refl peer ctx).evolved rfl
  unfold sendPriorityMessage
  split
  · exact refl
  · split
    · exact refl
    · cases sent : peer.session.encryptPriority W now msg with
      | none => exact refl
      | some made =>
        obtain ⟨session, packet⟩ := made
        have sealed : Evolved W batch peer ctx ({ peer with session := session }, ctx) :=
          .still rfl (encryptOne_sublist W now sent) rfl rfl
        have noted := sealed.trans (noteDataSent_evolved W now)
        exact ⟨noted.id, noted.recvs⟩

theorem sendKeepalive_evolved : Evolved W batch peer ctx (peer.sendKeepalive W now ctx) := by
  unfold sendKeepalive
  cases sent : peer.session.encryptKeepalive W now with
  | none => exact (Untouched.refl peer ctx).evolved rfl
  | some made =>
    obtain ⟨session, packet⟩ := made
    have queued : Evolved W batch peer ctx ({ peer with session := session, keepalive := none },
        ctx.queueToPeer peer.id [packet]) := .still rfl (encryptOne_sublist W now sent) rfl rfl
    dsimp only
    split
    · have scheduled := queued.trans (scheduleKeepalive_evolved W now)
      exact ⟨scheduled.id, scheduled.recvs⟩
    · exact queued

theorem sendPersistentKeepalive_evolved :
    Evolved W batch peer ctx (peer.sendPersistentKeepalive W now ctx) := by
  unfold sendPersistentKeepalive
  dsimp only
  cases sent : peer.session.encryptKeepalive W now with
  | none => exact Evolved.still rfl (List.Sublist.refl _) rfl rfl
  | some made =>
    obtain ⟨session, packet⟩ := made
    have queued : Evolved W batch peer ctx ({ peer with
        persistentKeepalive := none, session := session }, ctx.queueToPeer peer.id [packet]) :=
      .still rfl (encryptOne_sublist W now sent) rfl rfl
    exact queued.trans (armPersistentKeepalive_evolved W now)

theorem newHandshakeTimeout_evolved :
    Unbroken (Evolved W batch peer ctx) (peer.newHandshakeTimeout W debug now ctx) := by
  have cleared : Evolved W batch peer ctx ({ peer with newHandshake := none }, ctx) :=
    Evolved.still rfl (List.Sublist.refl _) rfl rfl
  unfold newHandshakeTimeout
  dsimp only
  split
  · exact cleared
  · exact (startHandshake_evolved W debug now).mono (fun _ started => cleared.trans started)

theorem recvs_of_none {peer : Peer} (idle : peer.handshake = Handshake.none) :
    peer.recvs = peer.session.recvs := by
  rw [recvs, idle]
  exact append_nil _

theorem handshakeTimeout_evolved :
    Unbroken (Evolved W batch peer ctx) (peer.handshakeTimeout W debug now ctx) := by
  unfold handshakeTimeout
  split
  · exact (Untouched.refl peer ctx).evolved rfl
  · apply ctx.state.ids.removeSessions_unbroken.bind
    intro ids _
    dsimp only
    split
    · apply peer.session.deactivate_unbroken.bind
      rintro ⟨session, ids⟩ gone
      have dropped : Evolved W batch peer ctx ({ peer with
          handshake := Handshake.none, session := session, handshakeAttempts := 0 },
          ctx.setIds ids) := by
        refine Evolved.silent rfl ?_ rfl
        rw [recvs_of_none rfl, gone]
        exact nil_subperm
      exact dropped.trans (cancelNewHandshake_evolved W)
    · have dropped : Evolved W batch peer ctx ({ peer with
          handshake := Handshake.none
          handshakeAttempts := peer.handshakeAttempts + 1 }, ctx.setIds ids) := by
        refine Evolved.silent rfl ?_ rfl
        rw [recvs_of_none rfl]
        exact (sublist_append_left _ _).subperm
      exact (startHandshake_evolved W debug now).mono (fun _ started => dropped.trans started)

theorem shutdown_evolved :
    Unbroken (fun r => r.1.recvs = [] ∧ r.2.out.happened = ctx.out.happened)
      (peer.shutdown ctx) := by
  apply peer.session.deactivate_unbroken.bind
  rintro ⟨session, ids⟩ gone
  apply ids.removeSessions_unbroken.bind
  intro ids _
  refine ⟨(recvs_of_none rfl).trans gone, ?_⟩
  unfold cancelAllTimers cancelNewHandshake
  rw [cancelSlot_out, cancelSlot_out, cancelSlot_out, cancelSlot_out]
  rfl

variable {after : Peer × Ctx}

/-- A session is created with an empty window; others may be dropped. -/
theorem Evolved.created (session : ReceiveSession)
    (new : session = ReceiveSession.new session.key session.id session.created)
    (id : after.1.id = peer.id) (kept : after.1.recvs.Subperm (session :: peer.recvs))
    (noted : after.2.out.happened = ctx.out.happened ++ creations [session.key]) :
    Evolved W batch peer ctx after := by
  refine ⟨id, ?_⟩
  have create : Evolves W batch (peer.recvs, ctx.out.happened)
      (session :: peer.recvs, ctx.out.happened ++ [.created session.key]) := by
    rw [new]
    exact create peer.recvs _ session.key session.id session.created
  rw [noted]
  exact create.perm (List.Perm.refl _) kept

theorem recvCookieReply_evolved (packet : CookieReply) :
    Evolved W batch peer ctx (peer.recvCookieReply W now packet, ctx) := by
  unfold recvCookieReply
  split
  · exact (Untouched.refl peer ctx).evolved rfl
  · exact Evolved.still rfl (List.Sublist.refl _) rfl rfl

theorem confirmation_unbroken {session : SessionState} (ids : IdMap) {packets : List Bytes} :
    Unbroken (fun r => r.1.recvs.Sublist session.recvs)
      (confirmation W now session ids packets) := by
  unfold confirmation
  split
  · apply (session.encryptOrQueue_unbroken now).bind
    rintro ⟨session, ids, sealed⟩ kept
    cases sealed with
    | none => exact Halt.noConfusion
    | some sealed => exact kept
  · exact List.Sublist.refl _

theorem finish_created (h after : Handshake) (packet : HandshakeResponse) (psk : Bytes)
    (cookies : MacReceiver) (next : SessionPair) (timeout : Handle)
    (finished : h.finish W packet psk cookies now = some (after, next, timeout)) :
    after.responded = h.responded ∧
      next.recv = ReceiveSession.new next.recv.key next.recv.id next.recv.created := by
  obtain ⟨initiation, -, rest⟩ := Option.bind_eq_some_iff.mp finished
  obtain ⟨pair, completed, same⟩ := Option.bind_eq_some_iff.mp rest
  cases same
  unfold SentHandshake.complete at completed
  split at completed
  · cases completed
  · obtain ⟨made, -, same⟩ := Option.bind_eq_some_iff.mp completed
    cases same
    exact ⟨rfl, rfl⟩

theorem recvHandshakeResponse_evolved (packet : HandshakeResponse) :
    Unbroken (Evolved W batch peer ctx) (peer.recvHandshakeResponse W now packet ctx) := by
  unfold recvHandshakeResponse
  cases finished : peer.handshake.finish W packet peer.config.psk ctx.state.myCookie now with
  | none => exact (Untouched.refl peer ctx).evolved rfl
  | some made =>
    obtain ⟨handshake, next, timeout⟩ := made
    obtain ⟨responded, new⟩ := finish_created W now _ _ _ _ _ _ _ finished
    apply peer.session.activate_unbroken.bind
    rintro ⟨session, ids, packets⟩ active
    apply (confirmation_unbroken W now ids).bind
    rintro ⟨session, ids, packets⟩ kept
    have held : Evolved W batch peer ctx ({ peer with
        handshake := handshake, handshakeAttempts := 0, newHandshake := none,
        session := session }, (((ctx.cancel timeout).cancelSlot peer.newHandshake).setIds
          ids).noteCreated [next.recv.key]) := by
      refine Evolved.created W next.recv new rfl ?_ (congrArg (fun out => Outbox.happened out ++ _)
        (cancelSlot_out (ctx.cancel timeout) peer.newHandshake))
      rw [recvs, recvs, Handshake.recvs, Handshake.recvs, responded, ← cons_append]
      exact ((kept.trans active).append_right _).subperm
    have armed := held.trans (armPersistentKeepalive_evolved W now)
    exact ⟨armed.id, armed.recvs⟩

theorem recvHandshakes_evolved {packets : List Bytes} :
    Unbroken (fun r => Evolved W batch peer ctx (r.1, r.2.1) ∧ r.2.2 ⊆ packets)
      (recvHandshakes W debug now packets peer ctx) := by
  induction packets generalizing peer ctx with
  | nil => exact ⟨(Untouched.refl peer ctx).evolved rfl, nofun⟩
  | cons first rest ih =>
    have later {peer : Peer} {ctx : Ctx} : Unbroken
        (fun r => Evolved W batch peer ctx (r.1, r.2.1) ∧ r.2.2 ⊆ first :: rest)
        (recvHandshakes W debug now rest peer ctx) :=
      ih.mono (fun r kept => ⟨kept.1, subset_cons_of_subset first kept.2⟩)
    rw [recvHandshakes]
    cases parsed : Message.parse first with
    | none => exact later
    | some message =>
      cases message with
      | handshakeInitiation init =>
        dsimp only
        split
        · exact Halt.noConfusion
        · exact later
      | handshakeResponse resp =>
        apply (recvHandshakeResponse_evolved W now resp).bind
        intro after one
        exact later.mono (fun r kept => ⟨one.trans kept.1, kept.2⟩)
      | cookieReply resp =>
        exact later.mono (fun r kept => ⟨(recvCookieReply_evolved W now resp).trans kept.1, kept.2⟩)
      | transportData header =>
        apply later.bind
        rintro ⟨peer', ctx', kept⟩ ⟨evolved, part⟩
        exact ⟨evolved, cons_subset.mpr ⟨mem_cons_self, part⟩⟩

theorem respondToHandshake_evolved {received : ReceivedHandshake} :
    Unbroken (Evolved W batch peer ctx) (peer.respondToHandshake W now received ctx) := by
  unfold respondToHandshake
  split
  · exact (Untouched.refl peer ctx).evolved rfl
  · dsimp only [cancelNewHandshake]
    apply ((ctx.cancelSlot peer.newHandshake).allocateSession_unbroken peer.id).bind
    rintro ⟨ctx', sessionId⟩ allocated
    have same : ctx'.out = ctx.out := allocated.trans (cancelSlot_out ctx peer.newHandshake)
    apply (IdMap.removeSessions_unbroken _).bind
    intro ids _
    refine Evolved.created W _ rfl rfl ?_ (by rw [← same]; rfl)
    exact perm_append_comm.subperm.trans ((sublist_append_left _ _).cons_cons _).subperm

theorem recvAuthenticated_evolved (opened : List Opened) :
    Unbroken (fun r => r.1.id = peer.id ∧ r.1.recvs.Subperm peer.recvs ∧
        r.2.out.happened = ctx.out.happened ++ deliveries peer.id opened)
      (peer.recvAuthenticated W debug now opened ctx) := by
  have untouched := deliver_untouched now peer ctx (opened.any (fun one => one.payload ≠ [])) opened
  have noted := deliver_happened now peer ctx (opened.any (fun one => one.payload ≠ [])) opened
  unfold recvAuthenticated
  dsimp only
  generalize peer.deliver now _ opened ctx = delivered at untouched noted ⊢
  obtain ⟨peer', ctx'⟩ := delivered
  have same := peer'.session.keepKeyFreshReceiving_recvs now
  have recvs : Peer.recvs { peer' with session := (peer'.session.keepKeyFreshReceiving now).1 } =
      peer.recvs := by
    rw [Peer.recvs, Peer.recvs, same, untouched.session, untouched.handshake]
  split
  · refine Safe.mono (startHandshake_kept W debug now false) ?_
    intro r started
    exact ⟨started.1.trans untouched.id, (started.2.1.trans recvs) ▸ List.Subperm.refl _,
      started.2.2.trans noted⟩
  · exact ⟨untouched.id, recvs ▸ List.Subperm.refl _, noted⟩

theorem recvConfirmed_evolved (next : SessionPair) (opened : List Opened) :
    Unbroken (fun r => r.1.id = peer.id ∧ r.1.recvs.Subperm (next.recv :: peer.recvs) ∧
        r.2.out.happened = ctx.out.happened ++ deliveries peer.id opened)
      (peer.recvConfirmed W now next opened ctx) := by
  have untouched := deliver_untouched now peer ctx true opened
  have noted := deliver_happened now peer ctx true opened
  unfold recvConfirmed
  generalize peer.deliver now true opened ctx = delivered at untouched noted ⊢
  obtain ⟨peer', ctx'⟩ := delivered
  apply peer'.session.activate_unbroken.bind
  rintro ⟨session, ids, packets⟩ active
  have armed := armPersistentKeepalive_untouched now { peer' with session := session }
    (ctx'.setIds ids)
  have same := armPersistentKeepalive_out now { peer' with session := session } (ctx'.setIds ids)
  dsimp only at active ⊢
  generalize armPersistentKeepalive now { peer' with session := session } (ctx'.setIds ids) = last
    at armed same ⊢
  obtain ⟨peer'', ctx''⟩ := last
  have kept : peer''.recvs.Subperm (next.recv :: peer.recvs) := by
    have session : peer''.session = session := armed.session
    have handshake : peer''.handshake = peer.handshake := armed.handshake.trans untouched.handshake
    rw [recvs, recvs, session, handshake, ← untouched.session, ← cons_append]
    exact (active.append_right _).subperm
  have silent : ctx''.out.happened = ctx'.out.happened := congrArg Outbox.happened same
  split
  · exact ⟨armed.id.trans untouched.id, kept, silent.trans noted⟩
  · exact ⟨armed.id.trans untouched.id, kept, silent.trans noted⟩

/-- A group of transport messages is decrypted by one of the peer's receive sessions. -/
theorem recvTransportData_evolved (id : SessionId) (packets : List Bytes)
    (inBatch : packets ⊆ batch) (sound : Sound peer.recvs) :
    Unbroken (Evolved W batch peer ctx) (peer.recvTransportData W debug now id packets ctx) := by
  unfold recvTransportData
  cases lent : peer.session.getRecv now id with
  | some found =>
    obtain ⟨slot, recv⟩ := found
    obtain ⟨others, taken, back⟩ := peer.session.getRecv_putRecv now id slot recv lent
    have start : peer.recvs.Perm (recv :: (others ++ peer.handshake.recvs)) :=
      taken.append_right peer.handshake.recvs
    have decrypted := recv.decrypt_evolves W debug peer.id packets inBatch
      (sound recv (start.mem_iff.mpr mem_cons_self))
    apply decrypted.bind
    rintro ⟨after, opened⟩ step
    have finish : (recvs { peer with session := peer.session.putRecv slot after }).Perm
        (after :: (others ++ peer.handshake.recvs)) :=
      (back after).append_right peer.handshake.recvs
    have evolves := (step _ ctx.out.happened).perm start finish.subperm
    dsimp only at evolves ⊢
    split
    · case _ nothing =>
        rw [nothing, deliveries, map_nil, append_nil] at evolves
        exact ⟨rfl, evolves⟩
    · refine Safe.mono (recvAuthenticated_evolved W debug now opened) ?_
      intro r kept
      refine ⟨kept.1, ?_⟩
      rw [kept.2.2]
      exact evolves.perm (List.Perm.refl _) kept.2.1
  | none =>
    have tentative : Sound peer.handshake.recvs :=
      fun session member => sound session (mem_append_right _ member)
    apply (peer.handshake.confirm_evolves W debug now peer.id id packets inBatch tentative).bind
    rintro ⟨handshake, confirmed⟩ step
    have moved := (step peer.session.recvs ctx.out.happened).perm perm_append_comm
      (List.Subperm.refl _)
    cases confirmed with
    | none =>
      dsimp only [Option.map_none, Option.getD_none] at moved
      rw [deliveries, map_nil, append_nil] at moved
      exact ⟨rfl, moved.perm (List.Perm.refl _) perm_append_comm.subperm⟩
    | some made =>
      obtain ⟨next, opened⟩ := made
      refine Safe.mono (recvConfirmed_evolved W now next opened) ?_
      intro r kept
      refine ⟨kept.1, ?_⟩
      rw [kept.2.2]
      exact moved.perm (List.Perm.refl _)
        (kept.2.1.trans (perm_append_comm.cons next.recv).subperm)

theorem recv_evolved {id : SessionId} {packets : List Bytes} (inBatch : packets ⊆ batch)
    (sound : Sound peer.recvs) :
    Unbroken (Evolved W batch peer ctx) (peer.recv W debug now id packets ctx) := by
  have handshakes : Unbroken (fun r => Evolved W batch peer ctx (r.1, r.2.1) ∧ r.2.2 ⊆ packets)
      (recvHandshakes W debug now packets peer ctx) := recvHandshakes_evolved W debug now
  apply handshakes.bind
  rintro ⟨peer', ctx', kept⟩ ⟨evolved, part⟩
  refine Safe.mono (recvTransportData_evolved W debug now id kept
    (fun packet member => inBatch (part member)) (evolved.recvs.sound sound)) ?_
  exact fun r transported => evolved.trans transported

end Peer

end TailscaleRs.Tunnel
