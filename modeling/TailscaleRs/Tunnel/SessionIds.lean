import TailscaleRs.Lib.Ledger
import TailscaleRs.Lib.Outcome
import TailscaleRs.Tunnel.Endpoint

namespace TailscaleRs.Tunnel

open Time (Instant)

/-- The panics that an id out of place would cause; all others are tolerated. -/
def Halt.Tolerated (halt : Halt) : Prop := halt ≠ .removeSession ∧ halt ≠ .initiationInFlight

def SessionState.recvs : SessionState → List ReceiveSession
  | .none _ => []
  | .active session => session.recv :: session.recvPrev.toList

def SessionState.ids (session : SessionState) : List SessionId :=
  session.recvs.map ReceiveSession.id

def Handshake.ids (handshake : Handshake) : List SessionId :=
  handshake.initiatedSessionId.toList ++ handshake.respondedSessionId.toList

def Peer.ids (peer : Peer) : List SessionId := peer.session.ids ++ peer.handshake.ids

variable {origin : SessionId → Option PeerId} {owner : PeerId} (ids : IdMap)

theorem IdMap.removeSessions_safe {gone rest : List SessionId}
    (account : Account origin ids.sessions owner (gone ++ rest)) :
    Safe Halt.Tolerated (fun after => Account origin after.sessions owner rest)
      (ids.removeSessions gone) := by
  unfold IdMap.removeSessions
  induction gone generalizing ids with
  | nil => exact account
  | cons id gone ih =>
    rw [List.foldlM_cons]
    have removed : ids.removeSession id =
        .ok { ids with sessions := Function.update ids.sessions id none } := by
      rw [IdMap.removeSession, account.lookup]
    rw [removed]
    exact ih { ids with sessions := Function.update ids.sessions id none } account.revoke

theorem IdMap.removePeer_safe {key : Bytes} :
    Safe Halt.Tolerated (fun after => after.sessions = ids.sessions) (ids.removePeer key) := by
  unfold IdMap.removePeer
  split
  · exact ⟨by decide, by decide⟩
  · rfl

theorem IdMap.addPeer_sessions (ids after : IdMap) {id : PeerId} {key : Bytes}
    (added : ids.addPeer id key = some after) : after.sessions = ids.sessions := by
  unfold IdMap.addPeer at added
  split at added
  · cases added
  · cases added
    rfl

theorem IdMap.firstVacant_vacant (drawn : List SessionId) (id : SessionId) (rest : List SessionId)
    (found : ids.firstVacant drawn = some (id, rest)) : ids.sessions id = none := by
  induction drawn with
  | nil => cases found
  | cons first drawn ih =>
    rw [IdMap.firstVacant] at found
    split at found
    · case _ vacant =>
        cases found
        exact vacant
    · exact ih found

theorem Ctx.allocateSession_safe (ctx : Ctx) {held : List SessionId}
    (account : Account origin ctx.state.ids.sessions owner held) :
    Safe Halt.Tolerated
      (fun r => Account origin r.1.state.ids.sessions owner (r.2 :: held))
      (ctx.allocateSession owner) := by
  unfold Ctx.allocateSession IdMap.allocateSession
  cases found : ctx.state.ids.firstVacant ctx.draws.sessionIds with
  | none => exact ⟨by decide, by decide⟩
  | some vacant =>
    obtain ⟨id, rest⟩ := vacant
    exact account.grant (ctx.state.ids.firstVacant_vacant _ id rest found)

namespace SessionState

variable (W : WgCrypto) (now : Instant) (ids : IdMap) (session : SessionState)
  (rest : List SessionId)

theorem activate_safe {next : SessionPair} {isInitiator : Bool}
    (account : Account origin ids.sessions owner (next.recv.id :: session.ids ++ rest)) :
    Safe Halt.Tolerated
      (fun r => Account origin r.2.1.sessions owner (r.1.ids ++ rest) ∧
        (r.1.receiveRekeyDue now → isInitiator))
      (session.activate W ids next isInitiator) := by
  cases session with
  | none queue =>
    refine ⟨account, fun due => ?_⟩
    simp only [receiveRekeyDue, Bool.and_eq_true] at due
    exact due.1.1
  | active session =>
    have reordered := List.perm_append_comm_assoc [next.recv.id, session.recv.id]
      (session.recvPrev.toList.map ReceiveSession.id) rest
    apply (ids.removeSessions_safe (account.perm reordered)).bind
    intro ids settled
    refine ⟨settled, fun due => ?_⟩
    simp only [receiveRekeyDue, Bool.and_eq_true] at due
    exact due.1.1

theorem deactivate_safe (account : Account origin ids.sessions owner (session.ids ++ rest)) :
    Safe Halt.Tolerated (fun r => r.1.ids = [] ∧ Account origin r.2.sessions owner rest)
      (session.deactivate ids) := by
  cases session with
  | none queue => exact ⟨rfl, account⟩
  | active session =>
    apply (ids.removeSessions_safe account).bind
    intro ids settled
    exact ⟨rfl, settled⟩

theorem encryptOrQueue_safe (packets : List Bytes)
    (account : Account origin ids.sessions owner (session.ids ++ rest)) :
    Safe Halt.Tolerated (fun r => Account origin r.2.1.sessions owner (r.1.ids ++ rest))
      (session.encryptOrQueue W now ids packets) := by
  cases session with
  | none queue => exact account
  | active session =>
    rw [encryptOrQueue]
    split
    · apply (deactivate_safe ids (.active session) rest account).bind
      rintro ⟨_, ids⟩ ⟨_, settled⟩
      exact settled
    · exact account

theorem encryptOne_recvs {msg packet : Bytes} {after : SessionState}
    (sent : session.encryptOne W now msg = some (after, packet)) : after.recvs = session.recvs := by
  cases session with
  | none queue => cases sent
  | active session =>
    rw [encryptOne] at sent
    split at sent
    · cases sent
    · obtain ⟨_, _, same⟩ := Option.map_eq_some_iff.mp sent
      cases same
      rfl

end SessionState

namespace Peer

/-- An operation on timers and queues leaves the slots and the id map alone. -/
structure Untouched (peer : Peer) (ctx : Ctx) (after : Peer × Ctx) : Prop where
  id : after.1.id = peer.id
  session : after.1.session = peer.session
  handshake : after.1.handshake = peer.handshake
  ids : after.2.state.ids = ctx.state.ids

theorem Untouched.refl (peer : Peer) (ctx : Ctx) : Untouched peer ctx (peer, ctx) :=
  ⟨rfl, rfl, rfl, rfl⟩

theorem Untouched.trans {peer : Peer} {ctx : Ctx} {mid after : Peer × Ctx}
    (first : Untouched peer ctx mid) (second : Untouched mid.1 mid.2 after) :
    Untouched peer ctx after :=
  ⟨second.id.trans first.id, second.session.trans first.session,
    second.handshake.trans first.handshake, second.ids.trans first.ids⟩

variable (now : Instant) (peer : Peer) (ctx : Ctx)

theorem armNewHandshake_untouched : Untouched peer ctx (peer.armNewHandshake now ctx) := by
  unfold armNewHandshake
  split
  · exact Untouched.refl peer ctx
  · exact ⟨rfl, rfl, rfl, rfl⟩

theorem cancelNewHandshake_untouched : Untouched peer ctx (peer.cancelNewHandshake ctx) :=
  ⟨rfl, rfl, rfl, ctx.cancelSlot_ids⟩

theorem scheduleKeepalive_untouched : Untouched peer ctx (peer.scheduleKeepalive now ctx) := by
  unfold scheduleKeepalive
  split
  · exact ⟨rfl, rfl, rfl, rfl⟩
  · exact ⟨rfl, rfl, rfl, rfl⟩

theorem armPersistentKeepalive_untouched :
    Untouched peer ctx (peer.armPersistentKeepalive now ctx) := by
  unfold armPersistentKeepalive
  split
  · exact Untouched.refl peer ctx
  · exact ⟨rfl, rfl, rfl, Ctx.cancelSlot_ids _⟩

theorem noteDataSent_untouched : Untouched peer ctx (peer.noteDataSent now ctx) :=
  (armPersistentKeepalive_untouched now peer ctx).trans (armNewHandshake_untouched now _ _)

theorem queueSealed_untouched (sealed : Option (List Bytes)) :
    Untouched peer ctx (peer.queueSealed now ctx sealed) := by
  cases sealed with
  | none => exact Untouched.refl peer ctx
  | some packets =>
    have same : Untouched peer ctx
        (if packets = [] then (peer, ctx) else peer.noteDataSent now ctx) := by
      split
      · exact Untouched.refl peer ctx
      · exact noteDataSent_untouched now peer ctx
    exact ⟨same.id, same.session, same.handshake, same.ids⟩

theorem deliver_untouched (arm : Bool) (opened : List Opened) :
    Untouched peer ctx (peer.deliver now arm opened ctx) := by
  have queued : Untouched peer ctx ((peer.cancelNewHandshake ctx).1,
      (peer.cancelNewHandshake ctx).2.queueToLocal peer.id opened) :=
    (cancelNewHandshake_untouched peer ctx).trans ⟨rfl, rfl, rfl, rfl⟩
  cases arm with
  | false => exact queued
  | true => exact queued.trans (scheduleKeepalive_untouched now _ _)

theorem cancelAllTimers_untouched : Untouched peer ctx (peer.cancelAllTimers ctx) := by
  refine ⟨rfl, rfl, rfl, ?_⟩
  unfold cancelAllTimers cancelNewHandshake
  simp

end Peer

end TailscaleRs.Tunnel
