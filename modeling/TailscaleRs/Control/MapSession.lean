import Mathlib.Data.String.Basic
import TailscaleRs.Lib.Run

namespace TailscaleRs.Control

open List

/-- Where a poll can be taken up again: the handle of a session and the last number of it. -/
structure MapSession where
  handle : String
  seq : Int
  deriving DecidableEq

def MapSession.default : MapSession := ⟨"", 0⟩

/-- A response of the stream, the fields that the cursor reads; the last says that it carries a
ping, whose answer is awaited. -/
structure MapFrame where
  sessionHandle : Option String
  seq : Int
  ping : Bool
  deriving DecidableEq

def maxSessionHandleLen : Nat := 256

/-- Not empty, bounded, and of visible ASCII characters only. -/
def validHandle (handle : String) : Bool :=
  !handle.isEmpty && handle.utf8ByteSize ≤ maxSessionHandleLen &&
    handle.toList.all fun c => 0x21 ≤ c.toNat && c.toNat ≤ 0x7e

/-- The handle of a new session comes with a cursor at its start; an invalid one is ignored, the
number is not. -/
def advanceSession (session : MapSession) (frame : MapFrame) : MapSession :=
  let session :=
    match frame.sessionHandle with
    | some handle => if validHandle handle ∧ handle ≠ session.handle then ⟨handle, 0⟩ else session
    | none => session
  if frame.seq ≠ 0 then { session with seq := frame.seq } else session

/-- The handle and number of a streaming request; without a handle there is no number either. -/
def MapSession.offer (session : MapSession) : String × Int :=
  (session.handle, if session.handle.isEmpty then 0 else session.seq)

/-- A poll that is up: the session that its responses belong to, which is the one last announced
on it or else the one it was to take up, and the response that awaits the answer to its ping. -/
structure MapPoll where
  session : String
  handling : Option MapFrame

def MapPoll.sessionOf (poll : MapPoll) (frame : MapFrame) : String :=
  frame.sessionHandle.getD poll.session

/-- The client between and during polls, with all that was received, each under its session, and
all that was published. -/
structure MapClient where
  session : MapSession
  poll : Option MapPoll
  received : List (String × MapFrame)
  published : List MapFrame

def MapClient.new : MapClient := ⟨MapSession.default, none, [], []⟩

/-- What happens to the client. A poll is lost by the end of the stream or an error, which are seen
between responses, and is dropped by the watchdog at any await. -/
inductive PollEvent where
  | request
  | response (frame : MapFrame)
  | pingAnswered
  | lost
  | restart

namespace MapClient

variable (client : MapClient)

/-- A response moves the cursor when it is received and is published after its ping. -/
def step : PollEvent → MapClient
  | .request =>
    match client.poll with
    | none => { client with poll := some ⟨client.session.handle, none⟩ }
    | some _ => client
  | .response frame =>
    match client.poll with
    | some ⟨session, none⟩ =>
      let poll : MapPoll := ⟨session, none⟩
      { session := advanceSession client.session frame
        poll := some ⟨poll.sessionOf frame, if frame.ping then some frame else none⟩
        received := client.received ++ [(poll.sessionOf frame, frame)]
        published :=
          if frame.ping then client.published else client.published ++ [frame] }
    | _ => client
  | .pingAnswered =>
    match client.poll with
    | some ⟨session, some frame⟩ =>
      { client with
        poll := some ⟨session, none⟩
        published := client.published ++ [frame] }
    | _ => client
  | .lost =>
    match client.poll with
    | some ⟨_, none⟩ => { client with poll := none }
    | _ => client
  | .restart => { client with poll := none }

def numbered (session : String) (responses : List (String × MapFrame)) : List (String × MapFrame) :=
  responses.filter fun response => response.1 = session ∧ response.2.seq ≠ 0

/-- A number that may be offered with a handle: it was received under the handle, unless it is
zero, and the responses of the session up to it are published in their order. -/
structure Resumable (client : MapClient) (handle : String) (seq : Int) : Prop where
  received : seq = 0 ∨ ∃ frame, (handle, frame) ∈ client.received ∧ frame.seq = seq
  published : (((numbered handle client.received).filter fun response =>
    response.2.seq ≤ seq).map Prod.snd).Sublist client.published

/-- The numbered responses of a session, published or about to be. -/
def Delivered (session : String) : Prop :=
  match client.poll with
  | some ⟨_, some frame⟩ =>
    ∃ before last, client.received = before ++ [(last, frame)] ∧
      (validHandle last = true → last = client.session.handle) ∧
      ((numbered session before).map Prod.snd).Sublist client.published
  | _ => ((numbered session client.received).map Prod.snd).Sublist client.published

/-- What holds between the steps. -/
structure Tracked (client : MapClient) : Prop where
  handle : client.session.handle = "" ∨ validHandle client.session.handle = true
  followed : ∀ poll, client.poll = some poll → validHandle poll.session = true →
    poll.session = client.session.handle
  received : client.session.handle = "" ∨ client.session.seq = 0 ∨
    ∃ frame, (client.session.handle, frame) ∈ client.received ∧ frame.seq = client.session.seq
  delivered : ∀ session, validHandle session = true → client.Delivered session

/-- No numbered response of a session without a valid handle comes while another session is held,
and the watchdog drops no numbered response of the session held. -/
def Steady : PollEvent → Prop
  | .response frame => ∀ poll ∈ client.poll,
      frame.seq = 0 ∨ client.session.handle = "" ∨ validHandle (poll.sessionOf frame) = true
  | .restart => ∀ poll ∈ client.poll, ∀ frame ∈ poll.handling,
      frame.seq = 0 ∨ client.session.handle = ""
  | _ => True

instance steadyDecidable (client : MapClient) : (event : PollEvent) →
    Decidable (client.Steady event)
  | .response _ => inferInstanceAs (Decidable (∀ poll ∈ client.poll, _ ∨ _ ∨ _))
  | .restart => inferInstanceAs (Decidable (∀ poll ∈ client.poll, ∀ frame ∈ poll.handling, _ ∨ _))
  | .request => isTrue trivial
  | .pingAnswered => isTrue trivial
  | .lost => isTrue trivial

end MapClient

section Cursor

variable {session : MapSession} {frame : MapFrame}

theorem advanceSession_handle :
    (advanceSession session frame).handle = session.handle ∧
        (∀ handle, frame.sessionHandle = some handle → validHandle handle = true →
          handle = session.handle) ∨
      ∃ handle, frame.sessionHandle = some handle ∧ validHandle handle = true ∧
        (advanceSession session frame).handle = handle := by
  have handle_kept (held : MapSession) :
      (if frame.seq ≠ 0 then { held with seq := frame.seq } else held).handle = held.handle := by
    split <;> rfl
  unfold advanceSession
  cases announced : frame.sessionHandle with
  | none =>
    left
    exact ⟨handle_kept session, nofun⟩
  | some handle =>
    dsimp only
    rw [handle_kept]
    split
    · rename_i new
      right
      exact ⟨handle, rfl, new.1, rfl⟩
    · rename_i known
      left
      refine ⟨rfl, ?_⟩
      rintro _ ⟨⟩ valid
      by_contra other
      exact known ⟨valid, other⟩

theorem advanceSession_seq :
    (frame.seq ≠ 0 ∧ (advanceSession session frame).seq = frame.seq) ∨
      (advanceSession session frame).seq = 0 ∨
      (advanceSession session frame) = session := by
  unfold advanceSession
  by_cases number : frame.seq = 0
  · simp only [number, ne_eq, not_true, if_false]
    right
    split
    · split
      · exact .inl rfl
      · exact .inr rfl
    · exact .inr rfl
  · left
    refine ⟨number, ?_⟩
    rw [if_pos number]

end Cursor

theorem ne_empty_of_valid {handle : String} (valid : validHandle handle = true) :
    handle ≠ "" := by
  rintro rfl
  simp [validHandle] at valid

namespace MapClient

variable {client : MapClient} {poll : MapPoll} {frame : MapFrame}

theorem numbered_append (session : String) (first second : List (String × MapFrame)) :
    numbered session (first ++ second) = numbered session first ++ numbered session second :=
  filter_append first second

theorem Tracked.sessionOf (tracked : client.Tracked) (up : client.poll = some poll)
    (valid : validHandle (poll.sessionOf frame) = true) :
    poll.sessionOf frame = (advanceSession client.session frame).handle := by
  unfold MapPoll.sessionOf at valid ⊢
  rcases advanceSession_handle with ⟨kept, same⟩ | ⟨handle, announced, _, is⟩
  · rw [kept]
    cases announced : frame.sessionHandle with
    | none =>
      rw [announced] at valid
      exact tracked.followed poll up valid
    | some handle =>
      rw [announced] at valid
      exact same handle announced valid
  · rw [is, announced]
    rfl

theorem Tracked.advanced (tracked : client.Tracked) (up : client.poll = some poll)
    (steady : frame.seq = 0 ∨ client.session.handle = "" ∨
      validHandle (poll.sessionOf frame) = true) :
    (advanceSession client.session frame).handle = "" ∨
      (advanceSession client.session frame).seq = 0 ∨
      ∃ other, ((advanceSession client.session frame).handle, other) ∈
          client.received ++ [(poll.sessionOf frame, frame)] ∧
        other.seq = (advanceSession client.session frame).seq := by
  rcases advanceSession_seq with ⟨number, moved⟩ | zero | same
  · by_cases none : (advanceSession client.session frame).handle = ""
    · exact .inl none
    · right
      right
      have valid : validHandle (poll.sessionOf frame) = true := by
        rcases steady with zero | unheld | valid
        · exact absurd zero number
        · -- the first handle of the client came with this response
          rcases advanceSession_handle with
            ⟨kept, _⟩ | ⟨handle, announced, valid, _⟩
          · exact absurd (kept.trans unheld) none
          · rw [MapPoll.sessionOf, announced]
            exact valid
        · exact valid
      refine ⟨frame, ?_, moved.symm⟩
      rw [← tracked.sessionOf up valid]
      exact mem_append_right _ mem_cons_self
  · exact .inr (.inl zero)
  · rw [same]
    rcases tracked.received with none | zero | ⟨other, member, number⟩
    · exact .inl none
    · exact .inr (.inl zero)
    · exact .inr (.inr ⟨other, mem_append_left _ member, number⟩)

theorem sublist_numbered {session last : String} {before : List (String × MapFrame)}
    {published : List MapFrame}
    (delivered : ((numbered session before).map Prod.snd).Sublist published) :
    ((numbered session (before ++ [(last, frame)])).map Prod.snd).Sublist
      (published ++ [frame]) := by
  rw [numbered_append, map_append]
  refine delivered.append ?_
  exact (filter_sublist.map Prod.snd : List.Sublist _ ([(last, frame)].map Prod.snd))

variable (tracked : client.Tracked)
include tracked

theorem Tracked.response (frame : MapFrame) (steady : client.Steady (.response frame)) :
    (client.step (.response frame)).Tracked := by
  rw [step]
  split
  · rename_i session up
    have steady := steady _ up
    refine ⟨?_, ?_, tracked.advanced up steady, ?_⟩
    · rcases advanceSession_handle with ⟨kept, _⟩ | ⟨handle, _, valid, is⟩
      · rw [kept]
        exact tracked.handle
      · rw [is]
        exact .inr valid
    · rintro _ ⟨⟩ valid
      exact tracked.sessionOf up valid
    · intro other valid
      have delivered := tracked.delivered other valid
      rw [Delivered, up] at delivered
      by_cases ping : frame.ping = true
      · simp only [ping, if_true]
        exact ⟨client.received, _, rfl, tracked.sessionOf up, delivered⟩
      · simp only [ping, Bool.false_eq_true, if_false]
        exact sublist_numbered delivered
  · exact tracked

theorem Tracked.pingAnswered : (client.step .pingAnswered).Tracked := by
  rw [step]
  split
  · rename_i session frame up
    refine ⟨tracked.handle, ?_, tracked.received, ?_⟩
    · rintro _ ⟨⟩ valid
      exact tracked.followed ⟨session, some frame⟩ up valid
    · intro other valid
      have delivered := tracked.delivered other valid
      rw [Delivered, up] at delivered
      obtain ⟨before, last, all, _, delivered⟩ := delivered
      rw [all]
      exact sublist_numbered delivered
  · exact tracked

/-- What the watchdog drops is not numbered, or not of a session that can be taken up. -/
theorem Tracked.restart (steady : client.Steady .restart) : (client.step .restart).Tracked := by
  refine ⟨tracked.handle, nofun, tracked.received, ?_⟩
  intro other valid
  have delivered := tracked.delivered other valid
  show ((numbered other client.received).map Prod.snd).Sublist client.published
  rw [Delivered] at delivered
  split at delivered
  · rename_i session frame up
    obtain ⟨before, last, all, held, delivered⟩ := delivered
    have unnumbered : numbered other [(last, frame)] = [] := by
      rw [numbered, filter_eq_nil_iff]
      intro response member
      rw [mem_singleton.mp member]
      simp only [decide_eq_true_eq, not_and, not_not]
      rintro rfl
      rcases steady _ up frame rfl with zero | unheld
      · exact zero
      · exact absurd ((held valid).trans unheld) (ne_empty_of_valid valid)
    rw [all, numbered_append, unnumbered, append_nil]
    exact delivered
  · exact delivered

theorem Tracked.step (event : PollEvent) (steady : client.Steady event) :
    (client.step event).Tracked := by
  cases event with
  | request =>
    rw [MapClient.step]
    split
    · rename_i down
      refine ⟨tracked.handle, ?_, tracked.received, ?_⟩
      · rintro _ ⟨⟩ _
        rfl
      · intro other valid
        have delivered := tracked.delivered other valid
        rw [Delivered, down] at delivered
        exact delivered
    · exact tracked
  | response frame => exact tracked.response frame steady
  | pingAnswered => exact tracked.pingAnswered
  | lost =>
    rw [MapClient.step]
    split
    · rename_i up
      refine ⟨tracked.handle, nofun, tracked.received, ?_⟩
      intro other valid
      have delivered := tracked.delivered other valid
      rw [Delivered, up] at delivered
      exact delivered
    · exact tracked
  | restart => exact tracked.restart steady

omit tracked

theorem Tracked.resumable (tracked : client.Tracked) (down : client.poll = none)
    (held : client.session.offer.1 ≠ "") :
    client.Resumable client.session.offer.1 client.session.offer.2 := by
  have valid := tracked.handle.resolve_left held
  have number : client.session.offer.2 = client.session.seq := by
    rw [MapSession.offer, if_neg]
    rw [String.isEmpty_iff]
    exact held
  rw [number]
  constructor
  · exact tracked.received.resolve_left held
  · have delivered := tracked.delivered client.session.handle valid
    rw [Delivered, down] at delivered
    exact (filter_sublist.map Prod.snd).trans delivered

/-- In every run whose steps are steady, whenever no poll is up and a handle is held, the next
request offers a number that was received under it, and all of the session up to it is
published. -/
theorem cursor_behind_publication (events : List PollEvent) (steady : Along step Steady new events)
    (down : (run step new events).poll = none) (held : (run step new events).session.offer.1 ≠ "") :
    (run step new events).Resumable (run step new events).session.offer.1
      (run step new events).session.offer.2 :=
  (run_invariant step Steady Tracked (fun _ event tracked steady => tracked.step event steady) new
    events ⟨.inl rfl, nofun, .inl rfl, fun _ _ => .refl []⟩ steady).resumable down held

/-- Two sessions; the second begins after a poll is lost, and the watchdog drops a response that
only carries a ping. -/
def toyPolls : List PollEvent :=
  [.request, .response ⟨some "a", 1, false⟩, .response ⟨none, 2, true⟩, .pingAnswered, .lost,
    .request, .response ⟨some "b", 1, false⟩, .response ⟨none, 0, true⟩, .restart]

/-- The watchdog drops a poll while the ping of a numbered response is answered. -/
def toyDropped : List PollEvent :=
  [.request, .response ⟨some "a", 1, true⟩, .restart]

/-- A session is held, and the next one that control begins has a handle with a blank. -/
def toyBlank : List PollEvent :=
  [.request, .response ⟨some "a", 1, false⟩, .lost, .request, .response ⟨some "b ", 7, false⟩,
    .lost]

theorem cursor_behind_publication_toyPolls :
    (Along step Steady new toyPolls ∧ (run step new toyPolls).session.offer = ("b", 1)) ∧
      (run step new toyPolls).Resumable (run step new toyPolls).session.offer.1
        (run step new toyPolls).session.offer.2 := by
  have steady : Along step Steady new toyPolls := by decide +kernel
  have offers : (run step new toyPolls).session.offer = ("b", 1) := by decide +kernel
  refine ⟨⟨steady, offers⟩, cursor_behind_publication toyPolls steady rfl ?_⟩
  decide

/-- A number is offered of a response that was never published, and one that was received under
another handle. -/
theorem cursor_ahead_of_publication :
    ((run step new toyDropped).poll = none ∧ (run step new toyDropped).session.offer = ("a", 1) ∧
        ¬ (run step new toyDropped).Resumable "a" 1) ∧
      ((run step new toyBlank).poll = none ∧ (run step new toyBlank).session.offer = ("a", 7) ∧
        ¬ (run step new toyBlank).Resumable "a" 7) := by
  refine ⟨⟨rfl, by decide +kernel, ?_⟩, ⟨rfl, by decide +kernel, ?_⟩⟩
  · rintro ⟨_, published⟩
    revert published
    decide +kernel
  · rintro ⟨received, _⟩
    have seen : (run step new toyBlank).received =
        [("a", ⟨some "a", 1, false⟩), ("b ", ⟨some "b ", 7, false⟩)] := by decide +kernel
    rw [seen] at received
    rcases received with zero | ⟨frame, member, number⟩
    · cases zero
    · simp at member
      subst member
      cases number

end MapClient

end TailscaleRs.Control
