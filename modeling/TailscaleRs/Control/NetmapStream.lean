import TailscaleRs.Lib.Run

namespace TailscaleRs.Control

open List

/-- tokio's broadcast channel, as one receiver and the stream over it see it: a value is sent, or
the stream is polled, and gives nothing yet, a value, or by how much it has lagged. -/
structure Broadcast (α R : Type) where
  subscribe : R
  send : R → α → R
  pollNext : R → R × Option (Except Nat α)

/-- The channel as it is documented, by the values that were sent and that the receiver has not
come to: they are received in order, and one that is behind by more than the channel holds is told
so once and goes on with the oldest value held. -/
structure Broadcast.Documented {α R : Type} (channel : Broadcast α R) (capacity : Nat)
    (waiting : R → List α) : Prop where
  fresh : waiting channel.subscribe = []
  sent : ∀ r a, waiting (channel.send r a) = waiting r ++ [a]
  pending : ∀ r, waiting r = [] → channel.pollNext r = (r, none)
  received : ∀ r a rest, waiting r = a :: rest → (waiting r).length ≤ capacity →
    ∃ after, channel.pollNext r = (after, some (.ok a)) ∧ waiting after = rest
  lagged : ∀ r, capacity < (waiting r).length → ∃ after,
    channel.pollNext r = (after, some (.error ((waiting r).length - capacity))) ∧
      waiting after = (waiting r).drop ((waiting r).length - capacity)

/-- A subscriber of the map responses: what was published since it subscribed, its receiver, and
what its stream has yielded. -/
structure NetmapStream (α R : Type) where
  published : List α
  receiver : R
  yielded : List α

inductive StreamEvent (α : Type) where
  | publish (update : α)
  | poll

namespace NetmapStream

variable {α R : Type} (channel : Broadcast α R)

def new : NetmapStream α R := ⟨[], channel.subscribe, []⟩

def capacity : Nat := 32

/-- A poll of the channel's stream; `netmap_stream` yields a value and drops the error. -/
def step (s : NetmapStream α R) : StreamEvent α → NetmapStream α R
  | .publish update =>
    { s with published := s.published ++ [update], receiver := channel.send s.receiver update }
  | .poll =>
    let polled := channel.pollNext s.receiver
    { s with
      receiver := polled.1
      yielded := s.yielded ++ (polled.2.bind Except.toOption).toList }

variable (waiting : R → List α) (full : α → Bool) (s : NetmapStream α R)

/-- What the channel still holds for the subscriber. -/
def held : List α := (waiting s.receiver).drop ((waiting s.receiver).length - capacity)

/-- A subscriber that has fallen behind what the channel holds is polled only when the update it
goes on with is a full netmap. -/
def Admits : StreamEvent α → Prop
  | .publish _ => True
  | .poll => (waiting s.receiver).length ≤ capacity ∨
      ∀ update ∈ (s.held waiting).head?, full update = true

instance Admits.decidable : (ev : StreamEvent α) → Decidable (s.Admits waiting full ev)
  | .publish _ => isTrue trivial
  | .poll => inferInstanceAs (Decidable (_ ∨ _))

/-- The updates yielded are those published, but for some before a full netmap. -/
inductive Follows (full : α → Bool) : List α → List α → Prop
  | start : Follows full [] []
  | next {seen yielded : List α} (update : α) (follows : Follows full seen yielded) :
      Follows full (seen ++ [update]) (yielded ++ [update])
  | refresh {seen yielded : List α} (skipped : List α) (update : α) (fresh : full update = true)
      (follows : Follows full seen yielded) :
      Follows full (seen ++ skipped ++ [update]) (yielded ++ [update])

/-- The subscriber has seen what was published, up to the part that waits; if some before that is
skipped, a full netmap comes next. -/
def Sees : Prop :=
  ∃ seen skipped, s.published = seen ++ skipped ++ waiting s.receiver ∧
    Follows full seen s.yielded ∧
    (skipped = [] ∨ ∃ update rest, waiting s.receiver = update :: rest ∧ full update = true)

variable {channel waiting full s} (documented : channel.Documented capacity waiting)
include documented

theorem Sees.poll (sees : s.Sees waiting full) (admits : s.Admits waiting full .poll) :
    (s.step channel .poll).Sees waiting full := by
  obtain ⟨seen, skipped, published, follows, next⟩ := sees
  rw [step]
  by_cases near : (waiting s.receiver).length ≤ capacity
  · cases is : waiting s.receiver with
    | nil =>
      rw [documented.pending _ is]
      refine ⟨seen, skipped, published, ?_, next⟩
      simpa using follows
    | cons update rest =>
      obtain ⟨after, polled, left⟩ := documented.received _ update rest is near
      rw [polled]
      refine ⟨seen ++ skipped ++ [update], [], ?_, ?_, .inl rfl⟩
      · simp [published, is, left]
      · rcases next with rfl | ⟨_, _, first, fresh⟩
        · rw [append_nil]
          exact .next update follows
        · rw [is] at first
          cases first
          exact .refresh skipped update fresh follows
  · obtain ⟨after, polled, left⟩ := documented.lagged _ (Nat.lt_of_not_le near)
    have fresh := admits.resolve_left near
    rw [polled]
    refine ⟨seen, skipped ++ (waiting s.receiver).take ((waiting s.receiver).length - capacity),
      ?_, ?_, .inr ?_⟩
    · dsimp only
      rw [published, left, append_assoc, append_assoc, append_assoc, take_append_drop]
    · simpa [Except.toOption] using follows
    · dsimp only
      rw [left, ← held]
      cases remains : s.held waiting with
      | nil =>
        have size := congrArg length remains
        rw [held, length_drop] at size
        simp [capacity] at size near
        omega
      | cons update rest => exact ⟨update, rest, rfl, fresh update (by rw [remains]; rfl)⟩

theorem Sees.step (ev : StreamEvent α) (sees : s.Sees waiting full)
    (admits : s.Admits waiting full ev) : (s.step channel ev).Sees waiting full := by
  cases ev with
  | publish update =>
    obtain ⟨seen, skipped, published, follows, next⟩ := sees
    refine ⟨seen, skipped, ?_, follows, next.imp_right ?_⟩
    · simp [NetmapStream.step, published, documented.sent]
    · rintro ⟨first, rest, is, fresh⟩
      exact ⟨first, rest ++ [update], by simp [NetmapStream.step, documented.sent, is], fresh⟩
  | poll => exact sees.poll documented admits

/-- In every run that admits its polls, no update is skipped but before a full netmap. -/
theorem run_sees (full : α → Bool) (events : List (StreamEvent α))
    (admitted : Along (step channel) (Admits waiting full ·) (new channel) events) :
    (run (step channel) (new channel) events).Sees waiting full :=
  run_invariant _ _ (Sees waiting full) (fun _ ev sees admits => sees.step documented ev admits) _
    events ⟨[], [], by simp [new, documented.fresh], .start, .inl rfl⟩ admitted

omit documented

theorem Follows.eq_of_stale {seen yielded : List α}
    (follows : Follows (fun _ => false) seen yielded) : yielded = seen := by
  induction follows with
  | start => rfl
  | next update _ ih => rw [ih]
  | refresh _ _ fresh => cases fresh

/-- A receiver as the list of what it has not come to. -/
def toyChannel : Broadcast Nat (List Nat) where
  subscribe := []
  send waiting update := waiting ++ [update]
  pollNext
    | [] => ([], none)
    | update :: rest =>
      let behind := rest.length + 1 - capacity
      if behind = 0 then (rest, some (.ok update))
      else ((update :: rest).drop behind, some (.error behind))

theorem toyChannel_documented : toyChannel.Documented capacity id where
  fresh := rfl
  sent _ _ := rfl
  pending r empty := by
    cases r with
    | nil => rfl
    | cons => cases empty
  received r update rest is near := by
    subst is
    exact ⟨rest, if_pos (Nat.sub_eq_zero_of_le near), rfl⟩
  lagged r far := by
    cases r with
    | nil => cases far
    | cons update rest => exact ⟨_, if_neg (Nat.sub_ne_zero_of_lt far), rfl⟩

/-- A burst of as many updates as are given, and two polls after it. -/
def toyBurst (size : Nat) : List (StreamEvent Nat) := (range size).map .publish ++ [.poll, .poll]

theorem run_sees_toyBurst :
    (run (step toyChannel) (new toyChannel) (toyBurst 32)).Sees id (fun _ => false) :=
  run_sees toyChannel_documented _ _ (by decide)

/-- A burst of one more delta than the channel holds: the first is skipped. -/
theorem run_skips :
    ¬∀ {R : Type} (channel : Broadcast Nat R) (waiting : R → List Nat),
      channel.Documented capacity waiting → ∀ events,
      (run (step channel) (new channel) events).Sees waiting (fun _ => false) := by
  intro whole
  obtain ⟨seen, skipped, published, follows, next⟩ :=
    whole toyChannel id toyChannel_documented (toyBurst 33)
  obtain rfl : skipped = [] := next.resolve_right fun ⟨_, _, _, fresh⟩ => by cases fresh
  rw [← follows.eq_of_stale] at published
  revert published
  decide

end NetmapStream

end TailscaleRs.Control
