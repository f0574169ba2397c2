import TailscaleRs.Portmapper.Granted

namespace TailscaleRs.Portmapper

open List Register

namespace Client

/-- The report of the probe is too old for any mapping that is held, or that an attempt of this
generation may still commit. -/
def Spent (c : Client) (p : Probe) : Prop :=
  p.started < c.clock ∧ (∀ h, c.lc.mapping = some h → p.started < h.lease.committedAt) ∧
    ∀ a ∈ c.attempts, a.outcome = none → a.ctx.generation = c.lc.generation → p.started < a.spawned

/-- Every MAP sent after the probe began is of an attempt that still holds its entry. -/
def Covers (c : Client) (p : Probe) : Prop :=
  ∀ k t, .mapSent k t ∈ c.journal → t ≤ p.begun ∨
    ∃ a ∈ c.attempts, a.ctx.ruleId = k ∧ a.outcome ≠ some .committed ∧ ∃ t' ∈ a.lastSend, t ≤ t'

theorem Covers.alter {c c' : Client} {p : Probe} (covers : c.Covers p) {lifetime : Nat}
    (recorded : Recorded lifetime c) {id : Nat} {f : Attempt → Attempt}
    (attempts : c'.attempts = alter Attempt.id c.attempts id f)
    (sent : ∀ k t, .mapSent k t ∈ c'.journal → .mapSent k t ∈ c.journal ∨
      ∃ a ∈ c.attempts, a.id = id ∧ a.ctx.ruleId = k ∧ a.outcome ≠ some .committed ∧
        t ∈ (f a).lastSend)
    (ctx : ∀ a, (f a).ctx = a.ctx)
    (outcome : ∀ a, (f a).outcome = some .committed → a.outcome = some .committed)
    (last : ∀ a t, t ≤ c.clock → (∃ t' ∈ a.lastSend, t ≤ t') →
      ∃ t' ∈ (f a).lastSend, t ≤ t') : c'.Covers p := by
  intro k t member
  rw [attempts]
  rcases sent k t member with old | ⟨a, live, rfl, rule, going, new⟩
  · refine (covers k t old).imp_right ?_
    rintro ⟨a, live, rule, going, before⟩
    refine ⟨_, mem_alter.mpr ⟨a, live, rfl⟩, ?_⟩
    split
    case isTrue =>
      exact ⟨ctx a ▸ rule, fun done => going (outcome a done),
        last a t (recorded.past k t old) before⟩
    case isFalse => exact ⟨rule, going, before⟩
  · refine .inr ⟨_, mem_alter.mpr ⟨a, live, rfl⟩, ?_⟩
    rw [if_pos rfl]
    exact ⟨ctx a ▸ rule, fun done => going (outcome a done), t, new, Nat.le_refl t⟩

end Client

structure Probed (c : Client) : Prop where
  generation : ∀ p ∈ c.probes, p.generation ≤ c.lc.generation
  started : ∀ p ∈ c.probes, p.started ≤ p.begun
  gateway : ∀ p ∈ c.probes, p.generation = c.lc.generation →
    c.lc.net.map (·.gateway) = some p.gateway
  attempts : ∀ a ∈ c.attempts, a.ctx.generation = c.lc.generation →
    c.lc.net.map (·.gateway) = some a.ctx.gateway
  held : ∀ h, c.lc.mapping = some h → ∃ limit gw,
    .granted h.ruleId limit gw h.m.proto h.m.epoch ∈ c.journal ∧ c.lc.net.map (·.gateway) = some gw
  sends : ∀ p ∈ c.probes, p.generation = c.lc.generation → c.Spent p ∨ c.Covers p

namespace Probed

variable {c c' : Client}

theorem initial : Probed .new where
  generation := forall_mem_nil _
  started := forall_mem_nil _
  gateway := forall_mem_nil _
  attempts := forall_mem_nil _
  held := by rintro _ ⟨⟩
  sends := forall_mem_nil _

variable {lifetime : Nat} {a : Attempt} {now : Instant} (probed : Probed c)
include probed

theorem tends {why : OwnedRule → Prop} (sound : Sound c) (recorded : Recorded lifetime c)
    (tends : Client.Tends why c c') : Probed c' := by
  obtain ⟨notes, journal, silence⟩ := tends.quiet.journal
  have onward : c.lc.generation ≤ c'.lc.generation := by
    rcases tends.generation with newer | ⟨same, -⟩
    · exact Nat.le_of_lt newer
    · exact Nat.le_of_eq same.symm
  -- What is of the current generation was so before, on the same gateway.
  have current {generation : Nat} (old : generation ≤ c.lc.generation)
      (is : generation = c'.lc.generation) : c'.lc.generation = c.lc.generation ∧
        generation = c.lc.generation ∧ c'.lc.net.map (·.gateway) = c.lc.net.map (·.gateway) := by
    rcases tends.generation with newer | ⟨same, net⟩
    · exact (Nat.lt_irrefl _ (Nat.lt_of_lt_of_le newer (is ▸ old))).elim
    · exact ⟨same, is.trans same, net⟩
  have sent (k : RuleId) (t : Instant) (member : .mapSent k t ∈ c'.journal) :
      .mapSent k t ∈ c.journal := by
    rw [journal] at member
    exact (mem_append.mp member).resolve_left fun new => Bool.noConfusion (silence _ new)
  have generation (p : Probe) (member : p ∈ c'.probes) : p.generation ≤ c.lc.generation := by
    rcases tends.quiet.probes p member with old | begins
    · exact probed.generation p old
    · exact Nat.le_of_eq begins.generation
  refine ⟨?_, ?_, ?_, ?_, ?_, ?_⟩
  · intro p member
    exact Nat.le_trans (generation p member) onward
  · intro p member
    rcases tends.quiet.probes p member with old | begins
    · exact probed.started p old
    · rw [begins.begun]
      exact begins.started
  · intro p member is
    obtain ⟨-, is, net⟩ := current (generation p member) is
    rw [net]
    rcases tends.quiet.probes p member with old | begins
    · exact probed.gateway p old is
    · exact begins.gateway
  · intro a member is
    rw [tends.attempts] at member
    obtain ⟨-, is, net⟩ := current (sound.attended.generation a member) is
    rw [net]
    exact probed.attempts a member is
  · intro h' holds
    obtain ⟨h, held, stays⟩ := tends.held h' holds
    obtain ⟨limit, gw, granted, net⟩ := probed.held h held
    refine ⟨limit, gw, ?_, stays.net.trans net⟩
    rw [stays.ruleId, stays.m, journal]
    exact mem_append_right _ granted
  · intro p member is
    obtain ⟨same, is, -⟩ := current (generation p member) is
    rcases tends.quiet.probes p member with old | begins
    · rcases probed.sends p old is with ⟨clock, committed, spawned⟩ | covers
      · refine .inl ⟨Nat.lt_of_lt_of_le clock tends.quiet.clock, ?_, ?_⟩
        · intro h' holds
          obtain ⟨h, held, stays⟩ := tends.held h' holds
          rw [stays.committedAt]
          exact committed h held
        · intro a live going now
          exact spawned a (tends.attempts ▸ live) going (now.trans same)
      · refine .inr fun k t member => ?_
        rw [tends.attempts]
        exact covers k t (sent k t member)
    · refine .inr fun k t member => .inl ?_
      rw [begins.begun]
      exact recorded.past k t (sent k t member)

theorem follow (probes : c'.probes = c.probes) (clock : c'.clock = c.clock)
    (lc : c'.standing = c.standing) (journal : ∀ n ∈ c.journal, n ∈ c'.journal)
    (attempts : ∀ a' ∈ c'.attempts, ∃ a ∈ c.attempts, a'.ctx = a.ctx ∧
      a'.spawned = a.spawned ∧ (a'.outcome = none → a.outcome = none))
    (covers : ∀ p ∈ c.probes, p.generation = c.lc.generation → c.Covers p → c'.Covers p) :
    Probed c' := by
  obtain ⟨generation, net, mapping⟩ := Client.standing_iff.mp lc
  refine ⟨?_, ?_, ?_, ?_, ?_, ?_⟩
  · rw [probes, generation]
    exact probed.generation
  · rw [probes]
    exact probed.started
  · rw [probes, generation, net]
    exact probed.gateway
  · intro a' live is
    obtain ⟨a, was, ctx, -⟩ := attempts a' live
    rw [generation, ctx] at is
    rw [net, ctx]
    exact probed.attempts a was is
  · intro h holds
    obtain ⟨limit, gw, granted, known⟩ := probed.held h (mapping ▸ holds)
    exact ⟨limit, gw, journal _ granted, net ▸ known⟩
  · intro p member is
    rw [probes] at member
    rw [generation] at is
    rcases probed.sends p member is with ⟨past, committed, spawned⟩ | covered
    · refine .inl ⟨clock ▸ past, mapping ▸ committed, ?_⟩
      intro a' live going now
      obtain ⟨a, was, ctx, same, open'⟩ := attempts a' live
      rw [same]
      exact spawned a was (open' going) (by rw [← ctx, now, generation])
    · exact .inr (covers p member is covered)

theorem transmit (recorded : Recorded lifetime c) (id index : Nat) :
    Probed (c.transmit id index) := by
  rcases c.transmit_cases with same | ⟨a, request, live, -, going, -, -, is⟩
  · rw [same]
    exact probed
  rw [is]
  refine probed.follow rfl rfl rfl ?_ ?_ ?_
  · intro n member
    rw [Client.transmitted]
    split
    · exact mem_cons_of_mem _ member
    · exact member
  · intro a' member
    obtain ⟨b, was, ⟨-, rfl⟩ | ⟨-, rfl⟩⟩ := of_mem_alter member
    · refine ⟨b, was, ?_⟩
      split <;> exact ⟨rfl, rfl, fun none => none⟩
    · exact ⟨a', was, rfl, rfl, fun none => none⟩
  · intro p _ _ covered
    refine covered.alter recorded rfl ?_ (fun b => by split <;> rfl) ?_ ?_
    · intro k t member
      rw [Client.transmitted] at member
      split at member
      case isTrue sent =>
        rcases mem_cons.mp member with new | old
        · cases new
          exact .inr ⟨a, live, rfl, rfl, by rw [going]; rintro ⟨⟩, by rw [if_pos sent]; rfl⟩
        · exact .inl old
      case isFalse => exact .inl member
    · intro b done
      split at done <;> exact done
    · intro b t past before
      split
      · exact ⟨c.clock, rfl, past⟩
      · exact before

theorem settled (recorded : Recorded lifetime c) {result : Except MapError MapReply}
    (probes : c'.probes = c.probes) (clock : c'.clock = c.clock) (lc : c'.standing = c.standing)
    (journal : c'.journal = Client.grantNotes a result now ++ c.journal)
    (attempts : c'.attempts = alter Attempt.id c.attempts a.id fun a =>
      { a with outcome := some .settled }) :
    Probed c' := by
  refine probed.follow probes clock lc ?_ ?_ ?_
  · intro n member
    rw [journal]
    exact mem_append_right _ member
  · intro a' member
    rw [attempts] at member
    obtain ⟨b, was, ⟨-, rfl⟩ | ⟨-, rfl⟩⟩ := of_mem_alter member
    · exact ⟨b, was, rfl, rfl, by rintro ⟨⟩⟩
    · exact ⟨a', was, rfl, rfl, fun none => none⟩
  · intro p _ _ covered
    refine covered.alter recorded attempts ?_ (fun _ => rfl) (by rintro _ ⟨⟩)
      (fun _ _ _ before => before)
    intro k t member
    rw [journal] at member
    exact .inl ((mem_append.mp member).resolve_left (Recorded.grantNotes_unsent))

/-- A mapping is committed. A probe that began before one of its sends cannot reset it. -/
theorem committed (sound : Sound c) (live : a ∈ c.attempts) (going : a.outcome = none)
    (current : a.ctx.generation = c.lc.generation) {reply : MapReply} (past : now ≤ c.clock)
    (spawned : a.spawned ≤ now) (last : ∀ t ∈ a.lastSend, t ≤ now) (probes : c'.probes = c.probes)
    (clock : c'.clock = c.clock) (lc : c'.lc.generation = c.lc.generation ∧ c'.lc.net = c.lc.net)
    (mapping : c'.lc.mapping = some ⟨reply.mapping a.ctx.rule, Lease.new now reply.lifetime,
      a.ctx.netGen, a.ctx.ruleId⟩)
    (journal : c'.journal = Client.grantNotes a (.ok reply) now ++ c.journal)
    (attempts : c'.attempts = alter Attempt.id c.attempts a.id fun a =>
      { a with outcome := some .committed }) :
    Probed c' := by
  obtain ⟨generation, net⟩ := lc
  have was (a' : Attempt) (member : a' ∈ c'.attempts) : ∃ b ∈ c.attempts, a'.ctx = b.ctx ∧
      a'.spawned = b.spawned ∧ (a'.outcome = none → b.outcome = none ∧ b.id ≠ a.id) := by
    rw [attempts] at member
    obtain ⟨b, was, ⟨-, rfl⟩ | ⟨other, rfl⟩⟩ := of_mem_alter member
    · exact ⟨b, was, rfl, rfl, by rintro ⟨⟩⟩
    · exact ⟨a', was, rfl, rfl, fun none => ⟨none, other⟩⟩
  -- No other attempt is of this generation.
  have spent (p : Probe) (before : p.started < now) : c'.Spent p := by
    refine ⟨clock ▸ Nat.lt_of_lt_of_le before past, ?_, ?_⟩
    · intro h holds
      rw [mapping] at holds
      cases holds
      exact before
    · intro a' member open' is
      obtain ⟨b, held, ctx, -, other⟩ := was a' member
      rw [generation, ctx] at is
      have flight := Option.some.inj ((sound.attended.inflight b held is).symm.trans
        (sound.attended.inflight a live current))
      exact ((other open').2 (congrArg Inflight.id flight)).elim
  refine ⟨?_, ?_, ?_, ?_, ?_, ?_⟩
  · rw [probes, generation]
    exact probed.generation
  · rw [probes]
    exact probed.started
  · rw [probes, generation, net]
    exact probed.gateway
  · intro a' member is
    obtain ⟨b, held, ctx, -⟩ := was a' member
    rw [generation, ctx] at is
    rw [net, ctx]
    exact probed.attempts b held is
  · intro h holds
    rw [mapping] at holds
    cases holds
    refine ⟨leaseDeadline now reply.lifetime, a.ctx.gateway, ?_, ?_⟩
    · rw [journal]
      exact mem_append_left _ (mem_singleton.mpr rfl)
    · rw [net]
      exact probed.attempts a live current
  · intro p member is
    rw [probes] at member
    rw [generation] at is
    rcases probed.sends p member is with ⟨-, -, starts⟩ | covered
    · exact .inl (spent p (Nat.lt_of_lt_of_le (starts a live going current) spawned))
    · by_cases early : ∀ t ∈ a.lastSend, t ≤ p.begun
      · refine .inr fun k t sent => ?_
        rw [journal] at sent
        have old := (mem_append.mp sent).resolve_left (Recorded.grantNotes_unsent)
        rcases covered k t old with before | ⟨b, held, rule, uncommitted, t', sends, le⟩
        · exact .inl before
        by_cases own : b.id = a.id
        · obtain rfl := sound.attended.distinct.eq held live own
          exact .inl (Nat.le_trans le (early t' sends))
        · refine .inr ⟨b, ?_, rule, uncommitted, t', sends, le⟩
          rw [attempts]
          exact mem_alter.mpr ⟨b, held, if_neg own⟩
      · simp only [not_forall, Nat.not_le] at early
        obtain ⟨t, sent, late⟩ := early
        exact .inl (spent p (Nat.lt_of_le_of_lt (probed.started p member)
          (Nat.lt_of_lt_of_le late (last t sent))))

theorem mapDone (sound : Sound c) (recorded : Recorded lifetime c) (id : Nat)
    (result : Except MapError MapReply) (past : now ≤ c.clock) (backoff : Nat) :
    Probed (c.mapDone id result now backoff) := by
  rcases c.mapDone_cases with
    same | ⟨a, live, -, -, going, spawned, last, is⟩
  · rw [same]
    exact probed
  rw [is]
  cases result with
  | error e => exact probed.settled recorded rfl rfl rfl rfl rfl
  | ok reply =>
    rw [Client.delivered]
    cases stale : c.lc.attemptStale a.ctx with
    | true =>
      rw [Lifecycle.mapSuccess_stale stale]
      exact probed.settled recorded rfl rfl rfl rfl rfl
    | false =>
      rw [Lifecycle.mapSuccess_fresh stale]
      exact probed.committed sound live going (Lifecycle.attemptStale_eq_false.mp stale).1 past
        spawned last rfl rfl ⟨rfl, rfl⟩ rfl rfl rfl

omit probed

/-- The attempt committed its mapping, or no probe of this generation began before its last
send. -/
def Announced (c : Client) (a : Attempt) : Prop :=
  ∀ p ∈ c.probes, p.generation = c.lc.generation →
    a.outcome = some .committed ∨ ∀ t ∈ a.lastSend, t ≤ p.begun

theorem mapFinish (probed : Probed c) (sound : Sound c) {id : Nat}
    (announced : ∀ a ∈ c.attempt id, Announced c a) : Probed (c.mapFinish id) := by
  rw [Client.mapFinish]
  split
  · exact probed
  case h_2 a found =>
    refine probed.follow rfl rfl rfl (fun _ member => member) ?_ ?_
    · intro b member
      exact ⟨b, (mem_drop.mp member).1, rfl, rfl, fun none => none⟩
    · intro p member is covered k t sent
      rcases covered k t sent with before | ⟨b, held, rule, uncommitted, t', sends, le⟩
      · exact .inl before
      by_cases own : b.id = id
      · obtain rfl : a = b :=
          Option.some.inj (found.symm.trans (own ▸ sound.attended.distinct.find held))
        rcases announced a found p member is with done | early
        · exact (uncommitted done).elim
        · exact .inl (Nat.le_trans le (early t' sends))
      · exact .inr ⟨b, mem_drop.mpr ⟨held, own⟩, rule, uncommitted, t', sends, le⟩

theorem start (probed : Probed c) (sound : Sound c) (cfg : Config) (reading : Lifecycle.Reading) :
    Probed (Client.maybeStart cfg c reading) := by
  obtain ⟨lc, idles, is⟩ | ⟨lc, id, ctx, started, reserves, is⟩ :=
    Client.maybeStart_cases sound.ids <;> rw [is]
  · exact probed.follow rfl rfl
      (Client.standing_iff.mpr ⟨idles.generation, idles.net, idles.mapping⟩)
      (fun _ member => member) (fun a live => ⟨a, live, rfl, rfl, fun none => none⟩)
      (fun _ _ _ covered => covered)
  · obtain ⟨net, -, known, -, gateway, -⟩ := started.entry
    refine ⟨?_, probed.started, ?_, ?_, ?_, ?_⟩
    · rw [started.generation']
      exact probed.generation
    · rw [started.generation', started.net']
      exact probed.gateway
    · intro a member is
      rw [started.net']
      rcases mem_append.mp member with held | new
      · exact probed.attempts a held (is.trans started.generation')
      · rw [mem_singleton.mp new, known, gateway]
        rfl
    · intro h holds
      rw [started.net']
      exact probed.held h (started.mapping' ▸ holds)
    · intro p member is
      rcases probed.sends p member (is.trans started.generation') with
        ⟨clock, committed, spawned⟩ | covered
      · refine .inl ⟨clock, fun h holds => committed h (started.mapping' ▸ holds), ?_⟩
        intro a live going current
        rcases mem_append.mp live with held | new
        · exact spawned a held going (current.trans started.generation')
        · rw [mem_singleton.mp new]
          exact clock
      · refine .inr fun k t sent => (covered k t sent).imp_right ?_
        rintro ⟨a, held, rest⟩
        exact ⟨a, mem_append_left _ held, rest⟩

end Probed

end TailscaleRs.Portmapper
