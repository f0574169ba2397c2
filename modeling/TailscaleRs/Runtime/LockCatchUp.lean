import TailscaleRs.Runtime.LockRoot

namespace TailscaleRs.Runtime

open Tka VerifiedAumChain Crypto World AumHash

/-- A chain a node can follow: it verifies, its AUMs have distinct hashes, and it is
short enough for one walk. -/
structure LockChain (C : Crypto) (chain : List Aum) : Prop where
  accepted : ∃ verified, verify C chain = .ok verified
  distinct : HashesDistinct C {aum | aum ∈ chain}
  short : chain.length ≤ maxSyncIter

/-- Control holds the chain: it hands out the genesis, and an offer made at an AUM of the
chain is answered with an offer of its own and the AUMs of the chain the node is missing. -/
structure Control.Holds (C : Crypto) (control : Control) (chain : List Aum) : Prop where
  genesis : ∃ resp first, control.tkaBootstrap "" = .ok resp ∧ resp.genesisAum ≠ [] ∧
    Aum.fromCbor resp.genesisAum = .ok first ∧ chain.head? = some first
  offer : ∀ (request : TkaSyncOfferRequest) (before : List Aum) (last : Aum) (after : List Aum),
    chain = before ++ last :: after → request.head = (last.hash C).toBase32 →
    ∃ resp offer sent, control.tkaSyncOffer request = .ok resp ∧
      parseOffer resp.head resp.ancestors = .ok offer ∧ decodeAums resp.missingAums = .ok sent ∧
      (∀ aum ∈ sent, aum ∈ chain) ∧ ∀ aum ∈ after, aum ∈ sent

/-- The node holds exactly the AUMs of the chain, and its authority is at the last one. -/
structure SyncedTka.Carries (C : Crypto) (synced : SyncedTka) (chain : List Aum) : Prop where
  followed : LockChain C chain
  filed : ∃ inserted, (∀ aum, aum ∈ inserted ↔ aum ∈ chain) ∧
    MemAumStore.Indexed C inserted synced.store
  starts : ∃ first, chain.head? = some first ∧ synced.oldest = first.hash C
  ends : ∃ last, chain.getLast? = some last ∧ synced.authority.head = last.hash C

section

variable {C : Crypto}

theorem LockChain.initial {chain before : List Aum} (lock : LockChain C chain)
    (nonempty : before ≠ []) (initial : before <+: chain) : LockChain C before := by
  obtain ⟨verified, accepted⟩ := lock.accepted
  refine ⟨VerifiedAumChain.verify_prefix C accepted nonempty initial, ?_, ?_⟩
  · intro a heldA b heldB
    exact lock.distinct a (initial.subset heldA) b (initial.subset heldB)
  · exact Nat.le_trans initial.length_le lock.short

section

variable {chain : List Aum} (lock : LockChain C chain) {store : MemAumStore} {inserted : List Aum}
  (complete : ∀ aum, aum ∈ inserted ↔ aum ∈ chain) (indexed : MemAumStore.Indexed C inserted store)
include lock complete indexed

theorem LockChain.chainHeld : ∃ s, ChainHeld C store.toStore chain s := by
  obtain ⟨verified, accepted⟩ := lock.accepted
  obtain ⟨last, -, -, looped⟩ := verify_ok C chain verified accepted
  have same : {aum | aum ∈ inserted} = {aum | aum ∈ chain} := by
    ext aum
    exact complete aum
  have represents := indexed.represents C inserted store (same ▸ lock.distinct)
  exact ⟨verified.state, same ▸ represents, verifyLoop_folds C true _ _ chain looped, lock.distinct⟩

variable {first : Aum} (starts : chain.head? = some first)
include starts

theorem LockChain.walked : store.linearChainFrom C (first.hash C) = .ok chain := by
  obtain ⟨s, holds⟩ := lock.chainHeld complete indexed
  rw [MemAumStore.linearChainFrom, holds.held first (List.mem_of_mem_head? starts)]
  exact holds.linearWalk_eq first starts maxSyncIter lock.short _

theorem LockChain.rebuilt :
    ∃ authority, rebuildAuthority C store (first.hash C) = .ok authority ∧
      (⟨authority, store, first.hash C⟩ : SyncedTka).Carries C chain := by
  obtain ⟨verified, accepted⟩ := lock.accepted
  obtain ⟨last, ends, head, -⟩ := verify_ok C chain verified accepted
  have walked := lock.walked complete indexed starts
  refine ⟨Authority.fromVerifiedChain verified, ?_, lock, ⟨inserted, complete, indexed⟩,
    ⟨first, starts, rfl⟩, last, ends, head⟩
  unfold rebuildAuthority
  rw [bind_ok]
  refine ⟨chain, walked, ?_⟩
  rw [bind_ok]
  exact ⟨verified, accepted, rfl⟩

end

theorem SyncedTka.Carries.walked {synced : SyncedTka} {chain : List Aum}
    (carries : synced.Carries C chain) :
    synced.store.linearChainFrom C synced.oldest = .ok chain := by
  obtain ⟨inserted, complete, indexed⟩ := carries.filed
  obtain ⟨first, starts, oldest⟩ := carries.starts
  rw [oldest]
  exact carries.followed.walked complete indexed starts

variable {control : Control} {chain : List Aum} (holds : control.Holds C chain)
  (lock : LockChain C chain)
include holds lock

theorem Control.Holds.bootstrap :
    ∃ held before, bootstrap C control = .ok (some held) ∧ held.Carries C before ∧
      before <+: chain := by
  obtain ⟨resp, first, answered, present, decoded, starts⟩ := holds.genesis
  have initial : [first] <+: chain := by
    obtain ⟨rest, rfl⟩ := List.head?_eq_some_iff.mp starts
    exact ⟨rest, rfl⟩
  have indexed := MemAumStore.insert_indexed C [] _ first (MemAumStore.new_indexed C)
  obtain ⟨authority, rebuilt, carries⟩ := (lock.initial (by simp) initial).rebuilt (by simp)
    indexed rfl
  refine ⟨_, [first], ?_, carries, initial⟩
  unfold Runtime.bootstrap rpc chainOp
  rw [answered, bind_ok]
  refine ⟨resp, rfl, ?_⟩
  rw [if_neg present, decoded, bind_ok]
  refine ⟨first, rfl, ?_⟩
  dsimp only
  rw [rebuilt]
  rfl

/-- An exchange with control brings a node that is behind to control's chain. -/
theorem Control.Holds.exchange {held : SyncedTka} {before : List Aum}
    (carries : held.Carries C before) (initial : before <+: chain) :
    ∃ synced, exchange C control held = .ok synced ∧ synced.Carries C chain := by
  obtain ⟨inserted, complete, indexed⟩ := carries.filed
  obtain ⟨first, starts, oldest⟩ := carries.starts
  obtain ⟨last, ends, head⟩ := carries.ends
  obtain ⟨front, rfl⟩ := List.getLast?_eq_some_iff.mp ends
  obtain ⟨after, parts⟩ := initial
  obtain ⟨offer, offered⟩ : ∃ offer,
      held.authority.syncOffer C held.store.toStore held.oldest = .ok offer ∧
        offer.head = held.authority.head := ⟨_, rfl, rfl⟩
  obtain ⟨resp, controlOffer, sent, answered, parsed, decoded, onChain, covers⟩ :=
    holds.offer ⟨offer.head.toBase32, offer.ancestors.map toBase32⟩ front last after
      (by rw [← parts]; simp) (by rw [offered.2, head])
  -- The node held the chain up to its head, and control sends at least the rest.
  have whole (aum : Aum) : aum ∈ inserted ++ sent ↔ aum ∈ chain := by
    rw [List.mem_append, complete]
    constructor
    · rintro (old | new)
      · rw [← parts]
        exact List.mem_append_left after old
      · exact onChain aum new
    · intro member
      rw [← parts] at member
      exact (List.mem_append.mp member).imp_right (covers aum)
  have startsChain : chain.head? = some first := by
    rw [← parts, List.head?_append, starts]
    rfl
  obtain ⟨authority, rebuilt, advanced⟩ := lock.rebuilt whole
    (MemAumStore.foldl_insert_indexed C inserted sent held.store indexed) startsChain
  refine ⟨_, ?_, advanced⟩
  unfold Runtime.exchange rpc chainOp
  simp only [bind_ok, mapError_ok]
  refine ⟨offer, offered.1, resp, answered, controlOffer, parsed, sent, decoded, authority, ?_, ?_⟩
  · rw [oldest, rebuilt]
  · rw [oldest]
    rfl

theorem Control.Holds.syncTka (current : Option SyncedTka)
    (behind : ∀ held, current = some held → ∃ before, held.Carries C before ∧ before <+: chain) :
    ∃ synced, syncTka C control current = .ok (some synced) ∧ synced.Carries C chain := by
  obtain ⟨held, before, started, carries, initial⟩ : ∃ held before,
      startingChain C control current = .ok (some held) ∧ held.Carries C before ∧
        before <+: chain := by
    cases current with
    | none => exact holds.bootstrap lock
    | some held =>
      obtain ⟨before, carries, initial⟩ := behind held rfl
      exact ⟨held, before, rfl, carries, initial⟩
  obtain ⟨synced, exchanged, advanced⟩ := holds.exchange lock carries initial
  refine ⟨synced, ?_, advanced⟩
  unfold Runtime.syncTka
  rw [started, bind_ok]
  refine ⟨some held, rfl, ?_⟩
  dsimp only
  rw [exchanged]
  rfl

end

open List

variable (C : Crypto) (control : Control) (status : TkaStatus) (current : Option SyncedTka)

/-- Control holds a chain, short enough to be walked, that ends at the head of the status and
extends the one the node took into the sync. -/
def Control.Backs : Prop :=
  ∃ chain last, control.Holds C chain ∧ LockChain C chain ∧ chain.getLast? = some last ∧
    fromBase32 status.head = some (last.hash C) ∧
    ∀ held before, current = some held →
      held.store.linearChainFrom C held.oldest = .ok before → before <+: chain

variable (w : World)

/-- The sync in flight gets through to a control that holds the chain whose head it
last reported. Nothing is asked of a control that reports no lock. -/
def World.Faithful : Event → Prop
  | .sync index control => ∀ task status, w.tasks[index]? = some task →
      w.runner.tka = some status → status.isEnabled = true →
      control.Backs C status task.current
  | _ => True

/-- The enforced authority is the one control last reported: none if the lock is off,
and otherwise one at the reported head. -/
def World.CaughtUp : Prop :=
  ∀ status, w.runner.tka = some status →
    if status.isEnabled then
      ∃ authority, w.runner.tkaAuthority = some authority ∧
        fromBase32 status.head = some authority.head
    else w.runner.tkaAuthority = none

/-- A report that arrives during a sync does not outrun it: the lock is reported on only
while the sync is still valid and has not been answered for another head, and it is not
reported off so often that the generation comes around to the sync's own. -/
def World.Awaits : Event → Prop
  | .stateUpdate (some status) => ∀ task ∈ w.tasks,
      if status.isEnabled then
        task.generation = w.runner.tkaGeneration ∧ (task.result = none ∨ w.runner.tka = some status)
      else task.generation ≠ w.runner.tkaGeneration + 1
  | _ => True

/-- What the node holds is a chain. -/
def Chained : Prop :=
  ∀ held, current = some held → ∃ chain, held.Carries C chain

theorem Control.Backs.brings_head (backs : control.Backs C status current)
    (chained : Chained C current) :
    ∃ synced, syncTka C control current = .ok (some synced) ∧
      fromBase32 status.head = some synced.authority.head ∧
      ∃ chain, synced.Carries C chain := by
  obtain ⟨chain, last, holds, lock, ends, reported, extending⟩ := backs
  obtain ⟨synced, success, carries⟩ := holds.syncTka lock current (by
    intro held present
    obtain ⟨before, carried⟩ := chained held present
    exact ⟨before, carried, extending held before present carried.walked⟩)
  refine ⟨synced, success, ?_, chain, carries⟩
  obtain ⟨final, endsThere, head⟩ := carries.ends
  rw [ends] at endsThere
  cases endsThere
  rw [reported, head]

/-- With no sync in flight the node has caught up and holds what it enforces. A valid
sync in flight will bring the reported head; a superseded one follows a report of off. -/
structure CatchUpInvariant (C : Crypto) (w : World) : Prop where
  consistent : w.Consistent
  chained : Chained C w.runner.tkaSynced
  unreported : w.runner.tka = none → w.tasks = [] ∧ w.runner.tkaAuthority = none
  settled : w.tasks = [] → w.CaughtUp
  holds : w.tasks = [] → w.runner.tkaSynced = w.enforced
  valid : ∀ task ∈ w.tasks, task.generation = w.runner.tkaGeneration →
    ∃ status, w.runner.tka = some status ∧ status.isEnabled = true ∧ Chained C task.current ∧
      ∀ result, task.result = some result → ∃ synced, result = .ok (some synced) ∧
        fromBase32 status.head = some synced.authority.head ∧
        ∃ chain, synced.Carries C chain
  superseded : ∀ task ∈ w.tasks, task.generation ≠ w.runner.tkaGeneration →
    w.runner.tkaAuthority = none ∧ ∀ status, w.runner.tka = some status → status.isEnabled = false

theorem chained_none : Chained C none := by
  intro held present
  cases present

theorem CatchUpInvariant.new : CatchUpInvariant C new where
  consistent := new_consistent
  chained := chained_none C
  unreported _ := ⟨rfl, rfl⟩
  settled _ _ reported := by cases reported
  holds _ := rfl
  valid _ member := by cases member
  superseded _ member := by cases member

section

variable (w : World) (invariant : CatchUpInvariant C w) (event : Event)
  (faithful : w.Faithful C event) (awaits : w.Awaits event)
include invariant faithful awaits

theorem CatchUpInvariant.step : CatchUpInvariant C (w.step C event) := by
  have stepped := w.step_consistent C invariant.consistent event
  have moves := w.step_moves C invariant.consistent event
  generalize w.step C event = after at moves stepped
  cases moves with
  | ignored event silent => exact invariant
  | disabled status off =>
    have reported (other : TkaStatus) (same : some status = some other) :
        other.isEnabled = false := by
      cases same
      exact off
    refine ⟨stepped, chained_none C, by simp, ?_, fun _ => rfl, ?_, ?_⟩
    · intro _ other same
      rw [reported other same]
      rfl
    · intro task member sameGeneration
      have distinct := awaits task member
      rw [off] at distinct
      exact absurd sameGeneration distinct
    · exact fun task member _ => ⟨rfl, reported⟩
  | busy status task enabled flight =>
    have member : task ∈ w.tasks := by simp [flight]
    have waits := awaits task member
    rw [enabled, if_pos rfl] at waits
    have only (other : SyncTask) (held : other ∈ w.tasks) : other = task := by
      simpa [flight] using held
    refine ⟨stepped, invariant.chained, by simp, ?_, ?_, ?_, ?_⟩
    · simp [flight]
    · simp [flight]
    · intro other held _
      rw [only other held]
      obtain ⟨last, reported, -, chained, brings⟩ := invariant.valid task member waits.1
      refine ⟨status, rfl, enabled, chained, ?_⟩
      intro result answered
      obtain pending | repeated := waits.2
      · rw [pending] at answered
        cases answered
      · rw [repeated] at reported
        cases reported
        exact brings result answered
    · intro other held stale
      rw [only other held] at stale
      exact absurd waits.1 stale
  | current status synced enabled idle held sameHead =>
    have none_in_flight (task : SyncTask) : task ∉ w.tasks := by rw [idle]; simp
    have cell : w.runner.tkaAuthority = some synced.authority := by
      rw [invariant.consistent.cell, invariant.consistent.held synced held]
      rfl
    refine ⟨stepped, invariant.chained, by simp, ?_, invariant.holds, ?_, ?_⟩
    · intro _ other same
      cases same
      rw [enabled]
      exact ⟨synced.authority, cell, sameHead⟩
    · exact fun task member => absurd member (none_in_flight task)
    · exact fun task member => absurd member (none_in_flight task)
  | spawned status enabled idle =>
    refine ⟨stepped, chained_none C, by simp, by simp, by simp, ?_, ?_⟩
    · intro task member _
      rw [mem_singleton.mp member]
      exact ⟨status, rfl, enabled, invariant.chained, by simp⟩
    · intro task member stale
      rw [mem_singleton.mp member] at stale
      exact absurd rfl stale
  | answered index control task flight pending at_index =>
    have member : task ∈ w.tasks := by simp [flight]
    refine ⟨stepped, invariant.chained, ?_, by simp, by simp, ?_, ?_⟩
    · intro silent
      simpa [flight] using (invariant.unreported silent).1
    · intro other held sameGeneration
      rw [mem_singleton.mp held] at sameGeneration ⊢
      obtain ⟨status, reported, enabled, chained, -⟩ :=
        invariant.valid task member sameGeneration
      have backs := faithful task status at_index reported enabled
      refine ⟨status, reported, enabled, chained, ?_⟩
      intro result answered
      cases answered
      exact backs.brings_head C control status task.current chained
    · intro other held stale
      rw [mem_singleton.mp held] at stale
      exact invariant.superseded task member stale
  | superseded index task result flight done stale =>
    obtain ⟨cell, off⟩ := invariant.superseded task (by simp [flight]) stale
    refine ⟨stepped, invariant.chained, fun _ => ⟨rfl, cell⟩, ?_, ?_, by simp, by simp⟩
    · intro _ status reported
      rw [off status reported]
      exact cell
    · intro _
      have nothing : w.enforced = none := by
        have law := invariant.consistent.cell
        rw [cell] at law
        exact Option.map_eq_none_iff.mp law.symm
      obtain ⟨idle, -⟩ | ⟨-, -, -, moved⟩ := invariant.consistent.flight
      · rw [flight] at idle
        cases idle
      · rw [nothing]
        exact moved
  | adopted index task synced flight done valid =>
    obtain ⟨status, reported, enabled, -, brings⟩ :=
      invariant.valid task (by simp [flight]) valid
    obtain ⟨other, same, sameHead, carries⟩ := brings _ done
    cases same
    refine ⟨stepped, ?_, ?_, ?_, fun _ => rfl, by simp, by simp⟩
    · intro held present
      cases present
      exact carries
    · intro silent
      rw [show w.runner.tka = none from silent] at reported
      cases reported
    · intro _ last lastReported
      rw [show w.runner.tka = some last from lastReported] at reported
      cases reported
      rw [enabled]
      exact ⟨synced.authority, rfl, sameHead⟩
  | inert index task flight done valid | failed index task _ flight done valid =>
    obtain ⟨_, _, _, _, brings⟩ := invariant.valid task (by simp [flight]) valid
    obtain ⟨synced, same, -⟩ := brings _ done
    cases same

end

/-- Enforcement catches up in every run in which no report outruns the sync in flight. -/
theorem lock_catches_up (C : Crypto) (events : List Event)
    (admitted : Along (step C) (fun w event => w.Faithful C event ∧ w.Awaits event)
      new events)
    (idle : (run (step C) new events).tasks = []) :
    (run (step C) new events).CaughtUp := by
  have invariant := run_invariant _ _ (CatchUpInvariant C)
    (fun w event kept met => kept.step C w event met.1 met.2) new events
    (CatchUpInvariant.new C) admitted
  exact invariant.settled idle

theorem toyControl_holds (genesis : Aum) (later : List Aum) (present : genesis.serialize ≠ [])
    (first : Aum.fromCbor genesis.serialize = .ok genesis)
    (rest : decodeAums (later.map Aum.serialize) = .ok later) (offer : SyncOffer)
    (offered : parseOffer ((later.getLast?.getD genesis).hash toy).toBase32 [] = .ok offer) :
    (toyControl genesis later).Holds toy (genesis :: later) where
  genesis := ⟨⟨genesis.serialize⟩, genesis, rfl, present, first, rfl⟩
  offer request before last after parts _ := by
    refine ⟨_, offer, later, rfl, offered, rest, fun aum member => by simp [member], ?_⟩
    intro aum member
    cases before with
    | nil =>
      cases parts
      exact member
    | cons front between =>
      obtain ⟨-, rfl⟩ := cons.inj parts
      simp [member]

/-- A sync with a control whose chain extends the one the node's walk finds is one
against a faithful control. -/
theorem World.faithful_of_holds (index : Nat) (control : Control) (chain : List Aum) (last : Aum)
    (holds : control.Holds C chain) (lock : LockChain C chain) (ends : chain.getLast? = some last)
    (reported : w.runner.tka.map (fun status => fromBase32 status.head) =
      some (some (last.hash C))) (before : List Aum) (initial : before <+: chain)
    (held : ∀ walked ∈ (w.tasks[index]?.bind SyncTask.current).map
      (fun held => held.store.linearChainFrom C held.oldest), walked = .ok before) :
    w.Faithful C (.sync index control) := by
  intro task status found last_report _
  rw [last_report, Option.map_some, Option.some.injEq] at reported
  refine ⟨chain, last, holds, lock, ends, reported, ?_⟩
  intro own known present walked
  have same := held (.ok known) (by
    rw [found, Option.bind_some, present, Option.map_some, walked]
    rfl)
  cases same
  exact initial

theorem World.not_caughtUp (status : TkaStatus) (authority : Authority)
    (last : w.runner.tka = some status) (on : status.isEnabled = true)
    (cell : w.runner.tkaAuthority = some authority)
    (differs : fromBase32 status.head ≠ some authority.head) : ¬w.CaughtUp := by
  intro caughtUp
  have reached := caughtUp status last
  rw [if_pos on, cell] at reached
  obtain ⟨other, same, sameHead⟩ := reached
  cases same
  exact differs sameHead

theorem World.awaits_of_idle (event : Event) (idle : w.tasks = []) : w.Awaits event := by
  unfold World.Awaits
  split
  · simp [idle]
  · trivial

theorem toyChain_lock : LockChain toy toyChain := by
  refine ⟨toyChain_verified, ?_, by decide⟩
  change ∀ a ∈ toyChain, ∀ b ∈ toyChain, a.hash toy = b.hash toy → a = b
  decide +kernel

theorem toyGenesis_faithful : (new.step toy (toyReport toyGenesis)).Faithful
    toy (.sync 0 (toyControl toyGenesis [])) := by
  have holds := toyControl_holds toyGenesis [] (by decide +kernel) (by decide +kernel) rfl
    ⟨toyGenesis.hash toy, []⟩ (by decide +kernel)
  have lock : LockChain toy [toyGenesis] := toyChain_lock.initial (by simp) ⟨_, rfl⟩
  exact faithful_of_holds toy _ 0 _ [toyGenesis] toyGenesis holds lock rfl
    (by decide +kernel) [] (by simp) (by decide +kernel)

/-- A report of a new head arrives between the answer to a sync and its handling. -/
def toyOvertaken : List Event :=
  [toyReport toyGenesis, .sync 0 (toyControl toyGenesis []),
    toyReport (toyChild toyGenesis .removeKey (replicate 32 2) 2), .synced 0]

theorem lock_overtaken :
    Along (step toy) (World.Faithful toy) new toyOvertaken ∧
      (run (step toy) new toyOvertaken).tasks = [] ∧
      ¬(run (step toy) new toyOvertaken).CaughtUp := by
  have reported (w : World) (head : Aum) : w.Faithful toy (toyReport head) := trivial
  have handled (w : World) : w.Faithful toy (.synced 0) := trivial
  refine ⟨?_, ?_, ?_⟩
  · simp only [toyOvertaken]
    exact ⟨reported _ _, toyGenesis_faithful, reported _ _, handled _, trivial⟩
  · rw [← length_eq_zero_iff]
    decide +kernel
  · apply not_caughtUp _
      ⟨((toyChild toyGenesis .removeKey (replicate 32 2) 2).hash toy).toBase32, false⟩
      ⟨toyGenesis.hash toy, ⟨[(toyKey 1).toKey, (toyKey 2).toKey]⟩⟩ <;> decide +kernel

theorem lock_catches_up_toyAdvance :
    (run (step toy) new (toyBootstrap ++ toyAdvance)).CaughtUp := by
  have holds := toyControl_holds toyGenesis
    [toyChild toyGenesis .removeKey (replicate 32 2) 2] (by decide +kernel)
    (by decide +kernel) (by decide +kernel)
    ⟨(toyChild toyGenesis .removeKey (replicate 32 2) 2).hash toy, []⟩
    (by decide +kernel)
  have second := faithful_of_holds toy
    (run (step toy) new (toyBootstrap ++ toyAdvance.take 1)) 0 _ toyChain _
    holds toyChain_lock rfl (by decide +kernel) [toyGenesis] ⟨_, rfl⟩ (by decide +kernel)
  have between : (run (step toy) new toyBootstrap).tasks = [] := by
    rw [← length_eq_zero_iff]
    decide +kernel
  have reported (w : World) (head : Aum) (idle : w.tasks = []) :
      w.Faithful toy (toyReport head) ∧ w.Awaits (toyReport head) :=
    ⟨trivial, w.awaits_of_idle _ idle⟩
  have asked (w : World) (control : Control) : w.Awaits (.sync 0 control) := trivial
  have handled (w : World) : w.Faithful toy (.synced 0) ∧ w.Awaits (.synced 0) :=
    ⟨trivial, trivial⟩
  apply lock_catches_up toy (toyBootstrap ++ toyAdvance)
  · simp only [toyBootstrap, run, foldl_cons, foldl_nil] at between second ⊢
    exact ⟨reported _ _ rfl, ⟨toyGenesis_faithful, asked _ _⟩, handled _, reported _ _ between,
      ⟨second, asked _ _⟩, handled _, trivial⟩
  · rw [← length_eq_zero_iff]
    decide +kernel

end TailscaleRs.Runtime
