import Mathlib.Data.List.Chain
import TailscaleRs.Tka.Store

namespace TailscaleRs.Tka

open List Option ReplayState MemAumStore Crypto

section

variable (C : Crypto)

/-- The backward half of `compute_state_at`: the state at the newest checkpoint or
the genesis, and the hashes passed on the way. -/
def walkBack (store : AumStore) :
    Nat → List AumHash → Aum → Except TkaError (ReplayState × List AumHash)
  | 0, _, _ => .error .badChain
  | fuel + 1, path, curs =>
    let path := curs.hash C :: path
    if curs.messageKind = .checkpoint then
      match curs.state with
      | none => .error (.decode "checkpoint AUM missing state")
      | some snapshot =>
        .ok (⟨snapshot.keys.getD [], some (curs.hash C),
          some (snapshot.stateId1, snapshot.stateId2)⟩, path)
    else match curs.prevAumHash with
      | none => (default.foldAum C curs).map (fun s => (s, path))
      | some parent =>
        match store.aum parent with
        | none => .error .badParent
        | some p => walkBack store fuel path p

/-- The advancer: the child on the recorded path, or the primary fork resolution. -/
def nextAum (path : Option (List AumHash)) (s : ReplayState) (children : List Aum) : Option Aum :=
  match path with
  | some hashes => children.find? (fun child => child.hash C ∈ hashes)
  | none => pickNextAum C s children

section

variable {G : Type} (store : AumStore)
  (gather : G → Aum → ReplayState → Except TkaError (Bool × ReplayState × G))
  (path : Option (List AumHash)) (stopAt : Option AumHash)

/-- The loop of `fast_forward`; `G` is what the gather closure captures. -/
def fastForwardLoop : Nat → G → ReplayState → Aum → Except TkaError (Aum × ReplayState × G)
  | 0, _, _, _ => .error .badChain
  | fuel + 1, g, s, curs =>
    if some (curs.hash C) = stopAt then .ok (curs, s, g)
    else match gather g curs s with
      | .error e => .error e
      | .ok (true, s, g) => .ok (curs, s, g)
      | .ok (false, s, g) =>
        match nextAum C path s (store.childAums (curs.hash C)) with
        | none => .ok (curs, s, g)
        | some next =>
          match s.foldAum C next with
          | .error e => .error e
          | .ok s => fastForwardLoop fuel g s next

def fastForward (maxIter : Nat) (start : ReplayState) (g : G) :
    Except TkaError (Aum × ReplayState × G) :=
  match start.lastAumHash with
  | none => .error (.decode "fast_forward from a state with no head")
  | some hash =>
    match store.aum hash with
    | none => .error .badParent
    | some curs => fastForwardLoop C store gather path stopAt maxIter g start curs

end

/-- The closure of the walks that gather nothing. -/
def gatherNothing (_ : Unit) (_ : Aum) (s : ReplayState) :
    Except TkaError (Bool × ReplayState × Unit) := .ok (false, s, ())

variable (store : AumStore)

/-- The state at an AUM: back to a checkpoint or the genesis, then forward along
the path taken. -/
def computeStateAt (maxIter : Nat) (want : AumHash) : Except TkaError (Option ReplayState) :=
  match store.aum want with
  | none => .ok none
  | some top => do
      let (start, path) ← walkBack C store maxIter [] top
      let (_, reached, _) ←
        fastForward C store gatherNothing (some path) (some want) maxIter start ()
      return some reached

theorem ReplayState.foldAum_checkpoint (s s' : ReplayState) (aum : Aum)
    (kind : aum.messageKind = .checkpoint) (folded : s.foldAum C aum = .ok s') :
    ∃ snapshot, aum.state = some snapshot ∧
      s' = ⟨snapshot.keys.getD [], some (aum.hash C),
        some (snapshot.stateId1, snapshot.stateId2)⟩ := by
  obtain ⟨-, mid, step, rfl⟩ := foldAum_ok aum folded
  cases step with
  | checkpoint _ snapshot carried _ => exact ⟨snapshot, carried, rfl⟩
  | unchanged own | added own | updated own | removed own => simp [kind] at own

/-- The walk back along a held chain that folds: it stops at some AUM of the chain
with the state the fold has there, having recorded the rest of the chain. -/
theorem walkBack_chain (chain : List Aum) (s : ReplayState) (curs : Aum)
    (ends : chain.getLast? = some curs) (held : ∀ aum ∈ chain, store.aum (aum.hash C) = some aum)
    (folded : foldAums C default chain = .ok s) (fuel : Nat) (enough : chain.length ≤ fuel)
    (path : List AumHash) :
    ∃ before pivot after start, chain = before ++ pivot :: after ∧
      foldAums C default (before ++ [pivot]) = .ok start ∧
      walkBack C store fuel path curs = .ok (start, (pivot :: after).map (Aum.hash C) ++ path) := by
  induction chain using reverseRecOn generalizing s curs fuel path with
  | nil => cases ends
  | append_singleton init last ih =>
    rw [getLast?_concat, some.injEq] at ends
    subst curs
    rw [length_append, length_singleton] at enough
    obtain ⟨fuel, rfl⟩ : ∃ less, fuel = less + 1 := ⟨fuel - 1, by omega⟩
    obtain ⟨mid, before, step⟩ := foldAums_snoc C folded
    unfold walkBack
    by_cases checkpoint : last.messageKind = .checkpoint
    · obtain ⟨snapshot, carried, rfl⟩ :=
        foldAum_checkpoint C mid s last checkpoint step
      rw [if_pos checkpoint, carried]
      exact ⟨init, last, [], _, rfl, folded, rfl⟩
    · rw [if_neg checkpoint]
      have linked := foldAums_linked C folded
      rcases eq_nil_or_concat init with rfl | ⟨earlier, parent, rfl⟩
      · -- The genesis: it names no parent and folds into the empty state.
        have root : last.prevAumHash = none := linked.1 last rfl
        cases before
        rw [root]
        rw [step]
        exact ⟨[], last, [], s, rfl, folded, rfl⟩
      · have named : last.prevAumHash = some (parent.hash C) := by
          apply linked.2 earlier.length parent last
          · simp
          · simp
        rw [named]
        dsimp only
        rw [held parent (by simp)]
        obtain ⟨front, pivot, after, start, parts, reached, walked⟩ :=
          ih mid parent (by simp) (fun aum member => held aum (mem_append_left _ member))
            before fuel (by omega) (last.hash C :: path)
        refine ⟨front, pivot, after ++ [last], start, ?_, reached, ?_⟩
        · rw [parts, append_assoc, cons_append]
        · dsimp only
          rw [walked]
          simp

/-- One AUM leads to the next whatever the state of the walk. -/
def LeadsTo (path : Option (List AumHash)) (aum next : Aum) : Prop :=
  ∀ s, nextAum C path s (store.childAums (aum.hash C)) = some next

theorem linearWalk_follows (rest : List Aum) (curs last : Aum)
    (ends : (curs :: rest).getLast? = some last)
    (leads : (curs :: rest).IsChain (LeadsTo C store none))
    (childless : store.childAums (last.hash C) = []) (fuel : Nat) (enough : rest.length < fuel)
    (s : ReplayState) : linearWalk C store fuel s curs = .ok (curs :: rest) := by
  induction rest generalizing curs fuel s with
  | nil =>
    obtain ⟨fuel, rfl⟩ : ∃ less, fuel = less + 1 := ⟨fuel - 1, by omega⟩
    rw [getLast?_singleton, some.injEq] at ends
    rw [linearWalk, ends, childless]
    rfl
  | cons next rest ih =>
    rw [length_cons] at enough
    obtain ⟨fuel, rfl⟩ : ∃ less, fuel = less + 1 := ⟨fuel - 1, by omega⟩
    rw [isChain_cons_cons] at leads
    have picked := leads.1 (s.applyVerifiedAum C curs).2
    rw [nextAum] at picked
    rw [linearWalk, picked]
    dsimp only
    rw [ih next (by simpa using ends) leads.2 fuel (by omega)]
    rfl

section

variable {G : Type} (store : AumStore)
  (gather : G → Aum → ReplayState → Except TkaError (Bool × ReplayState × G)) (record : G → Aum → G)
  (records : ∀ g aum s, gather g aum s = .ok (false, s, record g aum))
  (path : Option (List AumHash)) (stopAt : Option AumHash) (rest : List Aum) (curs last : Aum)
  (ends : (curs :: rest).getLast? = some last)
  (leads : (curs :: rest).IsChain (LeadsTo C store path))
  (passes : ∀ aum ∈ (curs :: rest).dropLast, some (aum.hash C) ≠ stopAt) (s s' : ReplayState)
  (folded : foldAums C s rest = .ok s')
include records ends leads passes folded

theorem fastForwardLoop_follows (fuel : Nat) (g : G) :
    fastForwardLoop C store gather path stopAt (fuel + rest.length) g s curs =
      fastForwardLoop C store gather path stopAt fuel
        ((curs :: rest).dropLast.foldl record g) s' last := by
  induction rest generalizing curs s g with
  | nil =>
    cases folded
    cases ends
    rfl
  | cons next rest ih =>
    rw [foldAums_cons, bind_ok] at folded
    obtain ⟨mid, step, folded⟩ := folded
    rw [isChain_cons_cons] at leads
    have here := passes curs (by simp)
    rw [length_cons, ← Nat.add_assoc, fastForwardLoop, if_neg here, records]
    dsimp only
    rw [leads.1 s]
    dsimp only
    rw [step]
    dsimp only
    rw [ih next (by simpa using ends) leads.2
      (fun aum member => passes aum (by simp [member])) mid folded]
    simp

/-- A forward walk that starts from the state at an AUM comes to the last AUM that
this one leads to, with fuel left for it. -/
theorem fastForward_follows (cursor : s.lastAumHash = some (curs.hash C))
    (held : store.aum (curs.hash C) = some curs) (maxIter : Nat) (enough : rest.length < maxIter)
    (g : G) :
    ∃ fuel, fastForward C store gather path stopAt maxIter s g =
      fastForwardLoop C store gather path stopAt (fuel + 1)
        ((curs :: rest).dropLast.foldl record g) s' last := by
  refine ⟨maxIter - rest.length - 1, ?_⟩
  have follow := fastForwardLoop_follows C store gather record records path stopAt rest curs last
    ends leads passes s s' folded (maxIter - rest.length - 1 + 1) g
  have fuel : maxIter - rest.length - 1 + 1 + rest.length = maxIter := by omega
  rw [fuel] at follow
  rw [fastForward, cursor]
  dsimp only
  rw [held]
  exact follow

end

theorem linked_successor {chain : List Aum} (linked : ChainLinked C chain)
    (distinct : (chain.map (Aum.hash C)).Nodup) {i : Nat} {aum child : Aum}
    (here : chain[i]? = some aum) (member : child ∈ chain)
    (named : child.prevAumHash = some (aum.hash C)) : chain[i + 1]? = some child := by
  obtain ⟨_, there⟩ := mem_iff_getElem?.mp member
  obtain ⟨j, parent, rfl, before, same⟩ := linked.parent there named
  have hashes : (chain.map (Aum.hash C))[j]? = (chain.map (Aum.hash C))[i]? := by
    rw [getElem?_map, getElem?_map, before, here, map_some, map_some, same]
  have bound := (List.getElem?_eq_some_iff.mp before).1
  exact (getElem?_inj (by rwa [length_map]) distinct).mp hashes ▸ there

/-- A store that keeps its contract follows a recorded path through any forks. -/
theorem leadsTo_path (lawful : store.Lawful C) (chain before path : List Aum)
    (parts : chain = before ++ path) (held : ∀ aum ∈ chain, store.aum (aum.hash C) = some aum)
    (linked : ChainLinked C chain) (distinct : (chain.map (Aum.hash C)).Nodup) :
    path.IsChain (LeadsTo C store (some (path.map (Aum.hash C)))) := by
  rw [isChain_iff_getElem]
  intro i bound s
  have here : chain[before.length + i]? = some path[i] := by
    rw [parts, getElem?_append_right (by omega)]
    simp [getElem?_eq_getElem (show i < path.length by omega)]
  have next : chain[before.length + i + 1]? = some path[i + 1] := by
    rw [parts, getElem?_append_right (by omega)]
    simp [Nat.add_assoc, getElem?_eq_getElem bound]
  have child : path[i + 1] ∈ store.childAums (path[i].hash C) := by
    rw [lawful.child_iff]
    exact ⟨held _ (mem_of_getElem? next), linked.2 _ _ _ here next⟩
  have onPath : path[i + 1].hash C ∈ path.map (Aum.hash C) :=
    mem_map_of_mem (getElem_mem bound)
  obtain ⟨found, search⟩ := isSome_iff_exists.mp
    (find?_isSome (p := fun c => decide (c.hash C ∈ path.map (Aum.hash C))).mpr
      ⟨path[i + 1], child, decide_eq_true onPath⟩)
  -- Whatever child is found on the path is itself an AUM of the chain, so it is the next one.
  have recorded := find?_some search
  obtain ⟨kept, named⟩ := (lawful.child_iff _ _).mp (mem_of_find?_eq_some search)
  obtain ⟨own, member, same⟩ := mem_map.mp (of_decide_eq_true recorded)
  have inChain : own ∈ chain := parts ▸ mem_append_right before member
  have equal : own = found := by
    have copy := held own inChain
    rw [same, kept, some.injEq] at copy
    exact copy.symm
  subst equal
  have position := linked_successor C linked distinct here inChain named
  rw [next, some.injEq] at position
  rw [nextAum, search, position]

theorem hash_ne_last (segment : List Aum) (last : Aum) (ends : segment.getLast? = some last)
    (distinct : (segment.map (Aum.hash C)).Nodup) :
    ∀ aum ∈ segment.dropLast, some (aum.hash C) ≠ some (last.hash C) := by
  intro aum member same
  rw [some.injEq] at same
  rw [← dropLast_append_getLast? last ends, map_append, nodup_append] at distinct
  exact distinct.2.2 _ (mem_map_of_mem member) _ (by simp) same

/-- The checkpoint shortcut agrees with the full replay, whatever else the store
holds. -/
theorem computeStateAt_of_lawful (lawful : store.Lawful C) (chain : List Aum) (last : Aum)
    (s : ReplayState) (ends : chain.getLast? = some last)
    (held : ∀ aum ∈ chain, store.aum (aum.hash C) = some aum)
    (distinct : (chain.map (Aum.hash C)).Nodup) (folded : foldAums C default chain = .ok s)
    (maxIter : Nat) (short : chain.length ≤ maxIter) :
    computeStateAt C store maxIter (last.hash C) = .ok (some s) := by
  obtain ⟨before, pivot, after, start, parts, reached, walked⟩ :=
    walkBack_chain C store chain s last ends held folded maxIter short []
  rw [append_nil] at walked
  have linked := foldAums_linked C folded
  have leads := leadsTo_path C store lawful chain before (pivot :: after) parts held linked distinct
  have cursor := foldAums_lastAumHash C _ start _ pivot (by simp) reached
  have rest : foldAums C start after = .ok s := by
    rw [parts, append_cons, foldAums_append, reached] at folded
    exact folded
  have endsHere : (pivot :: after).getLast? = some last := by
    rw [parts] at ends
    simpa using ends
  have passes := hash_ne_last C (pivot :: after) last endsHere (by
    rw [parts, map_append] at distinct
    exact (nodup_append.mp distinct).2.1)
  have short : after.length < maxIter := by
    rw [parts, length_append, length_cons] at short
    omega
  obtain ⟨fuel, follow⟩ := fastForward_follows C store gatherNothing (fun _ _ => ())
    (fun _ _ _ => rfl) _ (some (last.hash C)) after pivot last endsHere leads passes start s rest
    cursor (held pivot (by rw [parts]; simp)) maxIter short ()
  have stopped : fastForward C store gatherNothing (some ((pivot :: after).map (Aum.hash C)))
      (some (last.hash C)) maxIter start () = .ok (last, s, ()) := by
    rw [follow, fastForwardLoop, if_pos rfl]
  unfold computeStateAt
  rw [held last (mem_of_getLast? ends)]
  dsimp only
  rw [walked, bind_ok]
  exact ⟨_, rfl, by rw [bind_ok]; exact ⟨_, stopped, rfl⟩⟩

/-- Distinct serializations have distinct digests. -/
def CollisionFree (aums : List Aum) : Prop :=
  ∀ a ∈ aums, ∀ b ∈ aums, C.blake2s256 a.serialize = C.blake2s256 b.serialize →
    a.serialize = b.serialize

theorem fromAums_lawful {inserted : List Aum} (collisionFree : CollisionFree C inserted) :
    (fromAums C inserted).toStore.Lawful C := by
  refine (fromAums_indexed C inserted).lawful C inserted _ ?_
  intro a memberA b memberB same
  exact Aum.prevAumHash_of_serialize a b
    (collisionFree a memberA b memberB (congrArg AumHash.digest same))

/-- For every store and every chain it holds that folds from the empty state, the
state computed at the end of the chain is that fold, whatever else was inserted. -/
theorem computeStateAt_eq_fold (inserted : List Aum) (collisionFree : CollisionFree C inserted)
    (chain : List Aum) (last : Aum) (s : ReplayState) (ends : chain.getLast? = some last)
    (held : ∀ aum ∈ chain, (fromAums C inserted).toStore.aum (aum.hash C) = some aum)
    (short : chain.length ≤ maxSyncIter) (distinct : (chain.map (Aum.hash C)).Nodup)
    (folded : foldAums C default chain = .ok s) :
    computeStateAt C (fromAums C inserted).toStore maxSyncIter (last.hash C) = .ok (some s) :=
  computeStateAt_of_lawful C _ (fromAums_lawful C collisionFree) chain last s ends held
    distinct folded maxSyncIter short

end

theorem computeStateAt_eq_fold_toyChain :
    ∃ s, foldAums toy default toyChain = .ok s ∧
      computeStateAt toy (fromAums toy (toyChain ++ toyFork)).toStore
        maxSyncIter ((toyChild toyGenesis .removeKey (replicate 32 2) 2).hash toy) =
        .ok (some s) := by
  obtain ⟨chain, accepted⟩ := toyChain_verified
  obtain ⟨-, -, -, looped⟩ := VerifiedAumChain.verify_ok toy toyChain chain accepted
  have folded := verifyLoop_folds toy true _ _ toyChain looped
  have collisionFree : CollisionFree toy (toyChain ++ toyFork) := by
    unfold CollisionFree
    decide +kernel
  exact ⟨_, folded, computeStateAt_eq_fold toy (toyChain ++ toyFork) collisionFree toyChain _
    _ rfl (by decide +kernel) (by decide) (by decide +kernel) folded⟩

end TailscaleRs.Tka
