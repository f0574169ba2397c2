import TailscaleRs.Tka.Walk

namespace TailscaleRs.Tka

open List Option ReplayState

def maxSyncHeadIntersectionIter : Nat := 1000

/-- A node's view of its chain: the head, and its checkpoints newest first, ending
with the oldest AUM it holds. -/
structure SyncOffer where
  head : AumHash
  ancestors : List AumHash
  deriving DecidableEq

structure Intersection where
  upToDate : Bool
  headIntersection : Option AumHash
  tailIntersection : Option AumHash
  deriving DecidableEq

section

variable (C : Crypto) (store : AumStore)

def offerWalk (oldest : AumHash) : Nat → AumHash → List AumHash
  | 0, _ => []
  | fuel + 1, curs =>
    match store.aum curs with
    | none => []
    | some parent =>
      if parent.hash C = oldest then []
      else (if parent.messageKind = .checkpoint then [curs] else []) ++
        match parent.prevAumHash with
        | some prev => offerWalk oldest fuel prev
        | none => []

def Authority.syncOffer (auth : Authority) (oldest : AumHash) : Except TkaError SyncOffer :=
  .ok ⟨auth.head, offerWalk C store oldest maxSyncHeadIntersectionIter auth.head ++ [oldest]⟩

def headWalk (target : AumHash) : Nat → AumHash → Option AumHash
  | 0, _ => none
  | fuel + 1, curs =>
    match store.aum curs with
    | none => none
    | some parent =>
      if parent.hash C = target then some (parent.hash C)
      else match parent.prevAumHash with
        | some prev => headWalk target fuel prev
        | none => none

/-- The first offered ancestor from which our chain leads to our head. -/
def tailSearch (localHead : AumHash) : List AumHash → Except TkaError Intersection
  | [] => .error .badChain
  | ancestor :: rest => do
      match ← computeStateAt C store maxSyncIter ancestor with
      | none => tailSearch localHead rest
      | some s =>
        let (reached, _, _) ←
          fastForward C store gatherNothing none (some localHead) maxSyncIter s ()
        if reached.hash C = localHead then .ok ⟨false, none, some ancestor⟩
        else tailSearch localHead rest

def computeSyncIntersection (localOffer remoteOffer : SyncOffer) : Except TkaError Intersection :=
  if remoteOffer.head = localOffer.head then .ok ⟨true, some localOffer.head, none⟩
  else
    let found :=
      if (store.aum remoteOffer.head).isSome then
        headWalk C store remoteOffer.head maxSyncHeadIntersectionIter localOffer.head
      else none
    match found with
    | some hash => .ok ⟨false, some hash, none⟩
    | none => tailSearch C store localOffer.head remoteOffer.ancestors

variable (base : AumHash) (out : List Aum)

def keepMissing (curs : Aum) : List Aum :=
  if curs.hash C ≠ base then out ++ [curs] else out

/-- The closure of `missing_aums`: everything visited except the intersection. -/
def gatherMissing (curs : Aum) (s : ReplayState) :
    Except TkaError (Bool × ReplayState × List Aum) :=
  .ok (false, s, keepMissing C base out curs)

/-- The AUMs from an intersection, exclusive, to our head. -/
def gatherFrom : Except TkaError (List Aum) := do
  match ← computeStateAt C store maxSyncIter base with
  | none => .error .badParent
  | some s =>
    let (_, _, out) ← fastForward C store (gatherMissing C base) none none maxSyncIter s []
    return out

def Authority.missingAums (auth : Authority) (remoteOffer : SyncOffer) (oldest : AumHash) :
    Except TkaError (List Aum) := do
  let localOffer ← auth.syncOffer C store oldest
  let isect ← computeSyncIntersection C store localOffer remoteOffer
  if isect.upToDate then return []
  else match isect.headIntersection.or isect.tailIntersection with
    | none => .error .badChain
    | some base => gatherFrom C store base

end

variable (C : Crypto)

/-- In linked chains with distinct hashes an AUM determines its position and all
that precedes it. -/
theorem linked_position (left right : List Aum) (linkedLeft : ChainLinked C left)
    (linkedRight : ChainLinked C right) (distinct : HashesDistinct C {a | a ∈ left ∨ a ∈ right})
    (i j : Nat) (aum : Aum) (inLeft : left[i]? = some aum) (inRight : right[j]? = some aum) :
    i = j ∧ left.take i = right.take j := by
  induction i generalizing j aum with
  | zero =>
    cases j with
    | zero => exact ⟨rfl, rfl⟩
    | succ j =>
      obtain ⟨bound, -⟩ := List.getElem?_eq_some_iff.mp inRight
      have named := linkedRight.2 j _ aum (List.getElem?_eq_getElem (by omega)) inRight
      rw [linkedLeft.1 aum inLeft] at named
      cases named
  | succ i ih =>
    obtain ⟨bound, -⟩ := List.getElem?_eq_some_iff.mp inLeft
    have before : left[i]? = some left[i] := List.getElem?_eq_getElem (by omega)
    obtain ⟨j, parent, rfl, before', named⟩ :=
      linkedRight.parent inRight (linkedLeft.2 i _ aum before inLeft)
    have same : parent = left[i] := distinct _ (.inr (mem_of_getElem? before')) _
      (.inl (getElem_mem _)) named
    obtain ⟨rfl, prefixes⟩ := ih j left[i] before (same ▸ before')
    refine ⟨rfl, ?_⟩
    rw [take_add_one, take_add_one, prefixes, before, before', same]

theorem linked_nodup {chain : List Aum} (linked : ChainLinked C chain)
    (distinct : HashesDistinct C {a | a ∈ chain}) : (chain.map (Aum.hash C)).Nodup := by
  rw [nodup_iff_getElem?_ne_getElem?]
  intro i j before bound same
  rw [length_map] at bound
  have heldI : chain[i]? = some chain[i] := getElem?_eq_getElem (by omega)
  have heldJ : chain[j]? = some chain[j] := getElem?_eq_getElem bound
  rw [getElem?_map, getElem?_map, heldI, heldJ, map_some, map_some, some.injEq] at same
  have equal := distinct _ (getElem_mem (by omega : i < chain.length)) _
    (getElem_mem bound) same
  have position := (linked_position C chain chain linked linked (by simpa using distinct) i j
    chain[j] (equal ▸ heldI) heldJ).1
  omega

/-- A store that holds exactly one chain, which folds from the empty state. -/
structure ChainHeld (store : AumStore) (chain : List Aum) (s : ReplayState) : Prop where
  represents : store.Represents C {a | a ∈ chain}
  folded : foldAums C default chain = .ok s
  distinct : HashesDistinct C {a | a ∈ chain}

namespace ChainHeld

variable {C} {store : AumStore} {chain : List Aum} {s : ReplayState}
  (holds : ChainHeld C store chain s)

include holds

theorem linked : ChainLinked C chain := foldAums_linked C holds.folded

theorem nodup : (chain.map (Aum.hash C)).Nodup :=
  linked_nodup C holds.linked holds.distinct

theorem held (aum : Aum) (member : aum ∈ chain) : store.aum (aum.hash C) = some aum :=
  (holds.represents.aum_iff _ _).mpr ⟨member, rfl⟩

/-- The primary advancer follows the chain: each AUM has no other child. -/
theorem leads : chain.IsChain (LeadsTo C store none) := by
  rw [isChain_iff_getElem]
  intro i bound state
  have here : chain[i]? = some chain[i] := getElem?_eq_getElem (by omega)
  have next : chain[i + 1]? = some chain[i + 1] := getElem?_eq_getElem bound
  have child : chain[i + 1] ∈ store.childAums (chain[i].hash C) := by
    rw [holds.represents.mem_childAums]
    exact ⟨getElem_mem bound, holds.linked.2 i _ _ here next⟩
  obtain ⟨chosen, picked⟩ :=
    Selection.pick_isSome (Preferred C state) _ (ne_nil_of_mem child)
  obtain ⟨member, named⟩ := (holds.represents.mem_childAums C).mp
    (Selection.pick_mem (Preferred C state) _ picked)
  have position := linked_successor C holds.linked holds.nodup here member named
  rw [next, some.injEq] at position
  rw [nextAum, pickNextAum, picked, position]

theorem last_childless (last : Aum) (ends : chain.getLast? = some last) :
    store.childAums (last.hash C) = [] := by
  rw [eq_nil_iff_forall_not_mem]
  intro child listed
  obtain ⟨member, named⟩ := (holds.represents.mem_childAums C).mp listed
  rw [getLast?_eq_getElem?] at ends
  have beyond := linked_successor C holds.linked holds.nodup ends member named
  obtain ⟨bound, -⟩ := List.getElem?_eq_some_iff.mp beyond
  omega

theorem linearWalk_eq (first : Aum) (starts : chain.head? = some first) (fuel : Nat)
    (enough : chain.length ≤ fuel) (state : ReplayState) :
    MemAumStore.linearWalk C store fuel state first = .ok chain := by
  obtain ⟨rest, rfl⟩ := head?_eq_some_iff.mp starts
  obtain ⟨last, ends⟩ : ∃ last, (first :: rest).getLast? = some last :=
    ⟨_, getLast?_cons⟩
  exact linearWalk_follows C store rest first last ends holds.leads
    (holds.last_childless last ends) fuel enough state

theorem computeStateAt_eq (before after : List Aum) (pivot : Aum)
    (parts : chain = before ++ pivot :: after) (short : chain.length ≤ maxSyncIter) :
    ∃ start, foldAums C default (before ++ [pivot]) = .ok start ∧
      foldAums C start after = .ok s ∧
      computeStateAt C store maxSyncIter (pivot.hash C) = .ok (some start) := by
  have folded := holds.folded
  have nodup := holds.nodup
  rw [parts, append_cons] at folded nodup
  obtain ⟨start, reached, rest⟩ := foldAums_prefix C folded
  rw [map_append] at nodup
  refine ⟨start, reached, rest, ?_⟩
  refine computeStateAt_of_lawful C store holds.represents.lawful (before ++ [pivot]) pivot start
    (by simp) ?_ (nodup_append.mp nodup).1 reached maxSyncIter ?_
  · intro aum member
    refine holds.held aum ?_
    rw [parts, append_cons]
    exact mem_append_left after member
  · rw [parts, length_append, length_cons] at short
    rw [length_append, length_singleton]
    omega

section

variable (before after : List Aum) (pivot last : Aum) (start : ReplayState)
  (parts : chain = before ++ pivot :: after) (short : chain.length ≤ maxSyncIter)
  (ends : chain.getLast? = some last) (reached : foldAums C default (before ++ [pivot]) = .ok start)
  (rest : foldAums C start after = .ok s)
include parts short ends reached rest

theorem fastForward_eq {G : Type}
    (gather : G → Aum → ReplayState → Except TkaError (Bool × ReplayState × G))
    (record : G → Aum → G) (records : ∀ g aum s, gather g aum s = .ok (false, s, record g aum))
    (stopAt : Option AumHash)
    (passes : ∀ aum ∈ (pivot :: after).dropLast, some (aum.hash C) ≠ stopAt) (g : G) :
    ∃ fuel, fastForward C store gather none stopAt maxSyncIter start g =
      fastForwardLoop C store gather none stopAt (fuel + 1)
        ((pivot :: after).dropLast.foldl record g) s last := by
  have leads := holds.leads
  rw [parts] at ends leads short
  rw [length_append, length_cons] at short
  refine fastForward_follows C store gather record records none stopAt after pivot last
    (by simpa using ends) leads.right_of_append passes start s rest ?_ ?_ maxSyncIter (by omega) g
  · exact foldAums_lastAumHash C _ start _ pivot (by simp) reached
  · exact holds.held pivot (by rw [parts]; simp)

theorem fastForward_toHead :
    fastForward C store gatherNothing none (some (last.hash C)) maxSyncIter start () =
      .ok (last, s, ()) := by
  have nodup := holds.nodup
  have passes := hash_ne_last C (pivot :: after) last (by rw [parts] at ends; simpa using ends) (by
    rw [parts, map_append] at nodup
    exact (nodup_append.mp nodup).2.1)
  obtain ⟨fuel, follow⟩ := holds.fastForward_eq before after pivot last start parts short ends
    reached rest gatherNothing (fun _ _ => ()) (fun _ _ _ => rfl) (some (last.hash C)) passes ()
  rw [follow, fastForwardLoop, if_pos rfl]

end

omit holds in
theorem foldl_keepMissing (base : AumHash) (aums out : List Aum)
    (apart : ∀ aum ∈ aums, aum.hash C ≠ base) :
    aums.foldl (keepMissing C base) out = out ++ aums := by
  induction aums generalizing out with
  | nil => rw [append_nil]; rfl
  | cons aum rest ih =>
    rw [foldl_cons, keepMissing, if_pos (apart aum mem_cons_self),
      ih _ (fun other member => apart other (mem_cons_of_mem aum member)),
      append_assoc, singleton_append]

theorem gatherFrom_eq (before after : List Aum) (pivot : Aum)
    (parts : chain = before ++ pivot :: after) (short : chain.length ≤ maxSyncIter) :
    gatherFrom C store (pivot.hash C) = .ok after := by
  obtain ⟨start, reached, rest, computed⟩ := holds.computeStateAt_eq before after pivot parts short
  obtain ⟨last, ends⟩ : ∃ last, chain.getLast? = some last := by
    rw [parts, getLast?_append_of_ne_nil _ (cons_ne_nil pivot after)]
    exact isSome_iff_exists.mp (by simp)
  obtain ⟨fuel, follow⟩ := holds.fastForward_eq before after pivot last start parts short ends
    reached rest (gatherMissing C (pivot.hash C)) (keepMissing C (pivot.hash C))
    (fun _ _ _ => rfl) none (by simp) []
  have apart : ∀ aum ∈ after, aum.hash C ≠ pivot.hash C := by
    have nodup := holds.nodup
    rw [parts, map_append, map_cons] at nodup
    have fresh := (nodup_cons.mp (nodup_append.mp nodup).2.1).1
    intro aum member same
    exact fresh (same ▸ mem_map_of_mem member)
  have childless : nextAum C none s (store.childAums (last.hash C)) = none := by
    rw [holds.last_childless last ends]
    rfl
  have visited : (pivot :: after).dropLast ++ [last] = pivot :: after :=
    dropLast_append_getLast? last (by rw [parts] at ends; simpa using ends)
  have collected : keepMissing C (pivot.hash C)
      ((pivot :: after).dropLast.foldl (keepMissing C (pivot.hash C)) []) last = after := by
    calc
      _ = ((pivot :: after).dropLast ++ [last]).foldl (keepMissing C (pivot.hash C)) [] := by
        rw [foldl_append]
        rfl
      _ = after.foldl (keepMissing C (pivot.hash C)) [] := by
        rw [visited, foldl_cons, keepMissing, if_neg (by simp)]
      _ = after := foldl_keepMissing (pivot.hash C) after [] apart
  rw [fastForwardLoop, if_neg (by simp)] at follow
  simp only [gatherMissing, childless, collected] at follow
  unfold gatherFrom
  rw [computed, bind_ok]
  refine ⟨_, rfl, ?_⟩
  rw [bind_ok]
  exact ⟨_, follow, rfl⟩

theorem headWalk_finds (fuel j k : Nat) (target curs : Aum) (there : chain[j]? = some target)
    (here : chain[k]? = some curs) (before : j ≤ k) (enough : k - j < fuel) :
    headWalk C store (target.hash C) fuel (curs.hash C) = some (target.hash C) := by
  induction fuel generalizing k curs with
  | zero => omega
  | succ fuel ih =>
    rw [headWalk, holds.held curs (mem_of_getElem? here)]
    dsimp only
    split
    · rename_i same
      rw [same]
    · rename_i apart
      have later : j ≠ k := by
        rintro rfl
        rw [there, some.injEq] at here
        exact apart (here ▸ rfl)
      obtain ⟨k, rfl⟩ : ∃ less, k = less + 1 := ⟨k - 1, by omega⟩
      obtain ⟨bound, -⟩ := List.getElem?_eq_some_iff.mp here
      have parent : chain[k]? = some chain[k] := List.getElem?_eq_getElem (by omega)
      rw [holds.linked.2 k _ curs parent here]
      exact ih k chain[k] parent (by omega) (by omega)

theorem mem_offerWalk (oldest hash : AumHash) (fuel : Nat) (curs : AumHash)
    (offered : hash ∈ offerWalk C store oldest fuel curs) :
    ∃ aum ∈ chain, aum.hash C = hash := by
  induction fuel generalizing curs with
  | zero => cases offered
  | succ fuel ih =>
    unfold offerWalk at offered
    split at offered
    · cases offered
    · rename_i parent found
      split at offered
      · cases offered
      · rcases mem_append.mp offered with own | earlier
        · split at own
          · rw [mem_singleton] at own
            obtain ⟨member, keyed⟩ := (holds.represents.aum_iff curs parent).mp found
            exact ⟨parent, member, keyed.trans own.symm⟩
          · cases own
        · split at earlier
          · exact ih _ earlier
          · cases earlier

theorem tailSearch_finds (last : Aum) (ends : chain.getLast? = some last)
    (short : chain.length ≤ maxSyncIter) (ancestors : List AumHash)
    (shared : ∃ aum ∈ chain, aum.hash C ∈ ancestors) :
    ∃ pivot ∈ chain, pivot.hash C ∈ ancestors ∧
      tailSearch C store (last.hash C) ancestors = .ok ⟨false, none, some (pivot.hash C)⟩ := by
  induction ancestors with
  | nil =>
    obtain ⟨_, -, offered⟩ := shared
    cases offered
  | cons ancestor rest ih =>
    cases found : store.aum ancestor with
    | none =>
      have absent : computeStateAt C store maxSyncIter ancestor = .ok none := by
        rw [computeStateAt, found]
      obtain ⟨aum, member, offered⟩ := shared
      have later : aum.hash C ∈ rest := by
        rcases mem_cons.mp offered with same | later
        · rw [← same, holds.held aum member] at found
          cases found
        · exact later
      obtain ⟨pivot, onChain, listed, searched⟩ := ih ⟨aum, member, later⟩
      refine ⟨pivot, onChain, mem_cons_of_mem _ listed, ?_⟩
      rw [tailSearch, absent]
      exact searched
    | some pivot =>
      obtain ⟨member, rfl⟩ := (holds.represents.aum_iff ancestor pivot).mp found
      obtain ⟨before, after, parts⟩ := append_of_mem member
      obtain ⟨start, reached, rest, computed⟩ :=
        holds.computeStateAt_eq before after pivot parts short
      refine ⟨pivot, member, mem_cons_self, ?_⟩
      rw [tailSearch, computed, bind_ok]
      refine ⟨_, rfl, ?_⟩
      rw [bind_ok]
      refine ⟨_, holds.fastForward_toHead before after pivot last start parts short ends reached
        rest, ?_⟩
      dsimp only
      rw [if_pos rfl]

/-- The intersection against a differing head: an AUM of the chain that the remote
offered, and the remote's head itself if that is on the chain. -/
theorem computeSyncIntersection_eq (last oldest : Aum) (localOffer offer : SyncOffer)
    (ends : chain.getLast? = some last) (head : localOffer.head = last.hash C)
    (short : chain.length ≤ maxSyncHeadIntersectionIter) (oldestHeld : oldest ∈ chain)
    (oldestOffered : oldest.hash C ∈ offer.ancestors) (differs : offer.head ≠ localOffer.head) :
    ∃ pivot ∈ chain, (pivot.hash C = offer.head ∨ pivot.hash C ∈ offer.ancestors) ∧
      (∀ remote ∈ chain, remote.hash C = offer.head → pivot = remote) ∧
      ∃ isect, computeSyncIntersection C store localOffer offer = .ok isect ∧
        isect.upToDate = false ∧
        isect.headIntersection.or isect.tailIntersection = some (pivot.hash C) := by
  unfold computeSyncIntersection
  rw [if_neg differs, head]
  cases found : store.aum offer.head with
  | some remote =>
    obtain ⟨member, named⟩ := (holds.represents.aum_iff offer.head remote).mp found
    obtain ⟨j, there⟩ := List.mem_iff_getElem?.mp member
    obtain ⟨bound, -⟩ := List.getElem?_eq_some_iff.mp there
    rw [List.getLast?_eq_getElem?] at ends
    have walked := holds.headWalk_finds maxSyncHeadIntersectionIter j (chain.length - 1) remote
      last there ends (by omega) (by omega)
    rw [named] at walked
    refine ⟨remote, member, .inl named, ?_, ⟨false, some offer.head, none⟩, ?_, rfl, ?_⟩
    · intro other onChain same
      exact holds.distinct remote member other onChain (named.trans same.symm)
    · simp only [isSome_some, ↓reduceIte, walked]
    · rw [named]
      rfl
  | none =>
    have within : chain.length ≤ maxSyncIter :=
      Nat.le_trans short (by decide)
    obtain ⟨pivot, member, offered, searched⟩ := holds.tailSearch_finds last ends within
      offer.ancestors ⟨oldest, oldestHeld, oldestOffered⟩
    refine ⟨pivot, member, .inr offered, ?_, ⟨false, none, some (pivot.hash C)⟩, ?_, rfl, rfl⟩
    · intro remote onChain same
      rw [← same, holds.held remote onChain] at found
      cases found
    · simpa using searched

/-- What is sent against an offer that shares an AUM with the chain: the chain
after some AUM the remote knows, and after the remote's head if it is on the chain. -/
theorem missingAums_eq (auth : Authority) (last oldest : Aum) (offer : SyncOffer)
    (ends : chain.getLast? = some last) (head : auth.head = last.hash C)
    (short : chain.length ≤ maxSyncHeadIntersectionIter) (oldestHeld : oldest ∈ chain)
    (oldestOffered : oldest.hash C ∈ offer.ancestors) :
    ∃ before pivot after, chain = before ++ pivot :: after ∧
      (pivot.hash C = offer.head ∨ pivot.hash C ∈ offer.ancestors) ∧
      (∀ remote ∈ chain, remote.hash C = offer.head → pivot = remote) ∧
      auth.missingAums C store offer (oldest.hash C) = .ok after := by
  unfold Authority.missingAums Authority.syncOffer
  generalize offerWalk C store (oldest.hash C) maxSyncHeadIntersectionIter auth.head ++
    [oldest.hash C] = ancestors
  by_cases same : offer.head = auth.head
  · -- Equal heads: nothing follows the last AUM.
    have atHead : last.hash C = offer.head := by rw [same, head]
    refine ⟨chain.dropLast, last, [], ?_, .inl atHead, ?_, ?_⟩
    · exact (dropLast_append_getLast? last ends).symm
    · intro remote onChain named
      exact holds.distinct last (mem_of_getLast? ends) remote onChain (atHead.trans named.symm)
    · rw [bind_ok]
      refine ⟨_, rfl, ?_⟩
      rw [bind_ok]
      exact ⟨⟨true, some auth.head, none⟩, by rw [computeSyncIntersection, if_pos same], rfl⟩
  · obtain ⟨pivot, member, offered, remoteHead, isect, met, stale, base⟩ :=
      holds.computeSyncIntersection_eq last oldest ⟨auth.head, ancestors⟩ offer ends head short
        oldestHeld oldestOffered same
    obtain ⟨before, after, parts⟩ := append_of_mem member
    refine ⟨before, pivot, after, parts, offered, remoteHead, ?_⟩
    rw [bind_ok]
    refine ⟨_, rfl, ?_⟩
    rw [bind_ok]
    refine ⟨isect, met, ?_⟩
    rw [stale, base]
    exact holds.gatherFrom_eq before after pivot parts (Nat.le_trans short (by decide))

end ChainHeld

end TailscaleRs.Tka
