import TailscaleRs.Tka.Sync

namespace TailscaleRs.Tka

open List ReplayState MemAumStore Crypto Authority

/-- A node of an exchange: a chain from the common genesis short enough to offer,
the authority it replays to, and the AUMs of the chain in the order they were
inserted into the node's store. -/
structure SyncNode (C : Crypto) (genesis : Aum) where
  chain : List Aum
  starts : chain.head? = some genesis
  short : chain.length ≤ maxSyncHeadIntersectionIter
  authority : Authority
  replayed : fromChain C chain = .ok authority
  inserted : List Aum
  complete : ∀ aum, aum ∈ inserted ↔ aum ∈ chain

namespace SyncNode

variable {C : Crypto} {genesis : Aum} (node : SyncNode C genesis)

def store : MemAumStore := fromAums C node.inserted

def offer : Except TkaError SyncOffer :=
  node.authority.syncOffer C node.store.toStore (genesis.hash C)

def missing (remote : SyncOffer) : Except TkaError (List Aum) :=
  node.authority.missingAums C node.store.toStore remote (genesis.hash C)

def receive (aums : List Aum) : MemAumStore :=
  aums.foldl (insert C) node.store

end SyncNode

variable (C : Crypto)

theorem Authority.fromChain_ok (aums : List Aum) (auth : Authority)
    (replayed : fromChain C aums = .ok auth) :
    ∃ last s, aums.getLast? = some last ∧ auth.head = last.hash C ∧
      foldAums C default aums = .ok s := by
  unfold fromChain at replayed
  split at replayed
  · cases replayed
  · rename_i last ends
    rw [bind_ok] at replayed
    obtain ⟨s, folded, same⟩ := replayed
    cases same
    exact ⟨last, s, ends, rfl, folded⟩

namespace SyncNode

variable {C : Crypto} {genesis : Aum} (A B : SyncNode C genesis)

theorem genesis_mem : genesis ∈ A.chain := mem_of_mem_head? A.starts

theorem receive_indexed (aums : List Aum) :
    MemAumStore.Indexed C (A.inserted ++ aums) (A.receive aums) :=
  foldl_insert_indexed C A.inserted aums _ (fromAums_indexed C A.inserted)

theorem receive_represents (aums : List Aum) (all : Set Aum) (distinct : HashesDistinct C all)
    (exact : ∀ aum, aum ∈ all ↔ aum ∈ A.chain ∨ aum ∈ aums) :
    (A.receive aums).toStore.Represents C all := by
  have same : {aum | aum ∈ A.inserted ++ aums} = all := by
    ext aum
    rw [Set.mem_ofPred_eq, mem_append, A.complete, exact]
  rw [← same] at distinct ⊢
  exact (A.receive_indexed aums).represents C _ _ distinct

theorem chainHeld (distinct : HashesDistinct C {aum | aum ∈ A.chain}) :
    ∃ last s, A.chain.getLast? = some last ∧ A.authority.head = last.hash C ∧
      ChainHeld C A.store.toStore A.chain s := by
  obtain ⟨last, s, ends, head, folded⟩ := fromChain_ok C _ _ A.replayed
  exact ⟨last, s, ends, head, A.receive_represents [] _ distinct (by simp), folded, distinct⟩

/-- One direction of the exchange: nothing the peer lacks is left out, nothing
foreign is sent, and a peer that is behind gets exactly what follows its chain. -/
theorem missing_eq (distinct : HashesDistinct C {aum | aum ∈ A.chain ∨ aum ∈ B.chain}) :
    ∃ offer sent, B.offer = .ok offer ∧ A.missing offer = .ok sent ∧
      (∀ aum ∈ sent, aum ∈ A.chain) ∧
      (∀ aum ∈ A.chain, aum ∈ B.chain ∨ aum ∈ sent) ∧
      ∀ suffix, A.chain = B.chain ++ suffix → sent = suffix := by
  obtain ⟨lastA, sA, endsA, headA, holdsA⟩ :=
    A.chainHeld (fun a memberA b memberB => distinct a (.inl memberA) b (.inl memberB))
  obtain ⟨lastB, sB, endsB, headB, holdsB⟩ :=
    B.chainHeld (fun a memberA b memberB => distinct a (.inr memberA) b (.inr memberB))
  obtain ⟨before, pivot, after, parts, known, remoteHead, sent⟩ :=
    holdsA.missingAums_eq A.authority lastA genesis
      ⟨B.authority.head, offerWalk C B.store.toStore (genesis.hash C) maxSyncHeadIntersectionIter
        B.authority.head ++ [genesis.hash C]⟩ endsA headA A.short A.genesis_mem (by simp)
  have pivotA : pivot ∈ A.chain := by rw [parts]; simp
  -- The pivot is an AUM of the peer's chain, so the peer has everything before it too.
  have pivotB : pivot ∈ B.chain := by
    have named : ∃ aum ∈ B.chain, aum.hash C = pivot.hash C := by
      rcases known with atHead | offered
      · exact ⟨lastB, mem_of_getLast? endsB, by rw [atHead, headB]⟩
      · rcases mem_append.mp offered with walked | oldest
        · exact holdsB.mem_offerWalk _ _ _ _ walked
        · rw [mem_singleton] at oldest
          exact ⟨genesis, B.genesis_mem, oldest.symm⟩
    obtain ⟨aum, member, same⟩ := named
    rwa [← distinct aum (.inr member) pivot (.inl pivotA) same]
  have position : A.chain[before.length]? = some pivot := by rw [parts]; simp
  obtain ⟨j, there⟩ := mem_iff_getElem?.mp pivotB
  obtain ⟨aligned, prefixes⟩ := linked_position C A.chain B.chain holdsA.linked holdsB.linked
    distinct before.length j pivot position there
  have front : A.chain.take before.length = before := by rw [parts]; simp
  refine ⟨_, after, rfl, sent, ?_, ?_, ?_⟩
  · intro aum member
    rw [parts]
    simp [member]
  · intro aum member
    rw [parts] at member
    rcases mem_append.mp member with early | late
    · rw [← front, prefixes] at early
      exact .inl (mem_of_mem_take early)
    · rcases mem_cons.mp late with rfl | late
      · exact .inl pivotB
      · exact .inr late
  · intro suffix behind
    have lastHeld : lastB ∈ A.chain := by
      rw [behind]
      exact mem_append_left suffix (mem_of_getLast? endsB)
    have atHead := remoteHead lastB lastHeld headB.symm
    have lastPosition := getLast?_eq_getElem? ▸ endsB
    have aligned := (linked_position C A.chain B.chain holdsA.linked holdsB.linked distinct
      before.length (B.chain.length - 1) pivot position (atHead ▸ lastPosition)).1
    have nonempty := length_pos_of_mem pivotB
    have rest : A.chain.drop (before.length + 1) = after := by
      rw [parts, append_cons, drop_left' (by simp)]
    rw [← rest, behind, drop_left' (by omega)]

end SyncNode

theorem linked_child (own other : List Aum) (linkedOwn : ChainLinked C own)
    (linkedOther : ChainLinked C other)
    (distinct : HashesDistinct C {aum | aum ∈ own ∨ aum ∈ other}) (i : Nat) (curs child : Aum)
    (here : other[i]? = some curs) (member : child ∈ own)
    (named : child.prevAumHash = some (curs.hash C)) : own[i + 1]? = some child := by
  obtain ⟨_, there⟩ := mem_iff_getElem?.mp member
  obtain ⟨j, parent, rfl, before, same⟩ := linkedOwn.parent there named
  obtain rfl : parent = curs := distinct _ (.inl (mem_of_getElem? before)) _
    (.inr (mem_of_getElem? here)) same
  have position := (linked_position C own other linkedOwn linkedOther distinct j i parent before
    here).1
  exact position ▸ there

/-- The walk over two chains ends: every step moves one position further along one
of them. -/
theorem linearWalk_ends (left right : List Aum) (store : AumStore) (linkedLeft : ChainLinked C left)
    (linkedRight : ChainLinked C right)
    (distinct : HashesDistinct C {aum | aum ∈ left ∨ aum ∈ right})
    (represents : store.Represents C {aum | aum ∈ left ∨ aum ∈ right}) (fuel i : Nat)
    (s : ReplayState) (curs : Aum) (here : left[i]? = some curs ∨ right[i]? = some curs)
    (enoughLeft : left.length ≤ i + fuel) (enoughRight : right.length ≤ i + fuel) :
    ∃ chain, linearWalk C store fuel s curs = .ok chain := by
  induction fuel generalizing i s curs with
  | zero =>
    rcases here with here | here <;>
      · obtain ⟨bound, -⟩ := List.getElem?_eq_some_iff.mp here
        omega
  | succ fuel ih =>
    unfold linearWalk
    dsimp only
    split
    · exact ⟨[curs], rfl⟩
    · rename_i next picked
      obtain ⟨member, named⟩ := (represents.mem_childAums C).mp
        (Selection.pick_mem _ _ picked)
      have further : left[i + 1]? = some next ∨ right[i + 1]? = some next := by
        rcases member with member | member <;> rcases here with here | here
        · refine .inl (linked_child C left left linkedLeft linkedLeft ?_ i curs next here member
            named)
          intro a heldA b heldB
          exact distinct a (.inl (or_self_iff.mp heldA)) b (.inl (or_self_iff.mp heldB))
        · exact .inl (linked_child C left right linkedLeft linkedRight distinct i curs next here
            member named)
        · refine .inr (linked_child C right left linkedRight linkedLeft ?_ i curs next here
            member named)
          intro a heldA b heldB
          exact distinct a heldA.symm b heldB.symm
        · refine .inr (linked_child C right right linkedRight linkedRight ?_ i curs next here
            member named)
          intro a heldA b heldB
          exact distinct a (.inr (or_self_iff.mp heldA)) b (.inr (or_self_iff.mp heldB))
      obtain ⟨chain, walked⟩ := ih (i + 1) _ next further (by omega) (by omega)
      exact ⟨curs :: chain, by rw [walked]; rfl⟩

/-- The exchange converges: neither side errs, both stores come to hold exactly the
two chains, both resolve them to the same active chain, and a node that is behind
is sent exactly what follows its chain. -/
theorem sync_converges (C : Crypto) (genesis : Aum) (A B : SyncNode C genesis)
    (distinct : HashesDistinct C {aum | aum ∈ A.chain ∨ aum ∈ B.chain}) :
    ∃ offerA offerB toA toB chain,
      A.offer = .ok offerA ∧ B.offer = .ok offerB ∧
      A.missing offerB = .ok toB ∧ B.missing offerA = .ok toA ∧
      (A.receive toA).toStore.Represents C {aum | aum ∈ A.chain ∨ aum ∈ B.chain} ∧
      (B.receive toB).toStore.Represents C {aum | aum ∈ A.chain ∨ aum ∈ B.chain} ∧
      (A.receive toA).linearChainFrom C (genesis.hash C) = .ok chain ∧
      (B.receive toB).linearChainFrom C (genesis.hash C) = .ok chain ∧
      ∀ suffix, A.chain = B.chain ++ suffix → toB = suffix := by
  have swapped : HashesDistinct C {aum | aum ∈ B.chain ∨ aum ∈ A.chain} :=
    fun a heldA b heldB => distinct a heldA.symm b heldB.symm
  obtain ⟨offerB, toB, offeredB, sentB, foreignB, coversB, behindB⟩ := A.missing_eq B distinct
  obtain ⟨offerA, toA, offeredA, sentA, foreignA, coversA, -⟩ := B.missing_eq A swapped
  have storeA : (A.receive toA).toStore.Represents C {aum | aum ∈ A.chain ∨ aum ∈ B.chain} := by
    refine A.receive_represents toA _ distinct ?_
    intro aum
    refine ⟨fun held => held.elim .inl (coversA aum), fun held => held.imp_right (foreignA aum)⟩
  have storeB : (B.receive toB).toStore.Represents C {aum | aum ∈ A.chain ∨ aum ∈ B.chain} := by
    refine B.receive_represents toB _ distinct ?_
    intro aum
    refine ⟨fun held => held.elim (coversB aum) Or.inl, fun held => ?_⟩
    exact held.elim .inr (fun sent => .inl (foreignB aum sent))
  obtain ⟨chain, walked⟩ : ∃ chain,
      (A.receive toA).linearChainFrom C (genesis.hash C) = .ok chain := by
    obtain ⟨lastA, sA, -, -, foldedA⟩ := fromChain_ok C _ _ A.replayed
    obtain ⟨lastB, sB, -, -, foldedB⟩ := fromChain_ok C _ _ B.replayed
    have found := (storeA.aum_iff (genesis.hash C) genesis).mpr ⟨.inl A.genesis_mem, rfl⟩
    have starts := A.starts
    rw [head?_eq_getElem?] at starts
    have capA := Nat.le_trans A.short (show maxSyncHeadIntersectionIter ≤ 0 + maxSyncIter by decide)
    have capB := Nat.le_trans B.short (show maxSyncHeadIntersectionIter ≤ 0 + maxSyncIter by decide)
    rw [linearChainFrom, found]
    exact linearWalk_ends C A.chain B.chain _ (foldAums_linked C foldedA)
      (foldAums_linked C foldedB) distinct storeA maxSyncIter 0 _ genesis
      (.inl starts) capA capB
  have agree := linearChainFrom_congr C _ storeA storeB distinct (genesis.hash C)
  exact ⟨offerA, offerB, toA, toB, chain, offeredA, offeredB, sentB, sentA, storeA, storeB, walked,
    agree ▸ walked, behindB⟩

def toyNodeA : SyncNode toy toyGenesis where
  chain := toyChain
  starts := rfl
  short := by decide
  authority := ⟨(toyChild toyGenesis .removeKey (replicate 32 2) 2).hash toy,
    ⟨[(toyKey 1).toKey]⟩⟩
  replayed := by decide +kernel
  inserted := toyChain
  complete _ := Iff.rfl

/-- A node on a competing branch, its store filled in reverse. -/
def toyNodeB : SyncNode toy toyGenesis where
  chain := [toyGenesis, toyChild toyGenesis .noOp [] 1]
  starts := rfl
  short := by decide
  authority := ⟨(toyChild toyGenesis .noOp [] 1).hash toy,
    ⟨[(toyKey 1).toKey, (toyKey 2).toKey]⟩⟩
  replayed := by decide +kernel
  inserted := [toyChild toyGenesis .noOp [] 1, toyGenesis]
  complete _ := by simp [or_comm]

theorem sync_converges_toy :
    ∃ toA toB chain, (toyNodeA.receive toA).linearChainFrom toy
        (toyGenesis.hash toy) = .ok chain ∧
      (toyNodeB.receive toB).linearChainFrom toy (toyGenesis.hash toy) =
        .ok chain := by
  have distinct : HashesDistinct toy
      {aum | aum ∈ toyNodeA.chain ∨ aum ∈ toyNodeB.chain} := by
    have listed : ∀ a ∈ toyNodeA.chain ++ toyNodeB.chain, ∀ b ∈ toyNodeA.chain ++ toyNodeB.chain,
        a.hash toy = b.hash toy → a = b := by decide +kernel
    exact fun a heldA b heldB => listed a (mem_append.mpr heldA) b (mem_append.mpr heldB)
  obtain ⟨-, -, toA, toB, chain, -, -, -, -, -, -, walkedA, walkedB, -⟩ :=
    sync_converges toy toyGenesis toyNodeA toyNodeB distinct
  exact ⟨toA, toB, chain, walkedA, walkedB⟩

end TailscaleRs.Tka
