import TailscaleRs.Lib.Selection
import TailscaleRs.Tka.Verify

namespace TailscaleRs.Tka

open Function Crypto

def maxSyncIter : Nat := 2000

variable (C : Crypto) (s : ReplayState)

/-- The fork rules against a state: higher weight, then a key removal, then the
lower hash. -/
def Preferred (cand best : Aum) : Prop :=
  if s.weight cand ≠ s.weight best then s.weight best < s.weight cand
  else if decide (cand.messageKind = .removeKey) ≠ decide (best.messageKind = .removeKey) then
    cand.messageKind = .removeKey
  else cand.hash C < best.hash C

instance (C : Crypto) (s : ReplayState) : DecidableRel (Preferred C s) := fun _ _ =>
  inferInstanceAs (Decidable (ite _ _ _))

/-- The active one of competing children; none for the empty slice, on which the
source indexes out of bounds. -/
def pickNextAum (candidates : List Aum) : Option Aum :=
  Selection.pick (Preferred C s) candidates

/-- The store the walkers read: AUMs by hash, and the AUMs that name a parent. -/
structure AumStore where
  aum : AumHash → Option Aum
  childAums : AumHash → List Aum

/-- AUMs by hash and the parent to child index, built as AUMs are inserted. -/
structure MemAumStore where
  byHash : AumHash → Option Aum
  children : AumHash → List AumHash

namespace MemAumStore

def new : MemAumStore := ⟨fun _ => none, fun _ => []⟩

variable (store : MemAumStore)

/-- The child edge is added once, the AUM replaces one under the same hash. -/
def insert (aum : Aum) : MemAumStore where
  byHash := update store.byHash (aum.hash C) (some aum)
  children :=
    match aum.prevAumHash with
    | none => store.children
    | some parent =>
      let kids := store.children parent
      update store.children parent (if aum.hash C ∈ kids then kids else kids ++ [aum.hash C])

def fromAums (aums : List Aum) : MemAumStore := aums.foldl (insert C) new

def toStore : AumStore where
  aum := store.byHash
  childAums hash := (store.children hash).filterMap store.byHash

/-- The walk of `linear_chain_from`: the state folds best-effort, a failed fold
leaves whatever the failing step left. -/
def linearWalk (C : Crypto) (store : AumStore) :
    Nat → ReplayState → Aum → Except TkaError (List Aum)
  | 0, _, _ => .error .badChain
  | fuel + 1, s, curs =>
    let s := (s.applyVerifiedAum C curs).2
    match pickNextAum C s (store.childAums (curs.hash C)) with
    | none => .ok [curs]
    | some next => (linearWalk C store fuel s next).map (curs :: ·)

def linearChainFrom (oldest : AumHash) : Except TkaError (List Aum) :=
  match store.toStore.aum oldest with
  | none => .error .badChain
  | some curs => linearWalk C store.toStore maxSyncIter ReplayState.default curs

end MemAumStore

open MemAumStore

section

theorem AumHash.lt_irrefl (a : AumHash) : ¬a < a := List.lt_irrefl a.digest.bytes

theorem AumHash.lt_or_lt_of_ne {a b : AumHash} (different : a ≠ b) : a < b ∨ b < a := by
  by_contra neither
  rw [not_or] at neither
  have bytes : a.digest.bytes = b.digest.bytes :=
    List.le_antisymm (List.not_lt.mp neither.2) (List.not_lt.mp neither.1)
  rcases b with ⟨⟨b, sizeB⟩⟩
  cases bytes
  exact different rfl

variable (s : ReplayState)

theorem preferred_iff (a b : Aum) :
    Preferred C s a b ↔ s.weight b < s.weight a ∨ (s.weight a = s.weight b ∧
      ((a.messageKind = .removeKey ∧ b.messageKind ≠ .removeKey) ∨
        ((a.messageKind = .removeKey ↔ b.messageKind = .removeKey) ∧ a.hash C < b.hash C))) := by
  unfold Preferred
  by_cases weights : s.weight a = s.weight b
  · by_cases removesA : a.messageKind = .removeKey <;>
      by_cases removesB : b.messageKind = .removeKey <;> simp [weights, removesA, removesB]
  · simp [weights]

instance (s : ReplayState) : Std.Irrefl (Preferred C s) where
  irrefl aum := by simp [Preferred, AumHash.lt_irrefl]

instance (s : ReplayState) : IsTrans Aum (Preferred C s) where
  trans a b c ab bc := by
    rw [preferred_iff] at *
    rcases ab with ab | ⟨sameAB, ab⟩ <;> rcases bc with bc | ⟨sameBC, bc⟩
    · exact .inl (by omega)
    · exact .inl (by omega)
    · exact .inl (by omega)
    · refine .inr ⟨by omega, ?_⟩
      rcases ab with ab | ⟨kindAB, ab⟩ <;> rcases bc with bc | ⟨kindBC, bc⟩
      · exact absurd bc.1 ab.2
      · exact .inl ⟨ab.1, fun removes => ab.2 (kindBC.mpr removes)⟩
      · exact .inl ⟨kindAB.mpr bc.1, bc.2⟩
      · exact .inr ⟨kindAB.trans kindBC, List.lt_trans ab bc⟩

theorem preferred_total (a b : Aum) (different : a.hash C ≠ b.hash C) :
    Preferred C s a b ∨ Preferred C s b a := by
  rw [preferred_iff, preferred_iff]
  rcases Nat.lt_trichotomy (s.weight a) (s.weight b) with lighter | same | heavier
  · exact .inr (.inl lighter)
  · by_cases removesA : a.messageKind = .removeKey <;>
      by_cases removesB : b.messageKind = .removeKey
    · simpa [same, removesA, removesB] using AumHash.lt_or_lt_of_ne different
    · simp [same, removesA, removesB]
    · simp [same, removesA, removesB]
    · simpa [same, removesA, removesB] using AumHash.lt_or_lt_of_ne different
  · exact .inl (.inl heavier)

/-- The index of a store after the inserts, in any order: what it returns was
inserted, every inserted hash is present, and the child edges are those of the
inserted AUMs. -/
structure MemAumStore.Indexed (inserted : List Aum) (store : MemAumStore) : Prop where
  held : ∀ hash aum, store.byHash hash = some aum → aum ∈ inserted ∧ aum.hash C = hash
  present : ∀ aum ∈ inserted, ∃ copy, store.byHash (aum.hash C) = some copy
  edges : ∀ parent kid, kid ∈ store.children parent ↔
    ∃ aum ∈ inserted, aum.prevAumHash = some parent ∧ aum.hash C = kid

theorem MemAumStore.new_indexed : MemAumStore.Indexed C [] new :=
  ⟨by simp [new], by simp, by simp [new]⟩

theorem MemAumStore.insert_children (store : MemAumStore) (aum : Aum) (parent kid : AumHash) :
    kid ∈ (store.insert C aum).children parent ↔
      kid ∈ store.children parent ∨ (aum.prevAumHash = some parent ∧ aum.hash C = kid) := by
  unfold insert
  cases linked : aum.prevAumHash with
  | none => simp
  | some own =>
    dsimp only
    rw [update_apply]
    by_cases same : parent = own
    · subst same
      rw [if_pos rfl]
      split
      · rename_i known
        constructor
        · exact Or.inl
        · rintro (old | ⟨-, rfl⟩)
          · exact old
          · exact known
      · simp [eq_comm]
    · rw [if_neg same]
      simp [Ne.symm same]

variable (inserted : List Aum)

theorem MemAumStore.insert_indexed (store : MemAumStore) (aum : Aum)
    (indexed : MemAumStore.Indexed C inserted store) :
    MemAumStore.Indexed C (inserted ++ [aum]) (store.insert C aum) := by
  refine ⟨?_, ?_, ?_⟩
  · intro hash other found
    simp only [insert, update_apply] at found
    split at found
    · rename_i own
      cases found
      exact ⟨by simp, own.symm⟩
    · obtain ⟨member, keyed⟩ := indexed.held hash other found
      exact ⟨List.mem_append_left _ member, keyed⟩
  · intro other member
    simp only [insert, update_apply]
    split
    · exact ⟨aum, rfl⟩
    · rename_i apart
      rcases List.mem_append.mp member with old | new
      · exact indexed.present other old
      · rw [List.mem_singleton] at new
        exact absurd (new ▸ rfl) apart
  · intro parent kid
    rw [insert_children, indexed.edges]
    simp only [List.mem_append, List.mem_singleton, or_and_right, exists_or, exists_eq_left]

theorem MemAumStore.foldl_insert_indexed (inserted aums : List Aum) (store : MemAumStore)
    (indexed : MemAumStore.Indexed C inserted store) :
    MemAumStore.Indexed C (inserted ++ aums) (aums.foldl (insert C) store) := by
  induction aums generalizing inserted store with
  | nil => simpa using indexed
  | cons aum rest ih =>
    rw [List.append_cons]
    exact ih _ _ (insert_indexed C inserted store aum indexed)

theorem MemAumStore.fromAums_indexed (aums : List Aum) :
    MemAumStore.Indexed C aums (fromAums C aums) :=
  foldl_insert_indexed C [] aums _ (new_indexed C)

/-- The contract of a store: AUMs are filed under their own hash, and the children
of a hash are the AUMs held that name it as their parent. -/
structure AumStore.Lawful (store : AumStore) : Prop where
  keyed : ∀ hash aum, store.aum hash = some aum → aum.hash C = hash
  child_iff : ∀ parent aum, aum ∈ store.childAums parent ↔
    store.aum (aum.hash C) = some aum ∧ aum.prevAumHash = some parent

/-- A lawful store that holds exactly the AUMs of a set. -/
structure AumStore.Represents (store : AumStore) (aums : Set Aum) : Prop where
  lawful : store.Lawful C
  aum_iff : ∀ hash aum, store.aum hash = some aum ↔ aum ∈ aums ∧ aum.hash C = hash

/-- The index keeps the contract as long as inserted AUMs that share a hash share
their parent, so that no replaced AUM leaves a stale edge. -/
theorem MemAumStore.Indexed.lawful (store : MemAumStore)
    (indexed : MemAumStore.Indexed C inserted store)
    (parents : ∀ a ∈ inserted, ∀ b ∈ inserted, a.hash C = b.hash C →
      a.prevAumHash = b.prevAumHash) : store.toStore.Lawful C := by
  refine ⟨fun hash aum found => (indexed.held hash aum found).2, ?_⟩
  intro parent aum
  simp only [toStore, List.mem_filterMap]
  constructor
  · rintro ⟨kid, edge, found⟩
    obtain ⟨member, rfl⟩ := indexed.held kid aum found
    obtain ⟨other, inserted, linked, same⟩ := (indexed.edges parent _).mp edge
    exact ⟨found, by rw [parents aum member other inserted same.symm, linked]⟩
  · rintro ⟨found, linked⟩
    obtain ⟨member, -⟩ := indexed.held _ aum found
    exact ⟨aum.hash C, (indexed.edges parent _).mpr ⟨aum, member, linked, rfl⟩, found⟩

/-- Distinct AUMs have distinct hashes. -/
def HashesDistinct (aums : Set Aum) : Prop :=
  ∀ a ∈ aums, ∀ b ∈ aums, a.hash C = b.hash C → a = b

theorem MemAumStore.Indexed.represents (store : MemAumStore)
    (indexed : MemAumStore.Indexed C inserted store)
    (distinct : HashesDistinct C {aum | aum ∈ inserted}) :
    store.toStore.Represents C {aum | aum ∈ inserted} := by
  refine ⟨indexed.lawful C inserted store ?_, ?_⟩
  · intro a memberA b memberB same
    rw [distinct a memberA b memberB same]
  · intro hash aum
    refine ⟨indexed.held hash aum, ?_⟩
    rintro ⟨member, rfl⟩
    obtain ⟨copy, found⟩ := indexed.present aum member
    obtain ⟨held, same⟩ := indexed.held _ copy found
    rw [distinct copy held aum member same] at found
    exact found

theorem AumStore.Represents.mem_childAums {store : AumStore} {aums : Set Aum}
    (represents : store.Represents C aums) {parent : AumHash} {aum : Aum} :
    aum ∈ store.childAums parent ↔ aum ∈ aums ∧ aum.prevAumHash = some parent := by
  rw [represents.lawful.child_iff, represents.aum_iff, and_iff_left rfl]

theorem pickNextAum_congr {left right : List Aum} (same : ∀ aum, aum ∈ left ↔ aum ∈ right)
    (distinct : HashesDistinct C {aum | aum ∈ left}) :
    pickNextAum C s left = pickNextAum C s right := by
  refine Selection.pick_congr _ left right same ?_
  intro a memberA b memberB different
  exact preferred_total C s a b (fun hashes => different (distinct a memberA b memberB hashes))

/-- The walk only depends on the set of AUMs a store holds. -/
theorem linearWalk_congr (left right : AumStore) (aums : Set Aum)
    (representsLeft : left.Represents C aums) (representsRight : right.Represents C aums)
    (distinct : HashesDistinct C aums) (fuel : Nat) (s : ReplayState) (curs : Aum) :
    linearWalk C left fuel s curs = linearWalk C right fuel s curs := by
  induction fuel generalizing s curs with
  | zero => rfl
  | succ fuel ih =>
    have children : pickNextAum C (s.applyVerifiedAum C curs).2 (left.childAums (curs.hash C)) =
        pickNextAum C (s.applyVerifiedAum C curs).2 (right.childAums (curs.hash C)) := by
      apply pickNextAum_congr
      · intro aum
        rw [representsLeft.mem_childAums, representsRight.mem_childAums]
      · intro a memberA b memberB
        exact distinct a ((representsLeft.mem_childAums _ ).mp memberA).1
          b ((representsLeft.mem_childAums _).mp memberB).1
    simp only [linearWalk, children, ih]

theorem linearChainFrom_congr {left right : MemAumStore} (aums : Set Aum)
    (representsLeft : left.toStore.Represents C aums)
    (representsRight : right.toStore.Represents C aums) (distinct : HashesDistinct C aums)
    (oldest : AumHash) :
    left.linearChainFrom C oldest = right.linearChainFrom C oldest := by
  have lookup : left.toStore.aum oldest = right.toStore.aum oldest := by
    apply Option.ext
    intro aum
    rw [representsLeft.aum_iff, representsRight.aum_iff]
  unfold linearChainFrom
  rw [lookup]
  cases right.toStore.aum oldest with
  | none => rfl
  | some curs => exact linearWalk_congr C _ _ aums representsLeft representsRight distinct _ _ _

/-- Fork resolution does not depend on the order AUMs arrive in: stores filled
with the same AUMs in any order, with any repetitions, resolve every walk alike,
and the pick among candidates is the same for every permutation of them. -/
theorem linearChainFrom_order_independent (first second : List Aum)
    (sameSet : ∀ aum, aum ∈ first ↔ aum ∈ second)
    (distinct : HashesDistinct C {aum | aum ∈ first}) :
    (∀ oldest, (fromAums C first).linearChainFrom C oldest =
      (fromAums C second).linearChainFrom C oldest) ∧
      ∀ (s : ReplayState) (candidates permuted : List Aum),
        HashesDistinct C {aum | aum ∈ candidates} → candidates.Perm permuted →
          pickNextAum C s candidates = pickNextAum C s permuted := by
  constructor
  · have sets : {aum | aum ∈ second} = {aum | aum ∈ first} := by
      ext aum
      exact (sameSet aum).symm
    have representsFirst :=
      (fromAums_indexed C first).represents C first _ distinct
    have representsSecond :=
      (fromAums_indexed C second).represents C second _ (sets ▸ distinct)
    rw [sets] at representsSecond
    exact linearChainFrom_congr C _ representsFirst representsSecond distinct
  · intro s candidates permuted apart permutation
    exact pickNextAum_congr C s (fun _ => permutation.mem_iff) apart

end

def toyFork : List Aum :=
  [toyGenesis, toyChild toyGenesis .noOp [] 1, toyChild toyGenesis .noOp [] 2]

theorem toyFork_hashesDistinct : HashesDistinct toy {aum | aum ∈ toyFork} := by
  change ∀ a ∈ toyFork, ∀ b ∈ toyFork, a.hash toy = b.hash toy → a = b
  decide +kernel

theorem linearChainFrom_order_independent_toyFork :
    (fromAums toy toyFork).linearChainFrom toy
        (toyGenesis.hash toy) =
      (fromAums toy (toyFork.reverse ++ toyFork)).linearChainFrom toy
        (toyGenesis.hash toy) :=
  (linearChainFrom_order_independent toy toyFork (toyFork.reverse ++ toyFork)
    (by simp) toyFork_hashesDistinct).1 _

end TailscaleRs.Tka
