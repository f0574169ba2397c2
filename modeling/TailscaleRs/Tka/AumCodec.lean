import TailscaleRs.Tka.FromValue
import TailscaleRs.Tka.Items

namespace TailscaleRs.Tka

open List
open Cbor (Value intMapOf presentFields encodeText)
open Option (some map_some)

/-- The canonical order of metadata: bytewise on the encoded key. -/
def metaBefore (a b : String × String) : Prop :=
  encodeText (asBytes a.1) ≤ encodeText (asBytes b.1)

instance : DecidableRel metaBefore := fun _ _ => inferInstanceAs (Decidable (_ ≤ _))

variable (metadata : Meta)

def canonMeta : Meta := metadata.insertionSort metaBefore

variable (key : AumKey)

/-- The record with its metadata in canonical order. -/
def AumKey.canon : AumKey := { key with metadata := canonMeta key.metadata }

variable (state : AumState)

def AumState.canon : AumState :=
  { state with keys := state.keys.map (map AumKey.canon) }

def Aum.canon (aum : Aum) : Aum :=
  { aum with
    key := aum.key.map AumKey.canon
    state := aum.state.map AumState.canon
    metadata := canonMeta aum.metadata }

/-- Equality up to the order of metadata entries. -/
def AumKey.EqUpToMeta (a b : AumKey) : Prop :=
  a.metadata.Perm b.metadata ∧ { a with metadata := [] } = { b with metadata := [] }

def AumState.EqUpToMeta (a b : AumState) : Prop :=
  Option.Rel (List.Forall₂ AumKey.EqUpToMeta) a.keys b.keys ∧
    { a with keys := none } = { b with keys := none }

def Aum.EqUpToMeta (a b : Aum) : Prop :=
  Option.Rel AumKey.EqUpToMeta a.key b.key ∧ Option.Rel AumState.EqUpToMeta a.state b.state ∧
    a.metadata.Perm b.metadata ∧
    { a with key := none, state := none, metadata := [] } =
      { b with key := none, state := none, metadata := [] }

/-- Every list of metadata an AUM carries: its own, its key's, its checkpoint keys'. -/
def Aum.metas (aum : Aum) : List Meta :=
  aum.metadata :: (aum.key.toList.map AumKey.metadata ++
    aum.state.toList.flatMap (fun state => (state.keys.getD []).map AumKey.metadata))

def DistinctKeys : Prop := (metadata.map Prod.fst).Nodup

def CanonicalOrder : Prop := metadata.Pairwise metaBefore

/-- Machine lengths: what any `Vec` or `String` of the source satisfies. -/
def metaSized : Prop :=
  metadata.length < 2 ^ 64 ∧
    ∀ entry ∈ metadata, (asBytes entry.1).length < 2 ^ 64 ∧ (asBytes entry.2).length < 2 ^ 64

def AumKey.Sized : Prop := key.publicKey.length < 2 ^ 64 ∧ metaSized key.metadata

def AumState.Sized : Prop :=
  (∀ values, state.disablementValues = some values →
    values.length < 2 ^ 64 ∧ ∀ value ∈ values, value.length < 2 ^ 64) ∧
  ∀ keys, state.keys = some keys → keys.length < 2 ^ 64 ∧ ∀ key ∈ keys, key.Sized

def AumSignature.Sized (sig : AumSignature) : Prop :=
  sig.keyId.length < 2 ^ 64 ∧ sig.signature.length < 2 ^ 64

structure Aum.Sized (aum : Aum) : Prop where
  key : ∀ key, aum.key = some key → key.Sized
  keyId : aum.keyId.length < 2 ^ 64
  state : ∀ state, aum.state = some state → state.Sized
  metadata : metaSized aum.metadata
  signatures : aum.signatures.length < 2 ^ 64 ∧ ∀ sig ∈ aum.signatures, sig.Sized

instance : Std.Total metaBefore := ⟨fun _ _ => List.le_total _ _⟩

instance : IsTrans (String × String) metaBefore := ⟨fun _ _ _ ab bc => List.le_trans ab bc⟩

theorem canonMeta_perm : (canonMeta metadata).Perm metadata :=
  perm_insertionSort metaBefore metadata

theorem canonMeta_of_ordered (ordered : CanonicalOrder metadata) :
    canonMeta metadata = metadata := ordered.insertionSort_eq

@[simp] theorem canonMeta_canonMeta : canonMeta (canonMeta metadata) = canonMeta metadata :=
  canonMeta_of_ordered _ (pairwise_insertionSort metaBefore metadata)

@[simp] theorem AumKey.canon_canon : key.canon.canon = key.canon := by
  simp [AumKey.canon]

@[simp] theorem AumState.canon_canon : state.canon.canon = state.canon := by
  simp [AumState.canon, Function.comp_def]

@[simp] theorem Aum.canon_canon (aum : Aum) : aum.canon.canon = aum.canon := by
  simp [Aum.canon, Function.comp_def]

theorem AumKey.eqUpToMeta_of_canon (a b : AumKey) (same : a.canon = b.canon) : a.EqUpToMeta b := by
  obtain ⟨kind, votes, publicKey, metadata⟩ := a
  obtain ⟨kind', votes', publicKey', metadata'⟩ := b
  injection same with kinds votesSame keysSame listed
  subst kinds votesSame keysSame
  exact ⟨(canonMeta_perm metadata).symm.trans (listed ▸ canonMeta_perm metadata'), rfl⟩

theorem forall₂_of_map_eq {α β : Type} (f : α → β) (R : α → α → Prop)
    (related : ∀ a b, f a = f b → R a b) (left right : List α) (same : left.map f = right.map f) :
    List.Forall₂ R left right := by
  induction left generalizing right with
  | nil =>
    cases right with
    | nil => exact .nil
    | cons b right => cases same
  | cons a left ih =>
    cases right with
    | nil => cases same
    | cons b right =>
      rw [map_cons, map_cons, cons.injEq] at same
      exact .cons (related a b same.1) (ih right same.2)

theorem optionRel_of_map_eq {α β : Type} (f : α → β) (R : α → α → Prop)
    (related : ∀ a b, f a = f b → R a b) (left right : Option α) (same : left.map f = right.map f) :
    Option.Rel R left right := by
  cases left with
  | none =>
    cases right with
    | none => exact .none
    | some b => cases same
  | some a =>
    cases right with
    | none => cases same
    | some b => exact .some (related a b (some.inj same))

theorem AumState.eqUpToMeta_of_canon (a b : AumState) (same : a.canon = b.canon) :
    a.EqUpToMeta b := by
  obtain ⟨hash, values, keys, id1, id2⟩ := a
  obtain ⟨hash', values', keys', id1', id2'⟩ := b
  simp only [AumState.canon, AumState.mk.injEq] at same
  obtain ⟨rfl, rfl, listed, rfl, rfl⟩ := same
  refine ⟨optionRel_of_map_eq (map AumKey.canon) _ ?_ keys keys' listed, rfl⟩
  exact forall₂_of_map_eq AumKey.canon _ AumKey.eqUpToMeta_of_canon

/-- Records with one canonical form differ in the order of metadata only. -/
theorem Aum.eqUpToMeta_of_canon (a b : Aum) (same : a.canon = b.canon) : a.EqUpToMeta b := by
  obtain ⟨kind, prev, key, keyId, state, votes, metadata, signatures⟩ := a
  obtain ⟨kind', prev', key', keyId', state', votes', metadata', signatures'⟩ := b
  simp only [Aum.canon, Aum.mk.injEq] at same
  obtain ⟨rfl, rfl, keys, rfl, states, rfl, listed, rfl⟩ := same
  exact ⟨optionRel_of_map_eq AumKey.canon _ AumKey.eqUpToMeta_of_canon key key' keys,
    optionRel_of_map_eq AumState.canon _ AumState.eqUpToMeta_of_canon state state' states,
    (canonMeta_perm metadata).symm.trans (listed ▸ canonMeta_perm metadata'), rfl⟩

variable (fields : List (UInt64 × Option Value))

/-- Optional fields with their values in canonical form. -/
def canonFields : List (UInt64 × Option Value) :=
  fields.map (fun field => (field.1, field.2.map Value.canon))

theorem presentFields_canon :
    (presentFields fields).map Cbor.canonEntry = presentFields (canonFields fields) := by
  induction fields with
  | nil => rfl
  | cons field rest ih =>
    obtain ⟨k, v⟩ := field
    cases v with
    | none => exact ih
    | some v => exact congrArg (cons (k, v.canon)) ih

theorem intMapOf_canon (sorted : (fields.map Prod.fst).Pairwise (· < ·)) :
    (intMapOf fields).canon = intMapOf (canonFields fields) := by
  have listed := (Cbor.presentFields_sorted fields sorted).imp (fun below => UInt64.le_of_lt below)
  change (Value.intMap (presentFields fields)).canon = .intMap (presentFields (canonFields fields))
  rw [Cbor.intMap_canon, Cbor.sortIntKeys, listed.insertionSort_eq, presentFields_canon]

theorem metaToCbor_canon :
    (metaToCbor metadata).map Value.canon = metaToCbor (canonMeta metadata) := by
  unfold metaToCbor
  by_cases empty : metadata = []
  · subst empty
    rfl
  · have kept : canonMeta metadata ≠ [] := by
      intro gone
      exact empty (gone ▸ canonMeta_perm metadata).symm.eq_nil
    rw [if_neg empty, if_neg kept, map_some, Cbor.textMap_canon]
    have sorted : Cbor.sortTextKeys (metadata.map (fun entry =>
        (asBytes entry.1, Value.text (asBytes entry.2)))) =
        (canonMeta metadata).map
          (fun entry => (asBytes entry.1, Value.text (asBytes entry.2))) := by
      symm
      apply map_insertionSort
      intro a _ b _
      exact Iff.rfl
    rw [sorted, map_map]
    rfl

theorem hashOrNull_canon (hash : Option AumHash) : (hashOrNull hash).canon = hashOrNull hash := by
  cases hash <;> rfl

theorem bytesOrNull_canon (b : Bytes) : (bytesOrNull b).canon = bytesOrNull b := by
  unfold bytesOrNull
  split <;> rfl

theorem AumKey.fields_sorted (key : AumKey) : (key.fields.map Prod.fst).Pairwise (· < ·) := by
  change ([1, 2, 3, 12] : List UInt64).Pairwise (· < ·)
  decide

theorem AumState.fields_sorted (state : AumState) :
    (state.fields.map Prod.fst).Pairwise (· < ·) := by
  change ([1, 2, 3, 4, 5] : List UInt64).Pairwise (· < ·)
  decide

theorem AumSignature.fields_sorted (sig : AumSignature) :
    (sig.fields.map Prod.fst).Pairwise (· < ·) := by
  change ([1, 2] : List UInt64).Pairwise (· < ·)
  decide

theorem AumKey.toCbor_canon (key : AumKey) : key.toCbor.canon = key.canon.toCbor := by
  rw [AumKey.toCbor, intMapOf_canon _ key.fields_sorted, AumKey.toCbor]
  simp only [AumKey.fields, canonFields, map_cons, map_nil, map_some, metaToCbor_canon]
  rfl

theorem listOrNull_canon {α : Type} (item : α → Value) (canon : α → α)
    (inner : ∀ a, (item a).canon = item (canon a)) (items : Option (List α)) :
    (listOrNull item items).canon = listOrNull item (items.map (map canon)) := by
  cases items with
  | none => rfl
  | some items =>
    rw [listOrNull, Cbor.array_canon, map_some, listOrNull, map_map, map_map]
    congr 2
    funext a
    exact inner a

theorem AumState.toCbor_canon (state : AumState) : state.toCbor.canon = state.canon.toCbor := by
  have values := listOrNull_canon Value.bytes id (fun _ => rfl) state.disablementValues
  have keys := listOrNull_canon AumKey.toCbor AumKey.canon AumKey.toCbor_canon state.keys
  rw [map_id_fun, Option.map_id_fun, id_eq] at values
  have ids : ∀ n : UInt64, (if n ≠ 0 then some (Value.uint n) else none).map Value.canon =
      if n ≠ 0 then some (Value.uint n) else none := by
    intro n
    split <;> rfl
  rw [AumState.toCbor, intMapOf_canon _ state.fields_sorted, AumState.toCbor]
  simp only [AumState.fields, canonFields, map_cons, map_nil, map_some,
    hashOrNull_canon, values, keys, ids]
  rfl

theorem AumSignature.toCbor_canon (sig : AumSignature) : sig.toCbor.canon = sig.toCbor := by
  rw [AumSignature.toCbor, intMapOf_canon _ sig.fields_sorted]
  simp only [AumSignature.fields, canonFields, map_cons, map_nil, map_some,
    bytesOrNull_canon]

theorem Aum.toCbor_canon (aum : Aum) (includeSignatures : Bool) :
    (aum.toCbor includeSignatures).canon = aum.canon.toCbor includeSignatures := by
  have key : (aum.key.map AumKey.toCbor).map Value.canon =
      (aum.key.map AumKey.canon).map AumKey.toCbor := by
    cases aum.key with
    | none => rfl
    | some key => exact congrArg some key.toCbor_canon
  have state : (aum.state.map AumState.toCbor).map Value.canon =
      (aum.state.map AumState.canon).map AumState.toCbor := by
    cases aum.state with
    | none => rfl
    | some state => exact congrArg some state.toCbor_canon
  have keyId : (nonemptyBytes aum.keyId).map Value.canon = nonemptyBytes aum.keyId := by
    unfold nonemptyBytes
    split <;> rfl
  have votes : (aum.votes.map (fun v => Value.uint v.toUInt64)).map Value.canon =
      aum.votes.map (fun v => Value.uint v.toUInt64) := by
    cases aum.votes <;> rfl
  have signatures : (Value.array (aum.signatures.map AumSignature.toCbor)).canon =
      .array (aum.signatures.map AumSignature.toCbor) := by
    rw [Cbor.array_canon, map_map]
    congr 2
    funext sig
    exact sig.toCbor_canon
  rw [Aum.toCbor, intMapOf_canon _ (aum.fields_sorted includeSignatures), Aum.toCbor]
  simp only [Aum.fields, canonFields, map_cons, map_nil, map_some,
    hashOrNull_canon, key, keyId, state, votes, metaToCbor_canon, Option.map_if, signatures]
  rfl

theorem asBytes_injective : Function.Injective asBytes := by
  intro a b same
  have read := fromUtf8_asBytes a
  rw [same, fromUtf8_asBytes, some.injEq] at read
  exact read.symm

variable (unique : Bool) (depth : Nat)

theorem intMapOf_wf {fields : List (UInt64 × Option Value)}
    (sorted : (fields.map Prod.fst).Pairwise (· < ·)) (few : fields.length < 2 ^ 64)
    (inner : ∀ k v, (k, some v) ∈ fields → v.Wf unique depth) :
    (intMapOf fields).Wf unique (depth + 1) := by
  refine .intMap depth (presentFields fields) ?_ ?_ ?_
  · exact Nat.lt_of_le_of_lt (length_filterMap_le _ _) few
  · intro _
    rw [List.Nodup, pairwise_map]
    exact (Cbor.presentFields_sorted fields sorted).imp (fun below => UInt64.ne_of_lt below)
  · intro e member
    exact inner e.1 e.2 ((Cbor.mem_presentFields _ _ _).mp member)

theorem metaToCbor_wf {metadata : Meta} (v : Value) (present : metaToCbor metadata = some v)
    (sized : metaSized metadata) (distinct : unique = true → DistinctKeys metadata) :
    v.Wf unique (depth + 2) := by
  unfold metaToCbor at present
  split at present
  · cases present
  · rename_i nonempty
    cases present
    refine .textMap (depth + 1) _ ?_ ?_ ?_ ?_ ?_
    · rw [length_map]
      exact sized.1
    · simpa using nonempty
    · intro e member
      obtain ⟨entry, held, rfl⟩ := mem_map.mp member
      exact (sized.2 entry held).1
    · intro asked
      have keys := (distinct asked).map asBytes_injective
      rwa [map_map] at keys ⊢
    · intro e member
      obtain ⟨entry, held, rfl⟩ := mem_map.mp member
      exact .text depth _ (sized.2 entry held).2

theorem hashOrNull_wf (hash : Option AumHash) : (hashOrNull hash).Wf unique (depth + 1) := by
  cases hash with
  | none => exact .null depth
  | some h =>
    refine .bytes depth _ ?_
    rw [h.digest.size]
    decide

theorem bytesOrNull_wf (b : Bytes) (fits : b.length < 2 ^ 64) :
    (bytesOrNull b).Wf unique (depth + 1) := by
  unfold bytesOrNull
  split
  · exact .null depth
  · exact .bytes depth b fits

theorem listOrNull_wf {α : Type} (item : α → Value) (items : Option (List α))
    (fits : ∀ values, items = some values → values.length < 2 ^ 64 ∧
      ∀ a ∈ values, (item a).Wf unique depth) :
    (listOrNull item items).Wf unique (depth + 1) := by
  cases items with
  | none => exact .null depth
  | some values =>
    obtain ⟨length, inner⟩ := fits values rfl
    refine .array depth _ (by rwa [length_map]) ?_
    intro v member
    obtain ⟨a, held, rfl⟩ := mem_map.mp member
    exact inner a held

theorem AumKey.toCbor_wf (key : AumKey) (sized : key.Sized)
    (distinct : unique = true → DistinctKeys key.metadata) :
    key.toCbor.Wf unique (depth + 3) := by
  refine intMapOf_wf unique (depth + 2) key.fields_sorted (show 4 < 2 ^ 64 by decide) ?_
  intro k v member
  simp only [AumKey.fields, mem_cons, Prod.mk.injEq, some.injEq, not_mem_nil,
    or_false] at member
  rcases member with ⟨-, rfl⟩ | ⟨-, rfl⟩ | ⟨-, rfl⟩ | ⟨-, present⟩
  · exact .uint _ _
  · exact .uint _ _
  · exact .bytes _ _ sized.1
  · exact metaToCbor_wf unique depth v present.symm sized.2 distinct

theorem AumState.toCbor_wf (state : AumState) (sized : state.Sized)
    (distinct : unique = true → ∀ key ∈ state.keys.getD [], DistinctKeys key.metadata) :
    state.toCbor.Wf unique (depth + 5) := by
  refine intMapOf_wf unique (depth + 4) state.fields_sorted (show 5 < 2 ^ 64 by decide) ?_
  intro k v member
  simp only [AumState.fields, mem_cons, Prod.mk.injEq, some.injEq, not_mem_nil,
    or_false] at member
  rcases member with ⟨-, rfl⟩ | ⟨-, rfl⟩ | ⟨-, rfl⟩ | ⟨-, present⟩ | ⟨-, present⟩
  · exact hashOrNull_wf unique _ _
  · refine listOrNull_wf unique _ _ _ (fun values present => ?_)
    obtain ⟨length, inner⟩ := sized.1 values present
    exact ⟨length, fun value held => .bytes _ value (inner value held)⟩
  · refine listOrNull_wf unique _ _ _ (fun keys present => ?_)
    obtain ⟨length, inner⟩ := sized.2 keys present
    rw [present] at distinct
    exact ⟨length, fun key held => AumKey.toCbor_wf unique depth key (inner key held)
      (fun asked => distinct asked key held)⟩
  · split at present <;> cases present
    exact .uint _ _
  · split at present <;> cases present
    exact .uint _ _

theorem AumSignature.toCbor_wf (sig : AumSignature) (sized : sig.Sized) :
    sig.toCbor.Wf unique (depth + 2) := by
  refine intMapOf_wf unique (depth + 1) sig.fields_sorted (show 2 < 2 ^ 64 by decide) ?_
  intro k v member
  simp only [AumSignature.fields, mem_cons, Prod.mk.injEq, some.injEq,
    not_mem_nil, or_false] at member
  rcases member with ⟨-, rfl⟩ | ⟨-, rfl⟩
  · exact bytesOrNull_wf unique depth _ sized.1
  · exact bytesOrNull_wf unique depth _ sized.2

/-- An AUM of machine size is a value of the wire format, with unique keys wherever
its metadata keys are distinct. -/
theorem Aum.toCbor_wf (aum : Aum) (includeSignatures : Bool) (sized : aum.Sized)
    (distinct : unique = true → ∀ metadata ∈ aum.metas, DistinctKeys metadata) :
    (aum.toCbor includeSignatures).Wf unique (depth + 6) := by
  refine intMapOf_wf unique (depth + 5) (aum.fields_sorted includeSignatures)
    (show 8 < 2 ^ 64 by decide) ?_
  intro k v member
  simp only [Aum.fields, mem_cons, Prod.mk.injEq, some.injEq, not_mem_nil,
    or_false] at member
  rcases member with ⟨-, rfl⟩ | ⟨-, rfl⟩ | ⟨-, present⟩ | ⟨-, present⟩ | ⟨-, present⟩ |
    ⟨-, present⟩ | ⟨-, present⟩ | ⟨-, present⟩
  · exact .uint _ _
  · exact hashOrNull_wf unique _ _
  · obtain ⟨key, held, rfl⟩ := Option.map_eq_some_iff.mp present.symm
    refine AumKey.toCbor_wf unique (depth + 2) key (sized.key key held) (fun asked => ?_)
    exact distinct asked key.metadata (by simp [Aum.metas, held])
  · unfold nonemptyBytes at present
    split at present <;> cases present
    exact .bytes _ _ sized.keyId
  · obtain ⟨state, held, rfl⟩ := Option.map_eq_some_iff.mp present.symm
    refine AumState.toCbor_wf unique depth state (sized.state state held)
      (fun asked key listed => ?_)
    refine distinct asked key.metadata ?_
    simp only [Aum.metas, held, mem_cons, mem_append]
    exact .inr (.inr (by simpa using ⟨key, listed, rfl⟩))
  · obtain ⟨votes, held, rfl⟩ := Option.map_eq_some_iff.mp present.symm
    exact .uint _ _
  · refine metaToCbor_wf unique (depth + 3) v present.symm sized.metadata ?_
    exact fun asked => distinct asked aum.metadata (by simp [Aum.metas])
  · split at present <;> cases present
    obtain ⟨length, inner⟩ := sized.signatures
    refine .array _ _ (by rwa [length_map]) ?_
    intro v member
    obtain ⟨sig, held, rfl⟩ := mem_map.mp member
    exact AumSignature.toCbor_wf unique (depth + 2) sig (inner sig held)

end TailscaleRs.Tka
