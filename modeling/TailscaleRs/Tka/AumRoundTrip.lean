import TailscaleRs.Lib.Outcome
import TailscaleRs.Tka.AumCodec

namespace TailscaleRs.Tka

open List Aum
open Cbor (Value)

/-- A value the decoder can produce. -/
def OnWire (v : Value) : Prop := ∃ depth, v.Wf true depth

theorem OnWire.field {entries : List (UInt64 × Value)} (wire : OnWire (.intMap entries))
    {entry : UInt64 × Value} (member : entry ∈ entries) : OnWire entry.2 := by
  obtain ⟨depth, wf⟩ := wire
  cases wf with
  | intMap depth _ _ _ inner => exact ⟨depth, inner entry member⟩

theorem OnWire.items {items : List Value} (wire : OnWire (.array items)) :
    items.length < 2 ^ 64 ∧ ∀ v ∈ items, OnWire v := by
  obtain ⟨depth, wf⟩ := wire
  cases wf with
  | array depth _ fits inner => exact ⟨fits, fun v member => ⟨depth, inner v member⟩⟩

variable {v : Value} {α : Type}

theorem expectBytesOrNull_sized (wire : OnWire v) :
    Yields (fun b => b.length < 2 ^ 64) (expectBytesOrNull v) := by
  obtain ⟨depth, wf⟩ := wire
  cases wf with
  | bytes _ _ fits => exact fits
  | null => exact Nat.two_pow_pos 64
  | _ => trivial

theorem expectBytes_sized (wire : OnWire v) :
    Yields (fun b => b.length < 2 ^ 64) (expectBytes v) := by
  obtain ⟨depth, wf⟩ := wire
  cases wf with
  | bytes _ _ fits => exact fits
  | _ => trivial

section Lists

variable {item : Value → Except TkaError α} {P : α → Prop}
  (sound : ∀ v, OnWire v → Yields P (item v))

include sound

theorem mapM_onWire {items : List Value} (wire : OnWire (.array items)) :
    Yields (fun outputs => outputs.length < 2 ^ 64 ∧ ∀ a ∈ outputs, P a) (items.mapM item) := by
  refine (Safe.mapM fun v member => sound v (wire.items.2 v member)).mono fun outputs is => ?_
  exact ⟨is.1 ▸ wire.items.1, is.2⟩

theorem arrayOrNull_onWire (message : String) {v : Value} (wire : OnWire v) :
    Yields (fun outputs => ∀ list, outputs = some list →
      list.length < 2 ^ 64 ∧ ∀ a ∈ list, P a) (arrayOrNull message item v) := by
  cases v with
  | null => exact fun _ is => by cases is
  | array items =>
    rw [arrayOrNull]
    have each := mapM_onWire sound wire
    cases read : items.mapM item with
    | error e => trivial
    | ok list =>
      rintro _ ⟨⟩
      exact each.out read
  | _ => trivial

end Lists

theorem required_ok (message : String) (option : Option α) (value : α)
    (read : required message option = .ok value) : option = some value := by
  cases option with
  | none => cases read
  | some held =>
    cases read
    rfl

theorem readMetaEntry_ok {entry : Bytes × Value} {output : String × String}
    (read : readMetaEntry entry = .ok output) :
    asBytes output.1 = entry.1 ∧ entry.2 = .text (asBytes output.2) := by
  unfold readMetaEntry at read
  split at read
  · rename_i bytes text
    simp only [bind_ok] at read
    obtain ⟨key, keyRead, value, valueRead, same⟩ := read
    cases same
    have keyBytes := asBytes_of_fromUtf8 _ _ (required_ok _ _ _ keyRead)
    have valueBytes := asBytes_of_fromUtf8 _ _ (required_ok _ _ _ valueRead)
    exact ⟨keyBytes, by rw [text, valueBytes]⟩
  · cases read

theorem metaFromValue_onWire (wire : OnWire v) :
    Yields (fun metadata => metaSized metadata ∧ DistinctKeys metadata) (metaFromValue v) := by
  cases v with
  | textMap entries =>
    obtain ⟨depth, wf⟩ := wire
    cases wf with
    | textMap depth _ fits nonempty keys distinct inner =>
      cases read : metaFromValue (.textMap entries) with
      | error e => trivial
      | ok metadata =>
        have keyBytes := mapM_map readMetaEntry (fun out => asBytes out.1) Prod.fst
          (fun entry out made => (readMetaEntry_ok made).1) entries metadata read
        have lengths := congrArg length keyBytes
        rw [length_map, length_map] at lengths
        refine ⟨⟨lengths ▸ fits, fun out member => ?_⟩, ?_⟩
        · obtain ⟨entry, held, made⟩ := mapM_mem readMetaEntry entries metadata read out member
          obtain ⟨key, value⟩ := readMetaEntry_ok made
          have wfValue := inner entry held
          rw [value] at wfValue
          cases wfValue with
          | text _ _ textFits => exact ⟨key ▸ keys entry held, textFits⟩
        · have nodup := distinct rfl
          rw [← keyBytes] at nodup
          exact List.Nodup.of_map asBytes (by rwa [map_map])
  | _ => trivial

/-- The parts of a key read so far are bounded and repeat no metadata key. -/
structure PartialKey.Sound (p : PartialKey) : Prop where
  publicKey : ∀ b, p.publicKey = some b → b.length < 2 ^ 64
  metadata : metaSized p.metadata ∧ DistinctKeys p.metadata

theorem AumKey.fromValue_onWire (wire : OnWire v) :
    Yields (fun key => key.Sized ∧ DistinctKeys key.metadata) (AumKey.fromValue v) := by
  cases v with
  | intMap entries =>
    have initial : PartialKey.Sound ⟨none, none, none, []⟩ :=
      ⟨by simp, ⟨by decide, by simp⟩, nodup_nil⟩
    refine (Safe.foldlM entries ?_ _ initial).bind fun fields sound => ?_
    · rintro p ⟨k, v⟩ member sound
      have wire := wire.field member
      refine .ite (.skip fun n => .ite ⟨sound.1, sound.2⟩ trivial) <|
        .ite (.skip fun n => .skip fun votes => ⟨sound.1, sound.2⟩) <|
        .ite (.bind (expectBytesOrNull_sized wire) fun b fits => ⟨?_, sound.2⟩) <|
        .ite (.bind (metaFromValue_onWire wire) fun metadata is => ⟨sound.1, is⟩) trivial
      rintro _ ⟨⟩
      exact fits
    · refine .skip fun kind => .skip fun votes => ?_
      cases present : fields.publicKey with
      | none => trivial
      | some b => exact ⟨⟨sound.1 b present, sound.2.1⟩, sound.2.2⟩
  | _ => trivial

/-- The parts of a state read so far. -/
def AumState.Decodes (state : AumState) : Prop :=
  state.Sized ∧ ∀ key ∈ state.keys.getD [], DistinctKeys key.metadata

theorem AumState.fromValue_onWire (wire : OnWire v) :
    Yields AumState.Decodes (AumState.fromValue v) := by
  cases v with
  | intMap entries =>
    refine Safe.foldlM entries ?_ _ ⟨⟨by simp, by simp⟩, by simp⟩
    rintro p ⟨k, v⟩ member sound
    have wire := wire.field member
    refine .ite (.skip fun hash => sound) <|
      .ite (.bind (arrayOrNull_onWire (fun v => expectBytes_sized) _ wire) fun values fits =>
        ⟨⟨fits, sound.1.2⟩, sound.2⟩) <|
      .ite (.bind (arrayOrNull_onWire (fun v => AumKey.fromValue_onWire) _ wire) fun keys is =>
        ⟨⟨sound.1.1, fun list present => ?_⟩, fun key held => ?_⟩) <|
      .ite (.skip fun n => sound) <| .ite (.skip fun n => sound) trivial
    · exact ⟨(is list present).1, fun key held => ((is list present).2 key held).1⟩
    · cases keys with
      | none => cases held
      | some list => exact ((is list rfl).2 key held).2
  | _ => trivial

/-- The parts of a signature read so far are bounded. -/
def PartialSignature.Sound (p : PartialSignature) : Prop :=
  (∀ b, p.keyId = some b → b.length < 2 ^ 64) ∧ ∀ b, p.signature = some b → b.length < 2 ^ 64

theorem AumSignature.fromValue_onWire (wire : OnWire v) :
    Yields AumSignature.Sized (AumSignature.fromValue v) := by
  cases v with
  | intMap entries =>
    have initial : PartialSignature.Sound ⟨none, none⟩ := ⟨by simp, by simp⟩
    refine (Safe.foldlM entries ?_ _ initial).bind fun fields sound => ?_
    · rintro p ⟨k, v⟩ member sound
      have sized := expectBytesOrNull_sized (wire.field member)
      refine .ite (.bind sized fun b fits => ⟨?_, sound.2⟩) <|
        .ite (.bind sized fun b fits => ⟨sound.1, ?_⟩) trivial
      all_goals
        rintro _ ⟨⟩
        exact fits
    · obtain ⟨_ | keyId, _ | signature⟩ := fields
      all_goals first | trivial | exact ⟨sound.1 keyId rfl, sound.2 signature rfl⟩
  | _ => trivial

/-- The parts of an AUM read so far are bounded and repeat no metadata key. -/
structure PartialAum.Sound (p : PartialAum) : Prop where
  key : ∀ key, p.key = some key → key.Sized ∧ DistinctKeys key.metadata
  keyId : p.keyId.length < 2 ^ 64
  state : ∀ state, p.state = some state →
    state.Sized ∧ ∀ key ∈ state.keys.getD [], DistinctKeys key.metadata
  metadata : metaSized p.metadata ∧ DistinctKeys p.metadata
  signatures : p.signatures.length < 2 ^ 64 ∧ ∀ sig ∈ p.signatures, sig.Sized

theorem Aum.readField_sound (p : PartialAum) {k : UInt64} (wire : OnWire v) (sound : p.Sound) :
    Yields PartialAum.Sound (readField p (k, v)) := by
  obtain ⟨key, keyId, state, metadata, signatures⟩ := sound
  refine .ite (.skip fun n => .skip fun n => .skip fun kind =>
      ⟨key, keyId, state, metadata, signatures⟩) <|
    .ite (.skip fun hash => ⟨key, keyId, state, metadata, signatures⟩) <|
    .ite (.bind (AumKey.fromValue_onWire wire) fun own is =>
      ⟨?_, keyId, state, metadata, signatures⟩) <|
    .ite (.bind (expectBytesOrNull_sized wire) fun b fits =>
      ⟨key, fits, state, metadata, signatures⟩) <|
    .ite (.bind (AumState.fromValue_onWire wire) fun own is =>
      ⟨key, keyId, ?_, metadata, signatures⟩) <|
    .ite (.skip fun n => .skip fun votes => ⟨key, keyId, state, metadata, signatures⟩) <|
    .ite (.bind (metaFromValue_onWire wire) fun own is => ⟨key, keyId, state, is, signatures⟩) <|
    .ite ?_ trivial
  · rintro _ ⟨⟩
    exact is
  · rintro _ ⟨⟩
    exact is
  · cases v with
    | array items =>
      exact (mapM_onWire (fun v => AumSignature.fromValue_onWire) wire).bind fun own is =>
        ⟨key, keyId, state, metadata, is⟩
    | _ => trivial

theorem Aum.fromValue_onWire (wire : OnWire v) :
    Yields (fun aum => aum.Sized ∧ ∀ metadata ∈ aum.metas, DistinctKeys metadata)
      (fromValue v) := by
  cases v with
  | intMap entries =>
    have initial : PartialAum.Sound ⟨none, none, false, none, [], none, none, [], []⟩ :=
      ⟨by simp, by decide, by simp, ⟨⟨by decide, by simp⟩, nodup_nil⟩, by decide, by simp⟩
    refine (Safe.foldlM entries (fun p field member sound =>
      readField_sound p (wire.field member) sound) _ initial).bind fun p sound => ?_
    refine .ite trivial (.skip fun kind => ⟨⟨fun key held => (sound.key key held).1, sound.keyId,
      fun state held => (sound.state state held).1, sound.metadata.1, sound.signatures⟩, ?_⟩)
    intro metadata member
    simp only [metas, mem_cons, mem_append, mem_map, mem_flatMap, Option.mem_toList] at member
    rcases member with rfl | ⟨key, held, rfl⟩ | ⟨state, held, key, listed, rfl⟩
    · exact sound.metadata.2
    · exact (sound.key key held).2
    · exact (sound.state state held).2 key listed
  | _ => trivial

variable (aum : Aum)

theorem Aum.fromCbor_serialize (sized : aum.Sized)
    (distinct : ∀ metadata ∈ aum.metas, DistinctKeys metadata) :
    fromCbor aum.serialize = .ok aum.canon := by
  have wf := aum.toCbor_wf true 11 true sized (fun _ => distinct)
  have decoded := decodeValue_encode topLevels (aum.toCbor true) wf []
  rw [append_nil] at decoded
  rw [fromCbor, serialize, decoded, toCbor_canon]
  exact fromValue_toCbor true

theorem Aum.serialize_canon (sized : aum.Sized) : aum.canon.serialize = aum.serialize := by
  rw [serialize, serialize, ← toCbor_canon]
  exact Cbor.encode_canon false _ _
    (aum.toCbor_wf false 11 true sized (fun asked => by cases asked))

theorem map_canon_self {canon : α → α} {items : Option α}
    (fixed : ∀ a, items = some a → canon a = a) : items.map canon = items := by
  cases items with
  | none => rfl
  | some a => exact congrArg some (fixed a rfl)

theorem Aum.canon_of_ordered (ordered : ∀ metadata ∈ aum.metas, CanonicalOrder metadata) :
    aum.canon = aum := by
  have key : aum.key.map AumKey.canon = aum.key := by
    refine map_canon_self (fun key held => ?_)
    have own := canonMeta_of_ordered _ (ordered key.metadata (by simp [metas, held]))
    rw [AumKey.canon, own]
  have state : aum.state.map AumState.canon = aum.state := by
    refine map_canon_self (fun state held => ?_)
    have keys : state.keys.map (map AumKey.canon) = state.keys := by
      refine map_canon_self (fun keys listed => ?_)
      refine (map_congr_left (g := id) (fun key member => ?_)).trans (map_id keys)
      have own := canonMeta_of_ordered _ (ordered key.metadata (by
        simp only [metas, held, mem_cons, mem_append]
        exact .inr (.inr (by simpa [listed] using ⟨key, member, rfl⟩))))
      rw [AumKey.canon, own, id_eq]
    rw [AumState.canon, keys]
  rw [canon, key, state, canonMeta_of_ordered _ (ordered aum.metadata (by simp [metas]))]

theorem Aum.eqUpToMeta_of_encode {a b : Aum} {includeSignatures : Bool} (sizedA : a.Sized)
    (sizedB : b.Sized)
    (same : (a.toCbor includeSignatures).encode = (b.toCbor includeSignatures).encode) :
    Aum.EqUpToMeta { a with signatures := if includeSignatures then a.signatures else [] }
      { b with signatures := if includeSignatures then b.signatures else [] } := by
  have wfA := a.toCbor_wf false 0 includeSignatures sizedA (fun asked => by cases asked)
  have wfB := b.toCbor_wf false 0 includeSignatures sizedB (fun asked => by cases asked)
  have canons := (encode_inj false false 6 6 _ _ wfA wfB [] [] (by rw [same])).1
  rw [toCbor_canon, toCbor_canon] at canons
  have read := a.canon.fromValue_toCbor includeSignatures
  rw [canons, fromValue_toCbor, Except.ok.injEq] at read
  exact eqUpToMeta_of_canon _ _ read.symm

/-- The wire codec: canonical AUMs round-trip exactly, whatever decodes re-encodes
to bytes that decode to it up to the order of metadata, and an encoding determines
the AUM up to that order (and, for the signing preimage, up to the signatures). -/
theorem Aum.wire_codec :
    (∀ aum : Aum, aum.Sized →
      (∀ metadata ∈ aum.metas, DistinctKeys metadata ∧ CanonicalOrder metadata) →
        fromCbor aum.serialize = .ok aum) ∧
    (∀ buf aum, fromCbor buf = .ok aum →
      ∃ again, fromCbor aum.serialize = .ok again ∧ again.EqUpToMeta aum ∧
        again.serialize = aum.serialize) ∧
    (∀ a b : Aum, a.Sized → b.Sized → a.serialize = b.serialize → a.EqUpToMeta b) ∧
    (∀ a b : Aum, a.Sized → b.Sized → (a.toCbor false).encode = (b.toCbor false).encode →
      Aum.EqUpToMeta { a with signatures := [] } { b with signatures := [] }) := by
  refine ⟨?_, ?_, ?_, ?_⟩
  · intro aum sized canonical
    rw [aum.fromCbor_serialize sized (fun m held => (canonical m held).1),
      aum.canon_of_ordered (fun m held => (canonical m held).2)]
  · intro buf aum read
    rw [fromCbor, bind_ok] at read
    obtain ⟨⟨v, rest⟩, decoded, read⟩ := read
    dsimp only at read
    split at read
    · cases read
    · obtain ⟨sized, distinct⟩ := (fromValue_onWire
        ⟨topLevels, decodeValue_wf topLevels v decoded⟩).out read
      exact ⟨aum.canon, aum.fromCbor_serialize sized distinct,
        eqUpToMeta_of_canon _ _ aum.canon_canon, aum.serialize_canon sized⟩
  · intro a b sizedA sizedB same
    exact eqUpToMeta_of_encode sizedA sizedB same
  · intro a b sizedA sizedB same
    exact eqUpToMeta_of_encode sizedA sizedB same

def toyUpdate : Aum where
  messageKind := .updateKey
  prevAumHash := none
  key := none
  keyId := [1, 2, 3]
  state := none
  votes := some 300
  metadata := [("b", "first"), ("aa", "second")]
  signatures := [⟨[1], []⟩]

theorem toyUpdate_sized : toyUpdate.Sized where
  key := by simp [toyUpdate]
  keyId := by decide
  state := by simp [toyUpdate]
  metadata := by
    unfold metaSized
    decide
  signatures := by
    change toyUpdate.signatures.length < 2 ^ 64 ∧ ∀ sig ∈ toyUpdate.signatures,
      sig.keyId.length < 2 ^ 64 ∧ sig.signature.length < 2 ^ 64
    decide

theorem wire_codec_toyUpdate : fromCbor toyUpdate.serialize = .ok toyUpdate := by
  refine wire_codec.1 toyUpdate toyUpdate_sized ?_
  unfold DistinctKeys CanonicalOrder
  decide

end TailscaleRs.Tka
