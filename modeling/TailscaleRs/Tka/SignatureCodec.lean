import TailscaleRs.Tka.AumRoundTrip
import TailscaleRs.Tka.NodeKeySignature

namespace TailscaleRs.Tka

open NodeKeySignature
open Cbor (Value intMapOf presentFields)
open Depth (descend within)

theorem nodeKeySignatureFromValue_eq_descend (levels : Nat) :
    nodeKeySignatureFromValue levels =
      descend (.error (.decode "nested signature too deep")) fromEntries levels := by
  induction levels with
  | zero => rfl
  | succ levels ih =>
    funext v
    rw [descend, ← ih]
    rfl

variable (beyondValue : Nat → Bytes → Except TkaError (Value × Bytes))
  (beyondSignature : Nat → Value → Except TkaError NodeKeySignature)

/-- `decode_node_key_signature` with both depth counters as the source keeps them, and
`recursions` levels of recursive calls. What a call past those would do is free. -/
def decodeNodeKeySignatureWithin (recursions : Nat) (buf : Bytes) :
    Except TkaError NodeKeySignature := do
  let (val, rest) ← within maxSigNestingDepth (.error (.decode "CBOR nesting too deep"))
    (decodeBody true) beyondValue recursions 0 buf
  if rest ≠ [] then .error (.decode "trailing bytes after signature")
  else
    within maxSigNestingDepth (.error (.decode "nested signature too deep"))
      fromEntries beyondSignature recursions 0 val

/-- No call is made past level `MAX_SIG_NESTING_DEPTH + 1`, whatever the input. -/
theorem decodeNodeKeySignatureWithin_eq (buf : Bytes) :
    decodeNodeKeySignatureWithin beyondValue beyondSignature (maxSigNestingDepth + 1) buf =
      decodeNodeKeySignature buf := by
  have enough : maxSigNestingDepth < 0 + (maxSigNestingDepth + 1) := by omega
  rw [decodeNodeKeySignatureWithin, Depth.within_eq_descend _ _ _ _ _ _ enough,
    Depth.within_eq_descend _ _ _ _ _ _ enough, ← nodeKeySignatureFromValue_eq_descend,
    show descend _ (decodeBody true) _ = _ from decodeIn_eq _]
  rfl

namespace NodeKeySignature

def nesting : NodeKeySignature → Nat
  | ⟨_, _, _, _, none, _⟩ => 0
  | ⟨_, _, _, _, some inner, _⟩ => inner.nesting + 1

/-- Machine lengths, in every layer: what any `Vec` of the source satisfies. -/
inductive Sized : NodeKeySignature → Prop where
  | layer (sig : NodeKeySignature) (pubkey : sig.pubkey.length < 2 ^ 64)
      (keyId : sig.keyId.length < 2 ^ 64) (signature : sig.signature.length < 2 ^ 64)
      (wrapping : sig.wrappingPubkey.length < 2 ^ 64)
      (nested : ∀ inner, sig.nested = some inner → Sized inner) : Sized sig

variable (includeSignature : Bool) (sig : NodeKeySignature)

theorem toCbor_eq : sig.toCbor includeSignature =
    intMapOf (sig.fields includeSignature (sig.nested.map (toCbor true))) := by
  obtain ⟨_, _, _, _, nested, _⟩ := sig
  cases nested <;> rw [toCbor] <;> rfl

theorem nesting_of_nested {inner : NodeKeySignature} (holds : sig.nested = some inner) :
    sig.nesting = inner.nesting + 1 := by
  obtain ⟨_, _, _, _, nested, _⟩ := sig
  cases holds
  rw [nesting]

theorem nesting_of_leaf (holds : sig.nested = none) : sig.nesting = 0 := by
  obtain ⟨_, _, _, _, nested, _⟩ := sig
  cases holds
  rw [nesting]

theorem fields_sorted (nested : Option Value) :
    ((sig.fields includeSignature nested).map Prod.fst).Pairwise (· < ·) := by
  change ([1, 2, 3, 4, 5, 6] : List UInt64).Pairwise (· < ·)
  decide

variable {sig}

theorem mem_fields {nested : Option Value} {k : UInt64} {v : Value}
    (member : (k, some v) ∈ sig.fields includeSignature nested) :
    v = .uint sig.sigKind.toU8.toUInt64 ∨ nested = some v ∨
      ∃ b ∈ [sig.pubkey, sig.keyId, sig.signature, sig.wrappingPubkey], v = .bytes b := by
  simp only [fields, nonemptyBytes, List.mem_cons, Prod.mk.injEq, List.not_mem_nil, or_false]
    at member ⊢
  grind

theorem toCbor_wf (unique : Bool) (spare : Nat) (sized : sig.Sized) :
    (sig.toCbor includeSignature).Wf unique (spare + sig.nesting + 2) := by
  induction sized generalizing includeSignature with
  | layer sig pubkey keyId signature wrapping nested ih =>
    rw [toCbor_eq]
    refine intMapOf_wf unique (spare + sig.nesting + 1) (sig.fields_sorted _ _)
      (show 6 < 2 ^ 64 by decide) fun k v member => ?_
    obtain rfl | below | ⟨b, listed, rfl⟩ := mem_fields includeSignature member
    · exact .uint _ _
    · obtain ⟨inner, holds, rfl⟩ := Option.map_eq_some_iff.mp below
      rw [sig.nesting_of_nested holds]
      exact ih inner holds true
    · refine .bytes _ b ?_
      simp only [List.mem_cons, List.not_mem_nil, or_false] at listed
      rcases listed with rfl | rfl | rfl | rfl <;> assumption

/-- Conversely no fewer levels will do, since the kind is always there. -/
theorem nesting_of_wf (unique : Bool) (levels : Nat) (sized : sig.Sized)
    (wf : (sig.toCbor includeSignature).Wf unique levels) : sig.nesting + 2 ≤ levels := by
  induction sized generalizing includeSignature levels with
  | layer sig _ _ _ _ nested ih =>
    rw [toCbor_eq, intMapOf] at wf
    cases wf with
    | intMap depth entries fits distinct inner =>
      cases holds : sig.nested with
      | none =>
        have kind := inner (1, _) ((Cbor.mem_presentFields _ _ _).mpr List.mem_cons_self)
        rw [sig.nesting_of_leaf holds]
        cases kind
        omega
      | some below =>
        have deeper := inner (5, below.toCbor true) <| (Cbor.mem_presentFields _ _ _).mpr <| by
          simp [fields, holds]
        rw [sig.nesting_of_nested holds]
        have levels := ih below holds true depth deeper
        omega

theorem toCbor_canon (sized : sig.Sized) :
    (sig.toCbor includeSignature).canon = sig.toCbor includeSignature := by
  induction sized generalizing includeSignature with
  | layer sig _ _ _ _ nested ih =>
    rw [toCbor_eq, intMapOf_canon _ (sig.fields_sorted _ _)]
    refine congrArg intMapOf ((List.map_congr_left fun field member => ?_).trans (List.map_id _))
    obtain ⟨k, _ | v⟩ := field
    · rfl
    · obtain rfl | below | ⟨b, -, rfl⟩ := mem_fields includeSignature member
      · rfl
      · obtain ⟨inner, holds, rfl⟩ := Option.map_eq_some_iff.mp below
        rw [Option.map_some, ih inner holds true]
        rfl
      · rfl

theorem readOptional_nonemptyBytes {P : Type} (read : P → UInt64 × Value → Except TkaError P)
    (k : UInt64) (p : P) (set : Bytes → P) (b : Bytes) (unset : set [] = p)
    (reads : read p (k, .bytes b) = .ok (set b)) :
    readOptional read p k (nonemptyBytes b) = .ok (set b) := by
  unfold nonemptyBytes
  split
  · rename_i empty
    rw [empty, unset]
    rfl
  · exact reads

theorem fromValue_toCbor (spare : Nat) (sized : sig.Sized) :
    nodeKeySignatureFromValue (spare + sig.nesting + 1) (sig.toCbor true) = .ok sig := by
  induction sized with
  | layer sig _ _ _ _ nested ih =>
    have kindRead : readField (nodeKeySignatureFromValue (spare + sig.nesting))
        ⟨none, [], [], [], none, []⟩ (1, .uint sig.sigKind.toU8.toUInt64) =
        .ok ⟨some sig.sigKind, [], [], [], none, []⟩ := by
      cases sig.sigKind <;> rfl
    have nestedRead : readOptional (readField (nodeKeySignatureFromValue (spare + sig.nesting)))
        ⟨some sig.sigKind, sig.pubkey, sig.keyId, sig.signature, none, []⟩ 5
        (sig.nested.map (toCbor true)) =
        .ok ⟨some sig.sigKind, sig.pubkey, sig.keyId, sig.signature, sig.nested, []⟩ := by
      cases holds : sig.nested with
      | none => rfl
      | some inner =>
        change (nodeKeySignatureFromValue _ (inner.toCbor true) >>= _) = _
        rw [sig.nesting_of_nested holds, ← Nat.add_assoc, ih inner holds]
        rfl
    have fieldsRead : (presentFields (sig.fields true (sig.nested.map (toCbor true)))).foldlM
        (readField (nodeKeySignatureFromValue (spare + sig.nesting)))
        ⟨none, [], [], [], none, []⟩ = .ok ⟨some sig.sigKind, sig.pubkey, sig.keyId,
          sig.signature, sig.nested, sig.wrappingPubkey⟩ :=
      readFields_cons kindRead <|
      readFields_cons (readOptional_nonemptyBytes _ 2 _
        (fun b => ⟨some sig.sigKind, b, [], [], none, []⟩) sig.pubkey rfl rfl) <|
      readFields_cons (readOptional_nonemptyBytes _ 3 _
        (fun b => ⟨some sig.sigKind, sig.pubkey, b, [], none, []⟩) sig.keyId rfl rfl) <|
      readFields_cons (readOptional_nonemptyBytes _ 4 _
        (fun b => ⟨some sig.sigKind, sig.pubkey, sig.keyId, b, none, []⟩) sig.signature rfl
        rfl) <|
      readFields_cons nestedRead <|
      readFields_cons (readOptional_nonemptyBytes _ 6 _
        (fun b => ⟨some sig.sigKind, sig.pubkey, sig.keyId, sig.signature, sig.nested, b⟩)
        sig.wrappingPubkey rfl rfl) rfl
    rw [toCbor_eq]
    change ((presentFields _).foldlM _ _ >>= _) = _
    rw [fieldsRead]
    cases sig
    rfl

end NodeKeySignature

open NodeKeySignature in
/-- The wire codec of node-key signatures: a chain of at most 15 nested signatures reads back, a
deeper one is refused, and no input makes either recursion of the decoder go deeper than
`MAX_SIG_NESTING_DEPTH + 1` levels, since nothing a call there would do is ever seen. -/
theorem decodeNodeKeySignature_codec :
    (∀ sig : NodeKeySignature, sig.Sized → sig.nesting ≤ 15 →
      decodeNodeKeySignature sig.serialize = .ok sig) ∧
    (∀ sig : NodeKeySignature, sig.Sized → 15 < sig.nesting →
      ∃ error, decodeNodeKeySignature sig.serialize = .error error) ∧
    ∀ beyondValue beyondSignature buf,
      decodeNodeKeySignatureWithin beyondValue beyondSignature (maxSigNestingDepth + 1) buf =
        decodeNodeKeySignature buf := by
  refine ⟨fun sig sized shallow => ?_, fun sig sized deep => ?_, decodeNodeKeySignatureWithin_eq⟩
  · obtain ⟨spare, levels⟩ : ∃ spare, topLevels = spare + sig.nesting + 2 :=
      ⟨15 - sig.nesting, by rw [topLevels, maxSigNestingDepth]; omega⟩
    have read := decodeValue_encode _ _ (toCbor_wf true true spare sized) []
    rw [List.append_nil, toCbor_canon true sized] at read
    rw [decodeNodeKeySignature, serialize, levels, read]
    have back := fromValue_toCbor (spare + 1) sized
    rwa [Nat.add_right_comm spare 1] at back
  · cases ran : decodeNodeKeySignature sig.serialize with
    | error error => exact ⟨error, rfl⟩
    | ok other =>
      -- The value read is the whole chain, and it does not fit in the levels.
      rw [decodeNodeKeySignature, bind_ok] at ran
      obtain ⟨⟨v, rest⟩, read, -⟩ := ran
      have whole := decodeValue_of_encode (toCbor_wf true true topLevels sized) read
      rw [toCbor_canon true sized] at whole
      subst whole
      have fits := nesting_of_wf true true _ sized (decodeValue_wf _ _ read)
      rw [topLevels, maxSigNestingDepth] at fits
      omega

def layered : Nat → NodeKeySignature
  | 0 => ⟨.direct, [1], [2], [3], none, [4]⟩
  | n + 1 => ⟨.rotation, [1], [], [3], some (layered n), []⟩

theorem layered_sized {n : Nat} : (layered n).Sized := by
  induction n with
  | zero => exact .layer _ (by decide) (by decide) (by decide) (by decide) fun _ is => by cases is
  | succ n ih =>
    refine .layer _ (by simp [layered]) (by simp [layered]) (by simp [layered])
      (by simp [layered]) fun inner is => ?_
    cases is
    exact ih

theorem layered_nesting {n : Nat} : (layered n).nesting = n := by
  induction n with
  | zero => rfl
  | succ n ih => rw [layered, nesting, ih]

theorem decodeNodeKeySignature_codec_layered :
    decodeNodeKeySignature (layered 15).serialize = .ok (layered 15) ∧
      ∃ error, decodeNodeKeySignature (layered 16).serialize = .error error :=
  ⟨decodeNodeKeySignature_codec.1 _ layered_sized (Nat.le_of_eq layered_nesting),
    decodeNodeKeySignature_codec.2.1 _ layered_sized
      (Nat.lt_of_lt_of_eq (by decide) layered_nesting.symm)⟩

/-- The bytes that are signed for an AUM and for a node-key signature that names a key never agree:
the field of that key id holds a whole key in an AUM. -/
theorem aum_signature_ne_nodeKeySignature (aum : Aum) (sig : NodeKeySignature) (sized : aum.Sized)
    (sized' : sig.Sized) (rooted : sig.keyId ≠ []) :
    (aum.toCbor false).encode ≠ (sig.toCbor false).encode := by
  intro same
  have wf := aum.toCbor_wf false 0 false sized fun asked => by cases asked
  have wf' := toCbor_wf false false 0 sized'
  have canons := (encode_inj false false _ _ _ _ wf wf' [] [] (by rw [same])).1
  rw [toCbor_canon false sized', toCbor_eq, Aum.toCbor,
    intMapOf_canon _ (aum.fields_sorted false)] at canons
  have entries : presentFields (canonFields (aum.fields false)) = presentFields _ :=
    Value.intMap.inj canons
  have named : (3, Value.bytes sig.keyId) ∈ presentFields (canonFields (aum.fields false)) := by
    rw [entries, Cbor.mem_presentFields]
    simp [fields, nonemptyBytes, rooted]
  rw [Cbor.mem_presentFields] at named
  simp [canonFields, Aum.fields] at named
  obtain ⟨key, -, is⟩ := named
  rw [AumKey.toCbor, intMapOf, Cbor.intMap_canon] at is
  cases is

theorem aum_signature_ne_nodeKeySignature_toyUpdate :
    (toyUpdate.toCbor false).encode ≠ ((layered 0).toCbor false).encode :=
  aum_signature_ne_nodeKeySignature toyUpdate (layered 0) toyUpdate_sized layered_sized
    (List.cons_ne_nil _ _)

end TailscaleRs.Tka
