import TailscaleRs.Tka.NodeKeySignature

namespace TailscaleRs.Tka

open List

namespace NodeKeySignature

def links : NodeKeySignature → List NodeKeySignature
  | sig@⟨_, _, _, _, none, _⟩ => [sig]
  | sig@⟨_, _, _, _, some inner, _⟩ => sig :: inner.links

variable (C : Crypto) (sig : NodeKeySignature)

/-- What a layer signs: its own serialization with the signature taken out. -/
def signingDigest : Digest :=
  C.blake2s256 ({ sig with signature := [] } : NodeKeySignature).serialize

theorem sigHash_eq : sig.sigHash C = sig.signingDigest C := by
  obtain ⟨kind, pubkey, keyId, signature, nested, wrapping⟩ := sig
  cases nested <;> rfl

/-- The accepting runs of `verifySignature`, layer by layer. -/
inductive Verified (C : Crypto) (key : Key) : NodeKeySignature → Prop
  | leaf (sig : NodeKeySignature) (kind : sig.sigKind = .direct ∨ sig.sigKind = .credential)
      (alone : sig.nested = none) (size : key.publicKey.length = 32)
      (signed : verifyEd25519Zip215 C key.publicKey (sig.signingDigest C).bytes sig.signature =
        .ok ()) : Verified C key sig
  | wrap (sig inner : NodeKeySignature) (wrapping : Bytes) (kind : sig.sigKind = .rotation)
      (nests : sig.nested = some inner) (vouched : inner.wrappingPublic = some wrapping)
      (signed : verifyEd25519Std C wrapping (sig.signingDigest C).bytes sig.signature = .ok ())
      (below : Verified C key inner) : Verified C key sig

theorem verifyWrap_ok {sig inner : NodeKeySignature} (checked : sig.verifyWrap C inner = .ok ()) :
    ∃ wrapping, inner.wrappingPublic = some wrapping ∧
      verifyEd25519Std C wrapping (sig.signingDigest C).bytes sig.signature = .ok () := by
  unfold verifyWrap at checked
  rw [bind_ok] at checked
  obtain ⟨wrapping, found, checked⟩ := checked
  rw [← sigHash_eq]
  split at checked
  · cases checked
  · refine ⟨wrapping, ?_, checked⟩
    cases vouched : inner.wrappingPublic with
    | none =>
      rw [vouched] at found
      cases found
    | some other =>
      rw [vouched] at found
      cases found
      rfl

theorem verifyLeaf_ok {key : Key} (checked : sig.verifyLeaf C key = .ok ()) :
    sig.nested = none ∧ key.publicKey.length = 32 ∧
      verifyEd25519Zip215 C key.publicKey (sig.signingDigest C).bytes sig.signature = .ok () := by
  unfold verifyLeaf at checked
  rw [← sigHash_eq]
  split at checked
  · cases checked
  · rename_i alone
    split at checked
    · cases checked
    · rename_i supported
      refine ⟨by simpa using alone, ?_, checked⟩
      exact Decidable.not_not.mp (fun size => supported (.inr size))

/-- An accepted signature is verified layer by layer, and unless it is a credential
it signs the node key it was checked against. -/
theorem verifySignature_ok {nodeKey : Bytes} {key : Key} (sig : NodeKeySignature)
    (checked : sig.verifySignature C nodeKey key = .ok ()) :
    Verified C key sig ∧ (sig.sigKind ≠ .credential → sig.pubkey = nodeKey) := by
  fun_induction verifySignature C nodeKey key sig with
  | case1 => cases checked
  | case2 => cases checked
  | case3 nodeKey pubkey keyId signature wrapping inner covers _ ih =>
    rw [bind_ok] at checked
    obtain ⟨⟨⟩, wrapped, below⟩ := checked
    obtain ⟨wrapping, vouched, signed⟩ := verifyWrap_ok C wrapped
    refine ⟨.wrap _ inner wrapping rfl rfl vouched signed (ih below).1, ?_⟩
    intro other
    exact Decidable.not_not.mp (fun differs => covers ⟨other, differs⟩)
  | case4 nodeKey pubkey keyId signature nested wrapping covers =>
    obtain ⟨alone, size, signed⟩ := verifyLeaf_ok C _ checked
    refine ⟨.leaf _ (.inl rfl) alone size signed, ?_⟩
    intro other
    exact Decidable.not_not.mp (fun differs => covers ⟨other, differs⟩)
  | case5 nodeKey pubkey keyId signature nested wrapping covers =>
    obtain ⟨alone, size, signed⟩ := verifyLeaf_ok C _ checked
    exact ⟨.leaf _ (.inr rfl) alone size signed, fun other => absurd rfl other⟩
  | case6 => cases checked

theorem links_of_nested (sig inner : NodeKeySignature) (nests : sig.nested = some inner) :
    sig.links = sig :: inner.links := by
  obtain ⟨kind, pubkey, keyId, signature, nested, wrapping⟩ := sig
  cases nests
  rfl

theorem links_of_alone (alone : sig.nested = none) : sig.links = [sig] := by
  obtain ⟨kind, pubkey, keyId, signature, nested, wrapping⟩ := sig
  cases alone
  rfl

theorem links_cons : ∃ later, sig.links = sig :: later := by
  cases nested : sig.nested with
  | none => exact ⟨[], sig.links_of_alone nested⟩
  | some inner => exact ⟨inner.links, sig.links_of_nested inner nested⟩

/-- The keys a wrap may be checked under, in the order they are considered. -/
def firstWrapping (chain : List NodeKeySignature) : Option Bytes :=
  (chain.map wrappingPubkey).find? (· ≠ [])

theorem firstWrapping_cons (later : List NodeKeySignature) :
    firstWrapping (sig :: later) =
      if sig.wrappingPubkey ≠ [] then some sig.wrappingPubkey else firstWrapping later := by
  unfold firstWrapping
  by_cases empty : sig.wrappingPubkey = [] <;> simp [empty]

variable (key : Key) (sig : NodeKeySignature) (verified : Verified C key sig)
include verified

theorem Verified.nests : sig.links.IsChain (fun outer inner => outer.nested = some inner) := by
  induction verified with
  | leaf sig kind alone size signed =>
    rw [sig.links_of_alone alone]
    exact isChain_singleton sig
  | wrap sig inner wrapping kind nests vouched signed below ih =>
    obtain ⟨later, shape⟩ := inner.links_cons
    rw [sig.links_of_nested inner nests]
    rw [shape] at ih ⊢
    exact isChain_cons_cons.mpr ⟨nests, ih⟩

theorem Verified.rotations : ∀ s ∈ sig.links.dropLast, s.sigKind = .rotation := by
  induction verified with
  | leaf sig kind alone size signed => simp [sig.links_of_alone alone]
  | wrap sig inner wrapping kind nests vouched signed below ih =>
    obtain ⟨later, shape⟩ := inner.links_cons
    rw [sig.links_of_nested inner nests]
    rw [shape] at ih ⊢
    intro s member
    rw [dropLast_cons_of_ne_nil (cons_ne_nil _ _), mem_cons] at member
    cases member with
    | inl here => rw [here]; exact kind
    | inr deeper => exact ih s deeper

theorem Verified.innermost : ∃ last, sig.links.getLast? = some last ∧
    (last.sigKind = .direct ∨ last.sigKind = .credential) ∧ last.nested = none ∧
    sig.authorizingKeyId = .ok last.keyId ∧ key.publicKey.length = 32 ∧
    verifyEd25519Zip215 C key.publicKey (last.signingDigest C).bytes last.signature = .ok () := by
  induction verified with
  | leaf sig kind alone size signed =>
    refine ⟨sig, by rw [sig.links_of_alone alone]; rfl, kind, alone, ?_, size, signed⟩
    obtain ⟨sigKind, pubkey, keyId, signature, nested, wrapping⟩ := sig
    cases kind with
    | inl direct => cases direct; rfl
    | inr credential => cases credential; rfl
  | wrap sig inner wrapping kind nests vouched signed below ih =>
    obtain ⟨last, ends, facts⟩ := ih
    obtain ⟨innerKind, alone, root, checked⟩ := facts
    refine ⟨last, ?_, innerKind, alone, ?_, checked⟩
    · rw [sig.links_of_nested inner nests, getLast?_cons, ends]
      rfl
    · obtain ⟨sigKind, pubkey, keyId, signature, nested, outerWrapping⟩ := sig
      cases kind
      cases nests
      exact root

theorem Verified.wrappingPublic_eq : sig.wrappingPublic = firstWrapping sig.links := by
  induction verified with
  | leaf sig kind alone size signed =>
    rw [sig.links_of_alone alone, firstWrapping_cons]
    obtain ⟨sigKind, pubkey, keyId, signature, nested, wrapping⟩ := sig
    cases kind with
    | inl direct => cases direct; rfl
    | inr credential => cases credential; rfl
  | wrap sig inner wrapping kind nests vouched signed below ih =>
    rw [sig.links_of_nested inner nests, firstWrapping_cons, ← ih]
    obtain ⟨sigKind, pubkey, keyId, signature, nested, outerWrapping⟩ := sig
    cases kind
    cases nests
    rfl

/-- Every layer above the innermost is signed by the first key wrapped below it. -/
theorem Verified.wrapped (before after : List NodeKeySignature) (layer : NodeKeySignature)
    (split : sig.links = before ++ layer :: after) (above : after ≠ []) :
    ∃ wrapping, firstWrapping after = some wrapping ∧
      verifyEd25519Std C wrapping (layer.signingDigest C).bytes layer.signature = .ok () := by
  induction verified generalizing before with
  | leaf sig kind alone size signed =>
    rw [sig.links_of_alone alone] at split
    have lengths := congrArg length split
    have some := length_pos_iff.mpr above
    simp only [length_cons, length_nil, length_append] at lengths
    omega
  | wrap sig inner wrapping kind nests vouched signed below ih =>
    rw [sig.links_of_nested inner nests] at split
    cases before with
    | nil =>
      obtain ⟨rfl, rfl⟩ := cons.inj split
      exact ⟨wrapping, by rw [← below.wrappingPublic_eq, vouched], signed⟩
    | cons first before => exact ih before (cons.inj split).2

omit verified in
theorem collected_cons (prev : List Bytes) (later : List NodeKeySignature) :
    (if sig.pubkey = [] then prev else prev ++ [sig.pubkey]) ++ (later.map pubkey).filter (· ≠ []) =
      prev ++ ((sig :: later).map pubkey).filter (· ≠ []) := by
  by_cases empty : sig.pubkey = [] <;> simp [empty]

theorem Verified.collectRotated_ok (prev found : List Bytes) (initial : NodeKeySignature)
    (ran : sig.collectRotated prev = .ok (found, initial)) :
    found = prev ++ (sig.links.map pubkey).filter (· ≠ []) ∧ sig.links.getLast? = some initial := by
  induction verified generalizing prev with
  | leaf sig kind alone size signed =>
    rw [sig.links_of_alone alone]
    obtain ⟨sigKind, own, keyId, signature, nested, wrapping⟩ := sig
    cases alone
    have added := collected_cons ⟨sigKind, own, keyId, signature, none, wrapping⟩ prev []
    rw [map_nil, filter_nil, append_nil] at added
    unfold collectRotated at ran
    split at ran
    · cases ran
    · -- a leaf ends the loop whichever of the two kinds it has
      obtain direct | credential := kind
      · cases direct
        cases ran
        exact ⟨added, rfl⟩
      · cases credential
        cases ran
        exact ⟨added, rfl⟩
  | wrap sig inner wrapping kind nests vouched signed below ih =>
    rw [sig.links_of_nested inner nests, ← collected_cons]
    obtain ⟨sigKind, own, keyId, signature, nested, outerWrapping⟩ := sig
    cases kind
    cases nests
    unfold collectRotated at ran
    split at ran
    · cases ran
    · obtain ⟨same, ends⟩ := ih _ ran
      refine ⟨same, ?_⟩
      rw [getLast?_cons, ends]
      rfl

end NodeKeySignature

open NodeKeySignature

/-- A signature chain `outer :: later`, ending at `last`, that roots the node key in a
key of the state. -/
structure AuthorizingChain (C : Crypto) (state : State) (nodeKey : Bytes)
    (outer : NodeKeySignature) (later : List NodeKeySignature) (last : NodeKeySignature) :
    Prop where
  nests : (outer :: later).IsChain (fun s inner => s.nested = some inner)
  ends : (outer :: later).getLast? = some last
  outer_kind : outer.sigKind ≠ .credential
  outer_pubkey : outer.pubkey = nodeKey
  rotations : ∀ s ∈ (outer :: later).dropLast, s.sigKind = .rotation
  last_kind : last.sigKind = .direct ∨ last.sigKind = .credential
  last_alone : last.nested = none
  last_signed : ∃ key ∈ state.keys, key.id = last.keyId ∧ key.publicKey.length = 32 ∧
    verifyEd25519Zip215 C key.publicKey (last.signingDigest C).bytes last.signature = .ok ()
  wrapped : ∀ before s after, outer :: later = before ++ s :: after → after ≠ [] →
    ∃ wrapping, firstWrapping after = some wrapping ∧
      verifyEd25519Std C wrapping (s.signingDigest C).bytes s.signature = .ok ()

def chainDetails (outer : NodeKeySignature) (later : List NodeKeySignature)
    (last : NodeKeySignature) : Option RotationDetails :=
  if outer.sigKind = .rotation then
    some ⟨(later.map pubkey).filter (· ≠ []), last.sigKind, last.wrappingPubkey⟩
  else none

variable (C : Crypto)

theorem Verified.authorizingChain {state : State} {nodeKey : Bytes} (key : Key)
    {outer : NodeKeySignature} {later : List NodeKeySignature} {keyId : Bytes}
    (verified : Verified C key outer) (shape : outer.links = outer :: later)
    (kind : outer.sigKind ≠ .credential) (covers : outer.pubkey = nodeKey)
    (root : outer.authorizingKeyId = .ok keyId) (trusted : state.getKey keyId = some key) :
    ∃ last, AuthorizingChain C state nodeKey outer later last := by
  obtain ⟨last, ends, lastKind, alone, rootLast, size, signed⟩ := verified.innermost
  rw [root] at rootLast
  cases rootLast
  have named : key.id = last.keyId := by simpa using find?_some trusted
  rw [shape] at ends
  refine ⟨last, ?_, ends, kind, covers, ?_, lastKind, alone, ?_, ?_⟩
  · rw [← shape]; exact verified.nests
  · rw [← shape]; exact verified.rotations
  · exact ⟨key, mem_of_find?_eq_some trusted, named, size, signed⟩
  · rw [← shape]; exact fun before s after => verified.wrapped C key outer before after s

theorem Verified.rotationDetails_ok (key : Key) {outer last : NodeKeySignature}
    {later : List NodeKeySignature} (d : Option RotationDetails) (verified : Verified C key outer)
    (shape : outer.links = outer :: later) (ends : (outer :: later).getLast? = some last)
    (ran : outer.rotationDetails = .ok d) : d = chainDetails outer later last := by
  cases verified with
  | leaf _ kind alone size signed =>
    have other : outer.sigKind ≠ .rotation := by
      cases kind with
      | inl direct => rw [direct]; decide
      | inr credential => rw [credential]; decide
    rw [rotationDetails, if_pos other] at ran
    cases ran
    rw [chainDetails, if_neg other]
  | wrap _ inner wrapping kind nests vouched signed below =>
    rw [outer.links_of_nested inner nests] at shape
    have rest : later = inner.links := (cons.inj shape).2.symm
    rw [rotationDetails, if_neg (not_not_intro kind), nests] at ran
    rw [bind_ok] at ran
    obtain ⟨⟨found, initial⟩, collected, same⟩ := ran
    cases same
    obtain ⟨keys, innermost⟩ := below.collectRotated_ok C key inner [] found initial collected
    rw [getLast?_cons, rest, innermost] at ends
    cases ends
    rw [chainDetails, if_pos kind, rest, keys]
    rfl

variable {C} {authority : Authority} {nodeKey signatureCbor : Bytes} {d : Option RotationDetails}
  (authorized : authority.nodeKeyAuthorizedWithDetails C nodeKey signatureCbor = .ok d)
include authorized

theorem Authority.nodeKeyAuthorized_ok :
    ∃ sig keyId key, decodeNodeKeySignature signatureCbor = .ok sig ∧ sig.sigKind ≠ .credential ∧
      sig.authorizingKeyId = .ok keyId ∧ authority.state.getKey keyId = some key ∧
      sig.verifySignature C nodeKey key = .ok () ∧ sig.rotationDetails = .ok d := by
  unfold Authority.nodeKeyAuthorizedWithDetails at authorized
  rw [bind_ok] at authorized
  obtain ⟨sig, decoded, authorized⟩ := authorized
  split at authorized
  · cases authorized
  · rename_i kind
    rw [bind_ok] at authorized
    obtain ⟨keyId, root, authorized⟩ := authorized
    split at authorized
    · cases authorized
    · rename_i key trusted
      rw [bind_ok] at authorized
      obtain ⟨⟨⟩, checked, details⟩ := authorized
      exact ⟨sig, keyId, key, decoded, kind, root, trusted, checked, details⟩

/-- A signature authorizes one node key. -/
theorem Authority.nodeKeyAuthorized_unique {other : Bytes} {d' : Option RotationDetails}
    (authorized' : authority.nodeKeyAuthorizedWithDetails C other signatureCbor = .ok d') :
    other = nodeKey := by
  obtain ⟨sig, _, _, decoded, kind, -, -, checked, -⟩ := nodeKeyAuthorized_ok authorized
  obtain ⟨_, _, _, decoded', -, -, -, checked', -⟩ := nodeKeyAuthorized_ok authorized'
  cases decoded.symm.trans decoded'
  exact ((sig.verifySignature_ok C checked').2 kind).symm.trans
    ((sig.verifySignature_ok C checked).2 kind)

omit authorized
variable (C)

theorem Authority.nodeKeyAuthorized_sound (authority : Authority) (nodeKey signatureCbor : Bytes)
    (d : Option RotationDetails)
    (authorized : authority.nodeKeyAuthorizedWithDetails C nodeKey signatureCbor = .ok d) :
    ∃ outer later last, decodeNodeKeySignature signatureCbor = .ok outer ∧
      AuthorizingChain C authority.state nodeKey outer later last ∧
      d = chainDetails outer later last := by
  obtain ⟨outer, keyId, key, decoded, kind, root, trusted, checked, details⟩ :=
    nodeKeyAuthorized_ok authorized
  obtain ⟨verified, covers⟩ := outer.verifySignature_ok C checked
  obtain ⟨later, shape⟩ := outer.links_cons
  obtain ⟨last, chain⟩ :=
    Verified.authorizingChain C key verified shape kind (covers kind) root trusted
  exact ⟨outer, later, last, decoded, chain,
    Verified.rotationDetails_ok C key d verified shape chain.ends details⟩

/-- A credential of the key of seed 1 vouching for the rotation key of seed 9, and two
rotations signed by that key; the lower one names no key of its own. -/
def toyRotation : NodeKeySignature :=
  let credential : NodeKeySignature :=
    ⟨.credential, [], replicate 32 1, replicate 64 1, none, replicate 32 9⟩
  let middle : NodeKeySignature :=
    ⟨.rotation, replicate 32 5, [], replicate 64 9, some credential, []⟩
  ⟨.rotation, replicate 32 6, [], replicate 64 9, some middle, []⟩

theorem nodeKeyAuthorized_sound_toyRotation :
    ∃ outer later last, decodeNodeKeySignature toyRotation.serialize = .ok outer ∧
      AuthorizingChain Crypto.toy ⟨[(toyKey 1).toKey]⟩ (replicate 32 6) outer later last ∧
      some ⟨[replicate 32 5], .credential, replicate 32 9⟩ = chainDetails outer later last := by
  exact Authority.nodeKeyAuthorized_sound Crypto.toy
    ⟨toyGenesis.hash Crypto.toy, ⟨[(toyKey 1).toKey]⟩⟩ (replicate 32 6)
    toyRotation.serialize (some ⟨[replicate 32 5], .credential, replicate 32 9⟩)
    (by decide +kernel)

end TailscaleRs.Tka
