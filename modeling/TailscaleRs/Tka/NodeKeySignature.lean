import TailscaleRs.Tka.FromValue
import TailscaleRs.Tka.Verify

namespace TailscaleRs.Tka

open Cbor (Value intMapOf)

inductive SigKind where
  | invalid
  | direct
  | rotation
  | credential
  deriving DecidableEq, Repr

def SigKind.toU8 : SigKind → UInt8
  | .invalid => 0
  | .direct => 1
  | .rotation => 2
  | .credential => 3

def SigKind.fromU8 (n : UInt8) : Option SigKind :=
  if n = 0 then some .invalid
  else if n = 1 then some .direct
  else if n = 2 then some .rotation
  else if n = 3 then some .credential
  else none

/-- Proof that a node key is authorized: signed by a trusted key, or by a rotation
key that the nested signature vouches for. -/
structure NodeKeySignature where
  sigKind : SigKind
  pubkey : Bytes
  keyId : Bytes
  signature : Bytes
  nested : Option NodeKeySignature
  wrappingPubkey : Bytes

structure RotationDetails where
  prevNodeKeys : List Bytes
  initialSigKind : SigKind
  initialWrappingPubkey : Bytes
  deriving DecidableEq

namespace NodeKeySignature

variable (sig : NodeKeySignature)

/-- The field table; the signature field is left out of the signing preimage. -/
def fields (includeSignature : Bool) (nested : Option Value) : List (UInt64 × Option Value) :=
  [(1, some (.uint sig.sigKind.toU8.toUInt64)),
   (2, nonemptyBytes sig.pubkey),
   (3, nonemptyBytes sig.keyId),
   (4, if includeSignature then nonemptyBytes sig.signature else none),
   (5, nested),
   (6, nonemptyBytes sig.wrappingPubkey)]

def toCbor (includeSignature : Bool) : NodeKeySignature → Value
  | sig@⟨_, _, _, _, none, _⟩ => intMapOf (sig.fields includeSignature none)
  | sig@⟨_, _, _, _, some inner, _⟩ =>
    intMapOf (sig.fields includeSignature (some (inner.toCbor true)))

def serialize : Bytes := (sig.toCbor true).encode

variable (C : Crypto)

def sigHash (sig : NodeKeySignature) : Digest :=
  C.blake2s256 (sig.toCbor false).encode

/-- The key id that roots the signature in a trusted key. -/
def authorizingKeyId : NodeKeySignature → Except TkaError Bytes
  | ⟨.rotation, _, _, _, some inner, _⟩ => inner.authorizingKeyId
  | ⟨.rotation, _, _, _, none, _⟩ => .error (.decode "rotation signature missing nested")
  | ⟨.direct, _, keyId, _, _, _⟩ => .ok keyId
  | ⟨.credential, _, keyId, _, _, _⟩ => .ok keyId
  | ⟨.invalid, _, _, _, _, _⟩ => .error (.decode "invalid signature kind")

/-- The rotation key this signature vouches for. A rotation without one of its own
passes on the one below. -/
def wrappingPublic : NodeKeySignature → Option Bytes
  | ⟨.rotation, _, _, _, some inner, wrapping⟩ =>
    if wrapping ≠ [] then some wrapping else inner.wrappingPublic
  | ⟨_, _, _, _, _, wrapping⟩ => if wrapping ≠ [] then some wrapping else none

/-- The signature of a rotation layer against the key its nested signature wraps. -/
def verifyWrap (sig inner : NodeKeySignature) : Except TkaError Unit := do
  let verifyPub ← required "missing rotation key" inner.wrappingPublic
  if verifyPub.length ≠ 32 then .error (.decode "wrapping pubkey wrong length")
  else verifyEd25519Std C verifyPub (sig.sigHash C).bytes sig.signature

/-- The signature of the innermost layer against the trusted key. -/
def verifyLeaf (sig : NodeKeySignature) (verificationKey : Key) : Except TkaError Unit :=
  if sig.nested.isSome then .error (.decode "direct/credential signature has nested")
  else if verificationKey.kind ≠ .ed25519 ∨ verificationKey.publicKey.length ≠ 32 then
    .error (.decode "verification key not ed25519")
  else verifyEd25519Zip215 C verificationKey.publicKey (sig.sigHash C).bytes sig.signature

/-- The node key a nested signature is checked against: a credential certifies an
indirection key, so it is not held to a node key. -/
def nestedNodeKey (inner : NodeKeySignature) : Bytes :=
  if inner.sigKind = .credential then [] else inner.pubkey

def verifySignature (C : Crypto) (nodeKey : Bytes) (verificationKey : Key) :
    NodeKeySignature → Except TkaError Unit
  | sig@⟨kind, pubkey, _, _, nested, _⟩ =>
    if kind ≠ .credential ∧ pubkey ≠ nodeKey then .error .nodeKeyMismatch
    else match kind, nested with
      | .rotation, none => .error (.decode "rotation signature missing nested")
      | .rotation, some inner => do
          verifyWrap C sig inner
          inner.verifySignature C inner.nestedNodeKey verificationKey
      | .direct, _ => verifyLeaf C sig verificationKey
      | .credential, _ => verifyLeaf C sig verificationKey
      | .invalid, _ => .error (.decode "invalid signature kind")

/-- The `while let` loop of `rotation_details`, entered at a nested signature: the
node keys collected so far and the innermost signature reached. -/
def collectRotated : NodeKeySignature → List Bytes → Except TkaError (List Bytes × NodeKeySignature)
  | sig@⟨kind, pubkey, _, _, nested, _⟩, prev =>
    if pubkey ≠ [] ∧ pubkey.length ≠ 32 then
      .error (.decode "nested rotation pubkey wrong length")
    else
      let prev := if pubkey = [] then prev else prev ++ [pubkey]
      match kind, nested with
      | .rotation, some inner => inner.collectRotated prev
      | _, _ => .ok (prev, sig)

def rotationDetails : Except TkaError (Option RotationDetails) :=
  if sig.sigKind ≠ .rotation then .ok none
  else match sig.nested with
    | none => .ok none
    | some inner => do
        let (prev, initial) ← inner.collectRotated []
        return some ⟨prev, initial.sigKind, initial.wrappingPubkey⟩

end NodeKeySignature

structure PartialNodeKeySignature where
  sigKind : Option SigKind
  pubkey : Bytes
  keyId : Bytes
  signature : Bytes
  nested : Option NodeKeySignature
  wrappingPubkey : Bytes

section

variable (fromNested : Value → Except TkaError NodeKeySignature)

def NodeKeySignature.readField (sig : PartialNodeKeySignature) (field : UInt64 × Value) :
    Except TkaError PartialNodeKeySignature :=
  let (k, v) := field
  if k = 1 then do
    match v with
    | .uint n =>
      let n ← narrowU8 "sig kind range" n
      let kind ← required "unknown sig kind" (SigKind.fromU8 n)
      return { sig with sigKind := some kind }
    | _ => .error (.decode "sig kind not uint")
  else if k = 2 then do
    let b ← expectBytes v
    return { sig with pubkey := b }
  else if k = 3 then do
    let b ← expectBytes v
    return { sig with keyId := b }
  else if k = 4 then do
    let b ← expectBytes v
    return { sig with signature := b }
  else if k = 5 then do
    let inner ← fromNested v
    return { sig with nested := some inner }
  else if k = 6 then do
    let b ← expectBytes v
    return { sig with wrappingPubkey := b }
  else .error (.decode "unknown signature field")

def NodeKeySignature.fromEntries : Value → Except TkaError NodeKeySignature
  | .intMap entries => do
      let sig ← entries.foldlM (readField fromNested) ⟨none, [], [], [], none, []⟩
      let kind ← required "signature missing kind" sig.sigKind
      return ⟨kind, sig.pubkey, sig.keyId, sig.signature, sig.nested, sig.wrappingPubkey⟩
  | _ => .error (.decode "signature is not an int-keyed map")

end

/-- One signature layer; as for `decodeValue`, the argument counts the levels left. -/
def nodeKeySignatureFromValue : Nat → Value → Except TkaError NodeKeySignature
  | 0, _ => .error (.decode "nested signature too deep")
  | levels + 1, v => NodeKeySignature.fromEntries (nodeKeySignatureFromValue levels) v

def decodeNodeKeySignature (buf : Bytes) : Except TkaError NodeKeySignature := do
  let (val, rest) ← decodeValue topLevels buf
  if rest ≠ [] then .error (.decode "trailing bytes after signature")
  else nodeKeySignatureFromValue topLevels val

variable (C : Crypto) (authority : Authority) (nodeKey signatureCbor : Bytes)

def Authority.nodeKeyAuthorizedWithDetails :
    Except TkaError (Option RotationDetails) := do
  let sig ← decodeNodeKeySignature signatureCbor
  if sig.sigKind = .credential then .error .credentialCannotAuthorize
  else
    let keyId ← sig.authorizingKeyId
    match authority.state.getKey keyId with
    | none => .error .untrustedKey
    | some key =>
      sig.verifySignature C nodeKey key
      sig.rotationDetails

def Authority.nodeKeyAuthorized : Except TkaError Unit := do
  let _ ← authority.nodeKeyAuthorizedWithDetails C nodeKey signatureCbor
  return ()

end TailscaleRs.Tka
