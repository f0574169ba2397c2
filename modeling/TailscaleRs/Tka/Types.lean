import TailscaleRs.Cbor.Value

namespace TailscaleRs.Tka

inductive TkaError where
  | decode (message : String)
  | badSignature
  | untrustedKey
  | credentialCannotAuthorize
  | nodeKeyMismatch
  | badParent
  | badKeyState
  | badChain
  | unsignedAum
  deriving DecidableEq, Repr

def aumHashLen : Nat := 32
def maxKeys : Nat := 512
def maxDisablementValues : Nat := 32
def disablementLength : Nat := 32
def maxMetaBytes : Nat := 512
def maxKeyVotes : UInt32 := 4096

structure Digest where
  bytes : Bytes
  size : bytes.length = aumHashLen
  deriving DecidableEq

/-- The hash that identifies an AUM and links the chain; ordered by its bytes. -/
structure AumHash where
  digest : Digest
  deriving DecidableEq

instance : LT AumHash := ⟨fun a b => a.digest.bytes < b.digest.bytes⟩

instance (a b : AumHash) : Decidable (a < b) :=
  inferInstanceAs (Decidable (a.digest.bytes < b.digest.bytes))

/-- The third-party primitives: BLAKE2s-256, and for each Ed25519 variant whether
32 bytes decode to a verification key and whether a 64-byte signature verifies. -/
structure Crypto where
  blake2s256 : Bytes → Digest
  stdKeyValid : Bytes → Bool
  stdVerify : Bytes → Bytes → Bytes → Bool
  zip215KeyValid : Bytes → Bool
  zip215Verify : Bytes → Bytes → Bytes → Bool

/-- RFC 8032 verification behind the length checks. -/
def verifyEd25519Std (C : Crypto) (publicKey msg sig : Bytes) : Except TkaError Unit :=
  if publicKey.length ≠ 32 then .error (.decode "bad pubkey len")
  else if ¬C.stdKeyValid publicKey then .error (.decode "bad ed25519 pubkey")
  else if sig.length ≠ 64 then .error (.decode "bad sig len")
  else if C.stdVerify publicKey msg sig then .ok ()
  else .error .badSignature

/-- ZIP-215 (cofactored) verification behind the length checks. -/
def verifyEd25519Zip215 (C : Crypto) (publicKey msg sig : Bytes) : Except TkaError Unit :=
  if publicKey.length ≠ 32 then .error (.decode "bad pubkey len")
  else if ¬C.zip215KeyValid publicKey then .error (.decode "bad ed25519 pubkey")
  else if sig.length ≠ 64 then .error (.decode "bad sig len")
  else if C.zip215Verify publicKey msg sig then .ok ()
  else .error .badSignature

inductive AumKind where
  | invalid
  | addKey
  | removeKey
  | noOp
  | updateKey
  | checkpoint
  deriving DecidableEq, Repr

def AumKind.toU8 : AumKind → UInt8
  | .invalid => 0
  | .addKey => 1
  | .removeKey => 2
  | .noOp => 3
  | .updateKey => 4
  | .checkpoint => 5

def AumKind.fromU8 (n : UInt8) : Option AumKind :=
  if n = 0 then some .invalid
  else if n = 1 then some .addKey
  else if n = 2 then some .removeKey
  else if n = 3 then some .noOp
  else if n = 4 then some .updateKey
  else if n = 5 then some .checkpoint
  else none

inductive KeyKind where
  | ed25519
  deriving DecidableEq, Repr

def KeyKind.toU8 : KeyKind → UInt8
  | .ed25519 => 1

abbrev Meta := List (String × String)

def asBytes (s : String) : Bytes := s.toByteArray.data.toList

structure AumKey where
  kind : KeyKind
  votes : UInt32
  publicKey : Bytes
  metadata : Meta
  deriving DecidableEq

def AumKey.id (key : AumKey) : Bytes := key.publicKey

/-- The verify-path key, without the metadata. -/
structure Key where
  kind : KeyKind
  votes : UInt32
  publicKey : Bytes
  deriving DecidableEq

def Key.id (key : Key) : Bytes := key.publicKey

def AumKey.toKey (key : AumKey) : Key := ⟨key.kind, key.votes, key.publicKey⟩

/-- A full authority-state snapshot. An absent list is Go's nil, distinct on the
wire from an empty one. -/
structure AumState where
  lastAumHash : Option AumHash
  disablementValues : Option (List Bytes)
  keys : Option (List AumKey)
  stateId1 : UInt64
  stateId2 : UInt64
  deriving DecidableEq

structure AumSignature where
  keyId : Bytes
  signature : Bytes
  deriving DecidableEq

/-- An Authority Update Message: one link of the tailnet-lock chain. -/
structure Aum where
  messageKind : AumKind
  prevAumHash : Option AumHash
  key : Option AumKey
  keyId : Bytes
  state : Option AumState
  votes : Option UInt32
  metadata : Meta
  signatures : List AumSignature
  deriving DecidableEq

open Cbor (Value intMapOf)

/-- The `omitempty` rule for byte fields. -/
def nonemptyBytes (b : Bytes) : Option Value :=
  if b = [] then none else some (.bytes b)

/-- A byte string, or null when empty: the non-`omitempty` rule. -/
def bytesOrNull (b : Bytes) : Value :=
  if b = [] then .null else .bytes b

def metaToCbor (metadata : Meta) : Option Value :=
  if metadata = [] then none
  else some (.textMap (metadata.map (fun entry => (asBytes entry.1, .text (asBytes entry.2)))))

def hashOrNull (hash : Option AumHash) : Value :=
  match hash with
  | some h => .bytes h.digest.bytes
  | none => .null

/-- An absent list is null, a present one an array, possibly empty. -/
def listOrNull {α : Type} (item : α → Value) : Option (List α) → Value
  | none => .null
  | some items => .array (items.map item)

def AumKey.fields (key : AumKey) : List (UInt64 × Option Value) := [
  (1, some (.uint key.kind.toU8.toUInt64)),
  (2, some (.uint key.votes.toUInt64)),
  (3, some (.bytes key.publicKey)),
  (12, metaToCbor key.metadata)]

def AumKey.toCbor (key : AumKey) : Value := intMapOf key.fields

def AumState.fields (state : AumState) : List (UInt64 × Option Value) := [
  (1, some (hashOrNull state.lastAumHash)),
  (2, some (listOrNull .bytes state.disablementValues)),
  (3, some (listOrNull AumKey.toCbor state.keys)),
  (4, if state.stateId1 ≠ 0 then some (.uint state.stateId1) else none),
  (5, if state.stateId2 ≠ 0 then some (.uint state.stateId2) else none)]

def AumState.toCbor (state : AumState) : Value := intMapOf state.fields

def AumSignature.fields (sig : AumSignature) : List (UInt64 × Option Value) := [
  (1, some (bytesOrNull sig.keyId)),
  (2, some (bytesOrNull sig.signature))]

def AumSignature.toCbor (sig : AumSignature) : Value := intMapOf sig.fields

variable (aum : Aum) (includeSignatures : Bool)

def Aum.fields : List (UInt64 × Option Value) := [
  (1, some (.uint aum.messageKind.toU8.toUInt64)),
  (2, some (hashOrNull aum.prevAumHash)),
  (3, aum.key.map AumKey.toCbor),
  (4, nonemptyBytes aum.keyId),
  (5, aum.state.map AumState.toCbor),
  (6, aum.votes.map (fun v => .uint v.toUInt64)),
  (7, metaToCbor aum.metadata),
  (23, if includeSignatures ∧ aum.signatures ≠ [] then
      some (.array (aum.signatures.map AumSignature.toCbor))
    else none)]

/-- The canonical value. Without signatures it is the preimage of the signing
digest. -/
def Aum.toCbor : Value :=
  intMapOf (aum.fields includeSignatures)

def Aum.serialize : Bytes := (aum.toCbor true).encode

section

variable (C : Crypto)

/-- The chain-link hash, over the full serialization. -/
def Aum.hash (aum : Aum) : AumHash := ⟨C.blake2s256 aum.serialize⟩

/-- The signing digest, over the serialization without signatures. -/
def Aum.sigHash (aum : Aum) : Digest := C.blake2s256 (aum.toCbor false).encode

end

theorem Aum.fields_sorted : ((aum.fields includeSignatures).map Prod.fst).Pairwise (· < ·) := by
  change ([1, 2, 3, 4, 5, 6, 7, 23] : List UInt64).Pairwise (· < ·)
  decide

theorem Aum.serialize_head :
    ∃ count kind rest, aum.serialize =
      [count, 1, kind, 2] ++ ((hashOrNull aum.prevAumHash).encode ++ rest) := by
  rw [Aum.serialize, Aum.toCbor, Cbor.intMapOf_encode _ (aum.fields_sorted true)]
  obtain ⟨later, few, split⟩ : ∃ later : List (UInt64 × Value), later.length ≤ 6 ∧
      Cbor.presentFields (aum.fields true) = (1, .uint aum.messageKind.toU8.toUInt64) ::
        (2, hashOrNull aum.prevAumHash) :: later := ⟨_, List.length_filterMap_le _ _, rfl⟩
  rw [split]
  simp only [List.flatMap_cons, Cbor.encodeIntEntry, List.length_cons]
  obtain ⟨count, one⟩ := Cbor.encodeLen_small 5 (later.length + 1 + 1) (by omega)
  have kind : (Value.uint aum.messageKind.toU8.toUInt64).encode = [aum.messageKind.toU8] := by
    cases aum.messageKind <;> decide
  rw [one, kind]
  exact ⟨count, aum.messageKind.toU8, later.flatMap Cbor.encodeIntEntry, rfl⟩

theorem hashOrNull_encode_some (hash : AumHash) :
    (hashOrNull (some hash)).encode = [0x58, 0x20] ++ hash.digest.bytes := by
  have head : Cbor.encodeLen 2 32 = [0x58, 0x20] := by decide
  rw [hashOrNull, Value.encode, hash.digest.size, aumHashLen, head]

theorem hashOrNull_encode_none : (hashOrNull none).encode = [0xf6] := rfl

theorem hashOrNull_encode_inj (left right : Option AumHash) {restLeft restRight : Bytes}
    (same : (hashOrNull left).encode ++ restLeft = (hashOrNull right).encode ++ restRight) :
    left = right := by
  cases left with
  | none =>
    cases right with
    | none => rfl
    | some hash =>
      rw [hashOrNull_encode_none, hashOrNull_encode_some] at same
      exact absurd (List.cons.inj same).1 (by decide)
  | some hash =>
    cases right with
    | none =>
      rw [hashOrNull_encode_none, hashOrNull_encode_some] at same
      exact absurd (List.cons.inj same).1 (by decide)
    | some other =>
      rw [hashOrNull_encode_some, hashOrNull_encode_some, List.append_assoc, List.append_assoc,
        List.append_cancel_left_eq] at same
      have bytes := (List.append_inj same (hash.digest.size.trans other.digest.size.symm)).1
      rcases other with ⟨⟨other, size'⟩⟩
      cases bytes
      rfl

/-- The serialization, and so the hash preimage, determines the parent link. -/
theorem Aum.prevAumHash_of_serialize (a b : Aum) (same : a.serialize = b.serialize) :
    a.prevAumHash = b.prevAumHash := by
  obtain ⟨_, _, restA, formA⟩ := a.serialize_head
  obtain ⟨_, _, restB, formB⟩ := b.serialize_head
  rw [formA, formB] at same
  have tails := congrArg (List.drop 4) same
  exact hashOrNull_encode_inj _ _ tails

def base32Alphabet : List Char := "ABCDEFGHIJKLMNOPQRSTUVWXYZ234567".toList

def base32Letter (group : UInt32) : Char := base32Alphabet.getD (group &&& 0x1f).toNat 'A'

/-- The inner loop of the encoder: whole groups leave the top of the buffer. -/
def base32Drain (buffer : UInt32) : Nat → List Char × Nat
  | bits + 5 =>
    let (letters, left) := base32Drain buffer bits
    (base32Letter (buffer >>> UInt32.ofNat bits) :: letters, left)
  | bits => ([], bits)

def base32EncodeLoop : UInt32 → Nat → Bytes → List Char
  | buffer, bits, [] =>
    if 0 < bits then [base32Letter (buffer <<< UInt32.ofNat (5 - bits))] else []
  | buffer, bits, b :: rest =>
    let buffer := (buffer <<< 8) ||| b.toUInt32
    let (letters, left) := base32Drain buffer (bits + 8)
    letters ++ base32EncodeLoop buffer left rest

def base32EncodeNopad (data : Bytes) : String := String.ofList (base32EncodeLoop 0 0 data)

def base32Value (c : Char) : Option UInt32 :=
  if 'A' ≤ c ∧ c ≤ 'Z' then some (c.val - 'A'.val)
  else if '2' ≤ c ∧ c ≤ '7' then some (c.val - '2'.val + 26)
  else none

def base32DecodeLoop : UInt32 → Nat → List Char → Option Bytes
  | _, _, [] => some []
  | buffer, bits, c :: rest => do
      let val ← base32Value c
      let buffer := (buffer <<< 5) ||| val
      let bits := bits + 5
      if 8 ≤ bits then
        let out ← base32DecodeLoop buffer (bits - 8) rest
        return (buffer >>> UInt32.ofNat (bits - 8)).toUInt8 :: out
      else base32DecodeLoop buffer bits rest

def base32DecodeNopad (text : String) : Option Bytes := base32DecodeLoop 0 0 text.toList

def AumHash.fromBase32 (text : String) : Option AumHash := do
  let decoded ← base32DecodeNopad text
  if size : decoded.length = aumHashLen then some ⟨⟨decoded, size⟩⟩ else none

def AumHash.toBase32 (hash : AumHash) : String := base32EncodeNopad hash.digest.bytes

end TailscaleRs.Tka
