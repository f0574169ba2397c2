import TailscaleRs.Tka.Decode

namespace TailscaleRs.Tka

open Cbor (Value presentFields)

def fromUtf8 (bytes : Bytes) : Option String := String.fromUTF8? ⟨⟨bytes⟩⟩

def expectBytes : Value → Except TkaError Bytes
  | .bytes b => .ok b
  | _ => .error (.decode "expected byte string")

/-- The decode inverse of `bytesOrNull`. -/
def expectBytesOrNull : Value → Except TkaError Bytes
  | .bytes b => .ok b
  | .null => .ok []
  | _ => .error (.decode "expected byte string or null")

def expectUint : Value → Except TkaError UInt64
  | .uint n => .ok n
  | _ => .error (.decode "expected unsigned integer")

variable (message : String)

def narrowU32 (n : UInt64) : Except TkaError UInt32 :=
  if n.toNat < 2 ^ 32 then .ok n.toUInt32 else .error (.decode message)

def narrowU8 (n : UInt64) : Except TkaError UInt8 :=
  if n.toNat < 2 ^ 8 then .ok n.toUInt8 else .error (.decode message)

def required {α : Type} (message : String) : Option α → Except TkaError α
  | some value => .ok value
  | none => .error (.decode message)

def readMetaEntry (entry : Bytes × Value) : Except TkaError (String × String) :=
  match entry.2 with
  | .text bytes => do
      let key ← required "meta key not utf-8" (fromUtf8 entry.1)
      let value ← required "meta value not utf-8" (fromUtf8 bytes)
      return (key, value)
  | _ => .error (.decode "meta value not text")

def metaFromValue : Value → Except TkaError Meta
  | .textMap entries => entries.mapM readMetaEntry
  | _ => .error (.decode "meta is not a text-keyed map")

def aumHashFromBytes (b : Bytes) : Except TkaError AumHash :=
  if size : b.length = aumHashLen then .ok ⟨⟨b, size⟩⟩
  else .error (.decode "AUM hash not 32 bytes")

def hashFromValue : Value → Except TkaError (Option AumHash)
  | .null => .ok none
  | .bytes b => (aumHashFromBytes b).map some
  | _ => .error (.decode message)

/-- A list that is null when absent. -/
def arrayOrNull {α : Type} (message : String) (item : Value → Except TkaError α) :
    Value → Except TkaError (Option (List α))
  | .null => .ok none
  | .array items => (items.mapM item).map some
  | _ => .error (.decode message)

structure PartialKey where
  kind : Option KeyKind
  votes : Option UInt32
  publicKey : Option Bytes
  metadata : Meta

def AumKey.readField (key : PartialKey) (field : UInt64 × Value) : Except TkaError PartialKey :=
  let (k, v) := field
  if k = 1 then do
    let n ← expectUint v
    if n = 1 then return { key with kind := some .ed25519 }
    else .error (.decode "unsupported key kind")
  else if k = 2 then do
    let n ← expectUint v
    let votes ← narrowU32 "key votes out of range" n
    return { key with votes := some votes }
  else if k = 3 then do
    let b ← expectBytesOrNull v
    return { key with publicKey := some b }
  else if k = 12 then do
    let metadata ← metaFromValue v
    return { key with metadata := metadata }
  else .error (.decode "unknown key field")

def AumKey.fromValue : Value → Except TkaError AumKey
  | .intMap entries => do
      let key ← entries.foldlM AumKey.readField ⟨none, none, none, []⟩
      let kind ← required "key missing kind" key.kind
      let votes ← required "key missing votes" key.votes
      let publicKey ← required "key missing public" key.publicKey
      return ⟨kind, votes, publicKey, key.metadata⟩
  | _ => .error (.decode "key is not an int-keyed map")

def AumState.readField (state : AumState) (field : UInt64 × Value) : Except TkaError AumState :=
  let (k, v) := field
  if k = 1 then do
    let hash ← hashFromValue "last_aum_hash not bytes or null" v
    return { state with lastAumHash := hash }
  else if k = 2 then do
    let values ← arrayOrNull "disablement_values not array or null" expectBytes v
    return { state with disablementValues := values }
  else if k = 3 then do
    let keys ← arrayOrNull "state keys not array or null" AumKey.fromValue v
    return { state with keys := keys }
  else if k = 4 then do
    let n ← expectUint v
    return { state with stateId1 := n }
  else if k = 5 then do
    let n ← expectUint v
    return { state with stateId2 := n }
  else .error (.decode "unknown state field")

def AumState.fromValue : Value → Except TkaError AumState
  | .intMap entries => entries.foldlM AumState.readField ⟨none, none, none, 0, 0⟩
  | _ => .error (.decode "state is not an int-keyed map")

structure PartialSignature where
  keyId : Option Bytes
  signature : Option Bytes

def AumSignature.readField (sig : PartialSignature) (field : UInt64 × Value) :
    Except TkaError PartialSignature :=
  let (k, v) := field
  if k = 1 then do
    let b ← expectBytesOrNull v
    return { sig with keyId := some b }
  else if k = 2 then do
    let b ← expectBytesOrNull v
    return { sig with signature := some b }
  else .error (.decode "unknown AUM signature field")

def AumSignature.fromValue : Value → Except TkaError AumSignature
  | .intMap entries => do
      let sig ← entries.foldlM AumSignature.readField ⟨none, none⟩
      let keyId ← required "AUM signature missing key_id" sig.keyId
      let signature ← required "AUM signature missing signature" sig.signature
      return ⟨keyId, signature⟩
  | _ => .error (.decode "signature is not an int-keyed map")

structure PartialAum where
  messageKind : Option AumKind
  prevAumHash : Option AumHash
  havePrev : Bool
  key : Option AumKey
  keyId : Bytes
  state : Option AumState
  votes : Option UInt32
  metadata : Meta
  signatures : List AumSignature

def Aum.readField (aum : PartialAum) (field : UInt64 × Value) : Except TkaError PartialAum :=
  let (k, v) := field
  if k = 1 then do
    let n ← expectUint v
    let n ← narrowU8 "message kind out of range" n
    let kind ← required "unknown AUM message kind" (AumKind.fromU8 n)
    return { aum with messageKind := some kind }
  else if k = 2 then do
    let hash ← hashFromValue "prev_aum_hash not bytes or null" v
    return { aum with havePrev := true, prevAumHash := hash }
  else if k = 3 then do
    let key ← AumKey.fromValue v
    return { aum with key := some key }
  else if k = 4 then do
    let keyId ← expectBytesOrNull v
    return { aum with keyId := keyId }
  else if k = 5 then do
    let state ← AumState.fromValue v
    return { aum with state := some state }
  else if k = 6 then do
    let n ← expectUint v
    let votes ← narrowU32 "votes out of range" n
    return { aum with votes := some votes }
  else if k = 7 then do
    let metadata ← metaFromValue v
    return { aum with metadata := metadata }
  else if k = 23 then do
    match v with
    | .array items =>
      let signatures ← items.mapM AumSignature.fromValue
      return { aum with signatures := signatures }
    | _ => .error (.decode "signatures not an array")
  else .error (.decode "unknown AUM field")

def Aum.fromValue : Value → Except TkaError Aum
  | .intMap entries => do
      let aum ← entries.foldlM Aum.readField ⟨none, none, false, none, [], none, none, [], []⟩
      if ¬aum.havePrev then .error (.decode "AUM missing prev_aum_hash")
      else
        let kind ← required "AUM missing message kind" aum.messageKind
        return ⟨kind, aum.prevAumHash, aum.key, aum.keyId, aum.state, aum.votes, aum.metadata,
          aum.signatures⟩
  | _ => .error (.decode "AUM is not an int-keyed map")

def Aum.fromCbor (buf : Bytes) : Except TkaError Aum := do
  let (val, rest) ← decodeValue topLevels buf
  if rest ≠ [] then .error (.decode "trailing bytes after AUM")
  else Aum.fromValue val

def readOptional {P : Type} (read : P → UInt64 × Value → Except TkaError P) (p : P) (k : UInt64) :
    Option Value → Except TkaError P
  | none => .ok p
  | some v => read p (k, v)

variable {P : Type}

theorem readFields_cons {read : P → UInt64 × Value → Except TkaError P} {p next last : P}
    {k : UInt64} {field : Option Value} {rest : List (UInt64 × Option Value)}
    (here : readOptional read p k field = .ok next)
    (later : (presentFields rest).foldlM read next = .ok last) :
    (presentFields ((k, field) :: rest)).foldlM read p = .ok last := by
  cases field with
  | none =>
    cases here
    exact later
  | some v =>
    have cons : (presentFields ((k, some v) :: rest)).foldlM read p =
        (read p (k, v) >>= fun next => (presentFields rest).foldlM read next) := rfl
    rw [cons, bind_ok]
    exact ⟨next, here, later⟩

@[simp] theorem fromUtf8_asBytes (s : String) : fromUtf8 (asBytes s) = some s := by
  have valid : (⟨⟨asBytes s⟩⟩ : ByteArray).IsValidUTF8 := s.isValidUTF8
  rw [fromUtf8, String.fromUTF8?, dif_pos valid]
  rfl

theorem asBytes_of_fromUtf8 (bytes : Bytes) (s : String) (read : fromUtf8 bytes = some s) :
    asBytes s = bytes := by
  unfold fromUtf8 String.fromUTF8? at read
  split at read
  · cases read
    rfl
  · cases read

@[simp] theorem expectBytesOrNull_bytesOrNull (b : Bytes) :
    expectBytesOrNull (bytesOrNull b) = .ok b := by
  unfold bytesOrNull
  split
  · rename_i empty
    rw [empty]
    rfl
  · rfl

@[simp] theorem hashFromValue_hashOrNull (hash : Option AumHash) :
    hashFromValue message (hashOrNull hash) = .ok hash := by
  cases hash with
  | none => rfl
  | some h =>
    simp only [hashOrNull, hashFromValue, aumHashFromBytes, dif_pos h.digest.size]
    rfl

@[simp] theorem narrowU32_toUInt64 (n : UInt32) : narrowU32 message n.toUInt64 = .ok n := by
  have fits : n.toUInt64.toNat < 2 ^ 32 := by
    rw [UInt32.toNat_toUInt64]
    exact n.toNat_lt
  rw [narrowU32, if_pos fits, UInt32.toUInt32_toUInt64]

theorem mapM_map_ok {α β : Type} {encode : α → β} {decode : β → Except TkaError α} {items : List α}
    (inverse : ∀ a ∈ items, decode (encode a) = .ok a) :
    (items.map encode).mapM decode = .ok items := by
  induction items with
  | nil => rfl
  | cons a rest ih =>
    rw [List.map_cons, List.mapM_cons, inverse a List.mem_cons_self,
      ih (fun b member => inverse b (List.mem_cons_of_mem a member))]
    rfl

theorem metaFromValue_textMap (metadata : Meta) :
    metaFromValue (.textMap (metadata.map (fun entry =>
      (asBytes entry.1, .text (asBytes entry.2))))) = .ok metadata := by
  refine mapM_map_ok ?_
  intro entry _
  simp only [readMetaEntry, fromUtf8_asBytes]
  rfl

theorem AumSignature.fromValue_toCbor (sig : AumSignature) :
    AumSignature.fromValue sig.toCbor = .ok sig := by
  have keyId (p : PartialSignature) : AumSignature.readField p (1, bytesOrNull sig.keyId) =
      .ok { p with keyId := some sig.keyId } := by
    simp only [AumSignature.readField, expectBytesOrNull_bytesOrNull]
    rfl
  have signature (p : PartialSignature) : AumSignature.readField p
      (2, bytesOrNull sig.signature) = .ok { p with signature := some sig.signature } := by
    simp only [AumSignature.readField, expectBytesOrNull_bytesOrNull]
    rfl
  have fields : (presentFields sig.fields).foldlM AumSignature.readField ⟨none, none⟩ = _ :=
    readFields_cons (keyId _) (readFields_cons (signature _) rfl)
  change ((presentFields sig.fields).foldlM AumSignature.readField ⟨none, none⟩ >>= _) = _
  rw [fields]
  rfl

variable (read : P → UInt64 × Value → Except TkaError P)

theorem readOptional_meta (k : UInt64) (p : P) (set : Meta → P) (metadata : Meta)
    (unset : set [] = p) (reads : ∀ v, read p (k, v) = (metaFromValue v).map set) :
    readOptional read p k (metaToCbor metadata) = .ok (set metadata) := by
  unfold metaToCbor
  split
  · rename_i empty
    rw [empty, unset]
    rfl
  · rw [readOptional, reads, metaFromValue_textMap]
    rfl

theorem AumKey.fromValue_toCbor (key : AumKey) : AumKey.fromValue key.toCbor = .ok key := by
  have votes (p : PartialKey) : AumKey.readField p (2, .uint key.votes.toUInt64) =
      .ok { p with votes := some key.votes } := by
    change (narrowU32 "key votes out of range" key.votes.toUInt64 >>= _) = _
    rw [narrowU32_toUInt64]
    rfl
  have metadata (p : PartialKey) (unset : p.metadata = []) :=
    readOptional_meta AumKey.readField 12 p (fun m => { p with metadata := m }) key.metadata
      (by rw [← unset]) (fun v => by
        change (metaFromValue v >>= _) = _
        cases metaFromValue v <;> rfl)
  have fields : (presentFields key.fields).foldlM AumKey.readField ⟨none, none, none, []⟩ =
      .ok ⟨some key.kind, some key.votes, some key.publicKey, key.metadata⟩ :=
    readFields_cons rfl <| readFields_cons (votes _) <|
      readFields_cons rfl <| readFields_cons (metadata _ rfl) rfl
  change ((presentFields key.fields).foldlM AumKey.readField ⟨none, none, none, []⟩ >>= _) = _
  rw [fields]
  rfl

theorem arrayOrNull_listOrNull {α : Type} (message : String) (encode : α → Value)
    (item : Value → Except TkaError α) (inverse : ∀ a, item (encode a) = .ok a)
    (values : Option (List α)) :
    arrayOrNull message item (listOrNull encode values) = .ok values := by
  cases values with
  | none => rfl
  | some values =>
    rw [listOrNull, arrayOrNull, mapM_map_ok (fun a _ => inverse a)]
    rfl

theorem readOptional_uint (k : UInt64) (p : P) (set : UInt64 → P) (n : UInt64) (unset : set 0 = p)
    (reads : read p (k, .uint n) = .ok (set n)) :
    readOptional read p k (if n ≠ 0 then some (.uint n) else none) = .ok (set n) := by
  split
  · exact reads
  · rename_i zero
    rw [not_not.mp zero, unset]
    rfl

theorem AumState.fromValue_toCbor (state : AumState) :
    AumState.fromValue state.toCbor = .ok state := by
  have hash (p : AumState) : AumState.readField p (1, hashOrNull state.lastAumHash) =
      .ok { p with lastAumHash := state.lastAumHash } := by
    simp only [AumState.readField, hashFromValue_hashOrNull]
    rfl
  have values (p : AumState) : AumState.readField p
      (2, listOrNull .bytes state.disablementValues) =
      .ok { p with disablementValues := state.disablementValues } := by
    change (arrayOrNull _ expectBytes _ >>= _) = _
    rw [arrayOrNull_listOrNull _ Value.bytes expectBytes (fun _ => rfl)]
    rfl
  have keys (p : AumState) : AumState.readField p (3, listOrNull AumKey.toCbor state.keys) =
      .ok { p with keys := state.keys } := by
    change (arrayOrNull _ AumKey.fromValue _ >>= _) = _
    rw [arrayOrNull_listOrNull _ AumKey.toCbor AumKey.fromValue AumKey.fromValue_toCbor]
    rfl
  have id1 (p : AumState) (unset : p.stateId1 = 0) := readOptional_uint AumState.readField 4 p
    (fun n => { p with stateId1 := n }) state.stateId1 (by rw [← unset]) rfl
  have id2 (p : AumState) (unset : p.stateId2 = 0) := readOptional_uint AumState.readField 5 p
    (fun n => { p with stateId2 := n }) state.stateId2 (by rw [← unset]) rfl
  exact readFields_cons (hash _) <| readFields_cons (values _) <| readFields_cons (keys _) <|
    readFields_cons (id1 _ rfl) <| readFields_cons (id2 _ rfl) rfl

theorem readOptional_map {P α : Type} (read : P → UInt64 × Value → Except TkaError P) (k : UInt64)
    (p : P) (set : Option α → P) (encode : α → Value) (value : Option α) (unset : set none = p)
    (reads : ∀ a, read p (k, encode a) = .ok (set (some a))) :
    readOptional read p k (value.map encode) = .ok (set value) := by
  cases value with
  | none =>
    rw [unset]
    rfl
  | some a => exact reads a

theorem Aum.fromValue_toCbor {aum : Aum} (includeSignatures : Bool) :
    Aum.fromValue (aum.toCbor includeSignatures) =
      .ok { aum with signatures := if includeSignatures then aum.signatures else [] } := by
  obtain ⟨messageKind, prevAumHash, key, keyId, state, votes, metadata, signatures⟩ := aum
  have kindRead (p : PartialAum) : Aum.readField p (1, .uint messageKind.toU8.toUInt64) =
      .ok { p with messageKind := some messageKind } := by
    cases messageKind <;> rfl
  have prevRead (p : PartialAum) : Aum.readField p (2, hashOrNull prevAumHash) =
      .ok { p with havePrev := true, prevAumHash := prevAumHash } := by
    simp only [Aum.readField, hashFromValue_hashOrNull]
    rfl
  have keyRead (p : PartialAum) (unset : p.key = none) := readOptional_map Aum.readField 3 p
    (fun k => { p with key := k }) AumKey.toCbor key (by rw [← unset]) (fun k => by
      change (AumKey.fromValue k.toCbor >>= _) = _
      rw [AumKey.fromValue_toCbor]
      rfl)
  have keyIdRead (p : PartialAum) (unset : p.keyId = []) :
      readOptional Aum.readField p 4 (nonemptyBytes keyId) = .ok { p with keyId := keyId } := by
    unfold nonemptyBytes
    split
    · rename_i empty
      rw [empty, ← unset]
      rfl
    · rfl
  have stateRead (p : PartialAum) (unset : p.state = none) := readOptional_map Aum.readField 5 p
    (fun s => { p with state := s }) AumState.toCbor state (by rw [← unset]) (fun s => by
      change (AumState.fromValue s.toCbor >>= _) = _
      rw [AumState.fromValue_toCbor]
      rfl)
  have votesRead (p : PartialAum) (unset : p.votes = none) := readOptional_map Aum.readField 6 p
    (fun v => { p with votes := v }) (fun v => .uint v.toUInt64) votes (by rw [← unset])
    (fun v => by
      change (narrowU32 "votes out of range" v.toUInt64 >>= _) = _
      rw [narrowU32_toUInt64]
      rfl)
  have metaRead (p : PartialAum) (unset : p.metadata = []) := readOptional_meta Aum.readField 7 p
    (fun m => { p with metadata := m }) metadata (by rw [← unset]) (fun v => by
      change (metaFromValue v >>= _) = _
      cases metaFromValue v <;> rfl)
  have signaturesRead (p : PartialAum) (unset : p.signatures = []) :
      readOptional Aum.readField p 23 (if includeSignatures ∧ signatures ≠ [] then
        some (.array (signatures.map AumSignature.toCbor)) else none) =
      .ok { p with signatures := if includeSignatures then signatures else [] } := by
    split
    · rename_i present
      rw [if_pos present.1]
      change ((signatures.map AumSignature.toCbor).mapM AumSignature.fromValue >>= _) = _
      rw [mapM_map_ok (fun sig _ => AumSignature.fromValue_toCbor sig)]
      rfl
    · rename_i absent
      have empty : (if includeSignatures then signatures else []) = [] := by
        cases includeSignatures with
        | false => rfl
        | true => simpa using absent
      rw [empty, ← unset]
      rfl
  have fields : (presentFields (Aum.fields ⟨messageKind, prevAumHash, key, keyId, state, votes,
      metadata, signatures⟩ includeSignatures)).foldlM Aum.readField
      ⟨none, none, false, none, [], none, none, [], []⟩ = _ :=
    readFields_cons (kindRead _) <| readFields_cons (prevRead _) <|
      readFields_cons (keyRead _ rfl) <| readFields_cons (keyIdRead _ rfl) <|
        readFields_cons (stateRead _ rfl) <| readFields_cons (votesRead _ rfl) <|
          readFields_cons (metaRead _ rfl) <| readFields_cons (signaturesRead _ rfl) rfl
  change ((presentFields (Aum.fields _ includeSignatures)).foldlM Aum.readField _ >>= _) = _
  rw [fields]
  rfl

end TailscaleRs.Tka
