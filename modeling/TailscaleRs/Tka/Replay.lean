import TailscaleRs.Lib.Except
import TailscaleRs.Tka.Types

namespace TailscaleRs.Tka

/-- Total metadata bytes, summed over keys and values. -/
def metaBytes (metadata : Meta) : Nat :=
  (metadata.map (fun entry => entry.1.utf8ByteSize + entry.2.utf8ByteSize)).sum

variable (key : AumKey)

def AumKey.staticValidate : Except TkaError Unit :=
  if maxKeyVotes < key.votes then .error .badKeyState
  else if key.votes = 0 then .error .badKeyState
  else if maxMetaBytes < metaBytes key.metadata then .error .badKeyState
  else match key.kind with
    | .ed25519 => .ok ()

/-- The disablement loop; `earlier` is the slice before the current index. -/
def checkDisablements (earlier : List Bytes) : List Bytes → Except TkaError Unit
  | [] => .ok ()
  | value :: rest =>
    if value.length ≠ disablementLength then .error .badKeyState
    else if value ∈ earlier then .error .badKeyState
    else checkDisablements (earlier ++ [value]) rest

/-- The key loop of a checkpoint; `earlier` is the slice before the current index. -/
def checkCheckpointKeys (earlier : List AumKey) : List AumKey → Except TkaError Unit
  | [] => .ok ()
  | key :: rest =>
    match key.staticValidate with
    | .error e => .error e
    | .ok () =>
      if earlier.any (fun other => other.id == key.id) then .error .badKeyState
      else checkCheckpointKeys (earlier ++ [key]) rest

def AumState.staticValidateCheckpoint (state : AumState) : Except TkaError Unit :=
  if state.lastAumHash.isSome then .error .badKeyState
  else
    let disablements := state.disablementValues.getD []
    if disablements = [] ∨ maxDisablementValues < disablements.length then .error .badKeyState
    else match checkDisablements [] disablements with
      | .error e => .error e
      | .ok () =>
        let keys := state.keys.getD []
        if keys = [] ∨ maxKeys < keys.length then .error .badKeyState
        else checkCheckpointKeys [] keys

def checkSignatureSizes : List AumSignature → Except TkaError Unit
  | [] => .ok ()
  | sig :: rest =>
    if sig.keyId.length ≠ 32 ∨ sig.signature.length ≠ 64 then
      .error (.decode "AUM signature has missing keyID or malformed signature")
    else checkSignatureSizes rest

variable (aum : Aum)

def Aum.checkFields : Except TkaError Unit :=
  let hasKey := aum.key.isSome
  let hasKeyId := aum.keyId ≠ []
  let hasState := aum.state.isSome
  let hasVotes := aum.votes.isSome
  let hasMeta := aum.metadata ≠ []
  match aum.messageKind with
  | .addKey =>
    if ¬hasKey then .error (.decode "AddKey AUMs must contain a key")
    else if hasKeyId ∨ hasState ∨ hasVotes ∨ hasMeta then
      .error (.decode "AddKey AUMs may only specify a Key")
    else .ok ()
  | .removeKey =>
    if ¬hasKeyId then .error (.decode "RemoveKey AUMs must specify a key ID")
    else if hasKey ∨ hasState ∨ hasVotes ∨ hasMeta then
      .error (.decode "RemoveKey AUMs may only specify a KeyID")
    else .ok ()
  | .updateKey =>
    if ¬hasKeyId then .error (.decode "UpdateKey AUMs must specify a key ID")
    else if ¬hasVotes ∧ ¬hasMeta then
      .error (.decode "UpdateKey AUMs must contain an update to votes or key metadata")
    else if hasKey ∨ hasState then
      .error (.decode "UpdateKey AUMs may only specify KeyID, Votes, and Meta")
    else .ok ()
  | .checkpoint =>
    if ¬hasState then .error (.decode "Checkpoint AUMs must specify the state")
    else if hasKeyId ∨ hasKey ∨ hasVotes ∨ hasMeta then
      .error (.decode "Checkpoint AUMs may only specify State")
    else .ok ()
  | .noOp | .invalid => .ok ()

/-- A field is checked only when it is present. -/
def validatePresent {α : Type} (check : α → Except TkaError Unit) : Option α → Except TkaError Unit
  | some value => check value
  | none => .ok ()

def Aum.staticValidate : Except TkaError Unit := do
  validatePresent AumKey.staticValidate aum.key
  checkSignatureSizes aum.signatures
  validatePresent AumState.staticValidateCheckpoint aum.state
  aum.checkFields

/-- The weight and metadata bounds every trusted key must meet. -/
def AumKey.WithinLimits : Prop :=
  1 ≤ key.votes ∧ key.votes ≤ maxKeyVotes ∧ metaBytes key.metadata ≤ maxMetaBytes

theorem AumKey.staticValidate_ok : key.staticValidate = .ok () ↔ key.WithinLimits := by
  unfold AumKey.staticValidate AumKey.WithinLimits
  have nonzero : 1 ≤ key.votes ↔ key.votes ≠ 0 := by
    rw [UInt32.le_iff_toNat_le, ne_eq, ← UInt32.toNat_inj]
    simp only [UInt32.toNat_one, UInt32.toNat_zero]
    omega
  split
  · rename_i heavy
    simp only [reduceCtorEq, false_iff, not_and]
    intro _ light
    exact absurd heavy (UInt32.not_lt.mpr light)
  · rename_i light
    split
    · rename_i zero
      simp [zero]
    · rename_i positive
      split
      · rename_i large
        simp only [reduceCtorEq, false_iff]
        omega
      · rename_i small
        simp only [nonzero, ne_eq, positive, not_false_eq_true, UInt32.not_lt.mp light,
          true_and, true_iff]
        omega

theorem checkCheckpointKeys_ok (earlier keys : List AumKey)
    (accepted : checkCheckpointKeys earlier keys = .ok ()) :
    (∀ key ∈ keys, key.WithinLimits) ∧ keys.Pairwise (fun a b => a.id ≠ b.id) ∧
      ∀ key ∈ keys, ∀ other ∈ earlier, other.id ≠ key.id := by
  induction keys generalizing earlier with
  | nil => simp
  | cons key rest ih =>
    unfold checkCheckpointKeys at accepted
    split at accepted
    · cases accepted
    · rename_i valid
      split at accepted
      · cases accepted
      · rename_i fresh
        simp only [List.any_eq_true, beq_iff_eq, not_exists, not_and] at fresh
        obtain ⟨limits, distinct, apart⟩ := ih _ accepted
        refine ⟨?_, ?_, ?_⟩
        · simp only [List.mem_cons, forall_eq_or_imp]
          exact ⟨(AumKey.staticValidate_ok key).mp valid, limits⟩
        · refine List.pairwise_cons.mpr ⟨?_, distinct⟩
          intro other member
          exact apart other member key (by simp)
        · simp only [List.mem_cons, forall_eq_or_imp]
          refine ⟨fresh, ?_⟩
          intro other member previous held
          exact apart other member previous (by simp [held])

theorem AumState.staticValidateCheckpoint_ok {state : AumState}
    (accepted : state.staticValidateCheckpoint = .ok ()) :
    state.keys.getD [] ≠ [] ∧ (∀ key ∈ state.keys.getD [], key.WithinLimits) ∧
      (state.keys.getD []).Pairwise (fun a b => a.id ≠ b.id) := by
  unfold AumState.staticValidateCheckpoint at accepted
  split at accepted
  · cases accepted
  · dsimp only at accepted
    split at accepted
    · cases accepted
    · split at accepted
      · cases accepted
      · split at accepted
        · cases accepted
        · rename_i counted
          obtain ⟨limits, distinct, -⟩ := checkCheckpointKeys_ok [] _ accepted
          exact ⟨fun empty => counted (.inl empty), limits, distinct⟩

theorem Aum.staticValidate_ok (accepted : aum.staticValidate = .ok ()) :
    (∀ key, aum.key = some key → key.WithinLimits) ∧
      (∀ state, aum.state = some state → state.staticValidateCheckpoint = .ok ()) ∧
      aum.checkFields = .ok () := by
  simp only [Aum.staticValidate, bind_ok] at accepted
  obtain ⟨_, keyValid, _, _, _, stateValid, fields⟩ := accepted
  refine ⟨?_, ?_, fields⟩
  · intro key present
    rw [present] at keyValid
    exact (AumKey.staticValidate_ok key).mp keyValid
  · intro state present
    rw [present] at stateValid
    exact stateValid

/-- The state a replay folds AUMs into: the trusted keys, the chain cursor, and
the state identifier the first checkpoint seeded. -/
structure ReplayState where
  keys : List AumKey
  lastAumHash : Option AumHash
  stateId : Option (UInt64 × UInt64)
  deriving DecidableEq

namespace ReplayState

def default : ReplayState := ⟨[], none, none⟩

variable (s : ReplayState) (keyId : Bytes)

def getKey : Option AumKey :=
  s.keys.find? (fun key => key.id == keyId)

def findKeyIndex : Option Nat :=
  s.keys.findIdx? (fun key => key.id == keyId)

/-- The loop of `weight`: `seen` holds the trusted signers already counted. -/
def weightLoop (s : ReplayState) : List Bytes → Nat → List AumSignature → Nat
  | _, weight, [] => weight
  | seen, weight, sig :: rest =>
    if sig.keyId ∈ seen then weightLoop s seen weight rest
    else match s.getKey sig.keyId with
      | some key => weightLoop s (sig.keyId :: seen) (weight + key.votes.toNat) rest
      | none => weightLoop s seen weight rest

variable (aum : Aum)

/-- Total votes of the distinct trusted keys that signed the AUM. -/
def weight : Nat := weightLoop s [] 0 aum.signatures

/-- The parent link, and for the first AUM the genesis restrictions. -/
def checkParent : Except TkaError Unit :=
  match s.lastAumHash with
  | some head => if aum.prevAumHash = some head then .ok () else .error .badParent
  | none =>
    if aum.prevAumHash.isSome then .error .badParent
    else match aum.messageKind with
      | .noOp | .addKey | .checkpoint => .ok ()
      | .invalid | .removeKey | .updateKey => .error .badChain

/-- The key an `UpdateKey` leaves behind: only the carried fields change. -/
def updated (key : AumKey) (aum : Aum) : AumKey :=
  { key with
    votes := aum.votes.getD key.votes
    metadata := if aum.metadata = [] then key.metadata else aum.metadata }

/-- The per-kind mutation. The state is returned on failure too: an `UpdateKey`
writes the key before it validates the result. -/
def applyKind : Except TkaError Unit × ReplayState :=
  match aum.messageKind with
  | .noOp | .invalid => (.ok (), s)
  | .checkpoint =>
    match aum.state with
    | none => (.error (.decode "checkpoint AUM missing state"), s)
    | some state =>
      let incoming := (state.stateId1, state.stateId2)
      if s.stateId.any (fun existing => existing != incoming) then (.error .badKeyState, s)
      else (.ok (), { s with stateId := some incoming, keys := state.keys.getD [] })
  | .addKey =>
    match aum.key with
    | none => (.error (.decode "AddKey AUM missing key"), s)
    | some key =>
      if (s.getKey key.id).isSome then (.error .badKeyState, s)
      else (.ok (), { s with keys := s.keys ++ [key] })
  | .updateKey =>
    match s.findKeyIndex aum.keyId with
    | none => (.error .badKeyState, s)
    | some idx =>
      let keys := s.keys.modify idx (fun key => updated key aum)
      (match keys[idx]? with
        | some key => key.staticValidate
        | none => .ok (), { s with keys := keys })
  | .removeKey =>
    if s.keys.length = 1 ∧ (s.keys.head?.map AumKey.id) = some aum.keyId then
      (.error .badKeyState, s)
    else match s.findKeyIndex aum.keyId with
      | none => (.error .badKeyState, s)
      | some idx => (.ok (), { s with keys := s.keys.eraseIdx idx })

variable (C : Crypto) (s : ReplayState)

/-- The outcome of one fold and the state it leaves behind, also on failure. -/
def applyVerifiedAum (aum : Aum) : Except TkaError Unit × ReplayState :=
  match s.checkParent aum with
  | .error e => (.error e, s)
  | .ok () =>
    match s.applyKind aum with
    | (.error e, s') => (.error e, s')
    | (.ok (), s') => (.ok (), { s' with lastAumHash := some (aum.hash C) })

/-- One fold as a caller that propagates the error with `?` sees it. -/
def foldAum (aum : Aum) : Except TkaError ReplayState :=
  match s.applyVerifiedAum C aum with
  | (.error e, _) => .error e
  | (.ok (), s') => .ok s'

/-- The fold of a list of AUMs, stopping at the first error. -/
def foldAums (aums : List Aum) : Except TkaError ReplayState :=
  aums.foldlM (foldAum C) s

end ReplayState

/-- What a successful per-kind mutation can do. -/
inductive KeyStep (s : ReplayState) (aum : Aum) : ReplayState → Prop where
  | unchanged (kind : aum.messageKind = .noOp ∨ aum.messageKind = .invalid) : KeyStep s aum s
  | checkpoint (kind : aum.messageKind = .checkpoint) (state : AumState)
      (carried : aum.state = some state)
      (same : ∀ id, s.stateId = some id → id = (state.stateId1, state.stateId2)) :
      KeyStep s aum { s with
        stateId := some (state.stateId1, state.stateId2)
        keys := state.keys.getD [] }
  | added (kind : aum.messageKind = .addKey) (key : AumKey) (carried : aum.key = some key)
      (fresh : s.getKey key.id = none) :
      KeyStep s aum { s with keys := s.keys ++ [key] }
  | updated (kind : aum.messageKind = .updateKey) (idx : Nat) (key : AumKey)
      (held : s.keys[idx]? = some key) (named : key.id = aum.keyId)
      (valid : (ReplayState.updated key aum).WithinLimits) :
      KeyStep s aum { s with keys := s.keys.set idx (ReplayState.updated key aum) }
  | removed (kind : aum.messageKind = .removeKey) (idx : Nat) (key : AumKey)
      (held : s.keys[idx]? = some key) (named : key.id = aum.keyId)
      (kept : ¬(s.keys.length = 1 ∧ (s.keys.head?.map AumKey.id) = some aum.keyId)) :
      KeyStep s aum { s with keys := s.keys.eraseIdx idx }

namespace ReplayState

theorem findKeyIndex_some {s : ReplayState} {keyId : Bytes} {idx : Nat}
    (found : s.findKeyIndex keyId = some idx) :
    ∃ key, s.keys[idx]? = some key ∧ key.id = keyId := by
  obtain ⟨bound, matched, -⟩ := List.findIdx?_eq_some_iff_getElem.mp found
  exact ⟨s.keys[idx], List.getElem?_eq_getElem bound, by simpa using matched⟩

theorem applyKind_ok {s s' : ReplayState} (aum : Aum) (applied : s.applyKind aum = (.ok (), s')) :
    KeyStep s aum s' := by
  unfold applyKind at applied
  split at applied
  · rename_i kind
    cases applied
    exact .unchanged (.inl kind)
  · rename_i kind
    cases applied
    exact .unchanged (.inr kind)
  · rename_i kind
    split at applied
    · cases applied
    · rename_i state carried
      dsimp only at applied
      split at applied
      · cases applied
      · rename_i consistent
        cases applied
        refine .checkpoint kind state carried ?_
        intro id held
        simpa [held] using consistent
  · rename_i kind
    split at applied
    · cases applied
    · rename_i key carried
      split at applied
      · cases applied
      · rename_i fresh
        cases applied
        exact .added kind key carried (by simpa using fresh)
  · rename_i kind
    split at applied
    · cases applied
    · rename_i idx found
      obtain ⟨key, held, named⟩ := findKeyIndex_some found
      have written : s.keys.modify idx (fun key => updated key aum) =
          s.keys.set idx (updated key aum) := by
        rw [List.modify_eq_set_getElem?, held]
        rfl
      obtain ⟨bound, -⟩ := List.getElem?_eq_some_iff.mp held
      simp only [written, List.getElem?_set_self bound, Prod.mk.injEq] at applied
      obtain ⟨valid, rfl⟩ := applied
      exact .updated kind idx key held named ((AumKey.staticValidate_ok _).mp valid)
  · rename_i kind
    split at applied
    · cases applied
    · rename_i kept
      split at applied
      · cases applied
      · rename_i idx found
        cases applied
        obtain ⟨key, held, named⟩ := findKeyIndex_some found
        exact .removed kind idx key held named kept

/-- What a successful fold can do: the parent link holds, the keys change as the
kind says, and the cursor moves to the AUM. -/
theorem foldAum_ok {C : Crypto} {s s' : ReplayState} (aum : Aum)
    (folded : s.foldAum C aum = .ok s') :
    s.checkParent aum = .ok () ∧
      ∃ mid, KeyStep s aum mid ∧ s' = { mid with lastAumHash := some (aum.hash C) } := by
  unfold foldAum applyVerifiedAum at folded
  split at folded
  · cases folded
  · rename_i after outcome
    split at outcome
    · cases outcome
    · rename_i linked
      split at outcome
      · cases outcome
      · rename_i mid applied
        cases outcome
        cases folded
        exact ⟨linked, mid, applyKind_ok aum applied, rfl⟩

theorem checkParent_genesis (aum : Aum) (checked : default.checkParent aum = .ok ()) :
    aum.prevAumHash = none := by
  simp only [checkParent, default] at checked
  split at checked
  · cases checked
  · rename_i absent
    simpa using absent

variable (C : Crypto)

theorem foldAums_cons (s : ReplayState) (aum : Aum) (rest : List Aum) :
    foldAums C s (aum :: rest) = (s.foldAum C aum >>= fun mid => foldAums C mid rest) := rfl

theorem foldAums_append (s : ReplayState) (first second : List Aum) :
    foldAums C s (first ++ second) = (foldAums C s first >>= fun mid => foldAums C mid second) := by
  simp only [foldAums, List.foldlM_append]

theorem foldAums_prefix {s s' : ReplayState} {first second : List Aum}
    (folded : foldAums C s (first ++ second) = .ok s') :
    ∃ mid, foldAums C s first = .ok mid ∧ foldAums C mid second = .ok s' := by
  rwa [foldAums_append, bind_ok] at folded

theorem foldAums_snoc {s s' : ReplayState} {aums : List Aum} {last : Aum}
    (folded : foldAums C s (aums ++ [last]) = .ok s') :
    ∃ mid, foldAums C s aums = .ok mid ∧ mid.foldAum C last = .ok s' := by
  obtain ⟨mid, before, final⟩ := foldAums_prefix C folded
  rw [foldAums_cons, bind_ok] at final
  obtain ⟨next, step, same⟩ := final
  cases same
  exact ⟨mid, before, step⟩

theorem foldAums_lastAumHash (s s' : ReplayState) (aums : List Aum) (last : Aum)
    (ends : aums.getLast? = some last) (folded : foldAums C s aums = .ok s') :
    s'.lastAumHash = some (last.hash C) := by
  obtain ⟨before, rfl⟩ := List.getLast?_eq_some_iff.mp ends
  obtain ⟨mid, -, step⟩ := foldAums_snoc C folded
  obtain ⟨-, mid, -, rfl⟩ := foldAum_ok last step
  rfl

end ReplayState

variable (C : Crypto)

/-- The first AUM names no parent, every other one its predecessor's hash. -/
def ChainLinked (aums : List Aum) : Prop :=
  (∀ first, aums[0]? = some first → first.prevAumHash = none) ∧
    ∀ i parent child, aums[i]? = some parent → aums[i + 1]? = some child →
      child.prevAumHash = some (parent.hash C)

theorem ChainLinked.parent {C : Crypto} {aums : List Aum} (linked : ChainLinked C aums) {j : Nat}
    {child : Aum} {hash : AumHash} (here : aums[j]? = some child)
    (named : child.prevAumHash = some hash) :
    ∃ i parent, j = i + 1 ∧ aums[i]? = some parent ∧ parent.hash C = hash := by
  cases j with
  | zero =>
    rw [linked.1 child here] at named
    cases named
  | succ i =>
    obtain ⟨bound, -⟩ := List.getElem?_eq_some_iff.mp here
    have before : aums[i]? = some aums[i] := List.getElem?_eq_getElem (by omega)
    rw [linked.2 i _ child before here, Option.some.injEq] at named
    exact ⟨i, _, rfl, before, named⟩

theorem split_at_index {α : Type} {items : List α} (i : Nat) {item : α}
    (held : items[i]? = some item) :
    items = items.take i ++ item :: items.drop (i + 1) := by
  obtain ⟨bound, rfl⟩ := List.getElem?_eq_some_iff.mp held
  rw [List.getElem_cons_drop bound, List.take_append_drop]

theorem ReplayState.foldAums_get {s s' : ReplayState} {aums : List Aum} {i : Nat} (aum : Aum)
    (folded : foldAums C s aums = .ok s') (held : aums[i]? = some aum) :
    ∃ mid next, foldAums C s (aums.take i) = .ok mid ∧ mid.foldAum C aum = .ok next := by
  rw [split_at_index i held] at folded
  obtain ⟨mid, before, rest⟩ := foldAums_prefix C folded
  rw [foldAums_cons, bind_ok] at rest
  obtain ⟨next, step, -⟩ := rest
  exact ⟨mid, next, before, step⟩

theorem ReplayState.foldAums_linked {s : ReplayState} {aums : List Aum}
    (folded : foldAums C ReplayState.default aums = .ok s) : ChainLinked C aums := by
  constructor
  · intro first held
    obtain ⟨mid, next, before, step⟩ := foldAums_get C first folded held
    cases before
    exact checkParent_genesis first (foldAum_ok first step).1
  · intro i parent child heldParent heldChild
    obtain ⟨mid, next, before, step⟩ := foldAums_get C child folded heldChild
    have ends : (aums.take (i + 1)).getLast? = some parent := by
      rw [List.take_add_one, heldParent, Option.toList_some, List.getLast?_concat]
    have cursor := foldAums_lastAumHash C _ mid _ parent ends before
    have linked := (foldAum_ok child step).1
    simp only [checkParent, cursor] at linked
    split at linked
    · assumption
    · cases linked

end TailscaleRs.Tka

/- What a failed fold leaves behind. Every arm but one checks before it writes;
`UpdateKey` writes the key and validates the result afterwards. -/
namespace TailscaleRs.Tka

open List

namespace ReplayState

variable (s : ReplayState) (keyId : Bytes)

theorem getKey_of_findKeyIndex {idx : Nat} (found : s.findKeyIndex keyId = some idx) :
    s.keys[idx]? = s.getKey keyId := by
  obtain ⟨bound, matched, earlier⟩ := findIdx?_eq_some_iff_getElem.mp found
  rw [getElem?_eq_getElem bound]
  symm
  refine find?_eq_some_iff_getElem.mpr ⟨matched, idx, bound, rfl, fun j before => ?_⟩
  rw [Bool.not_eq_true']
  exact Bool.eq_false_iff.mpr (earlier j before)

theorem findKeyIndex_of_getKey {key : AumKey} (held : s.getKey keyId = some key) :
    ∃ idx, s.findKeyIndex keyId = some idx ∧ s.keys[idx]? = some key := by
  obtain ⟨idx, found⟩ : ∃ idx, s.findKeyIndex keyId = some idx := by
    rw [← Option.isSome_iff_exists, findKeyIndex, findIdx?_isSome, any_eq_true]
    have matched : (key.id == keyId) = true := by
      exact find?_some (p := fun key : AumKey => key.id == keyId) held
    exact ⟨key, mem_of_find?_eq_some held, matched⟩
  exact ⟨idx, found, (getKey_of_findKeyIndex s keyId found).trans held⟩

/-- The update of a held key: the key is written, whatever the validation says. -/
theorem applyKind_update {aum : Aum} (kind : aum.messageKind = .updateKey) {idx : Nat}
    {key : AumKey} (found : s.findKeyIndex aum.keyId = some idx) (held : s.keys[idx]? = some key) :
    s.applyKind aum =
      ((updated key aum).staticValidate, { s with keys := s.keys.set idx (updated key aum) }) := by
  obtain ⟨bound, -⟩ := List.getElem?_eq_some_iff.mp held
  have written : s.keys.modify idx (fun key => updated key aum) =
      s.keys.set idx (updated key aum) := by
    rw [modify_eq_set_getElem?, held]
    rfl
  simp only [applyKind, kind, found, written, getElem?_set_self bound]

theorem applyKind_error (aum : Aum) (e : TkaError) (failed : (s.applyKind aum).1 = .error e)
    (other : aum.messageKind = .updateKey → s.getKey aum.keyId = none) :
    (s.applyKind aum).2 = s := by
  unfold applyKind at failed ⊢
  split at failed
  · cases failed
  · cases failed
  · split at failed
    · rfl
    · dsimp only at failed ⊢
      split at failed
      · rename_i clash
        rw [if_pos clash]
      · cases failed
  · split at failed
    · rfl
    · split at failed
      · rename_i taken
        rw [if_pos taken]
      · cases failed
  · rename_i kind
    split at failed
    · rfl
    · rename_i idx found
      obtain ⟨key, held, -⟩ := findKeyIndex_some found
      rw [getKey_of_findKeyIndex s _ found, other kind] at held
      cases held
  · split at failed
    · rename_i last
      rw [if_pos last]
    · rename_i more
      split at failed
      · rw [if_neg more]
      · cases failed

/-- An update that follows the head and names a held key leaves it within its
limits, or does not change it. -/
def UpdateFits (s : ReplayState) (aum : Aum) : Prop :=
  s.lastAumHash.isSome → aum.prevAumHash = s.lastAumHash → aum.messageKind = .updateKey →
    ∀ key, s.getKey aum.keyId = some key → (updated key aum).WithinLimits ∨ updated key aum = key

/-- Only a rolling chain takes an update, and only of its head. -/
theorem checkParent_update (s : ReplayState) {aum : Aum} (kind : aum.messageKind = .updateKey) :
    s.checkParent aum = .ok () ↔ s.lastAumHash.isSome ∧ aum.prevAumHash = s.lastAumHash := by
  rw [checkParent]
  cases s.lastAumHash with
  | none =>
    simp only [kind]
    split <;> simp
  | some head =>
    split <;> simp_all

/-- A failed fold leaves the state as it was just if the update fits. -/
theorem applyVerifiedAum_atomic_iff (C : Crypto) (s : ReplayState) (aum : Aum) :
    (∀ e, (s.applyVerifiedAum C aum).1 = .error e → (s.applyVerifiedAum C aum).2 = s) ↔
      s.UpdateFits aum := by
  constructor
  · intro atomic rolling linked kind key held
    have checked := (checkParent_update s kind).mpr ⟨rolling, linked⟩
    obtain ⟨idx, found, at'⟩ := findKeyIndex_of_getKey s aum.keyId held
    have applied := applyKind_update s kind found at'
    cases validated : (updated key aum).staticValidate with
    | ok _ => exact .inl ((AumKey.staticValidate_ok _).mp validated)
    | error e =>
      have left : s.applyVerifiedAum C aum =
          (.error e, { s with keys := s.keys.set idx (updated key aum) }) := by
        rw [applyVerifiedAum, checked]
        rw [applied, validated]
      rw [left] at atomic
      have same := congrArg (fun state : ReplayState => state.keys[idx]?) (atomic e rfl)
      obtain ⟨bound, -⟩ := List.getElem?_eq_some_iff.mp at'
      rw [List.getElem?_set_self bound, at'] at same
      exact .inr (Option.some.inj same)
  · intro fits e failed
    rw [applyVerifiedAum] at failed ⊢
    cases checked : s.checkParent aum with
    | error e => rfl
    | ok _ =>
      rw [checked] at failed
      -- The error is that of the kind's own arm: a fold that gets past it succeeds.
      cases applied : s.applyKind aum with
      | mk outcome after =>
        rw [applied] at failed
        cases outcome with
        | ok _ => cases failed
        | error e =>
          have left : (s.applyKind aum).2 = after := by rw [applied]
          have fails : (s.applyKind aum).1 = .error e := by rw [applied]
          by_cases names : aum.messageKind = .updateKey ∧ (s.getKey aum.keyId).isSome
          · obtain ⟨kind, isHeld⟩ := names
            obtain ⟨key, held⟩ := Option.isSome_iff_exists.mp isHeld
            obtain ⟨rolling, linked⟩ := (checkParent_update s kind).mp checked
            obtain ⟨idx, found, at'⟩ := findKeyIndex_of_getKey s aum.keyId held
            rw [applyKind_update s kind found at'] at left fails
            rcases fits rolling linked kind key held with valid | same
            · rw [(AumKey.staticValidate_ok _).mpr valid] at fails
              cases fails
            · obtain ⟨bound, is⟩ := List.getElem?_eq_some_iff.mp at'
              rw [← left, same, ← is, List.set_getElem_self]
          · rw [← left]
            refine applyKind_error s aum e fails fun kind => ?_
            rw [← Option.not_isSome_iff_eq_none]
            exact fun held => names ⟨kind, held⟩

def oneKey : ReplayState where
  keys := [⟨.ed25519, 1, [7], []⟩]
  lastAumHash := some ⟨⟨replicate 32 0, rfl⟩⟩
  stateId := none

def revokeVotes : Aum where
  messageKind := .updateKey
  prevAumHash := some ⟨⟨replicate 32 0, rfl⟩⟩
  key := none
  keyId := [7]
  state := none
  votes := some 0
  metadata := []
  signatures := []

/-- The update fails validation, and the key has lost its vote. -/
theorem failed_update_is_applied :
    { oneKey with keys := [⟨.ed25519, 0, [7], []⟩] } ≠ oneKey ∧
      ∀ C : Crypto, oneKey.applyVerifiedAum C revokeVotes =
        (.error .badKeyState, { oneKey with keys := [⟨.ed25519, 0, [7], []⟩] }) :=
  ⟨by decide, fun _ => rfl⟩

end ReplayState

end TailscaleRs.Tka
