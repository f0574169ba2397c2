import Mathlib.Data.List.Induction
import TailscaleRs.Tka.Replay

namespace TailscaleRs.Tka

open List ReplayState Crypto

structure State where
  keys : List Key
  deriving DecidableEq

def State.getKey (s : State) (keyId : Bytes) : Option Key :=
  s.keys.find? (fun key => key.id == keyId)

structure Authority where
  head : AumHash
  state : State
  deriving DecidableEq

/-- The head and the state at the head of a chain whose signatures were checked. -/
structure VerifiedAumChain where
  state : ReplayState
  head : AumHash
  deriving DecidableEq

def ReplayState.toState (s : ReplayState) : State := ⟨s.keys.map AumKey.toKey⟩

section

variable (C : Crypto)

/-- The signature loop over one signing digest. -/
def ReplayState.verifyEach (s : ReplayState) (sigHash : Digest) :
    List AumSignature → Except TkaError Unit
  | [] => .ok ()
  | sig :: rest =>
    match s.getKey sig.keyId with
    | none => .error .untrustedKey
    | some key =>
      if key.kind ≠ .ed25519 ∨ key.publicKey.length ≠ 32 then
        .error (.decode "AUM signing key is not ed25519")
      else match verifyEd25519Zip215 C key.publicKey sigHash.bytes sig.signature with
        | .error e => .error e
        | .ok () => verifyEach s sigHash rest

def ReplayState.verifyAumSignatures (s : ReplayState) (aum : Aum) : Except TkaError Unit :=
  if aum.signatures = [] then .error .unsignedAum
  else s.verifyEach C (aum.sigHash C) aum.signatures

variable (isGenesis : Bool)

/-- One link: the genesis folds first and is checked against the keys it seeds,
every later link is checked against the state at its parent and then folds. -/
def verifyStep (s : ReplayState) (aum : Aum) : Except TkaError ReplayState := do
  aum.staticValidate
  if isGenesis then
    let s' ← s.foldAum C aum
    s'.verifyAumSignatures C aum
    return s'
  else
    s.verifyAumSignatures C aum
    s.foldAum C aum

def verifyLoop : Bool → ReplayState → List Aum → Except TkaError ReplayState
  | _, s, [] => .ok s
  | isGenesis, s, aum :: rest => do
      let s' ← verifyStep C isGenesis s aum
      verifyLoop false s' rest

variable (aums : List Aum)

def VerifiedAumChain.verify : Except TkaError VerifiedAumChain :=
  match aums.getLast? with
  | none => .error .badChain
  | some last => do
      let state ← verifyLoop C true default aums
      return ⟨state, last.hash C⟩

variable (chain : VerifiedAumChain)

def Authority.fromVerifiedChain : Authority :=
  ⟨chain.head, chain.state.toState⟩

/-- Structural replay without signature checks. -/
def Authority.fromChain : Except TkaError Authority :=
  match aums.getLast? with
  | none => .error .badChain
  | some last => do
      let state ← foldAums C default aums
      return ⟨last.hash C, state.toState⟩

/-- Every signature names a key of the state and verifies under it. -/
def SignedUnder (s : ReplayState) (aum : Aum) : Prop :=
  ∀ sig ∈ aum.signatures, ∃ key ∈ s.keys, key.id = sig.keyId ∧
    verifyEd25519Zip215 C key.publicKey (aum.sigHash C).bytes sig.signature = .ok ()

theorem ReplayState.verifyEach_ok (s : ReplayState) (sigHash : Digest) (sigs : List AumSignature)
    (checked : s.verifyEach C sigHash sigs = .ok ()) :
    ∀ sig ∈ sigs, ∃ key ∈ s.keys, key.id = sig.keyId ∧
      verifyEd25519Zip215 C key.publicKey sigHash.bytes sig.signature = .ok () := by
  induction sigs with
  | nil => simp
  | cons sig rest ih =>
    unfold verifyEach at checked
    split at checked
    · cases checked
    · rename_i key found
      split at checked
      · cases checked
      · split at checked
        · cases checked
        · rename_i verified
          simp only [mem_cons, forall_eq_or_imp]
          refine ⟨⟨key, mem_of_find?_eq_some found, ?_, verified⟩, ih checked⟩
          simpa using find?_some found

theorem ReplayState.verifyAumSignatures_ok (s : ReplayState) {aum : Aum}
    (checked : s.verifyAumSignatures C aum = .ok ()) :
    aum.signatures ≠ [] ∧ SignedUnder C s aum := by
  unfold verifyAumSignatures at checked
  split at checked
  · cases checked
  · rename_i signed
    exact ⟨signed, s.verifyEach_ok C _ _ checked⟩

/-- An accepted link is valid, signed and folded; its signers are trusted after
the fold for the genesis and before it otherwise. -/
theorem verifyStep_ok (s s' : ReplayState) (aum : Aum)
    (accepted : verifyStep C isGenesis s aum = .ok s') :
    aum.staticValidate = .ok () ∧ s.foldAum C aum = .ok s' ∧ aum.signatures ≠ [] ∧
      SignedUnder C (if isGenesis then s' else s) aum := by
  unfold verifyStep at accepted
  rw [bind_ok] at accepted
  obtain ⟨⟨⟩, valid, accepted⟩ := accepted
  cases isGenesis with
  | true =>
    simp only [↓reduceIte, bind_ok] at accepted
    obtain ⟨mid, folded, ⟨⟩, checked, same⟩ := accepted
    cases same
    obtain ⟨signed, under⟩ := verifyAumSignatures_ok C s' checked
    exact ⟨valid, folded, signed, under⟩
  | false =>
    simp only [Bool.false_eq_true, ↓reduceIte, bind_ok] at accepted
    obtain ⟨⟨⟩, checked, folded⟩ := accepted
    obtain ⟨signed, under⟩ := verifyAumSignatures_ok C s checked
    exact ⟨valid, folded, signed, under⟩

theorem verifyLoop_append (s : ReplayState) (first second : List Aum) :
    verifyLoop C isGenesis s (first ++ second) =
      (verifyLoop C isGenesis s first >>= fun mid =>
        verifyLoop C (isGenesis && first.isEmpty) mid second) := by
  induction first generalizing isGenesis s with
  | nil => simp only [isEmpty_nil, Bool.and_true]; rfl
  | cons aum rest ih =>
    simp only [cons_append, verifyLoop, ih, bind_assoc, isEmpty_cons, Bool.and_false,
      Bool.false_and]

theorem verifyLoop_folds (s s' : ReplayState) (aums : List Aum)
    (accepted : verifyLoop C isGenesis s aums = .ok s') : foldAums C s aums = .ok s' := by
  induction aums generalizing isGenesis s with
  | nil => exact accepted
  | cons aum rest ih =>
    simp only [verifyLoop, bind_ok] at accepted
    obtain ⟨mid, step, accepted⟩ := accepted
    obtain ⟨-, folded, -, -⟩ := verifyStep_ok C isGenesis s mid aum step
    rw [foldAums_cons, bind_ok]
    exact ⟨mid, folded, ih false mid accepted⟩

theorem verifyLoop_snoc (aum : Aum) (s' : ReplayState)
    (accepted : verifyLoop C true default (aums ++ [aum]) = .ok s') :
    ∃ mid, verifyLoop C true default aums = .ok mid ∧
      verifyStep C aums.isEmpty mid aum = .ok s' := by
  rw [verifyLoop_append, bind_ok] at accepted
  obtain ⟨mid, reached, final⟩ := accepted
  simp only [verifyLoop, bind_ok] at final
  obtain ⟨next, step, same⟩ := final
  cases same
  exact ⟨mid, reached, step⟩

theorem VerifiedAumChain.verify_ok (accepted : VerifiedAumChain.verify C aums = .ok chain) :
    ∃ last, aums.getLast? = some last ∧ chain.head = last.hash C ∧
      verifyLoop C true default aums = .ok chain.state := by
  unfold VerifiedAumChain.verify at accepted
  split at accepted
  · cases accepted
  · rename_i last ends
    rw [bind_ok] at accepted
    obtain ⟨state, looped, same⟩ := accepted
    cases same
    exact ⟨last, ends, rfl, looped⟩

theorem verifyLoop_get (s' : ReplayState) (i : Nat) {aum : Aum}
    (accepted : verifyLoop C true default aums = .ok s') (held : aums[i]? = some aum) :
    ∃ mid next, foldAums C default (aums.take i) = .ok mid ∧
      verifyStep C (decide (i = 0)) mid aum = .ok next := by
  have parts := split_at_index i held
  obtain ⟨bound, -⟩ := List.getElem?_eq_some_iff.mp held
  rw [parts, append_cons, verifyLoop_append, bind_ok] at accepted
  obtain ⟨next, reached, -⟩ := accepted
  obtain ⟨mid, reached, step⟩ := verifyLoop_snoc C _ aum next reached
  refine ⟨mid, next, verifyLoop_folds C true _ mid _ reached, ?_⟩
  have genesis : (aums.take i).isEmpty = decide (i = 0) := by
    rw [Bool.eq_iff_iff, List.isEmpty_iff, List.take_eq_nil_iff, decide_eq_true_iff]
    constructor
    · rintro (zero | empty)
      · exact zero
      · simp [empty] at bound
    · exact Or.inl
  rwa [genesis] at step

theorem VerifiedAumChain.verify_prefix {aums before : List Aum} {chain : VerifiedAumChain}
    (accepted : VerifiedAumChain.verify C aums = .ok chain) (nonempty : before ≠ [])
    (initial : before <+: aums) : ∃ sub, VerifiedAumChain.verify C before = .ok sub := by
  obtain ⟨after, rfl⟩ := initial
  obtain ⟨-, -, -, looped⟩ := VerifiedAumChain.verify_ok C _ chain accepted
  rw [verifyLoop_append, bind_ok] at looped
  obtain ⟨mid, reached, -⟩ := looped
  obtain ⟨last, ends⟩ := getLast?_isSome.mpr nonempty |> Option.isSome_iff_exists.mp
  refine ⟨⟨mid, last.hash C⟩, ?_⟩
  simp only [VerifiedAumChain.verify, ends, reached]
  rfl

theorem Authority.fromChain_of_verify (accepted : VerifiedAumChain.verify C aums = .ok chain) :
    Authority.fromChain C aums = .ok (Authority.fromVerifiedChain chain) := by
  obtain ⟨last, ends, head, looped⟩ := VerifiedAumChain.verify_ok C aums chain accepted
  have folded := verifyLoop_folds C true _ _ aums looped
  simp only [Authority.fromChain, ends, folded, Authority.fromVerifiedChain, head]
  rfl

/-- The state that vouches for position `i`: the fold of the AUMs before it, and
for the genesis the fold of the genesis itself. -/
theorem verifyLoop_signers (s' : ReplayState) (i : Nat) (aum : Aum)
    (accepted : verifyLoop C true default aums = .ok s') (held : aums[i]? = some aum) :
    ∃ s, foldAums C default (aums.take (max i 1)) = .ok s ∧ SignedUnder C s aum := by
  obtain ⟨mid, next, before, step⟩ := verifyLoop_get C aums s' i accepted held
  obtain ⟨-, folded, -, under⟩ := verifyStep_ok C _ mid next aum step
  cases i with
  | zero =>
    cases before
    refine ⟨next, ?_, under⟩
    have genesis : aums.take (max 0 1) = [aum] := by
      rw [Nat.zero_max, take_add_one, held]
      rfl
    rw [genesis, foldAums_cons, folded]
    rfl
  | succ j =>
    rw [Nat.max_eq_left (Nat.succ_le_succ (Nat.zero_le j))]
    exact ⟨mid, before, under⟩

/-- The trust boundary: what an accepted chain guarantees. -/
theorem VerifiedAumChain.verify_sound (aums : List Aum) (chain : VerifiedAumChain)
    (accepted : VerifiedAumChain.verify C aums = .ok chain) :
    (∀ aum ∈ aums, aum.staticValidate = .ok () ∧ aum.signatures ≠ []) ∧
      ChainLinked C aums ∧
      (∀ i aum, aums[i]? = some aum →
        ∃ s, foldAums C default (aums.take (max i 1)) = .ok s ∧ SignedUnder C s aum) ∧
      Authority.fromChain C aums = .ok (Authority.fromVerifiedChain chain) ∧
      ∀ before, before ≠ [] → before <+: aums →
        ∃ sub, VerifiedAumChain.verify C before = .ok sub := by
  obtain ⟨last, -, -, looped⟩ := VerifiedAumChain.verify_ok C aums chain accepted
  refine ⟨?_, ?_, ?_, Authority.fromChain_of_verify C aums chain accepted, ?_⟩
  · intro aum member
    obtain ⟨i, held⟩ := mem_iff_getElem?.mp member
    obtain ⟨mid, next, -, step⟩ := verifyLoop_get C aums _ i looped held
    obtain ⟨valid, -, signed, -⟩ := verifyStep_ok C _ mid next aum step
    exact ⟨valid, signed⟩
  · exact foldAums_linked C (verifyLoop_folds C true _ _ aums looped)
  · exact fun i aum => verifyLoop_signers C aums _ i aum looped
  · intro before nonempty initial
    exact VerifiedAumChain.verify_prefix C accepted nonempty initial

end

/-- A concrete choice of the primitives to run the model on: a polynomial digest,
and signatures that repeat the key of their signer. -/
def Crypto.toy : Crypto where
  blake2s256 bytes :=
    ⟨BigEndian.toBytes 32
      (bytes.foldl (fun acc b => (acc * 257 + b.toNat + 1) % (2 ^ 256 - 189)) 7),
      BigEndian.toBytes_length 32 _⟩
  stdKeyValid _ := true
  stdVerify key _ sig := sig.take 32 == key
  zip215KeyValid _ := true
  zip215Verify key _ sig := sig.take 32 == key

def toyKey (seed : UInt8) : AumKey := ⟨.ed25519, 1, replicate 32 seed, []⟩

def toySignature (seed : UInt8) : AumSignature :=
  ⟨replicate 32 seed, replicate 64 seed⟩

/-- A checkpoint trusting the keys of the seeds, signed by the first of them. -/
def toyGenesis : Aum where
  messageKind := .checkpoint
  prevAumHash := none
  key := none
  keyId := []
  state := some ⟨none, some [replicate 32 0], some [toyKey 1, toyKey 2], 5, 6⟩
  votes := none
  metadata := []
  signatures := [toySignature 1]

def toyChild (parent : Aum) (kind : AumKind) (keyId : Bytes) (signer : UInt8) : Aum where
  messageKind := kind
  prevAumHash := some (parent.hash toy)
  key := none
  keyId := keyId
  state := none
  votes := none
  metadata := []
  signatures := [toySignature signer]

def toyChain : List Aum :=
  [toyGenesis, toyChild toyGenesis .removeKey (replicate 32 2) 2]

theorem toyChain_verified : ∃ chain, VerifiedAumChain.verify toy toyChain = .ok chain :=
  ⟨⟨⟨[toyKey 1], some ((toyChild toyGenesis .removeKey (replicate 32 2) 2).hash toy),
      some (5, 6)⟩,
    (toyChild toyGenesis .removeKey (replicate 32 2) 2).hash toy⟩, by decide +kernel⟩

theorem verify_sound_toyChain :
    ∃ chain, VerifiedAumChain.verify toy toyChain = .ok chain ∧
      ChainLinked toy toyChain ∧
      Authority.fromChain toy toyChain = .ok (Authority.fromVerifiedChain chain) := by
  obtain ⟨chain, accepted⟩ := toyChain_verified
  obtain ⟨-, linked, -, rebuilt, -⟩ := VerifiedAumChain.verify_sound toy _ chain accepted
  exact ⟨chain, accepted, linked, rebuilt⟩

/-- What the trusted keys satisfy at every point of a replay. -/
structure KeySetValid (keys : List AumKey) : Prop where
  distinct : keys.Pairwise (fun a b => a.id ≠ b.id)
  limits : ∀ key ∈ keys, key.WithinLimits

namespace KeySetValid

theorem nil : KeySetValid [] := ⟨List.Pairwise.nil, by simp⟩

theorem add (s : ReplayState) (key : AumKey) (valid : KeySetValid s.keys)
    (fresh : s.getKey key.id = none) (within : key.WithinLimits) :
    KeySetValid (s.keys ++ [key]) := by
  constructor
  · rw [pairwise_append]
    refine ⟨valid.distinct, pairwise_singleton _ _, ?_⟩
    intro held member new single same
    rw [mem_singleton] at single
    subst new
    exact find?_eq_none.mp fresh held member (by simp [same])
  · intro held member
    rcases mem_append.mp member with old | new
    · exact valid.limits held old
    · rw [mem_singleton] at new
      exact new ▸ within

theorem update (keys : List AumKey) (idx : Nat) (old new : AumKey) (valid : KeySetValid keys)
    (held : keys[idx]? = some old) (same : new.id = old.id) (within : new.WithinLimits) :
    KeySetValid (keys.set idx new) := by
  have ids : (keys.set idx new).map AumKey.id = keys.map AumKey.id := by
    rw [map_set, same]
    apply ext_getElem?
    intro i
    obtain ⟨bound, rfl⟩ := List.getElem?_eq_some_iff.mp held
    rw [List.getElem?_set]
    split
    · rename_i here
      subst here
      simp [bound]
    · rfl
  constructor
  · have distinct := valid.distinct
    rw [← pairwise_map] at distinct ⊢
    rwa [ids]
  · intro key member
    rcases mem_or_eq_of_mem_set member with old | rfl
    · exact valid.limits key old
    · exact within

theorem remove (keys : List AumKey) (idx : Nat) (valid : KeySetValid keys) :
    KeySetValid (keys.eraseIdx idx) :=
  ⟨valid.distinct.sublist (eraseIdx_sublist keys idx),
    fun key member => valid.limits key (mem_of_mem_eraseIdx member)⟩

end KeySetValid

variable (s s' : ReplayState) (aum : Aum)

theorem KeyStep.keySetValid (step : KeyStep s aum s') (checked : aum.staticValidate = .ok ())
    (valid : KeySetValid s.keys) :
    KeySetValid s'.keys := by
  obtain ⟨keyLimits, stateChecked, -⟩ := Aum.staticValidate_ok aum checked
  cases step with
  | unchanged kind => exact valid
  | checkpoint kind state carried same =>
    obtain ⟨-, limits, distinct⟩ :=
      AumState.staticValidateCheckpoint_ok (stateChecked state carried)
    exact ⟨distinct, limits⟩
  | added kind key carried fresh => exact valid.add s key fresh (keyLimits key carried)
  | updated kind idx key held named within => exact valid.update s.keys idx key _ held rfl within
  | removed kind idx key held named kept => exact valid.remove s.keys idx

theorem KeyStep.keys_nonempty (step : KeyStep s aum s') (checked : aum.staticValidate = .ok ())
    (nonempty : s.keys ≠ []) : s'.keys ≠ [] := by
  cases step with
  | unchanged kind => exact nonempty
  | checkpoint kind state carried same =>
    obtain ⟨-, stateChecked, -⟩ := Aum.staticValidate_ok aum checked
    exact (AumState.staticValidateCheckpoint_ok (stateChecked state carried)).1
  | added kind key carried fresh => simp
  | updated kind idx key held named within => simpa using nonempty
  | removed kind idx key held named kept =>
    obtain ⟨bound, here⟩ := List.getElem?_eq_some_iff.mp held
    have several : s.keys.length ≠ 1 := by
      intro single
      have first : idx = 0 := by omega
      subst first
      exact kept ⟨single, by rw [head?_eq_getElem?, held, Option.map_some, named]⟩
    have shorter := length_eraseIdx_of_lt bound
    change s.keys.eraseIdx idx ≠ []
    exact ne_nil_of_length_pos (by omega)

/-- Every checkpoint among the AUMs carries the state's identifier. -/
def CheckpointsAgree (stateId : Option (UInt64 × UInt64)) (aums : List Aum) : Prop :=
  ∀ aum ∈ aums, aum.messageKind = .checkpoint →
    ∃ state, aum.state = some state ∧ stateId = some (state.stateId1, state.stateId2)

/-- Only a checkpoint writes the state identifier, and it writes its own. -/
theorem KeyStep.stateId_cases (step : KeyStep s aum s') :
    (aum.messageKind ≠ .checkpoint ∧ s'.stateId = s.stateId) ∨
      ∃ state, aum.state = some state ∧ s'.stateId = some (state.stateId1, state.stateId2) ∧
        ∀ id, s.stateId = some id → id = (state.stateId1, state.stateId2) := by
  cases step with
  | unchanged kind => exact .inl ⟨by rcases kind with kind | kind <;> simp [kind], rfl⟩
  | checkpoint kind state carried same => exact .inr ⟨state, carried, rfl, same⟩
  | added kind | updated kind | removed kind => exact .inl ⟨by simp [kind], rfl⟩

theorem KeyStep.checkpointsAgree (step : KeyStep s aum s') (earlier : List Aum)
    (agree : CheckpointsAgree s.stateId earlier) :
    CheckpointsAgree s'.stateId (earlier ++ [aum]) := by
  intro other member kind
  rw [mem_append, mem_singleton] at member
  rcases KeyStep.stateId_cases s s' aum step with ⟨plain, kept⟩ | ⟨state, carried, written, same⟩
  · rcases member with old | rfl
    · rw [kept]
      exact agree other old kind
    · exact absurd kind plain
  · rcases member with old | rfl
    · obtain ⟨held, present, seeded⟩ := agree other old kind
      exact ⟨held, present, by rw [written, same _ seeded]⟩
    · exact ⟨state, carried, written⟩

/-- The invariant of a replay that has folded the AUMs. -/
structure ReplayInvariant (aums : List Aum) (s : ReplayState) : Prop where
  keys : KeySetValid s.keys
  nonempty : aums ≠ [] → s.keys ≠ []
  checkpoints : CheckpointsAgree s.stateId aums

theorem ReplayInvariant.initial : ReplayInvariant [] default :=
  ⟨KeySetValid.nil, by simp, by simp [CheckpointsAgree]⟩

variable (C : Crypto) (aums : List Aum)

theorem ReplayInvariant.step (aum : Aum) (s s' : ReplayState) (held : ReplayInvariant aums s)
    (accepted : verifyStep C aums.isEmpty s aum = .ok s') :
    ReplayInvariant (aums ++ [aum]) s' := by
  obtain ⟨checked, folded, signed, under⟩ := verifyStep_ok C _ s s' aum accepted
  obtain ⟨-, mid, step, rfl⟩ := foldAum_ok aum folded
  refine ⟨step.keySetValid s mid aum checked held.keys, ?_,
    step.checkpointsAgree s mid aum aums held.checkpoints⟩
  intro _
  by_cases genesis : aums = []
  · -- A genesis seeds the set itself: one of its signers is among the keys it leaves.
    obtain ⟨sig, member⟩ := exists_mem_of_ne_nil _ signed
    simp only [genesis] at under
    obtain ⟨key, trusted, -⟩ := under sig member
    exact ne_nil_of_mem trusted
  · exact step.keys_nonempty s mid aum checked (held.nonempty genesis)

theorem verifyLoop_invariant (s : ReplayState) (accepted : verifyLoop C true default aums = .ok s) :
    ReplayInvariant aums s := by
  induction aums using reverseRecOn generalizing s with
  | nil =>
    cases accepted
    exact .initial
  | append_singleton aums aum ih =>
    obtain ⟨mid, reached, step⟩ := verifyLoop_snoc C aums aum s accepted
    exact (ih mid reached).step C aums aum mid s step

/-- After every AUM of an accepted chain the trusted keys are a non-empty set of
bounded keys under distinct ids, the cursor is the last AUM folded, and all the
checkpoints folded carry one state identifier. -/
theorem verify_keySet (aums before : List Aum) (last : Aum) (chain : VerifiedAumChain)
    (accepted : VerifiedAumChain.verify C aums = .ok chain) (initial : before <+: aums)
    (ends : before.getLast? = some last) :
    ∃ s, foldAums C default before = .ok s ∧
      s.keys ≠ [] ∧
      s.keys.Pairwise (fun a b => a.id ≠ b.id) ∧
      (∀ key ∈ s.keys, 1 ≤ key.votes ∧ key.votes ≤ 4096 ∧ metaBytes key.metadata ≤ 512) ∧
      s.lastAumHash = some (last.hash C) ∧
      ∃ stateId, ∀ aum ∈ before, aum.messageKind = .checkpoint →
        ∃ state, aum.state = some state ∧ (state.stateId1, state.stateId2) = stateId := by
  have nonempty : before ≠ [] := by
    rintro rfl
    cases ends
  obtain ⟨sub, verified⟩ :=
    VerifiedAumChain.verify_prefix C accepted nonempty initial
  obtain ⟨-, -, -, looped⟩ := VerifiedAumChain.verify_ok C before sub verified
  have folded := verifyLoop_folds C true _ _ before looped
  obtain ⟨keys, trusted, checkpoints⟩ := verifyLoop_invariant C before sub.state looped
  refine ⟨sub.state, folded, trusted nonempty, keys.distinct, keys.limits,
    foldAums_lastAumHash C _ _ before last ends folded, sub.state.stateId.getD (0, 0),
    ?_⟩
  intro aum member kind
  obtain ⟨state, carried, seeded⟩ := checkpoints aum member kind
  exact ⟨state, carried, by rw [seeded, Option.getD_some]⟩

theorem verify_keySet_toyChain :
    ∃ s, foldAums toy default toyChain = .ok s ∧ s.keys ≠ [] := by
  obtain ⟨chain, accepted⟩ := toyChain_verified
  obtain ⟨s, folded, trusted, -⟩ := verify_keySet toy toyChain toyChain
    (toyChild toyGenesis .removeKey (replicate 32 2) 2) chain accepted
    (prefix_refl _) rfl
  exact ⟨s, folded, trusted⟩

end TailscaleRs.Tka
