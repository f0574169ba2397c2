import TailscaleRs.Tka.FromValue
import TailscaleRs.Tka.Sync

namespace TailscaleRs.Runtime

open Tka MemAumStore

/-- What a successful sync produces: the verified authority, the AUMs it was verified
from, and the hash of the genesis. -/
structure SyncedTka where
  authority : Authority
  store : MemAumStore
  oldest : AumHash

inductive TkaSyncError where
  | networkError
  | unsupported
  | internal
  deriving DecidableEq, Repr

inductive TkaSyncDriverError where
  | rpc (error : TkaSyncError)
  | chain (error : TkaError)
  deriving DecidableEq, Repr

structure TkaBootstrapResponse where
  genesisAum : Bytes

structure TkaSyncOfferRequest where
  head : String
  ancestors : List String

structure TkaSyncOfferResponse where
  head : String
  ancestors : List String
  missingAums : List Bytes

structure TkaSyncSendRequest where
  head : String
  missingAums : List Bytes

/-- Control as one sync meets it: its answer to each of the three requests. Nothing
is assumed of the answers. -/
structure Control where
  tkaBootstrap : String → Except TkaSyncError TkaBootstrapResponse
  tkaSyncOffer : TkaSyncOfferRequest → Except TkaSyncError TkaSyncOfferResponse
  tkaSyncSend : TkaSyncSendRequest → Except TkaSyncError Unit

def rpc {α : Type} (answer : Except TkaSyncError α) : Except TkaSyncDriverError α :=
  answer.mapError .rpc

def chainOp {α : Type} (result : Except TkaError α) : Except TkaSyncDriverError α :=
  result.mapError .chain

/-- One undecodable AUM rejects the batch. -/
def decodeAums (marshaled : List Bytes) : Except TkaError (List Aum) :=
  marshaled.mapM Aum.fromCbor

def parseOffer (head : String) (ancestors : List String) : Except TkaError SyncOffer := do
  let head ← required "bad base32 head" (AumHash.fromBase32 head)
  let ancestors ← ancestors.mapM
    (fun text => required "bad base32 ancestor" (AumHash.fromBase32 text))
  return ⟨head, ancestors⟩

section

variable (C : Crypto)

/-- The whole known chain is walked from the genesis and verified again. -/
def rebuildAuthority (store : MemAumStore) (oldest : AumHash) : Except TkaError Authority := do
  let chain ← store.linearChainFrom C oldest
  let verified ← VerifiedAumChain.verify C chain
  return Authority.fromVerifiedChain verified

variable (control : Control)

/-- A node without a chain fetches the genesis; an empty answer means no lock. -/
def bootstrap : Except TkaSyncDriverError (Option SyncedTka) := do
  let resp ← rpc (control.tkaBootstrap "")
  if resp.genesisAum = [] then return none
  else
    let genesis ← chainOp (Aum.fromCbor resp.genesisAum)
    let oldest := genesis.hash C
    let store := new.insert C genesis
    let authority ← chainOp (rebuildAuthority C store oldest)
    return some ⟨authority, store, oldest⟩

/-- Offer, inform, send: what control sent is verified with the rest of the chain, and
what control lacks is worked out from the authority held before. -/
def exchange (held : SyncedTka) : Except TkaSyncDriverError SyncedTka := do
  let localOffer ← chainOp (held.authority.syncOffer C held.store.toStore held.oldest)
  let offerResp ← rpc (control.tkaSyncOffer
    ⟨localOffer.head.toBase32, localOffer.ancestors.map AumHash.toBase32⟩)
  let controlOffer ← chainOp (parseOffer offerResp.head offerResp.ancestors)
  let received ← chainOp (decodeAums offerResp.missingAums)
  let store := received.foldl (insert C) held.store
  let toSend := (held.authority.missingAums C store.toStore controlOffer held.oldest).toOption.getD
    []
  let authority ← chainOp (rebuildAuthority C store held.oldest)
  -- the outcome of the send is only logged: the local advance stands either way
  let _sent := control.tkaSyncSend ⟨authority.head.toBase32, toSend.map Aum.serialize⟩
  return ⟨authority, store, held.oldest⟩

def startingChain : Option SyncedTka → Except TkaSyncDriverError (Option SyncedTka)
  | some held => .ok (some held)
  | none => bootstrap C control

def syncTka (current : Option SyncedTka) : Except TkaSyncDriverError (Option SyncedTka) := do
  let start ← startingChain C control current
  match start with
  | none => return none
  | some held =>
    let synced ← exchange C control held
    return some synced

end

variable (C : Crypto) (store : MemAumStore)

/-- AUMs are filed under their own hash. -/
def Keyed : Prop :=
  ∀ hash aum, store.byHash hash = some aum → aum.hash C = hash

theorem keyed_new : Keyed C new := by
  intro hash aum found
  cases found

theorem keyed_insert (aum : Aum) (keyed : Keyed C store) : Keyed C (store.insert C aum) := by
  intro hash other found
  simp only [MemAumStore.insert, Function.update_apply] at found
  split at found
  · rename_i own
    cases found
    exact own.symm
  · exact keyed hash other found

theorem keyed_foldl_insert (aums : List Aum) (store : MemAumStore) (keyed : Keyed C store) :
    Keyed C (aums.foldl (insert C) store) := by
  induction aums generalizing store with
  | nil => exact keyed
  | cons aum rest ih => exact ih (store.insert C aum) (keyed_insert C store aum keyed)

/-- The chain the authority was verified from starts at the genesis of hash `g`. -/
def SyncedTka.RootedAt (synced : SyncedTka) (g : AumHash) : Prop :=
  ∃ genesis rest verified,
    synced.store.linearChainFrom C synced.oldest = .ok (genesis :: rest) ∧
    genesis.hash C = g ∧ VerifiedAumChain.verify C (genesis :: rest) = .ok verified ∧
    synced.authority = Authority.fromVerifiedChain verified

theorem linearChainFrom_starts {oldest : AumHash} {chain : List Aum} (keyed : Keyed C store)
    (walked : store.linearChainFrom C oldest = .ok chain) :
    ∃ genesis rest, chain = genesis :: rest ∧ genesis.hash C = oldest := by
  unfold linearChainFrom at walked
  split at walked
  · cases walked
  · rename_i curs found
    refine ⟨curs, ?_⟩
    have named := keyed oldest curs found
    unfold maxSyncIter linearWalk at walked
    dsimp only at walked
    split at walked
    · cases walked
      exact ⟨[], rfl, named⟩
    · cases later : linearWalk C store.toStore 1999
          (ReplayState.default.applyVerifiedAum C curs).2 _ with
      | error e =>
        rw [later] at walked
        cases walked
      | ok rest =>
        rw [later] at walked
        cases walked
        exact ⟨rest, rfl, named⟩

variable (control : Control)

theorem rebuildAuthority_ok (store : MemAumStore) (oldest : AumHash) {authority : Authority}
    (keyed : Keyed C store) (rebuilt : rebuildAuthority C store oldest = .ok authority) :
    (⟨authority, store, oldest⟩ : SyncedTka).RootedAt C oldest := by
  unfold rebuildAuthority at rebuilt
  rw [bind_ok] at rebuilt
  obtain ⟨chain, walked, rebuilt⟩ := rebuilt
  rw [bind_ok] at rebuilt
  obtain ⟨verified, accepted, same⟩ := rebuilt
  cases same
  obtain ⟨genesis, rest, rfl, named⟩ := linearChainFrom_starts C store keyed walked
  exact ⟨genesis, rest, verified, walked, named, accepted, rfl⟩

theorem bootstrap_ok (held : SyncedTka) (fetched : bootstrap C control = .ok (some held)) :
    Keyed C held.store := by
  unfold bootstrap at fetched
  rw [bind_ok] at fetched
  obtain ⟨resp, -, fetched⟩ := fetched
  split at fetched
  · cases fetched
  · rw [bind_ok] at fetched
    obtain ⟨genesis, -, fetched⟩ := fetched
    rw [bind_ok] at fetched
    obtain ⟨authority, -, same⟩ := fetched
    cases same
    exact keyed_insert C _ genesis (keyed_new C)

theorem exchange_ok (held synced : SyncedTka) (keyed : Keyed C held.store)
    (advanced : exchange C control held = .ok synced) :
    synced.oldest = held.oldest ∧ Keyed C synced.store ∧ synced.RootedAt C held.oldest := by
  unfold exchange at advanced
  simp only [bind_ok] at advanced
  obtain ⟨_, -, _, -, _, -, received, -, authority, rebuilt, same⟩ := advanced
  cases same
  have grown := keyed_foldl_insert C received held.store keyed
  rw [chainOp, mapError_ok] at rebuilt
  exact ⟨rfl, grown, rebuildAuthority_ok C _ _ grown rebuilt⟩

variable {current : Option SyncedTka}

/-- A successful sync returns a verified chain; from a held chain it keeps the genesis. -/
theorem syncTka_some {synced : SyncedTka} (keyed : ∀ held, current = some held → Keyed C held.store)
    (ran : syncTka C control current = .ok (some synced)) :
    Keyed C synced.store ∧ synced.RootedAt C synced.oldest ∧
      ∀ held, current = some held → synced.oldest = held.oldest := by
  unfold syncTka at ran
  rw [bind_ok] at ran
  obtain ⟨start, began, ran⟩ := ran
  cases start with
  | none => cases ran
  | some held =>
    rw [bind_ok] at ran
    obtain ⟨advanced, exchanged, same⟩ := ran
    cases same
    have startKeyed : Keyed C held.store := by
      cases current with
      | none => exact bootstrap_ok C control held began
      | some own =>
        cases began
        exact keyed held rfl
    obtain ⟨kept, grown, rooted⟩ := exchange_ok C control held synced startKeyed exchanged
    refine ⟨grown, kept ▸ rooted, ?_⟩
    intro own present
    rw [present] at began
    cases began
    exact kept

/-- Only a bootstrap answered without a genesis ends a sync with no lock. -/
theorem syncTka_none (ran : syncTka C control current = .ok none) :
    ∃ resp, control.tkaBootstrap "" = .ok resp ∧ resp.genesisAum = [] := by
  unfold syncTka at ran
  rw [bind_ok] at ran
  obtain ⟨start, began, ran⟩ := ran
  cases start with
  | some held =>
    dsimp only at ran
    rw [bind_ok] at ran
    obtain ⟨advanced, -, same⟩ := ran
    cases same
  | none =>
    cases current with
    | some own => cases began
    | none =>
      unfold startingChain bootstrap at began
      rw [bind_ok] at began
      obtain ⟨resp, answered, began⟩ := began
      rw [rpc, mapError_ok] at answered
      split at began
      · exact ⟨resp, answered, by assumption⟩
      · simp only [bind_ok] at began
        obtain ⟨_, -, _, -, same⟩ := began
        cases same

end TailscaleRs.Runtime
