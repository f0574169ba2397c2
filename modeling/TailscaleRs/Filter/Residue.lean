import TailscaleRs.Filter.Verdict

namespace TailscaleRs.Filter

open InvertedIndex
open Net (IpNet)
open Slots (find slot)

/-- A member of the set an index holds for a key, if it holds one. -/
def Listed (ids : Option DynBitset) (id : Nat) : Prop := ∃ set, ids = some set ∧ set.test id = true

theorem TableIndexed.exact {table : Bart.SplitStackTable DynBitset} {pairs : IpNet → Nat → Prop}
    (indexed : TableIndexed table pairs) {net : IpNet} (truncated : net.Truncated) :
    ∃ found, table.lookupPrefixExact net = .ok found ∧ ∀ id, Listed found id ↔ pairs net id := by
  obtain ⟨routes, holds, keyed⟩ := indexed
  exact ⟨routes net, holds.represents.lookupPrefixExact net truncated,
    fun id => keyed.pairs_iff.symm⟩

/-- Each capability in use has an id of its own, and no other id is in use. -/
structure CapLookup.Tidy (caps : CapLookup) (pairs : String → RuleId → Prop) : Prop where
  listed : ∀ cap id, Listed (find caps.ids (slot caps.capsToRules) cap) id ↔ pairs cap id
  used : ∀ cap, (∃ capId, caps.ids cap = some capId) ↔ ∃ id, pairs cap id
  distinct : ∀ cap cap' capId, caps.ids cap = some capId → caps.ids cap' = some capId → cap = cap'
  owned : ∀ capId, slot caps.capsToRules capId ≠ none → ∃ cap, caps.ids cap = some capId
  free : ∀ capId, caps.freelist.test capId = true →
    capId < caps.capsToRules.length ∧ ∀ cap, caps.ids cap ≠ some capId

theorem CapLookup.Indexed.tidy {caps : CapLookup} {pairs : String → RuleId → Prop}
    (indexed : caps.Indexed pairs) : caps.Tidy pairs where
  listed := fun cap id => indexed.keyed.pairs_iff.symm
  used := by
    intro cap
    rw [← indexed.keyed.get_ne_none, find]
    cases is : caps.ids cap with
    | none => simp
    | some capId => simpa using indexed.named.held cap capId is
  distinct := indexed.named.distinct
  owned := indexed.named.owned
  free := by
    intro capId free
    refine ⟨indexed.vacancies.lt free, ?_⟩
    intro cap is
    exact indexed.named.held cap capId is (indexed.vacancies.slot_eq_none free)

/-- An id and the destination and rule that own it. -/
def DstMatchLookup.LiveDst (lookup : DstMatchLookup) (dstId : DstMatchId) (dst : DstMatch)
    (id : RuleId) : Prop :=
  Listed (lookup.dstmatchIds dst) dstId ∧ slot lookup.dstmatchIdToRuleId dstId = some id

/-- Each destination of a rule has one id, and no other id is in use. -/
structure DstMatchLookup.Tidy (lookup : DstMatchLookup) (pairs : DstMatch → RuleId → Prop) :
    Prop where
  unique : ∀ dst id, pairs dst id → ∃! dstId, lookup.LiveDst dstId dst id
  paired : ∀ dstId dst id, lookup.LiveDst dstId dst id → pairs dst id
  distinct : ∀ dstId dst dst' id id', lookup.LiveDst dstId dst id →
    lookup.LiveDst dstId dst' id' → dst = dst' ∧ id = id'
  owned : ∀ dstId id, slot lookup.dstmatchIdToRuleId dstId = some id →
    ∃ dst, lookup.LiveDst dstId dst id
  free : ∀ dstId, lookup.freelist.test dstId = true →
    dstId < lookup.dstmatchIdToRuleId.length ∧ ∀ dst id, ¬ lookup.LiveDst dstId dst id
  ids : ∀ dst dstId, Listed (lookup.dstmatchIds dst) dstId ↔ ∃ id, lookup.LiveDst dstId dst id
  dsts : ∀ net, net.Truncated → ∃ found, lookup.dsts.lookupPrefixExact net = .ok found ∧
    ∀ dstId, Listed found dstId ↔ ∃ dst id, lookup.LiveDst dstId dst id ∧ net ∈ dst.nets
  ports : ∀ pfx dstId, Listed (lookup.ports.get pfx) dstId ↔
    ∃ dst id, lookup.LiveDst dstId dst id ∧ pfx ∈ iterPrefixes dst.ports

namespace DstMatchLookup

variable {lookup : DstMatchLookup} {owner : DstMatchId → Option (DstMatch × RuleId)}

theorem Owned.liveDst_iff (owned : lookup.Owned owner) {dstId : DstMatchId} {dst : DstMatch}
    {id : RuleId} : lookup.LiveDst dstId dst id ↔ owner dstId = some (dst, id) := by
  rw [LiveDst, owned.slots dstId,
    show Listed (lookup.dstmatchIds dst) dstId ↔ _ from owned.ids.pairs_iff.symm]
  constructor
  · rintro ⟨⟨pair, held, member⟩, rule⟩
    rw [held, Option.map_some, Option.some.injEq] at rule
    rw [held, List.mem_singleton.mp member, ← rule]
  · intro held
    exact ⟨⟨(dst, id), held, List.mem_singleton_self _⟩, by rw [held, Option.map_some]⟩

theorem Owned.entries_iff {K : Type} (owned : lookup.Owned owner) (keysOf : DstMatch → List K)
    (key : K) (dstId : DstMatchId) :
    Entries (fun pair : DstMatch × RuleId => keysOf pair.1) owner key dstId ↔
      ∃ dst id, lookup.LiveDst dstId dst id ∧ key ∈ keysOf dst := by
  simp only [owned.liveDst_iff]
  constructor
  · rintro ⟨⟨dst, id⟩, held, member⟩
    exact ⟨dst, id, held, member⟩
  · rintro ⟨dst, id, held, member⟩
    exact ⟨(dst, id), held, member⟩

theorem Indexed.tidy {pairs : DstMatch → RuleId → Prop} (indexed : lookup.Indexed pairs) :
    lookup.Tidy pairs := by
  obtain ⟨owner, owned, lists⟩ := indexed
  refine ⟨?_, ?_, ?_, ?_, ?_, ?_, ?_, ?_⟩
  · intro dst id pair
    obtain ⟨dstId, held⟩ := (lists dst id).mp pair
    refine ⟨dstId, owned.liveDst_iff.mpr held, ?_⟩
    intro other live
    exact owned.distinct other dstId _ (owned.liveDst_iff.mp live) held
  · intro dstId dst id live
    exact (lists dst id).mpr ⟨dstId, owned.liveDst_iff.mp live⟩
  · intro dstId dst dst' id id' live live'
    rw [owned.liveDst_iff] at live live'
    rw [live, Option.some.injEq, Prod.mk.injEq] at live'
    exact live'
  · intro dstId id held
    rw [owned.slots, Option.map_eq_some_iff] at held
    obtain ⟨⟨dst, _⟩, held, rfl⟩ := held
    exact ⟨dst, owned.liveDst_iff.mpr held⟩
  · intro dstId free
    refine ⟨owned.vacancies.lt free, ?_⟩
    rintro dst id ⟨_, held⟩
    rw [owned.vacancies.slot_eq_none free] at held
    cases held
  · intro dst dstId
    constructor
    · intro listed
      obtain ⟨⟨_, id⟩, held, member⟩ := owned.ids.pairs_iff.mpr listed
      cases List.mem_singleton.mp member
      exact ⟨id, owned.liveDst_iff.mpr held⟩
    · rintro ⟨id, live⟩
      exact live.1
  · intro net truncated
    obtain ⟨found, ran, lists'⟩ := owned.dsts.exact truncated
    refine ⟨found, ran, ?_⟩
    intro dstId
    rw [lists', owned.entries_iff DstMatch.nets]
  · intro pfx dstId
    rw [show Listed (lookup.ports.get pfx) dstId ↔ _ from owned.ports.pairs_iff.symm,
      owned.entries_iff fun dst => iterPrefixes dst.ports]

end DstMatchLookup

/-- Every rule has one id, in the order of its ruleset, and every index holds the ids of the live
rules under their own keys and no other id. -/
structure BartFilter.Tidy (filter : BartFilter) : Prop where
  paired : ∀ name entry, filter.rulesets name = some entry →
    entry.rulesAndIds.map Prod.snd = entry.ruleset ∧
      entry.rulesAndIds.map Prod.fst = entry.ruleIds.members ∧
      entry.rulesAndIds.Pairwise fun first second => first.1 < second.1
  owned : ∀ name id, slot filter.rulesToRulesets id = some name ↔
    ∃ entry, filter.rulesets name = some entry ∧ entry.ruleIds.test id = true
  distinct : ∀ id rule rule', filter.LiveRule id rule → filter.LiveRule id rule' → rule = rule'
  free : ∀ id, filter.ruleFreelist.test id = true →
    id < filter.rulesToRulesets.length ∧ ∀ rule, ¬ filter.LiveRule id rule
  protos : ∀ proto id, Listed (filter.ipProtos proto) id ↔
    ∃ rule, filter.LiveRule id rule ∧ proto ∈ rule.protos
  srcs : ∀ net, net.Truncated → ∃ found, filter.srcs.lookupPrefixExact net = .ok found ∧
    ∀ id, Listed found id ↔ ∃ rule, filter.LiveRule id rule ∧ net ∈ rule.sources
  caps : filter.caps.Tidy fun cap id => ∃ rule, filter.LiveRule id rule ∧ cap ∈ rule.src.caps
  dsts : filter.dsts.Tidy fun dst id => ∃ rule, filter.LiveRule id rule ∧ dst ∈ rule.dst

variable {filter : BartFilter}

theorem BartFilter.Tracks.tidy {map : String → Option Ruleset} {live : RuleId → Option Rule}
    (tracks : filter.Tracks map live) : filter.Tidy := by
  have entries : ∀ {K : Type} (keysOf : Rule → List K),
      (fun key id => ∃ rule, filter.LiveRule id rule ∧ key ∈ keysOf rule) =
        Entries keysOf live := by
    intro K keysOf
    simp only [tracks.liveRule_iff]
    rfl
  refine ⟨?_, ?_, ?_, ?_, ?_, ?_, ?_, ?_⟩
  · intro name entry is
    have paired := (tracks.allotted is).paired
    have ids := rulesAndIds_ids paired
    refine ⟨rulesAndIds_rules paired, ids, ?_⟩
    have ascending := Bitset.pairwise_members entry.ruleIds
    rwa [← ids, List.pairwise_map] at ascending
  · intro name id
    constructor
    · exact tracks.entry_of_slot
    · rintro ⟨entry, is, member⟩
      exact ((tracks.allotted is).owned id).mp member
  · intro id rule rule' held held'
    rw [tracks.liveRule_iff] at held held'
    rw [held] at held'
    exact Option.some.inj held'
  · intro id free
    refine ⟨tracks.registered.vacancies.lt free, ?_⟩
    intro rule held
    have vacant := tracks.registered.vacancies.slot_eq_none free
    rw [tracks.registered.filled, tracks.liveRule_iff.mp held] at vacant
    cases vacant
  · intro proto id
    rw [show Listed (filter.ipProtos proto) id ↔ _ from tracks.indexed.protos.pairs_iff.symm,
      ← entries]
  · intro net truncated
    obtain ⟨found, ran, lists⟩ := tracks.indexed.srcs.exact truncated
    refine ⟨found, ran, ?_⟩
    intro id
    rw [lists, ← entries]
  · rw [entries fun rule => rule.src.caps]
    exact tracks.indexed.caps.tidy
  · rw [entries Rule.dst]
    exact tracks.indexed.dsts.tidy

def BartFilter.rulesetMap (filter : BartFilter) (name : String) : Option Ruleset :=
  (filter.rulesets name).map RulesetEntry.ruleset

theorem rulesetMap_eq {ops : List StorageOp} (ran : ranBart ops = .ok filter) :
    filter.rulesetMap = (ranMap ops).stored := by
  obtain ⟨filter', live, ran', tracks⟩ := ranBart_tracks ops
  rw [ran] at ran'
  cases ran'
  funext name
  exact tracks.rulesets name

/-- No history leaves an id or an index entry behind, and two histories that end with the same
rulesets end with the same verdicts. -/
theorem filter_leaves_no_residue (ops ops' : List StorageOp) :
    ∃ filter filter', ranBart ops = .ok filter ∧ ranBart ops' = .ok filter' ∧ filter.Tidy ∧
      ((∀ name, filter.rulesetMap name = filter'.rulesetMap name) →
        ∀ info caps, filter.matches info caps = filter'.matches info caps) := by
  obtain ⟨filter, live, ran, tracks⟩ := ranBart_tracks ops
  obtain ⟨filter', live', ran', tracks'⟩ := ranBart_tracks ops'
  refine ⟨filter, filter', ran, ran', tracks.tidy, ?_⟩
  intro same info caps
  have map : (ranMap ops).stored = (ranMap ops').stored := by
    funext name
    rw [← tracks.rulesets name, ← tracks'.rulesets name]
    exact same name
  obtain ⟨verdict, matched, selects⟩ := tracks.matches_eq info caps
  obtain ⟨verdict', matched', selects'⟩ := tracks'.matches_eq info caps
  rw [matched, matched', Bool.eq_iff_iff.mpr (selects.trans (map ▸ selects'.symm))]

/-- A ruleset that came and went has left nothing. -/
theorem filter_leaves_no_residue_removed :
    ∃ filter filter', ranBart [.insert "base" (toyServices "web" ⟨80, 443⟩)] = .ok filter ∧
      ranBart [.insert "old" (toyServices "mail" ⟨25, 465⟩),
        .insert "base" (toyServices "web" ⟨80, 443⟩), .remove "old"] = .ok filter' ∧
      ∀ info caps, filter.matches info caps = filter'.matches info caps := by
  obtain ⟨filter, filter', ran, ran', _, agree⟩ := filter_leaves_no_residue
    [.insert "base" (toyServices "web" ⟨80, 443⟩)]
    [.insert "old" (toyServices "mail" ⟨25, 465⟩),
      .insert "base" (toyServices "web" ⟨80, 443⟩), .remove "old"]
  refine ⟨filter, filter', ran, ran', agree ?_⟩
  rw [rulesetMap_eq ran, rulesetMap_eq ran']
  exact fun name => rfl

end TailscaleRs.Filter
