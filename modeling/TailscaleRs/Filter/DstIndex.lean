import TailscaleRs.Filter.Indexes

namespace TailscaleRs.Filter

open Function Option Bitset List
open InvertedIndex
open Net (IpAddr IpNet)
open Slots (Vacancies slot)

variable (dst : DstMatch)

def DstMatch.nets : List IpNet := dst.ips.map IpNet.trunc

/-- The ports a destination is kept under: its own, or all if the length of its range
saturates. -/
def DstMatch.Opens (port : UInt16) : Prop :=
  dst.ports.Saturates ∨ dst.ports.contains port = true

def DstMatch.Covers (ip : IpAddr) : Prop :=
  ∃ pfx ∈ dst.ips, pfx.contains ip = true

namespace DstMatchLookup

variable {lookup : DstMatchLookup} {owner : DstMatchId → Option (DstMatch × RuleId)}

/-- The ids belong to a destination of a rule each, no two to the same, and every index holds
the ids of its keys. -/
structure Owned (lookup : DstMatchLookup) (owner : DstMatchId → Option (DstMatch × RuleId)) :
    Prop where
  vacancies : Vacancies lookup.dstmatchIdToRuleId lookup.freelist
  slots : ∀ i, slot lookup.dstmatchIdToRuleId i = (owner i).map Prod.snd
  distinct : ∀ i j pair, owner i = some pair → owner j = some pair → i = j
  ids : Keyed lookup.dstmatchIds (Entries (fun pair => [pair.1]) owner)
  dsts : TableIndexed lookup.dsts (Entries (fun pair => pair.1.nets) owner)
  ports : Keyed lookup.ports.get (Entries (fun pair => iterPrefixes pair.1.ports) owner)

theorem owned_empty : empty.Owned fun _ => none where
  vacancies := Vacancies.empty
  slots := fun i => Slots.slot_of_le (Nat.zero_le i)
  distinct := by
    intro i j pair none
    cases none
  ids := by
    rw [entries_none]
    exact keyed_empty
  dsts := by
    rw [entries_none]
    exact tableIndexed_empty
  ports := by
    rw [entries_none]
    show Keyed (PortTrie.get PortTrie.empty) _
    rw [PortTrie.get_empty]
    exact keyed_empty

variable (owned : lookup.Owned owner)
include owned

theorem Owned.compact : lookup.compact.Owned owner := by
  refine { owned with vacancies := owned.vacancies.trim, slots := fun i => ?_ }
  have same : slot lookup.compact.dstmatchIdToRuleId = slot lookup.dstmatchIdToRuleId :=
    Slots.slot_trim
  rw [same, owned.slots i]

theorem Owned.lt {i : DstMatchId} {pair : DstMatch × RuleId} (held : owner i = some pair) :
    i < lookup.dstmatchIdToRuleId.length := by
  apply Slots.lt_of_slot
  rw [owned.slots i, held, map_some]

theorem Owned.findOwned_eq (rule : RuleId) {ids : List DstMatchId}
    (filled : ∀ i ∈ ids, owner i ≠ none) :
    findOwned lookup.dstmatchIdToRuleId rule ids =
      .ok (ids.find? fun i => (owner i).map Prod.snd = some rule) := by
  induction ids with
  | nil => rfl
  | cons i rest ih =>
    obtain ⟨pair, held⟩ := ne_none_iff_exists'.mp (filled i mem_cons_self)
    rw [findOwned, readSlot_eq (owned.lt held), ok_bind, owned.slots i,
      ih fun j member => filled j (mem_cons_of_mem i member), find?_cons]
    by_cases mine : (owner i).map Prod.snd = some rule
    · simp [mine]
      rfl
    · simp [mine]

theorem Owned.lookupDstmatchId_eq {rule : RuleId} {dst : DstMatch} :
    ∃ found, lookup.lookupDstmatchId rule dst = .ok found ∧
      ∀ i, found = some i ↔ owner i = some (dst, rule) := by
  have listed : ∀ i, (∃ ids, lookup.dstmatchIds dst = some ids ∧ ids.test i = true) ↔
      ∃ r, owner i = some (dst, r) := by
    intro i
    rw [← owned.ids.pairs_iff]
    constructor
    · rintro ⟨⟨d, r⟩, held, member⟩
      rw [mem_singleton.mp member]
      exact ⟨r, held⟩
    · rintro ⟨r, held⟩
      exact ⟨(dst, r), held, mem_singleton.mpr rfl⟩
  rw [lookupDstmatchId]
  cases held : lookup.dstmatchIds dst with
  | none =>
    refine ⟨none, rfl, ?_⟩
    intro i
    constructor
    · intro none
      cases none
    · intro is
      obtain ⟨ids, held', _⟩ := (listed i).mpr ⟨rule, is⟩
      rw [held] at held'
      cases held'
  | some ids =>
    have members : ∀ i, i ∈ ids.members ↔ ∃ r, owner i = some (dst, r) := by
      intro i
      rw [mem_members, ← listed i, held]
      simp
    have hit : ∀ i, ids.members.find? (fun i => (owner i).map Prod.snd = some rule) = some i →
        owner i = some (dst, rule) := by
      intro i found
      have mine := find?_some found
      obtain ⟨r, is⟩ := (members i).mp (mem_of_find?_eq_some found)
      simp only [is, map_some, some.injEq, decide_eq_true_eq] at mine
      rw [is, mine]
    refine ⟨_, owned.findOwned_eq rule ?_, ?_⟩
    · intro i member
      obtain ⟨r, is⟩ := (members i).mp member
      rw [is]
      simp
    · intro i
      refine ⟨hit i, ?_⟩
      intro is
      cases found : ids.members.find? fun i => (owner i).map Prod.snd = some rule with
      | none =>
        rw [find?_eq_none] at found
        exact absurd (by simp [is]) (found i ((members i).mpr ⟨rule, is⟩))
      | some j => rw [owned.distinct i j _ is (hit j found)]

omit owned

variable {id : DstMatchId} {rule : RuleId} {dst : DstMatch} {dsts : Bart.SplitStackTable DynBitset}

theorem Owned.admit (owned : lookup.Owned owner) (vacant : slot lookup.dstmatchIdToRuleId id = none)
    (fresh : ∀ i, owner i ≠ some (dst, rule)) {table : List (Option RuleId)} {free : DynBitset}
    (vacancies : Vacancies table free)
    (filled : slot table = update (slot lookup.dstmatchIdToRuleId) id (some rule))
    (entered : TableIndexed dsts
      (withPairs (Entries (fun pair => pair.1.nets) owner) dst.nets id)) :
    Owned
      { dsts := dsts
        ports := lookup.ports.modify dst.ports (entering id)
        dstmatchIds := update lookup.dstmatchIds dst (enter id (lookup.dstmatchIds dst))
        dstmatchIdToRuleId := table
        freelist := free }
      (update owner id (some (dst, rule))) := by
  have unowned : owner id = none := by
    rw [owned.slots id, map_eq_none_iff] at vacant
    exact vacant
  refine ⟨vacancies, ?_, ?_, ?_, ?_, ?_⟩
  · intro i
    rw [filled]
    by_cases same : i = id
    · rw [same, update_self, update_self]
      rfl
    · rw [update_of_ne same, update_of_ne same, owned.slots i]
  · intro i j pair is is'
    by_cases same : i = id <;> by_cases same' : j = id
    · rw [same, same']
    · rw [same, update_self] at is
      rw [update_of_ne same', ← is] at is'
      exact absurd is' (fresh j)
    · rw [same', update_self] at is'
      rw [update_of_ne same, ← is'] at is
      exact absurd is (fresh i)
    · rw [update_of_ne same] at is
      rw [update_of_ne same'] at is'
      exact owned.distinct i j pair is is'
  · rw [entries_add unowned, withPairs_singleton]
    exact owned.ids.enter dst id
  · rw [entries_add unowned]
    exact entered
  · rw [entries_add unowned]
    exact keyed_entering owned.ports dst.ports

/-- The destinations of rules that have an id. -/
def Indexed (lookup : DstMatchLookup) (pairs : DstMatch → RuleId → Prop) : Prop :=
  ∃ owner, lookup.Owned owner ∧ ∀ dst rule, pairs dst rule ↔ ∃ i, owner i = some (dst, rule)

variable {pairs : DstMatch → RuleId → Prop}

theorem indexed_empty : empty.Indexed fun _ _ => False :=
  ⟨_, owned_empty, fun dst rule => by simp⟩

theorem pairs_update (lists : ∀ dst rule, pairs dst rule ↔ ∃ i, owner i = some (dst, rule))
    (vacant : owner id = none) {dst : DstMatch} {rule : RuleId} :
    ∀ d r, withPair pairs dst rule d r ↔
      ∃ i, update owner id (some (dst, rule)) i = some (d, r) := by
  intro d r
  rw [withPair, lists]
  constructor
  · rintro (⟨i, is⟩ | ⟨rfl, rfl⟩)
    · have different : i ≠ id := by
        rintro rfl
        rw [vacant] at is
        cases is
      exact ⟨i, by rw [update_of_ne different, is]⟩
    · exact ⟨id, update_self _ _ _⟩
  · rintro ⟨i, is⟩
    by_cases same : i = id
    · rw [same, update_self] at is
      cases is
      exact .inr ⟨rfl, rfl⟩
    · rw [update_of_ne same] at is
      exact .inl ⟨i, is⟩

theorem Indexed.insert (indexed : lookup.Indexed pairs) (rule : RuleId) (dst : DstMatch) :
    ∃ after, lookup.insert rule dst = .ok after ∧ after.Indexed (withPair pairs dst rule) := by
  obtain ⟨owner, owned, lists⟩ := indexed
  obtain ⟨found, ran, is⟩ := owned.lookupDstmatchId_eq
  rw [DstMatchLookup.insert, allocate, ran, ok_bind]
  cases found with
  | some id =>
    have held := (is id).mp rfl
    obtain ⟨dsts, entered, kept⟩ := owned.dsts.entering id dst.ips
    have kept' : TableIndexed dsts (Entries (fun pair => pair.1.nets) owner) := by
      rw [← entries_again held]
      exact kept
    have ports : Keyed (lookup.ports.modify dst.ports (entering id)).get
        (Entries (fun pair => iterPrefixes pair.1.ports) owner) := by
      rw [← entries_again held]
      exact keyed_entering owned.ports dst.ports
    have entered' : Owned { lookup with
        dsts := dsts, ports := lookup.ports.modify dst.ports (entering id) } owner :=
      ⟨owned.vacancies, owned.slots, owned.distinct, owned.ids, kept', ports⟩
    have again : withPair pairs dst rule = pairs := by
      funext d r
      rw [withPair, eq_iff_iff, lists]
      apply or_iff_left_of_imp
      rintro ⟨rfl, rfl⟩
      exact ⟨id, held⟩
    refine ⟨_, ?_, owner, entered'.compact, ?_⟩
    · show (modifyRoutes lookup.dsts dst.ips (entering id) >>= _) = _
      rw [entered]
      rfl
    · rw [again]
      exact lists
  | none =>
    have fresh : ∀ i, owner i ≠ some (dst, rule) := by
      intro i mine
      have none := (is i).mpr mine
      cases none
    have unowned : ∀ {id}, slot lookup.dstmatchIdToRuleId id = none → owner id = none := by
      intro id vacant
      rw [owned.slots id, map_eq_none_iff] at vacant
      exact vacant
    cases popped : popFreelist lookup.freelist with
    | some taken =>
      obtain ⟨id, freelist⟩ := taken
      obtain ⟨bound, vacant, _, filled⟩ := owned.vacancies.pop_some popped
      obtain ⟨dsts, entered, kept⟩ := owned.dsts.entering id dst.ips
      have admitted := owned.admit vacant fresh (filled rule) (Slots.slot_set bound _) kept
      refine ⟨_, ?_, _, admitted.compact, pairs_update lists (unowned vacant)⟩
      dsimp only
      rw [writeSlot_eq bound, ok_bind]
      show (modifyRoutes lookup.dsts dst.ips (entering id) >>= _) = _
      rw [entered]
      rfl
    | none =>
      have vacant : slot lookup.dstmatchIdToRuleId lookup.dstmatchIdToRuleId.length = none :=
        Slots.slot_of_le (Nat.le_refl _)
      obtain ⟨dsts, entered, kept⟩ :=
        owned.dsts.entering lookup.dstmatchIdToRuleId.length dst.ips
      have admitted := owned.admit vacant fresh (owned.vacancies.push rule)
        (Slots.slot_append) kept
      refine ⟨_, ?_, _, admitted.compact, pairs_update lists (unowned vacant)⟩
      show (modifyRoutes lookup.dsts dst.ips (entering lookup.dstmatchIdToRuleId.length) >>= _) = _
      rw [entered]
      rfl

theorem Owned.dismiss (owned : lookup.Owned owner) (held : owner id = some (dst, rule))

    (left : TableIndexed dsts
      (withoutPairs (Entries (fun pair => pair.1.nets) owner) dst.nets id)) :
    Owned
      { dsts := dsts
        ports := lookup.ports.modify dst.ports (leaving id)
        dstmatchIds := update lookup.dstmatchIds dst (leave id (lookup.dstmatchIds dst))
        dstmatchIdToRuleId := lookup.dstmatchIdToRuleId.set id none
        freelist := lookup.freelist.set id }
      (update owner id none) := by
  have bound := owned.lt held
  refine ⟨owned.vacancies.release bound, ?_, ?_, ?_, ?_, ?_⟩
  · intro i
    rw [Slots.slot_set bound]
    by_cases same : i = id
    · rw [same, update_self, update_self]
      rfl
    · rw [update_of_ne same, update_of_ne same, owned.slots i]
  · intro i j pair is is'
    by_cases same : i = id
    · rw [same, update_self] at is
      cases is
    · by_cases same' : j = id
      · rw [same', update_self] at is'
        cases is'
      · rw [update_of_ne same] at is
        rw [update_of_ne same'] at is'
        exact owned.distinct i j pair is is'
  · rw [entries_remove held, withoutPairs_singleton]
    exact owned.ids.leave dst id
  · rw [entries_remove held]
    exact left
  · rw [entries_remove held]
    exact keyed_leaving owned.ports dst.ports

theorem Indexed.remove (indexed : lookup.Indexed pairs) (rule : RuleId) (dst : DstMatch) :
    ∃ after, lookup.remove rule dst = .ok after ∧ after.Indexed (withoutPair pairs dst rule) := by
  obtain ⟨owner, owned, lists⟩ := indexed
  obtain ⟨found, ran, is⟩ := owned.lookupDstmatchId_eq
  rw [DstMatchLookup.remove, ran, ok_bind]
  cases found with
  | none =>
    refine ⟨lookup, rfl, owner, owned, ?_⟩
    intro d r
    rw [withoutPair, lists]
    apply and_iff_left_of_imp
    rintro ⟨i, mine⟩ ⟨rfl, rfl⟩
    have none := (is i).mpr mine
    cases none
  | some id =>
    have held := (is id).mp rfl
    have bound := owned.lt held
    obtain ⟨ids, present, _⟩ := owned.ids.pairs_iff.mp
      ⟨(dst, rule), held, mem_singleton.mpr rfl⟩
    have stored : slot lookup.dstmatchIdToRuleId id = some rule := by
      rw [owned.slots id, held]
      rfl
    obtain ⟨dsts, entered, kept⟩ := owned.dsts.leaving id dst.ips
    have dismissed := owned.dismiss held kept
    refine ⟨_, ?_, _, dismissed.compact, ?_⟩
    · dsimp only
      rw [entered, ok_bind, present]
      show (readSlot lookup.dstmatchIdToRuleId id >>= _) = _
      rw [readSlot_eq bound, ok_bind, writeSlot_eq bound, ok_bind, stored, if_neg (by simp)]
      rfl
    · intro d r
      rw [withoutPair, lists]
      constructor
      · rintro ⟨⟨i, mine⟩, different⟩
        have away : i ≠ id := by
          rintro rfl
          rw [held] at mine
          cases mine
          exact different ⟨rfl, rfl⟩
        exact ⟨i, by rw [update_of_ne away, mine]⟩
      · rintro ⟨i, mine⟩
        by_cases same : i = id
        · rw [same, update_self] at mine
          cases mine
        · rw [update_of_ne same] at mine
          refine ⟨⟨i, mine⟩, ?_⟩
          rintro ⟨rfl, rfl⟩
          exact same (owned.distinct i id _ mine held)

include owned

theorem Owned.test_portBitset (port : UInt16) (i : DstMatchId) :
    (lookup.portBitset port).test i = true ↔ ∃ pair, owner i = some pair ∧ pair.1.Opens port := by
  rw [portBitset, test_lookup owned.ports port i]
  constructor
  · rintro ⟨p, read, pair, held, member⟩
    exact ⟨pair, held, iterPrefixes_covers.mp ⟨p, member, read⟩⟩
  · rintro ⟨pair, held, opens⟩
    obtain ⟨p, member, read⟩ := iterPrefixes_covers.mpr opens
    exact ⟨p, read, pair, held, member⟩

theorem Owned.dstBitset_eq (ip : IpAddr) :
    ∃ ids, lookup.dstBitset ip = .ok ids ∧
      ∀ i, ids.test i = true ↔ ∃ pair, owner i = some pair ∧ pair.1.Covers ip := by
  obtain ⟨sets, ran, tests⟩ := owned.dsts.lookupAll ip
  refine ⟨sets.foldl Bitset.union Bitset.empty, ?_, ?_⟩
  · rw [dstBitset, ran]
    rfl
  · intro i
    rw [tests i]
    constructor
    · rintro ⟨net, covers, pair, held, member⟩
      obtain ⟨pfx, given, rfl⟩ := mem_map.mp member
      rw [IpNet.contains_trunc] at covers
      exact ⟨pair, held, pfx, given, covers⟩
    · rintro ⟨pair, held, pfx, given, covers⟩
      refine ⟨pfx.trunc, ?_, pair, held, mem_map_of_mem given⟩
      rw [IpNet.contains_trunc, covers]

theorem Owned.resolveRuleIds_eq {ids : DynBitset} (live : ∀ i, ids.test i = true → owner i ≠ none) :
    ∃ rules, lookup.resolveRuleIds ids = .ok rules ∧
      ∀ r, rules.test r = true ↔ ∃ i, ids.test i = true ∧ ∃ dst, owner i = some (dst, r) := by
  have read : ∀ i ∈ ids.members, readSlot lookup.dstmatchIdToRuleId i =
      .ok ((owner i).map Prod.snd) := by
    intro i member
    obtain ⟨pair, held⟩ := ne_none_iff_exists'.mp (live i ((mem_members i).mp member))
    rw [readSlot_eq (owned.lt held), owned.slots i]
  refine ⟨ofList ((ids.members.map fun i => (owner i).map Prod.snd).filterMap id), ?_, ?_⟩
  · rw [resolveRuleIds, mapM_ok read, ok_bind]
    rfl
  · intro r
    rw [test_ofList, filterMap_map]
    simp only [mem_filterMap, mem_members, Function.comp_apply, id_eq, map_eq_some_iff]
    constructor
    · rintro ⟨i, member, ⟨dst, _⟩, held, rfl⟩
      exact ⟨i, member, dst, held⟩
    · rintro ⟨i, member, dst, held⟩
      exact ⟨i, member, (dst, r), held, rfl⟩

theorem Owned.resolve_pairs (lists : ∀ dst rule, pairs dst rule ↔ ∃ i, owner i = some (dst, rule))
    {ids : DynBitset} (picks : DstMatch → Prop)
    (tests : ∀ i, ids.test i = true ↔ ∃ pair, owner i = some pair ∧ picks pair.1) :
    ∃ rules, lookup.resolveRuleIds ids = .ok rules ∧
      ∀ r, rules.test r = true ↔ ∃ dst, pairs dst r ∧ picks dst := by
  have live : ∀ i, ids.test i = true → owner i ≠ none := by
    intro i member
    obtain ⟨pair, held, _⟩ := (tests i).mp member
    rw [held]
    simp
  obtain ⟨rules, ran, resolved⟩ := owned.resolveRuleIds_eq live
  refine ⟨rules, ran, ?_⟩
  intro r
  rw [resolved r]
  constructor
  · rintro ⟨i, member, dst, held⟩
    obtain ⟨pair, held', picked⟩ := (tests i).mp member
    rw [held] at held'
    cases held'
    exact ⟨dst, (lists dst r).mpr ⟨i, held⟩, picked⟩
  · rintro ⟨dst, pair, picked⟩
    obtain ⟨i, held⟩ := (lists dst r).mp pair
    exact ⟨i, (tests i).mpr ⟨_, held, picked⟩, dst, held⟩

omit owned

theorem test_both {first second : DynBitset} (picks picks' : DstMatch → Prop)
    (tests : ∀ i, first.test i = true ↔ ∃ pair, owner i = some pair ∧ picks pair.1)
    (tests' : ∀ i, second.test i = true ↔ ∃ pair, owner i = some pair ∧ picks' pair.1) :
    ∀ i, (first.intersect second).test i = true ↔
      ∃ pair, owner i = some pair ∧ picks pair.1 ∧ picks' pair.1 := by
  intro i
  rw [test_intersect, tests i, tests' i]
  constructor
  · rintro ⟨⟨pair, held, picked⟩, pair', held', picked'⟩
    rw [held] at held'
    cases held'
    exact ⟨pair, held, picked, picked'⟩
  · rintro ⟨pair, held, picked, picked'⟩
    exact ⟨⟨pair, held, picked⟩, pair, held, picked'⟩

variable (indexed : lookup.Indexed pairs)
include indexed

theorem Indexed.lookup_eq (ip : IpAddr) (port : UInt16) :
    ∃ rules, lookup.lookup ip port = .ok rules ∧
      ∀ r, rules.test r = true ↔ ∃ dst, pairs dst r ∧ dst.Opens port ∧ dst.Covers ip := by
  obtain ⟨owner, owned, lists⟩ := indexed
  obtain ⟨ids, ran, tests⟩ := owned.dstBitset_eq ip
  obtain ⟨rules, ran', resolved⟩ :=
    owned.resolve_pairs lists (fun dst => dst.Opens port ∧ dst.Covers ip)
      (test_both (·.Opens port) (·.Covers ip) (owned.test_portBitset port) tests)
  refine ⟨rules, ?_, resolved⟩
  rw [DstMatchLookup.lookup, ran, ok_bind, ran']

theorem Indexed.lookupIpsOnly_eq {ip : IpAddr} :
    ∃ rules, lookup.lookupIpsOnly ip = .ok rules ∧
      ∀ r, rules.test r = true ↔ ∃ dst, pairs dst r ∧ dst.Covers ip := by
  obtain ⟨owner, owned, lists⟩ := indexed
  obtain ⟨ids, ran, tests⟩ := owned.dstBitset_eq ip
  obtain ⟨rules, ran', resolved⟩ := owned.resolve_pairs lists (·.Covers ip) tests
  refine ⟨rules, ?_, resolved⟩
  rw [lookupIpsOnly, ran, ok_bind, ran']

theorem Indexed.lookupAllPortsIps_eq {ip : IpAddr} :
    ∃ rules, lookup.lookupAllPortsIps ip = .ok rules ∧
      ∀ r, rules.test r = true ↔
        ∃ dst, pairs dst r ∧ (dst.Opens 0 ∧ dst.Opens 65535) ∧ dst.Covers ip := by
  obtain ⟨owner, owned, lists⟩ := indexed
  obtain ⟨ids, ran, tests⟩ := owned.dstBitset_eq ip
  have both := test_both (·.Opens 0) (·.Opens 65535) (owned.test_portBitset 0)
    (owned.test_portBitset 65535)
  obtain ⟨rules, ran', resolved⟩ :=
    owned.resolve_pairs lists (fun dst => (dst.Opens 0 ∧ dst.Opens 65535) ∧ dst.Covers ip)
      (test_both (fun dst => dst.Opens 0 ∧ dst.Opens 65535) (·.Covers ip) both tests)
  refine ⟨rules, ?_, resolved⟩
  rw [lookupAllPortsIps, ran]
  exact ran'

end DstMatchLookup

end TailscaleRs.Filter
