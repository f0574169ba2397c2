import TailscaleRs.Filter.DstIndex

namespace TailscaleRs.Filter

open Function Slots StorageOp List
open Bart (Panic)
open InvertedIndex
open Net (IpNet)
open Slots (Vacancies slot)

def Rule.sources (rule : Rule) : List IpNet := rule.src.pfxs.map IpNet.trunc

def RulesetEntry.empty : RulesetEntry := ⟨[], Bitset.empty⟩

namespace BartFilter

variable {filter : BartFilter} {live : RuleId → Option Rule}

/-- Every index holds the ids of the live rules under the keys of the rule, and nothing else. -/
structure Indexed (filter : BartFilter) (live : RuleId → Option Rule) : Prop where
  protos : Keyed filter.ipProtos (Entries Rule.protos live)
  caps : filter.caps.Indexed (Entries (fun rule => rule.src.caps) live)
  srcs : TableIndexed filter.srcs (Entries Rule.sources live)
  dsts : filter.dsts.Indexed (Entries Rule.dst live)

/-- The parts of a filter that entering and dropping a rule leave alone. -/
structure SameTables (filter after : BartFilter) : Prop where
  rulesToRulesets : after.rulesToRulesets = filter.rulesToRulesets
  ruleFreelist : after.ruleFreelist = filter.ruleFreelist
  rulesets : after.rulesets = filter.rulesets

section Rules

variable {id : RuleId}

theorem Indexed.addRule (indexed : filter.Indexed live) (rule : Rule) (vacant : live id = none) :
    ∃ after, filter.addRule id rule = .ok after ∧ SameTables filter after ∧
      after.Indexed (update live id (some rule)) := by
  have protos := foldl_rel indexed.protos fun proto (_ : proto ∈ rule.protos) _ _ keyed =>
    keyed.enter proto id
  have insert : ∀ {pairs : String → Nat → Prop} {caps : CapLookup} (cap : String),
      caps.Indexed pairs → ∃ after, (do return (← caps.insert cap id).1 : Except Panic _) =
        .ok after ∧ after.Indexed (withPair pairs cap id) := by
    intro pairs caps cap held
    obtain ⟨after, capId, ran, held'⟩ := held.insert cap id
    exact ⟨after, by rw [ran]; rfl, held'⟩
  obtain ⟨caps, ran, caps'⟩ := foldlM_moves (fun pairs (caps : CapLookup) => caps.Indexed pairs)
    insert rule.src.caps indexed.caps
  obtain ⟨srcs, ran', srcs'⟩ := indexed.srcs.entering id rule.src.pfxs
  obtain ⟨dsts, ran'', dsts'⟩ := foldlM_moves
    (fun pairs (dsts : DstMatchLookup) => dsts.Indexed pairs)
    (fun dst held => held.insert id dst) rule.dst indexed.dsts
  rw [← withPairs_eq_foldl] at protos caps' dsts'
  generalize made : foldl _ filter.ipProtos rule.protos = ipProtos at protos
  refine ⟨{ filter with ipProtos := ipProtos, caps := caps, srcs := srcs, dsts := dsts }, ?_,
    ⟨rfl, rfl, rfl⟩, ?_⟩
  · rw [BartFilter.addRule, ran, ok_bind, ran', ok_bind, ran'', ok_bind, ← made]
    rfl
  · constructor <;> rw [entries_add vacant]
    · exact protos
    · exact caps'
    · exact srcs'
    · exact dsts'

theorem Indexed.dropRule (indexed : filter.Indexed live) {rule : Rule}
    (held : live id = some rule) :
    ∃ after, filter.dropRule id rule = .ok after ∧ SameTables filter after ∧
      after.Indexed (update live id none) := by
  have protos := foldl_rel indexed.protos fun proto (_ : proto ∈ rule.protos) _ _ keyed =>
    keyed.leave proto id
  obtain ⟨dsts, ran, dsts'⟩ := foldlM_moves
    (fun pairs (dsts : DstMatchLookup) => dsts.Indexed pairs)
    (fun dst held => held.remove id dst) rule.dst indexed.dsts
  have caps := foldl_rel indexed.caps fun cap (_ : cap ∈ rule.src.caps) _ _ held =>
    held.remove id cap
  obtain ⟨srcs, ran', srcs'⟩ := indexed.srcs.leaving id rule.src.pfxs
  rw [← withoutPairs_eq_foldl] at protos caps dsts'
  generalize made : foldl _ filter.ipProtos rule.protos = ipProtos at protos
  generalize made' : foldl _ filter.caps rule.src.caps = caps' at caps
  refine ⟨{ filter with ipProtos := ipProtos, caps := caps', srcs := srcs, dsts := dsts }, ?_,
    ⟨rfl, rfl, rfl⟩, ?_⟩
  · rw [BartFilter.dropRule, ran, ok_bind, ran', ok_bind, ← made, ← made']
    rfl
  · constructor <;> rw [entries_remove held]
    · exact protos
    · exact caps
    · exact srcs'
    · exact dsts'

theorem Indexed.dropRules {pairs : List (RuleId × Rule)} (indexed : filter.Indexed live)
    (distinct : (pairs.map Prod.fst).Nodup) (held : ∀ pair ∈ pairs, live pair.1 = some pair.2) :
    ∃ after, pairs.foldlM (fun filter item => filter.dropRule item.1 item.2) filter = .ok after ∧
      SameTables filter after ∧
      after.Indexed fun id => if id ∈ pairs.map Prod.fst then none else live id := by
  induction pairs generalizing filter live with
  | nil => exact ⟨filter, rfl, ⟨rfl, rfl, rfl⟩, by simpa using indexed⟩
  | cons pair rest ih =>
    rw [map_cons, nodup_cons] at distinct
    obtain ⟨next, ran, same, kept⟩ := indexed.dropRule (held pair mem_cons_self)
    have later : ∀ item ∈ rest, update live pair.1 none item.1 = some item.2 := by
      intro item member
      have other : item.1 ≠ pair.1 := by
        intro is
        exact distinct.1 (is ▸ mem_map_of_mem member)
      rw [update_of_ne other]
      exact held item (mem_cons_of_mem pair member)
    obtain ⟨after, ran', same', kept'⟩ := ih kept distinct.2 later
    refine ⟨after, ?_, ?_, ?_⟩
    · rw [foldlM_cons, ran, ok_bind, ran']
    · exact ⟨same'.1.trans same.1, same'.2.trans same.2, same'.3.trans same.3⟩
    · convert kept' using 1
      funext id
      rw [map_cons, update_apply]
      by_cases first : id = pair.1
      · simp [first]
      · simp only [mem_cons, first, false_or, if_false]

end Rules

variable {slots : RuleId → Option String} {name : String} {id : RuleId} {entry : RulesetEntry}

/-- A ruleset owns the ids that lead to its name, and they are those of its rules in turn. -/
structure Allotted (slots : RuleId → Option String) (live : RuleId → Option Rule) (name : String)
    (entry : RulesetEntry) : Prop where
  owned : ∀ id, entry.ruleIds.test id = true ↔ slots id = some name
  paired : entry.ruleIds.members.length = entry.ruleset.length
  lives : ∀ pair ∈ entry.rulesAndIds, live pair.1 = some pair.2

theorem Allotted.test (allotted : Allotted slots live name entry) {pair : RuleId × Rule}
    (member : pair ∈ entry.rulesAndIds) : slots pair.1 = some name := by
  rw [← allotted.owned, ← Bitset.mem_members]
  exact (of_mem_zip member).1

theorem allotted_empty (unused : ∀ id, slots id ≠ some name) :
    Allotted slots live name RulesetEntry.empty := by
  refine ⟨?_, rfl, ?_⟩
  · intro id
    rw [RulesetEntry.empty, Bitset.test_empty]
    simp [unused id]
  · intro pair member
    cases member

theorem Allotted.append (allotted : Allotted slots live name entry) (vacant : slots id = none)
    (above : ∀ i, entry.ruleIds.test i = true → i < id) (rule : Rule) :
    Allotted (update slots id (some name)) (update live id (some rule)) name
      ⟨entry.ruleset ++ [rule], entry.ruleIds.set id⟩ := by
  have members := Bitset.members_set_last id above
  refine ⟨?_, ?_, ?_⟩
  · intro i
    rw [Bitset.test_set, allotted.owned]
    by_cases same : i = id
    · simp [same]
    · simp [same]
  · rw [members, length_append, length_append, allotted.paired]
    rfl
  · intro pair member
    rw [RulesetEntry.rulesAndIds, members, zip_append allotted.paired, mem_append]
      at member
    rcases member with old | last
    · have other : pair.1 ≠ id := by
        intro same
        have owned := allotted.test old
        rw [same, vacant] at owned
        cases owned
      rw [update_of_ne other]
      exact allotted.lives pair old
    · rw [zip_cons_cons, zip_nil_left, mem_singleton] at last
      rw [last, update_self]

theorem Allotted.frame (allotted : Allotted slots live name entry) {slots' : RuleId → Option String}
    {live' : RuleId → Option Rule}
    (kept : ∀ id, slots id = some name → slots' id = some name ∧ live' id = live id)
    (others : ∀ id, slots' id = some name → slots id = some name) :
    Allotted slots' live' name entry := by
  refine ⟨?_, allotted.paired, ?_⟩
  · intro id
    rw [allotted.owned]
    exact ⟨fun own => (kept id own).1, others id⟩
  · intro pair member
    rw [(kept pair.1 (allotted.test member)).2]
    exact allotted.lives pair member

/-- Each id in use leads to the ruleset that owns it. -/
structure Registered (filter : BartFilter) (live : RuleId → Option Rule)
    (stored : String → RulesetEntry) : Prop where
  vacancies : Vacancies filter.rulesToRulesets filter.ruleFreelist
  filled : ∀ id, slot filter.rulesToRulesets id = none ↔ live id = none
  allotted : ∀ name, Allotted (slot filter.rulesToRulesets) live name (stored name)

variable {stored : String → RulesetEntry} (registered : filter.Registered live stored)
include registered

/-- A rule is entered under an id nobody has, into the ruleset inserted at the time. -/
theorem Registered.append (after : BartFilter) (vacant : slot filter.rulesToRulesets id = none)
    (above : ∀ i, (stored name).ruleIds.test i = true → i < id) (rule : Rule)
    (vacancies : Vacancies after.rulesToRulesets after.ruleFreelist)
    (slots : slot after.rulesToRulesets = update (slot filter.rulesToRulesets) id (some name)) :
    after.Registered (update live id (some rule)) (update stored name
      ⟨(stored name).ruleset ++ [rule], (stored name).ruleIds.set id⟩) := by
  refine ⟨vacancies, ?_, ?_⟩
  · intro i
    rw [slots]
    by_cases same : i = id
    · simp [same]
    · rw [update_of_ne same, update_of_ne same, registered.filled i]
  · intro other
    rw [slots]
    by_cases same : other = name
    · rw [same, update_self]
      exact (registered.allotted name).append vacant above rule
    · rw [update_of_ne same]
      apply (registered.allotted other).frame
      · intro i own
        have away : i ≠ id := by
          rintro rfl
          rw [vacant] at own
          cases own
        rw [update_of_ne away, update_of_ne away]
        exact ⟨own, rfl⟩
      · intro i own
        by_cases here : i = id
        · rw [here, update_self] at own
          exact absurd (Option.some.inj own).symm same
        · rwa [update_of_ne here] at own

theorem Registered.release (after : BartFilter)
    (vacancies : Vacancies after.rulesToRulesets after.ruleFreelist)
    (slots : slot after.rulesToRulesets = fun id =>
      if id ∈ (stored name).ruleIds.members then none else slot filter.rulesToRulesets id) :
    after.Registered
      (fun id => if id ∈ (stored name).ruleIds.members then none else live id)
      (update stored name RulesetEntry.empty) := by
  have owned : ∀ id, id ∈ (stored name).ruleIds.members ↔
      slot filter.rulesToRulesets id = some name := by
    intro id
    rw [Bitset.mem_members, (registered.allotted name).owned]
  refine ⟨vacancies, ?_, ?_⟩
  · intro id
    rw [slots]
    dsimp only
    split
    · simp
    · exact registered.filled id
  · intro other
    rw [slots]
    by_cases same : other = name
    · rw [same, update_self]
      apply allotted_empty
      intro id
      split
      · simp
      · rename_i foreign
        rwa [owned] at foreign
    · rw [update_of_ne same]
      apply (registered.allotted other).frame
      · intro id own
        have foreign : id ∉ (stored name).ruleIds.members := by
          rw [owned, own]
          exact fun is => same (Option.some.inj is)
        rw [if_neg foreign, if_neg foreign]
        exact ⟨own, rfl⟩
      · intro id own
        split at own
        · cases own
        · exact own

end BartFilter

open Bitset
open Slots (Before Vacancies slot)

namespace BartFilter

variable {filter : BartFilter} {live : RuleId → Option Rule} {name : String}

/-- What is stored under a name; nothing is an entry without rules. -/
def stored (filter : BartFilter) (name : String) : RulesetEntry :=
  (filter.rulesets name).getD RulesetEntry.empty

/-- A filter holds the rulesets of a map, each rule under the id it was given. -/
structure Tracks (filter : BartFilter) (map : String → Option Ruleset)
    (live : RuleId → Option Rule) : Prop where
  indexed : filter.Indexed live
  registered : filter.Registered live filter.stored
  rulesets : ∀ name, (filter.rulesets name).map RulesetEntry.ruleset = map name

theorem tracks_empty : empty.Tracks (fun _ => none) fun _ => none where
  indexed := by
    constructor <;> rw [entries_none]
    · exact keyed_empty
    · exact CapLookup.indexed_empty
    · exact tableIndexed_empty
    · exact DstMatchLookup.indexed_empty
  registered := by
    refine ⟨Vacancies.empty, fun id => ?_, fun name => allotted_empty fun id => ?_⟩
    · exact iff_of_true (slot_of_le (Nat.zero_le id)) rfl
    · rw [show slot empty.rulesToRulesets id = none from slot_of_le (Nat.zero_le id)]
      simp
  rulesets := fun _ => rfl

variable {stored : String → RulesetEntry}

theorem Registered.compact (registered : filter.Registered live stored) :
    filter.compact.Registered live stored := by
  have same : slot filter.compact.rulesToRulesets = slot filter.rulesToRulesets := slot_trim
  refine ⟨registered.vacancies.trim, ?_, ?_⟩
  · rw [same]
    exact registered.filled
  · rw [same]
    exact registered.allotted

theorem Indexed.compact (indexed : filter.Indexed live) : filter.compact.Indexed live :=
  ⟨indexed.protos, indexed.caps, indexed.srcs, indexed.dsts⟩

theorem writeSlots_eq {β : Type} {ids : List Nat} {entries : List (Option β)} {free : DynBitset}
    (vacancies : Vacancies entries free) (bound : ∀ id ∈ ids, id < entries.length) :
    ∃ after, ids.foldlM (fun table id => writeSlot table id none) entries = .ok after ∧
      Vacancies after (ids.foldl set free) ∧
      slot after = fun id => if id ∈ ids then none else slot entries id := by
  induction ids generalizing entries free with
  | nil => exact ⟨entries, rfl, vacancies, by simp⟩
  | cons id rest ih =>
    have here := bound id mem_cons_self
    have later : ∀ other ∈ rest, other < (entries.set id none).length := by
      intro other member
      rw [length_set]
      exact bound other (mem_cons_of_mem id member)
    obtain ⟨after, ran, vacancies', slots⟩ := ih (vacancies.release here) later
    refine ⟨after, ?_, vacancies', ?_⟩
    · rw [foldlM_cons, writeSlot_eq here, ok_bind, ran]
    · rw [slots, slot_set here]
      funext other
      rw [update_apply]
      by_cases first : other = id
      · simp [first]
      · simp only [mem_cons, first, false_or, if_false]

theorem rulesAndIds_ids {entry : RulesetEntry}
    (paired : entry.ruleIds.members.length = entry.ruleset.length) :
    entry.rulesAndIds.map Prod.fst = entry.ruleIds.members :=
  map_fst_zip (Nat.le_of_eq paired)

variable {map : String → Option Ruleset}

theorem tracks_stored
    (rulesets : ∀ name, (filter.rulesets name).map RulesetEntry.ruleset = map name)
    (after : BartFilter) (indexed : after.Indexed live) (entry : Option RulesetEntry)
    (registered : after.Registered live (update filter.stored name (entry.getD RulesetEntry.empty)))
    (stores : after.rulesets = update filter.rulesets name entry) :
    after.compact.Tracks (update map name (entry.map RulesetEntry.ruleset)) live := by
  have stored_eq : after.compact.stored =
      update filter.stored name (entry.getD RulesetEntry.empty) := by
    funext other
    rw [stored, show after.compact.rulesets = _ from stores]
    exact apply_update (fun _ entry => Option.getD entry RulesetEntry.empty) ..
  refine ⟨indexed.compact, ?_, ?_⟩
  · rw [stored_eq]
    exact registered.compact
  · intro other
    rw [show after.compact.rulesets = _ from stores, ← funext rulesets]
    exact apply_update (fun _ => Option.map RulesetEntry.ruleset) ..

theorem Tracks.remove (tracks : filter.Tracks map live) (name : String) :
    ∃ after live', filter.remove name = .ok after ∧
      after.Tracks (update map name none) live' ∧ after.rulesets name = none := by
  rw [BartFilter.remove]
  cases is : filter.rulesets name with
  | none =>
    have absent : none = map name := by rw [← tracks.rulesets name, is, Option.map_none]
    rw [update_eq_self_iff (f := map) |>.mpr absent]
    exact ⟨filter, live, rfl, tracks, is⟩
  | some entry =>
    have entry_eq : filter.stored name = entry := by rw [stored, is, Option.getD_some]
    have allotted := tracks.registered.allotted name
    rw [entry_eq] at allotted
    have bound : ∀ id ∈ entry.ruleIds.members, id < filter.rulesToRulesets.length := by
      intro id member
      rw [mem_members, allotted.owned] at member
      exact lt_of_slot member
    obtain ⟨table, ran, vacancies, slots⟩ :=
      writeSlots_eq tracks.registered.vacancies bound
    have free : entry.ruleIds.members.foldl set filter.ruleFreelist =
        filter.ruleFreelist.union entry.ruleIds := by
      apply ext
      intro id
      rw [test_foldl_set, test_union, mem_members]
    have indexed : BartFilter.Indexed { filter with
        rulesets := update filter.rulesets name none
        ruleFreelist := filter.ruleFreelist.union entry.ruleIds
        rulesToRulesets := table } live :=
      ⟨tracks.indexed.protos, tracks.indexed.caps, tracks.indexed.srcs, tracks.indexed.dsts⟩
    have ids := rulesAndIds_ids allotted.paired
    have distinct : (entry.rulesAndIds.map Prod.fst).Nodup := by
      rw [ids]
      exact (pairwise_members _).imp Nat.ne_of_lt
    obtain ⟨after, ran', same, indexed'⟩ :=
      indexed.dropRules distinct allotted.lives
    rw [ids, ← entry_eq] at indexed'
    have registered : after.Registered
        (fun id => if id ∈ (filter.stored name).ruleIds.members then none else live id)
        (update filter.stored name RulesetEntry.empty) := by
      apply tracks.registered.release
      · rw [same.rulesToRulesets, same.ruleFreelist, ← free]
        exact vacancies
      · rw [same.rulesToRulesets, slots, entry_eq]
    refine ⟨after.compact, _, ?_, tracks_stored tracks.rulesets after indexed' none registered
      same.rulesets, ?_⟩
    · dsimp only
      rw [ran, ok_bind, ran']
      rfl
    · show after.rulesets name = none
      rw [same.rulesets]
      exact update_self ..

/-- The id that a round of the loop of `insert` gives out: nobody's, and above those of the
rounds before. -/
theorem insertRule_allocates (vacancies : Vacancies filter.rulesToRulesets filter.ruleFreelist)
    {ids : DynBitset} (before : Before filter.rulesToRulesets filter.ruleFreelist ids)
    (name : String) (rule : Rule) :
    ∃ id table free,
      insertRule name (filter, ids) rule =
        (BartFilter.addRule { filter with rulesToRulesets := table, ruleFreelist := free } id
          rule).map (fun after => (after, ids.set id)) ∧
      slot filter.rulesToRulesets id = none ∧
      slot table = update (slot filter.rulesToRulesets) id (some name) ∧
      Vacancies table free ∧ (∀ i, ids.test i = true → i < id) ∧
      Before table free (ids.set id) := by
  rw [insertRule, allocate, popFreelist]
  cases popped : pop filter.ruleFreelist with
  | some pair =>
    obtain ⟨id, rest⟩ := pair
    obtain ⟨bound, vacant, _, fills⟩ := vacancies.pop_some popped
    obtain ⟨above, before'⟩ := before.pop vacancies popped (some name)
    refine ⟨id, filter.rulesToRulesets.set id (some name), rest, ?_, vacant,
      slot_set bound _, fills name, above, before'⟩
    dsimp only
    rw [writeSlot_eq bound, ok_bind]
    rfl
  | none =>
    have vacant := slot_of_le (Nat.le_refl filter.rulesToRulesets.length)
    obtain ⟨above, before'⟩ := before.push popped (some name)
    refine ⟨_, filter.rulesToRulesets ++ [some name], filter.ruleFreelist, ?_, vacant,
      slot_append, vacancies.push name, above, before'⟩
    dsimp only
    rw [writeSlot_eq (by simp), ok_bind, set_append_right _ _ (Nat.le_refl _), Nat.sub_self]
    rfl

theorem insertRule_eq (indexed : filter.Indexed live) (registered : filter.Registered live stored)
    (before : Before filter.rulesToRulesets filter.ruleFreelist (stored name).ruleIds)
    (rule : Rule) :
    ∃ after id, insertRule name (filter, (stored name).ruleIds) rule =
        .ok (after, (stored name).ruleIds.set id) ∧
      after.rulesets = filter.rulesets ∧
      after.Indexed (update live id (some rule)) ∧
      after.Registered (update live id (some rule)) (update stored name
        ⟨(stored name).ruleset ++ [rule], (stored name).ruleIds.set id⟩) ∧
      Before after.rulesToRulesets after.ruleFreelist ((stored name).ruleIds.set id) := by
  obtain ⟨id, table, free, ran, vacant, slots, vacancies, above, before'⟩ :=
    insertRule_allocates registered.vacancies before name rule
  have opened : BartFilter.Indexed
      { filter with rulesToRulesets := table, ruleFreelist := free } live :=
    ⟨indexed.protos, indexed.caps, indexed.srcs, indexed.dsts⟩
  obtain ⟨after, ran', same, indexed'⟩ :=
    opened.addRule rule ((registered.filled id).mp vacant)
  refine ⟨after, id, ?_, same.rulesets, indexed', ?_, ?_⟩
  · rw [ran, ran']
    rfl
  · apply registered.append after vacant above rule
    · rw [same.rulesToRulesets, same.ruleFreelist]
      exact vacancies
    · rw [same.rulesToRulesets]
      exact slots
  · rw [same.rulesToRulesets, same.ruleFreelist]
    exact before'

theorem insertRules_eq (name : String) {rules : List Rule} (indexed : filter.Indexed live)
    (registered : filter.Registered live stored)
    (before : Before filter.rulesToRulesets filter.ruleFreelist (stored name).ruleIds) :
    ∃ after ids live', rules.foldlM (insertRule name) (filter, (stored name).ruleIds) =
        .ok (after, ids) ∧
      after.rulesets = filter.rulesets ∧ after.Indexed live' ∧
      after.Registered live' (update stored name ⟨(stored name).ruleset ++ rules, ids⟩) := by
  induction rules generalizing filter live stored with
  | nil =>
    refine ⟨filter, (stored name).ruleIds, live, rfl, rfl, indexed, ?_⟩
    rw [append_nil, update_eq_self]
    exact registered
  | cons rule rest ih =>
    obtain ⟨next, id, ran, rulesets, indexed', registered', before'⟩ :=
      insertRule_eq indexed registered before rule
    have mine := update_self name
      (⟨(stored name).ruleset ++ [rule], (stored name).ruleIds.set id⟩ : RulesetEntry) stored
    obtain ⟨after, ids, live', ran', rulesets', indexed'', registered''⟩ :=
      ih indexed' registered' (by rw [mine]; exact before')
    rw [mine] at ran' registered''
    refine ⟨after, ids, live', ?_, rulesets'.trans rulesets, indexed'', ?_⟩
    · rw [foldlM_cons, ran, ok_bind, ran']
    · rw [update_idem] at registered''
      rw [append_cons]
      exact registered''

theorem Tracks.insert (tracks : filter.Tracks map live) (name : String) (ruleset : Ruleset) :
    ∃ after live', filter.insert name ruleset = .ok after ∧
      after.Tracks (update map name (some ruleset)) live' := by
  obtain ⟨cleared, live₁, ran, tracks', absent⟩ := tracks.remove name
  have none : cleared.stored name = RulesetEntry.empty := by rw [stored, absent, Option.getD_none]
  obtain ⟨after, ids, live₂, ran', rulesets, indexed, registered⟩ :=
    insertRules_eq name tracks'.indexed tracks'.registered
      (by rw [none]; exact before_empty)
  rw [none] at ran' registered
  have kept := tracks_stored tracks'.rulesets
    { after with rulesets := update after.rulesets name (some ⟨ruleset, ids⟩) }
    ⟨indexed.protos, indexed.caps, indexed.srcs, indexed.dsts⟩
    (some ⟨ruleset, ids⟩)
    ⟨registered.vacancies, registered.filled, registered.allotted⟩ (by rw [rulesets])
  rw [update_idem] at kept
  refine ⟨_, live₂, ?_, kept⟩
  rw [BartFilter.insert, ran, ok_bind]
  have start : RulesetEntry.empty.ruleIds = Bitset.empty := rfl
  rw [← start, ran', ok_bind]
  rfl

end BartFilter

def MapFilter.stored (filter : MapFilter) (name : String) : Option Ruleset := filter.lookup name

variable (ops : List StorageOp)

/-- A history of the two filters under the same calls. -/
def ranBart : Except Panic BartFilter :=
  ops.foldlM onBart BartFilter.empty

def ranMap : MapFilter := ops.foldl onMap ∅

variable {filter : BartFilter} {map : MapFilter} {live : RuleId → Option Rule}

theorem StorageOp.onBart_tracks (tracks : filter.Tracks map.stored live) (op : StorageOp) :
    ∃ after live', op.onBart filter = .ok after ∧ after.Tracks (op.onMap map).stored live' := by
  cases op with
  | insert name ruleset =>
    obtain ⟨after, live', ran, kept⟩ := tracks.insert name ruleset
    refine ⟨after, live', ran, ?_⟩
    convert kept using 1
    funext other
    rw [MapFilter.stored, onMap, update_apply]
    by_cases same : other = name
    · rw [same, AList.lookup_insert, if_pos rfl]
    · rw [AList.lookup_insert_ne same, if_neg same, MapFilter.stored]
  | remove name =>
    obtain ⟨after, live', ran, kept, _⟩ := tracks.remove name
    refine ⟨after, live', ran, ?_⟩
    convert kept using 1
    funext other
    rw [MapFilter.stored, onMap, update_apply]
    by_cases same : other = name
    · rw [same, AList.lookup_erase, if_pos rfl]
    · rw [AList.lookup_erase_ne same, if_neg same, MapFilter.stored]
  | clear => exact ⟨BartFilter.empty, _, rfl, BartFilter.tracks_empty⟩

theorem ranBart_tracks :
    ∃ filter live, ranBart ops = .ok filter ∧ filter.Tracks (ranMap ops).stored live := by
  have runs : ∀ (filter : BartFilter) (map : MapFilter) (live : RuleId → Option Rule),
      filter.Tracks map.stored live →
      ∃ after live', ops.foldlM onBart filter = .ok after ∧
        after.Tracks (ops.foldl onMap map).stored live' := by
    induction ops with
    | nil => exact fun filter map live tracks => ⟨filter, live, rfl, tracks⟩
    | cons op rest ih =>
      intro filter map live tracks
      obtain ⟨next, live', ran, kept⟩ := op.onBart_tracks tracks
      obtain ⟨after, live'', ran', kept'⟩ := ih next _ live' kept
      exact ⟨after, live'', by rw [foldlM_cons, ran, ok_bind, ran'], kept'⟩
  exact runs _ _ _ BartFilter.tracks_empty

end TailscaleRs.Filter
