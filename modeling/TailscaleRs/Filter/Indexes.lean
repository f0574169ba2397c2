import TailscaleRs.Bart.Refinement
import TailscaleRs.Filter.Bart
import TailscaleRs.Filter.PortCover
import TailscaleRs.Lib.Run

namespace TailscaleRs.Filter

open Bart (Modifier SplitStackTable TableHolds)
open InvertedIndex Slots
open Net (IpAddr IpNet)
open Slots (Vacancies slot)

section Closures

/-- A closure that moves the pairs of an index on at the key it is applied to. -/
def Carries {K : Type} [DecidableEq K] (f : Modifier DynBitset)
    (move : (K → Nat → Prop) → K → K → Nat → Prop) : Prop :=
  ∀ {get : K → Option Bitset} {pairs : K → Nat → Prop} (key : K), Keyed get pairs →
    Keyed (Function.update get key (f.effect (get key)).1) (move pairs key)

variable {K : Type} [DecidableEq K] {id : Nat}

theorem carries_entering : Carries (entering id) fun pairs (key : K) => withPair pairs key id := by
  intro get pairs key keyed
  have entered : ((entering id).effect (get key)).1 = enter id (get key) := by
    cases get key <;> rfl
  rw [entered]
  exact keyed.enter key id

theorem carries_leaving : Carries (leaving id) fun pairs (key : K) => withoutPair pairs key id := by
  intro get pairs key keyed
  have left : ((leaving id).effect (get key)).1 = leave id (get key) := by
    cases get key with
    | none => rfl
    | some ids =>
      rw [Modifier.effect, leave]
      dsimp only [leaving]
      cases (ids.clear id).isEmpty <;> rfl
  rw [left]
  exact keyed.leave key id

end Closures

section Tables

variable {table : SplitStackTable DynBitset} {pairs : IpNet → Nat → Prop}

/-- A table of ids by prefix. -/
def TableIndexed (table : SplitStackTable DynBitset) (pairs : IpNet → Nat → Prop) : Prop :=
  ∃ routes, TableHolds routes table ∧ Keyed routes pairs

theorem tableIndexed_empty : TableIndexed SplitStackTable.empty fun _ _ => False :=
  ⟨_, Bart.tableHolds_empty, keyed_empty⟩

variable (indexed : TableIndexed table pairs)
include indexed

theorem TableIndexed.modifies {f : Modifier DynBitset}
    {move : (IpNet → Nat → Prop) → IpNet → IpNet → Nat → Prop} (carries : Carries f move)
    {pfxs : List IpNet} :
    ∃ after, modifyRoutes table pfxs f = .ok after ∧
      TableIndexed after ((pfxs.map IpNet.trunc).foldl move pairs) := by
  rw [List.foldl_map]
  refine foldlM_moves (fun pairs table => TableIndexed table pairs) ?_ pfxs indexed
  rintro pairs table pfx ⟨routes, holds, keyed⟩
  obtain ⟨after, ran, held⟩ := (Bart.Call.edit (.modify pfx f)).onTable_holds holds
  refine ⟨after, ?_, _, held, carries _ keyed⟩
  rw [show table.modify pfx f = _ from ran]
  rfl

theorem TableIndexed.entering (id : Nat) (pfxs : List IpNet) :
    ∃ after, modifyRoutes table pfxs (entering id) = .ok after ∧
      TableIndexed after (withPairs pairs (pfxs.map IpNet.trunc) id) := by
  rw [withPairs_eq_foldl]
  exact indexed.modifies carries_entering

theorem TableIndexed.leaving (id : Nat) (pfxs : List IpNet) :
    ∃ after, modifyRoutes table pfxs (leaving id) = .ok after ∧
      TableIndexed after (withoutPairs pairs (pfxs.map IpNet.trunc) id) := by
  rw [withoutPairs_eq_foldl]
  exact indexed.modifies carries_leaving

theorem TableIndexed.lookupAll (ip : IpAddr) :
    ∃ sets, table.lookupAll ip = .ok sets ∧
      ∀ i, (sets.foldl Bitset.union Bitset.empty).test i = true ↔
        ∃ net, net.contains ip = true ∧ pairs net i := by
  obtain ⟨routes, holds, keyed⟩ := indexed
  obtain ⟨sets, ran, nets, rfl, lists, _⟩ := holds.represents.lookupAll ip
  refine ⟨_, ran, ?_⟩
  intro i
  rw [Bitset.test_unions]
  constructor
  · rintro ⟨_, member, test⟩
    obtain ⟨⟨net, ids⟩, listed, rfl⟩ := List.mem_map.mp member
    obtain ⟨covers, held⟩ := (lists net ids).mp listed
    exact ⟨net, covers, keyed.pairs_iff.mpr ⟨ids, held, test⟩⟩
  · rintro ⟨net, covers, pair⟩
    obtain ⟨ids, held, test⟩ := keyed.pairs_iff.mp pair
    exact ⟨ids, List.mem_map.mpr ⟨(net, ids), (lists net ids).mpr ⟨covers, held⟩, rfl⟩, test⟩

omit indexed

/-- A prefix that contains an address and is the longest of those with an id. -/
def IsLongest (pairs : IpNet → Nat → Prop) (ip : IpAddr) (net : IpNet) : Prop :=
  net.contains ip = true ∧
    ∀ other i, other.contains ip = true → pairs other i → other.prefixLen ≤ net.prefixLen

theorem TableIndexed.lookup (indexed : TableIndexed table pairs) (ip : IpAddr) :
    ∃ found, table.lookup ip = .ok found ∧
      ∀ i, (∃ ids, found = some ids ∧ ids.test i = true) ↔
        ∃ net, IsLongest pairs ip net ∧ pairs net i := by
  obtain ⟨routes, holds, keyed⟩ := indexed
  obtain ⟨found, ran, longest⟩ := holds.represents.lookup ip
  refine ⟨found, ran, ?_⟩
  intro i
  cases found with
  | none =>
    constructor
    · rintro ⟨_, none, _⟩
      cases none
    · rintro ⟨net, ⟨covers, _⟩, pair⟩
      exact absurd (longest net covers) (keyed.get_ne_none.mpr ⟨i, pair⟩)
  | some ids =>
    obtain ⟨best, covers, held, most⟩ := longest
    have isLongest : IsLongest pairs ip best :=
      ⟨covers, fun other i covers' pair => most other covers' (keyed.get_ne_none.mpr ⟨i, pair⟩)⟩
    constructor
    · rintro ⟨_, same, test⟩
      cases same
      exact ⟨best, isLongest, keyed.pairs_iff.mpr ⟨ids, held, test⟩⟩
    · rintro ⟨net, ⟨covers', most'⟩, pair⟩
      obtain ⟨ids', held', test⟩ := keyed.pairs_iff.mp pair
      obtain ⟨j, pair'⟩ := keyed.get_ne_none.mp (show routes best ≠ none by rw [held]; simp)
      have same : net.prefixLen = best.prefixLen :=
        Nat.le_antisymm (isLongest.2 net i covers' pair) (most' best j covers pair')
      have truncated := holds.truncated net (by rw [held']; simp)
      have truncated' := holds.truncated best (by rw [held]; simp)
      have is : net = best := by
        rw [Bart.eq_prefixAt truncated covers', Bart.eq_prefixAt truncated' covers, same]
      rw [is, held] at held'
      exact ⟨ids, rfl, by rwa [Option.some.inj held']⟩

end Tables

section Ports

variable {trie : PortTrie DynBitset} {pairs : PortPrefix → Nat → Prop} {id : Nat}
  (keyed : Keyed trie.get pairs)
include keyed

theorem keyed_modify {f : Modifier DynBitset}
    {move : (PortPrefix → Nat → Prop) → PortPrefix → PortPrefix → Nat → Prop}
    (carries : Carries f move) {ports : PortRange} :
    Keyed (trie.modify ports f).get ((iterPrefixes ports).foldl move pairs) := by
  refine List.foldl_rel (r := fun trie => Keyed (PortTrie.get trie)) keyed ?_
  intro p _ trie pairs keyed
  rw [get_modifyPrefix]
  exact carries p keyed

theorem keyed_entering (ports : PortRange) :
    Keyed (trie.modify ports (entering id)).get (withPairs pairs (iterPrefixes ports) id) := by
  rw [withPairs_eq_foldl]
  exact keyed_modify keyed carries_entering

theorem keyed_leaving (ports : PortRange) :
    Keyed (trie.modify ports (leaving id)).get (withoutPairs pairs (iterPrefixes ports) id) := by
  rw [withoutPairs_eq_foldl]
  exact keyed_modify keyed carries_leaving

theorem test_lookup (port : UInt16) (i : Nat) :
    ((trie.lookup port).foldl Bitset.union Bitset.empty).test i = true ↔
      ∃ p ∈ lookupKeys port.toNat, pairs p i := by
  rw [lookup_eq, Bitset.test_unions]
  simp only [keyed.pairs_iff, List.mem_filterMap]
  constructor
  · rintro ⟨ids, ⟨p, read, held⟩, test⟩
    exact ⟨p, read, ids, held, test⟩
  · rintro ⟨p, read, ids, held, test⟩
    exact ⟨ids, ⟨p, read, held⟩, test⟩

end Ports

section Members

/-- A call of `PortTrie::modify` that sets or clears a member id on a port range. -/
inductive PortOp where
  | set (id : Nat) (ports : PortRange)
  | clear (id : Nat) (ports : PortRange)

/-- A trie, with the ranges of the ids that were set last and not cleared. -/
structure PortMembers where
  trie : PortTrie DynBitset
  held : PortRange → Nat → Prop

namespace PortMembers

def empty : PortMembers := ⟨PortTrie.empty, fun _ _ => False⟩

variable (members : PortMembers)

def modify : PortOp → PortMembers
  | .set id ports => ⟨members.trie.modify ports (entering id), withPair members.held ports id⟩
  | .clear id ports =>
    ⟨members.trie.modify ports (leaving id), withoutPair members.held ports id⟩

/-- A range that is set does not saturate, and one that is cleared shares no prefix with another
range of the id. -/
def Separates : PortOp → Prop
  | .set _ ports => ¬ ports.Saturates
  | .clear id ports => ∀ other, members.held other id → other ≠ ports →
      ∀ p ∈ iterPrefixes other, p ∉ iterPrefixes ports

/-- The entries are those of the prefixes of the ranges that are held. -/
structure Indexed (members : PortMembers) : Prop where
  keyed : Keyed members.trie.get fun p id => ∃ ports, members.held ports id ∧ p ∈ iterPrefixes ports
  fits : ∀ {ports id}, members.held ports id → ¬ ports.Saturates

theorem indexed_empty : empty.Indexed where
  keyed := by
    simpa [empty, PortTrie.get_empty] using keyed_empty
  fits := False.elim

theorem Indexed.modify {members : PortMembers} (indexed : members.Indexed) (op : PortOp)
    (separates : members.Separates op) : (members.modify op).Indexed := by
  cases op with
  | set id ports =>
    refine ⟨?_, ?_⟩
    · convert @keyed_entering _ _ id indexed.keyed ports using 3 with p i
      dsimp only [PortMembers.modify, withPair, withPairs]
      constructor
      · rintro ⟨other, held | ⟨rfl, rfl⟩, member⟩
        · exact .inl ⟨other, held, member⟩
        · exact .inr ⟨member, rfl⟩
      · rintro (⟨other, held, member⟩ | ⟨member, rfl⟩)
        · exact ⟨other, .inl held, member⟩
        · exact ⟨ports, .inr ⟨rfl, rfl⟩, member⟩
    · rintro other i (held | ⟨rfl, rfl⟩)
      · exact indexed.fits held
      · exact separates
  | clear id ports =>
    refine ⟨?_, fun held => indexed.fits held.1⟩
    convert @keyed_leaving _ _ id indexed.keyed ports using 3 with p i
    dsimp only [PortMembers.modify, withoutPair, withoutPairs]
    constructor
    · rintro ⟨other, ⟨held, kept⟩, member⟩
      refine ⟨⟨other, held, member⟩, ?_⟩
      rintro ⟨member', rfl⟩
      exact separates other held (fun same => kept ⟨same, rfl⟩) p member member'
    · rintro ⟨⟨other, held, member⟩, kept⟩
      refine ⟨other, ⟨held, ?_⟩, member⟩
      rintro ⟨rfl, rfl⟩
      exact kept ⟨member, rfl⟩

theorem Indexed.test_lookup {members : PortMembers} (indexed : members.Indexed) (port : UInt16)
    (id : Nat) :
    ((members.trie.lookup port).foldl Bitset.union Bitset.empty).test id = true ↔
      ∃ ports, members.held ports id ∧ ports.contains port = true := by
  rw [Filter.test_lookup indexed.keyed]
  constructor
  · rintro ⟨p, read, ports, held, member⟩
    have covered := iterPrefixes_covers.mp ⟨p, member, read⟩
    exact ⟨ports, held, covered.resolve_left (indexed.fits held)⟩
  · rintro ⟨ports, held, contains⟩
    obtain ⟨p, member, read⟩ := iterPrefixes_covers.mpr (.inr contains)
    exact ⟨p, read, ports, held, member⟩

end PortMembers

open PortMembers

/-- The prefixes of a range cover exactly its ports unless its length saturates. -/
theorem iterPrefixes_exact_iff {ports : PortRange} :
    (∀ port : UInt16, (∃ p ∈ iterPrefixes ports, p.start ≤ port.toNat ∧ port.toNat ≤ p.last) ↔
      ports.contains port = true) ↔ ¬ ports.Saturates := by
  have covers : ∀ port : UInt16,
      (∃ p ∈ iterPrefixes ports, p.start ≤ port.toNat ∧ port.toNat ≤ p.last) ↔
        ports.Saturates ∨ ports.contains port = true := by
    intro port
    rw [← iterPrefixes_covers]
    refine exists_congr fun p => and_congr_right fun member => ?_
    exact (iterPrefixes_increasing.1 p member port.toNat port.toNat_lt).symm
  simp only [covers]
  constructor
  · rintro exact (rfl | rfl)
    · exact absurd ((exact 65535).mp (.inl (.inl rfl))) (by decide)
    · exact absurd ((exact 0).mp (.inl (.inr rfl))) (by decide)
  · exact fun fits port => or_iff_right fits

/-- After ids are set and cleared, a port finds the ids with a range that contains it. -/
theorem lookup_iff_held (ops : List PortOp)
    (separate : Along modify PortMembers.Separates empty ops) :
    (∀ (port : UInt16) (id : Nat),
      (((run modify empty ops).trie.lookup port).foldl Bitset.union
          Bitset.empty).test id = true ↔
        ∃ ports, (run modify empty ops).held ports id ∧
          ports.contains port = true) ∧
      ∀ ports : PortRange, ((iterPrefixes ports).Pairwise fun p q => p.last < q.start) ∧
        ((∀ port : UInt16,
            (∃ p ∈ iterPrefixes ports, p.start ≤ port.toNat ∧ port.toNat ≤ p.last) ↔
              ports.contains port = true) ↔ ¬ ports.Saturates) := by
  have indexed := run_invariant modify PortMembers.Separates PortMembers.Indexed
    (fun _ op indexed separates => indexed.modify op separates) empty ops
    indexed_empty separate
  exact ⟨indexed.test_lookup,
    fun ports => ⟨iterPrefixes_increasing.2, iterPrefixes_exact_iff⟩⟩

theorem lookup_iff_held_cleared :
    (((run modify empty
        [.set 1 ⟨80, 90⟩, .set 1 ⟨100, 110⟩, .clear 1 ⟨80, 90⟩]).trie.lookup 105).foldl
          Bitset.union Bitset.empty).test 1 = true := by
  have separate : Along modify PortMembers.Separates empty
      [.set 1 ⟨80, 90⟩, .set 1 ⟨100, 110⟩, .clear 1 ⟨80, 90⟩] := by
    refine ⟨show ¬ PortRange.Saturates _ by decide, show ¬ PortRange.Saturates _ by decide, ?_,
      trivial⟩
    rintro other ((held | ⟨rfl, -⟩) | ⟨rfl, -⟩) differs
    · exact held.elim
    · exact absurd rfl differs
    · decide
  exact ((lookup_iff_held _ separate).1 105 1).mpr
    ⟨⟨100, 110⟩, ⟨.inr ⟨rfl, rfl⟩, by simp⟩, by decide⟩

/-- A range of all ports but the last is found for the last port. -/
theorem lookup_past_range :
    (((run modify empty [.set 1 ⟨0, 65534⟩]).trie.lookup 65535).foldl
        Bitset.union Bitset.empty).test 1 = true ∧
      ¬ ∃ ports, (run modify empty [.set 1 ⟨0, 65534⟩]).held ports 1 ∧
        ports.contains 65535 = true := by
  refine ⟨by decide, ?_⟩
  rintro ⟨ports, held | ⟨rfl, -⟩, contains⟩
  · exact held.elim
  · exact absurd contains (by decide)

end Members

open Function
open Slots (Named Vacancies find slot)

section Slots

variable {β : Type} {entries : List (Option β)} {id : Nat}

theorem readSlot_eq (bound : id < entries.length) :
    readSlot entries id = .ok (slot entries id) := by
  rw [readSlot, slot, List.getElem?_eq_getElem bound]
  rfl

theorem writeSlot_eq (bound : id < entries.length) (value : Option β) :
    writeSlot entries id value = .ok (entries.set id value) := if_pos bound

end Slots

namespace CapLookup

variable {caps : CapLookup} {pairs : String → Nat → Prop}

/-- Each capability in use has one id, whose slot holds its rules. -/
structure Indexed (caps : CapLookup) (pairs : String → Nat → Prop) : Prop where
  vacancies : Vacancies caps.capsToRules caps.freelist
  named : Named caps.ids (slot caps.capsToRules)
  keyed : Keyed (find caps.ids (slot caps.capsToRules)) pairs

theorem indexed_empty : empty.Indexed fun _ _ => False :=
  ⟨Vacancies.empty, Named.empty, keyed_empty⟩

variable (indexed : caps.Indexed pairs)
include indexed

theorem Indexed.compact : caps.compact.Indexed pairs := by
  have same : slot caps.compact.capsToRules = slot caps.capsToRules := slot_trim
  refine ⟨indexed.vacancies.trim, ?_, ?_⟩
  · rw [same]
    exact indexed.named
  · rw [same]
    exact indexed.keyed

theorem Indexed.store {capName : String} {id ruleId : Nat}
    (mine : caps.ids capName = some id ∨
      caps.ids capName = none ∧ slot caps.capsToRules id = none) {entries : List (Option DynBitset)}
    {free rules : DynBitset} (vacancies : Vacancies entries free)
    (filled : slot entries = update (slot caps.capsToRules) id (some rules))
    (entered : enter ruleId (find caps.ids (slot caps.capsToRules) capName) = some rules) :
    Indexed ⟨update caps.ids capName (some id), entries, free⟩ (withPair pairs capName ruleId) := by
  refine ⟨vacancies, ?_, ?_⟩
  · rw [filled]
    exact indexed.named.store mine rules
  · rw [filled, indexed.named.find_store mine rules, ← entered]
    exact indexed.keyed.enter _ _

theorem Indexed.insert (capName : String) (ruleId : Nat) :
    ∃ after id, caps.insert capName ruleId = .ok (after, id) ∧
      after.Indexed (withPair pairs capName ruleId) := by
  rw [CapLookup.insert, idFor]
  cases is : caps.ids capName with
  | some id =>
    obtain ⟨rules, held⟩ := Option.ne_none_iff_exists'.mp (indexed.named.held capName id is)
    have bound := lt_of_slot held
    have entered : enter ruleId (find caps.ids (slot caps.capsToRules) capName) =
        some (rules.set ruleId) := by
      rw [find, is, Option.bind_some, held]
      rfl
    have stored := indexed.store (.inl is)
      (indexed.vacancies.replace (by rw [held]; simp) (rules.set ruleId))
      (slot_set bound _) entered
    rw [update_eq_self_iff.mpr is.symm] at stored
    dsimp only
    rw [readSlot_eq bound, ok_bind, held, writeSlot_eq bound, ok_bind]
    exact ⟨_, _, rfl, stored⟩
  | none =>
    have entered : enter ruleId (find caps.ids (slot caps.capsToRules) capName) =
        some (Bitset.empty.set ruleId) := by
      rw [find, is]
      rfl
    cases popped : popFreelist caps.freelist with
    | some taken =>
      obtain ⟨bound, vacant, _, filled⟩ := indexed.vacancies.pop_some popped
      have stored := indexed.store (.inr ⟨is, vacant⟩) (filled _) (slot_set bound _) entered
      dsimp only
      rw [readSlot_eq bound, ok_bind, vacant, writeSlot_eq bound, ok_bind]
      exact ⟨_, _, rfl, stored⟩
    | none =>
      have bound : caps.capsToRules.length < (caps.capsToRules ++ [none]).length := by simp
      have vacant : slot caps.capsToRules caps.capsToRules.length = none :=
        slot_of_le (Nat.le_refl _)
      have pushed : (caps.capsToRules ++ [none]).set caps.capsToRules.length
          (some (Bitset.empty.set ruleId)) =
          caps.capsToRules ++ [some (Bitset.empty.set ruleId)] := by
        rw [List.set_append_right _ _ (Nat.le_refl _), Nat.sub_self]
        rfl
      have stored := indexed.store (.inr ⟨is, vacant⟩) (indexed.vacancies.push _)
        slot_append entered
      have blank : slot (caps.capsToRules ++ [none]) caps.capsToRules.length = none := by
        rw [slot_append, update_self]
      dsimp only
      rw [readSlot_eq bound, ok_bind, blank, writeSlot_eq bound, ok_bind]
      refine ⟨_, _, rfl, ?_⟩
      rw [← pushed] at stored
      exact stored

theorem Indexed.remove (ruleId : Nat) (capName : String) :
    (caps.remove ruleId capName).Indexed (withoutPair pairs capName ruleId) := by
  have left := indexed.keyed.leave capName ruleId
  rw [CapLookup.remove]
  cases is : caps.ids capName with
  | none =>
    have absent : find caps.ids (slot caps.capsToRules) capName = none := by rw [find, is]; rfl
    rw [absent, leave, update_eq_self_iff.mpr absent.symm] at left
    exact ⟨indexed.vacancies, indexed.named, left⟩
  | some id =>
    obtain ⟨rules, held⟩ := Option.ne_none_iff_exists'.mp (indexed.named.held capName id is)
    have bound := lt_of_slot held
    have present : find caps.ids (slot caps.capsToRules) capName = some rules := by
      rw [find, is, Option.bind_some, held]
    rw [present, leave] at left
    dsimp only
    rw [slot_eq_some.mp held]
    dsimp only
    apply Indexed.compact
    cases none : (rules.clear ruleId).isEmpty with
    | true =>
      rw [none, if_pos rfl] at left
      rw [if_pos rfl]
      refine ⟨indexed.vacancies.release bound, ?_, ?_⟩
      · rw [slot_set bound]
        exact indexed.named.release is
      · rw [slot_set bound, indexed.named.find_release is]
        exact left
    | false =>
      rw [none, if_neg (by simp)] at left
      rw [if_neg (by simp)]
      have named := indexed.named.store (.inl is) (rules.clear ruleId)
      have found := indexed.named.find_store (.inl is) (rules.clear ruleId)
      rw [update_eq_self_iff.mpr is.symm] at named found
      refine ⟨indexed.vacancies.replace (by rw [held]; simp) _, ?_, ?_⟩
      · rw [slot_set bound]
        exact named
      · rw [slot_set bound, found]
        exact left

theorem Indexed.test_lookup (names : List String) (i : Nat) :
    (caps.lookup names).test i = true ↔ ∃ capName ∈ names, pairs capName i := by
  have sets : (names.filterMap caps.ids).filterMap (fun id => caps.capsToRules[id]?.join) =
      names.filterMap (find caps.ids (slot caps.capsToRules)) := by
    rw [List.filterMap_filterMap]
    rfl
  rw [CapLookup.lookup, sets, Bitset.test_unions]
  simp only [indexed.keyed.pairs_iff, List.mem_filterMap]
  constructor
  · rintro ⟨ids, ⟨capName, given, held⟩, test⟩
    exact ⟨capName, given, ids, held, test⟩
  · rintro ⟨capName, given, ids, held, test⟩
    exact ⟨ids, ⟨capName, given, held⟩, test⟩

end CapLookup

end TailscaleRs.Filter
