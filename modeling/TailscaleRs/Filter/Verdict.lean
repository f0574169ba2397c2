import TailscaleRs.Filter.BartRuns

namespace TailscaleRs.Filter

open Option Bitset PortMode
open InvertedIndex
open Net (IpAddr IpNet)
open Slots (slot)

def Stored (map : String → Option Ruleset) (rule : Rule) : Prop :=
  ∃ name ruleset, map name = some ruleset ∧ rule ∈ ruleset

def BartFilter.LiveRule (filter : BartFilter) (id : RuleId) (rule : Rule) : Prop :=
  ∃ name entry, filter.rulesets name = some entry ∧ (id, rule) ∈ entry.rulesAndIds

theorem rulesAndIds_rules {entry : RulesetEntry}
    (paired : entry.ruleIds.members.length = entry.ruleset.length) :
    entry.rulesAndIds.map Prod.snd = entry.ruleset :=
  List.map_snd_zip (Nat.le_of_eq paired.symm)

namespace BartFilter.Tracks

variable {filter : BartFilter} {map : String → Option Ruleset} {live : RuleId → Option Rule}
  {name : String} {entry : RulesetEntry} {id : RuleId} {rule : Rule}
  (tracks : filter.Tracks map live)
include tracks

theorem allotted (is : filter.rulesets name = some entry) :
    Allotted (slot filter.rulesToRulesets) live name entry := by
  have allotted := tracks.registered.allotted name
  rwa [stored, is, getD_some] at allotted

theorem entry_of_slot (held : slot filter.rulesToRulesets id = some name) :
    ∃ entry, filter.rulesets name = some entry ∧ entry.ruleIds.test id = true := by
  have member := (tracks.registered.allotted name).owned id |>.mpr held
  rw [stored] at member
  cases is : filter.rulesets name with
  | none =>
    rw [is, getD_none, RulesetEntry.empty, test_empty] at member
    cases member
  | some entry => exact ⟨entry, rfl, by rwa [is, getD_some] at member⟩

theorem liveRule_iff : filter.LiveRule id rule ↔ live id = some rule := by
  constructor
  · rintro ⟨name, entry, is, member⟩
    exact (tracks.allotted is).lives _ member
  · intro held
    have filled : slot filter.rulesToRulesets id ≠ none := by
      rw [ne_eq, tracks.registered.filled, held]
      simp
    obtain ⟨name, own⟩ := ne_none_iff_exists'.mp filled
    obtain ⟨entry, is, member⟩ := tracks.entry_of_slot own
    have allotted := tracks.allotted is
    rw [← mem_members, ← rulesAndIds_ids allotted.paired] at member
    obtain ⟨⟨_, rule'⟩, listed, rfl⟩ := List.mem_map.mp member
    have same := allotted.lives _ listed
    rw [held] at same
    rw [some.inj same]
    exact ⟨name, entry, is, listed⟩

theorem live_iff_stored : (∃ id, live id = some rule) ↔ Stored map rule := by
  constructor
  · rintro ⟨id, held⟩
    obtain ⟨name, entry, is, member⟩ := tracks.liveRule_iff.mpr held
    refine ⟨name, entry.ruleset, ?_, (List.of_mem_zip member).2⟩
    rw [← tracks.rulesets name, is, map_some]
  · rintro ⟨name, ruleset, is, member⟩
    rw [← tracks.rulesets name, map_eq_some_iff] at is
    obtain ⟨entry, is, rfl⟩ := is
    have allotted := tracks.allotted is
    rw [← rulesAndIds_rules allotted.paired] at member
    obtain ⟨⟨id, _⟩, listed, rfl⟩ := List.mem_map.mp member
    exact ⟨id, allotted.lives _ listed⟩

end BartFilter.Tracks

section Specification

variable (stored : Rule → Prop) (rule : Rule) (info : PacketInfo) (caps : List String)

/-- A prefix that contains the packet's source and is as long as any such prefix of a stored
rule. -/
def Rule.Nearest : Prop :=
  ∃ pfx ∈ rule.src.pfxs, pfx.contains info.src = true ∧
    ∀ other, stored other → ∀ pfx' ∈ other.src.pfxs, pfx'.contains info.src = true →
      pfx'.prefixLen ≤ pfx.prefixLen

def Rule.Capable : Prop := ∃ cap ∈ caps, cap ∈ rule.src.caps

/-- How the indexes read a destination's ports for a packet. -/
def DstMatch.Admits (dst : DstMatch) (info : PacketInfo) : Prop :=
  match forProto info.ipProto with
  | .check => dst.Opens info.port
  | .ipsOnly => True
  | .ipsOnlyIfAllPorts => dst.Opens 0 ∧ dst.Opens 65535

/-- What the filter accepts, read off the stored rules. -/
def Rule.Selected : Prop :=
  (rule.Capable caps ∨ rule.Nearest stored info) ∧ info.ipProto ∈ rule.protos ∧
    ∃ dst ∈ rule.dst, dst.Admits info ∧ dst.Covers info.dst

end Specification

namespace BartFilter.Indexed

variable {filter : BartFilter} {live : RuleId → Option Rule} {id : RuleId}
  (indexed : filter.Indexed live)
include indexed

variable (info : PacketInfo)

theorem lookup_srcs :
    ∃ found, filter.srcs.lookup info.src = .ok found ∧
      ∀ id, (∃ ids, found = some ids ∧ ids.test id = true) ↔
        ∃ rule, live id = some rule ∧ rule.Nearest (fun rule => ∃ i, live i = some rule) info := by
  obtain ⟨found, ran, finds⟩ := indexed.srcs.lookup info.src
  refine ⟨found, ran, ?_⟩
  intro id
  rw [finds]
  constructor
  · rintro ⟨net, ⟨covers, most⟩, rule, held, member⟩
    obtain ⟨pfx, listed, rfl⟩ := List.mem_map.mp member
    rw [IpNet.contains_trunc] at covers
    refine ⟨rule, held, pfx, listed, covers, ?_⟩
    rintro other ⟨i, held'⟩ pfx' listed' covers'
    exact most pfx'.trunc i (by rwa [IpNet.contains_trunc])
      ⟨other, held', List.mem_map_of_mem listed'⟩
  · rintro ⟨rule, held, pfx, listed, covers, most⟩
    refine ⟨pfx.trunc, ⟨by rwa [IpNet.contains_trunc], ?_⟩, rule, held, List.mem_map_of_mem listed⟩
    rintro _ i covers' ⟨other, held', member⟩
    obtain ⟨pfx', listed', rfl⟩ := List.mem_map.mp member
    rw [IpNet.contains_trunc] at covers'
    exact most other ⟨i, held'⟩ pfx' listed' covers'

theorem lookup_dsts :
    ∃ found, (if info.ipProto.isPortFul then filter.dsts.lookup info.dst info.port
        else if info.ipProto = .icmp ∨ info.ipProto = .icmpv6 then
          filter.dsts.lookupIpsOnly info.dst
        else filter.dsts.lookupAllPortsIps info.dst) = .ok found ∧
      ∀ id, found.test id = true ↔
        ∃ rule, live id = some rule ∧ ∃ dst ∈ rule.dst, dst.Admits info ∧ dst.Covers info.dst := by
  have regroup : ∀ (p : DstMatch → Prop) (id : RuleId),
      (∃ dst, Entries Rule.dst live dst id ∧ p dst) ↔
        ∃ rule, live id = some rule ∧ ∃ dst ∈ rule.dst, p dst := by
    intro p id
    constructor
    · rintro ⟨dst, ⟨rule, held, member⟩, holds⟩
      exact ⟨rule, held, dst, member, holds⟩
    · rintro ⟨rule, held, dst, member, holds⟩
      exact ⟨dst, ⟨rule, held, member⟩, holds⟩
  by_cases portFul : info.ipProto.isPortFul = true
  · have mode : forProto info.ipProto = .check := if_pos portFul
    obtain ⟨found, ran, tests⟩ := indexed.dsts.lookup_eq info.dst info.port
    refine ⟨found, by rw [if_pos portFul, ran], ?_⟩
    intro id
    simp only [DstMatch.Admits, mode]
    rw [tests, regroup]
  · by_cases isIcmp : info.ipProto = .icmp ∨ info.ipProto = .icmpv6
    · have mode : forProto info.ipProto = .ipsOnly := by
        rw [forProto, if_neg portFul, if_pos isIcmp]
      obtain ⟨found, ran, tests⟩ := indexed.dsts.lookupIpsOnly_eq
      refine ⟨found, by rw [if_neg portFul, if_pos isIcmp, ran], ?_⟩
      intro id
      simp only [DstMatch.Admits, mode, true_and]
      rw [tests, regroup]
    · have mode : forProto info.ipProto = .ipsOnlyIfAllPorts := by
        rw [forProto, if_neg portFul, if_neg isIcmp]
      obtain ⟨found, ran, tests⟩ := indexed.dsts.lookupAllPortsIps_eq
      refine ⟨found, by rw [if_neg portFul, if_neg isIcmp, ran], ?_⟩
      intro id
      simp only [DstMatch.Admits, mode]
      rw [tests, regroup]

theorem test_sources (caps : List String) {found : Option DynBitset}
    (finds : ∀ id, (∃ ids, found = some ids ∧ ids.test id = true) ↔
      ∃ rule, live id = some rule ∧ rule.Nearest (fun rule => ∃ i, live i = some rule) info)
    (id : RuleId) :
    (srcMatches (filter.caps.lookup caps) found).test id = true ↔
      ∃ rule, live id = some rule ∧
        (rule.Capable caps ∨ rule.Nearest (fun rule => ∃ i, live i = some rule) info) := by
  have capable : (filter.caps.lookup caps).test id = true ↔
      ∃ rule, live id = some rule ∧ rule.Capable caps := by
    rw [indexed.caps.test_lookup]
    constructor
    · rintro ⟨cap, given, rule, held, named⟩
      exact ⟨rule, held, cap, given, named⟩
    · rintro ⟨rule, held, cap, given, named⟩
      exact ⟨cap, given, rule, held, named⟩
  simp only [and_or_left, exists_or]
  rw [← capable, ← finds id]
  cases found with
  | none => simp [srcMatches]
  | some ids => simp [srcMatches]

theorem test_protos (proto : IpProto) (matched : DynBitset) (id : RuleId) :
    (protoMatches matched (filter.ipProtos proto)).test id = true ↔
      matched.test id = true ∧ ∃ rule, live id = some rule ∧ proto ∈ rule.protos := by
  rw [show (∃ rule, live id = some rule ∧ proto ∈ rule.protos) ↔ _ from indexed.protos.pairs_iff]
  cases filter.ipProtos proto with
  | none => simp [protoMatches]
  | some ids => simp [protoMatches]

theorem lookup_eq (caps : List String) :
    ∃ found, filter.lookup info caps = .ok found ∧
      ∀ id, found.test id = true ↔ ∃ rule, live id = some rule ∧
        rule.Selected (fun rule => ∃ i, live i = some rule) info caps := by
  obtain ⟨nearest, ran, finds⟩ := indexed.lookup_srcs info
  obtain ⟨reached, ran', targets⟩ := indexed.lookup_dsts info
  have sources := indexed.test_sources info caps finds
  rw [BartFilter.lookup, ran, ok_bind]
  dsimp only
  generalize srcMatches (filter.caps.lookup caps) nearest = srcMatches at sources ⊢
  have protos := indexed.test_protos info.ipProto srcMatches
  generalize protoMatches srcMatches (filter.ipProtos info.ipProto) = allMatches at protos ⊢
  have selects : ∀ id, (allMatches.test id = true ∧ reached.test id = true) ↔
      ∃ rule, live id = some rule ∧
        rule.Selected (fun rule => ∃ i, live i = some rule) info caps := by
    intro id
    rw [protos, sources, targets]
    cases live id with
    | none => simp
    | some rule => simp [Rule.Selected, and_assoc]
  -- both early returns are of an empty set, which is what the rest would have come to
  by_cases unsourced : srcMatches.isEmpty = true
  · refine ⟨srcMatches, by rw [if_pos unsourced]; rfl, ?_⟩
    intro id
    rw [← selects, protos, isEmpty_iff.mp unsourced id]
    simp
  · by_cases unmatched : allMatches.isEmpty = true
    · refine ⟨allMatches, by rw [if_neg unsourced, if_pos unmatched]; rfl, ?_⟩
      intro id
      rw [← selects, isEmpty_iff.mp unmatched id]
      simp
    · refine ⟨allMatches.intersect reached, ?_, ?_⟩
      · rw [if_neg unsourced, if_neg unmatched]
        split_ifs at ran' ⊢ with portFul isIcmp
        · rw [ran', ok_bind]; rfl
        · rw [ran', ok_bind]; rfl
        · rw [ran', ok_bind]; rfl
      · intro id
        rw [← selects, test_intersect]

end BartFilter.Indexed

namespace BartFilter.Tracks

variable {filter : BartFilter} {map : String → Option Ruleset} {live : RuleId → Option Rule}
  (tracks : filter.Tracks map live)
include tracks

variable (info : PacketInfo) (caps : List String)

theorem lookup_eq :
    ∃ found, filter.lookup info caps = .ok found ∧
      ∀ id, found.test id = true ↔
        ∃ rule, live id = some rule ∧ rule.Selected (Stored map) info caps := by
  have same : (fun rule => ∃ i, live i = some rule) = Stored map :=
    funext fun rule => propext tracks.live_iff_stored
  rw [← same]
  exact tracks.indexed.lookup_eq info caps

theorem matches_eq :
    ∃ verdict, filter.matches info caps = .ok verdict ∧
      (verdict = true ↔ ∃ rule, Stored map rule ∧ rule.Selected (Stored map) info caps) := by
  obtain ⟨found, ran, tests⟩ := tracks.lookup_eq info caps
  refine ⟨!found.isEmpty, by rw [BartFilter.matches, ran]; rfl, ?_⟩
  rw [Bool.not_eq_true', isEmpty_eq_false]
  simp only [tests]
  constructor
  · rintro ⟨id, rule, held, selected⟩
    exact ⟨rule, tracks.live_iff_stored.mp ⟨id, held⟩, selected⟩
  · rintro ⟨rule, held, selected⟩
    obtain ⟨id, held⟩ := tracks.live_iff_stored.mpr held
    exact ⟨id, rule, held, selected⟩

theorem matchFor_ok : ∃ name, filter.matchFor info caps = .ok name := by
  obtain ⟨found, ran, tests⟩ := tracks.lookup_eq info caps
  rw [BartFilter.matchFor, ran, ok_bind]
  cases first : found.firstSet with
  | none => exact ⟨none, rfl⟩
  | some id =>
    obtain ⟨rule, held, _⟩ := (tests id).mp (firstSet_eq_some id first).1
    have filled : slot filter.rulesToRulesets id ≠ none := by
      rw [ne_eq, tracks.registered.filled, held]
      simp
    obtain ⟨name, own⟩ := ne_none_iff_exists'.mp filled
    refine ⟨some name, ?_⟩
    dsimp only
    rw [readSlot_eq (Slots.lt_of_slot own), ok_bind, own]
    rfl

end BartFilter.Tracks

section Condition

variable {stored : Rule → Prop} {rule : Rule} {info : PacketInfo} {caps : List String}

/-- The packet meets no rule that the indexes read otherwise than the rule itself: a rule whose
sources contain the packet's has one as long as any stored source that does, and a destination
whose range of ports has a length that saturates accepts the packet's port anyway. -/
structure Unambiguous (stored : Rule → Prop) (info : PacketInfo) : Prop where
  sources : ∀ rule, stored rule → (∃ pfx ∈ rule.src.pfxs, pfx.contains info.src = true) →
    rule.Nearest stored info
  ports : ∀ rule, stored rule → ∀ dst ∈ rule.dst, dst.ports.Saturates →
    match forProto info.ipProto with
    | .check => dst.ports.contains info.port = true
    | .ipsOnly => True
    | .ipsOnlyIfAllPorts => False

theorem contains_ends_iff (ports : PortRange) :
    ports.contains 0 = true ∧ ports.contains 65535 = true ↔ ports = allPorts := by
  obtain ⟨start, stop⟩ := ports
  have top : stop ≤ 65535 := by
    rw [UInt16.le_iff_toNat_le]
    have := stop.toNat_lt
    simp only [UInt16.reduceToNat]
    omega
  simp only [PortRange.contains, allPorts, Bool.and_eq_true, decide_eq_true_eq, PortRange.mk.injEq]
  constructor
  · rintro ⟨⟨low, _⟩, _, high⟩
    exact ⟨UInt16.le_antisymm low (UInt16.zero_le), UInt16.le_antisymm top high⟩
  · rintro ⟨rfl, rfl⟩
    decide

theorem DstMatch.matches_iff {dst : DstMatch}
    (plain : dst.ports.Saturates → match forProto info.ipProto with
      | .check => dst.ports.contains info.port = true
      | .ipsOnly => True
      | .ipsOnlyIfAllPorts => False) :
    dst.matches info (forProto info.ipProto) = true ↔
      dst.Admits info ∧ dst.Covers info.dst := by
  simp only [DstMatch.matches, Bool.and_eq_true, List.any_eq_true]
  apply and_congr_left'
  rw [DstMatch.Admits]
  cases mode : forProto info.ipProto with
  | check =>
    rw [mode] at plain
    exact (or_iff_right_of_imp plain).symm
  | ipsOnly => simp
  | ipsOnlyIfAllPorts =>
    rw [mode] at plain
    have opens : ∀ port, dst.Opens port ↔ dst.ports.contains port = true :=
      fun port => or_iff_right plain
    show decide (dst.ports = allPorts) = true ↔ dst.Opens 0 ∧ dst.Opens 65535
    rw [opens, opens, contains_ends_iff, decide_eq_true_eq]

theorem SrcMatch.matches_iff :
    rule.src.matches info caps = true ↔
      rule.Capable caps ∨ ∃ pfx ∈ rule.src.pfxs, pfx.contains info.src = true := by
  rw [SrcMatch.matches, Bool.or_eq_true, List.any_eq_true, List.any_eq_true, or_comm]
  simp [Rule.Capable]

/-- A packet that meets no such rule is selected by the rules that match it. -/
theorem Unambiguous.selected_iff (unambiguous : Unambiguous stored info) (held : stored rule) :
    rule.Selected stored info caps ↔ rule.matches info caps = true := by
  have nearest : rule.Nearest stored info ↔
      ∃ pfx ∈ rule.src.pfxs, pfx.contains info.src = true := by
    constructor
    · rintro ⟨pfx, listed, covers, _⟩
      exact ⟨pfx, listed, covers⟩
    · exact unambiguous.sources rule held
  have targets : (∃ dst ∈ rule.dst, dst.matches info (forProto info.ipProto) = true) ↔
      ∃ dst ∈ rule.dst, dst.Admits info ∧ dst.Covers info.dst := by
    apply exists_congr
    intro dst
    apply and_congr_right
    intro listed
    exact DstMatch.matches_iff (unambiguous.ports rule held dst listed)
  rw [Rule.matches, Bool.and_eq_true, Bool.and_eq_true, List.any_eq_true, SrcMatch.matches_iff,
    ← nearest, targets, List.contains_iff_mem, Rule.Selected, and_assoc]
  exact and_left_comm

end Condition

def ip4 (a b c d : UInt8) : IpAddr := ⟨.v4, [a, b, c, d], rfl⟩

def net4 (a b c d : UInt8) (len : Fin 33) : IpNet :=
  ⟨ip4 a b c d, len.val, Nat.le_of_lt_succ len.isLt⟩

def tcpFrom (src : IpNet) (ports : PortRange) : Rule :=
  ⟨⟨[src], []⟩, [.tcp], [⟨ports, [net4 0 0 0 0 0]⟩]⟩

def anywhere : IpNet := net4 0 0 0 0 0

/-- Web and mail servers of one subnet, from anywhere or with a capability. -/
def toyServices (cap : String) (ports : PortRange) : Ruleset :=
  [⟨⟨[anywhere], [cap]⟩, [.tcp, .udp], [⟨ports, [net4 10 1 0 0 16, net4 10 2 3 4 32]⟩]⟩]

def tcpPacket (src : IpAddr) (port : UInt16) : PacketInfo :=
  ⟨src, ip4 10 9 9 9, .tcp, port, .unknown⟩

/-- One ruleset opens all ports to a network, another one port to a part of it. -/
def nestedSources : List StorageOp :=
  [.insert "wide" [tcpFrom (net4 10 0 0 0 8) allPorts],
    .insert "narrow" [tcpFrom (net4 10 1 0 0 16) ⟨80, 80⟩]]

/-- A ruleset that opens every port but the first. -/
def allButFirst : List StorageOp := [.insert "base" [tcpFrom (net4 10 0 0 0 8) ⟨1, 65535⟩]]

/-- After any history neither call panics, and for a packet that meets no rule the indexes read
otherwise the verdict is the map's, which is that of the stored rules. -/
theorem filter_agrees_with_map (ops : List StorageOp) :
    ∃ filter, ranBart ops = .ok filter ∧ ∀ info caps,
      (∃ name, filter.matchFor info caps = .ok name) ∧
      (∃ verdict, filter.matches info caps = .ok verdict) ∧
      ((ranMap ops).matches info caps = true ↔
        ∃ rule, Stored (ranMap ops).stored rule ∧ rule.matches info caps = true) ∧
      (Unambiguous (Stored (ranMap ops).stored) info →
        filter.matches info caps = .ok ((ranMap ops).matches info caps)) := by
  obtain ⟨filter, live, ran, tracks⟩ := ranBart_tracks ops
  refine ⟨filter, ran, ?_⟩
  intro info caps
  have map : (ranMap ops).matches info caps = true ↔
      ∃ rule, Stored (ranMap ops).stored rule ∧ rule.matches info caps = true := by
    rw [MapFilter.matches_iff]
    constructor
    · rintro ⟨name, ruleset, rule, is, listed, accepts⟩
      exact ⟨rule, ⟨name, ruleset, is, listed⟩, accepts⟩
    · rintro ⟨rule, ⟨name, ruleset, is, listed⟩, accepts⟩
      exact ⟨name, ruleset, rule, is, listed, accepts⟩
  obtain ⟨verdict, matched, selects⟩ := tracks.matches_eq info caps
  refine ⟨tracks.matchFor_ok info caps, ⟨verdict, matched⟩, map, ?_⟩
  intro unambiguous
  have same : verdict = (ranMap ops).matches info caps := by
    rw [Bool.eq_iff_iff, selects, map]
    apply exists_congr
    intro rule
    apply and_congr_right
    exact unambiguous.selected_iff
  rw [matched, same]

/-- The one rule stored is as near as any. -/
theorem filter_agrees_with_map_ssh :
    ∃ filter, ranBart [.insert "base" [tcpFrom (net4 10 0 0 0 8) ⟨22, 22⟩]] = .ok filter ∧
      filter.matches (tcpPacket (ip4 10 1 0 1) 22) [] = .ok true := by
  have only : ∀ rule, Stored (ranMap
      [.insert "base" [tcpFrom (net4 10 0 0 0 8) ⟨22, 22⟩]]).stored rule →
      rule = tcpFrom (net4 10 0 0 0 8) ⟨22, 22⟩ := by
    rintro rule ⟨name, ruleset, is, listed⟩
    have entry := AList.mem_lookup_iff.mp is
    have same : name = "base" ∧ ruleset = [tcpFrom (net4 10 0 0 0 8) ⟨22, 22⟩] := by
      simpa [ranMap, StorageOp.onMap] using entry
    rw [same.2] at listed
    exact List.mem_singleton.mp listed
  obtain ⟨filter, ran, agrees⟩ :=
    filter_agrees_with_map [.insert "base" [tcpFrom (net4 10 0 0 0 8) ⟨22, 22⟩]]
  have unambiguous : Unambiguous (Stored (ranMap
      [.insert "base" [tcpFrom (net4 10 0 0 0 8) ⟨22, 22⟩]]).stored)
      (tcpPacket (ip4 10 1 0 1) 22) := by
    constructor
    · intro rule held _
      rw [only rule held]
      refine ⟨net4 10 0 0 0 8, List.mem_singleton_self _, rfl, ?_⟩
      intro other held' pfx listed _
      rw [only other held'] at listed
      rw [List.mem_singleton.mp listed]
    · intro rule held dst listed saturates
      rw [only rule held] at listed
      rw [List.mem_singleton.mp listed] at saturates
      exact absurd saturates (by decide)
  exact ⟨filter, ran, (agrees _ _).2.2.2 unambiguous⟩

/-- A packet from the narrow network is denied where the map accepts it, and one to the first
port is accepted where the map denies it. -/
theorem filter_disagrees_with_map :
    ((ranBart nestedSources >>= fun filter =>
        filter.matches (tcpPacket (ip4 10 1 0 1) 22) []) = .ok false ∧
      (ranMap nestedSources).matches (tcpPacket (ip4 10 1 0 1) 22) [] = true) ∧
    ((ranBart allButFirst >>= fun filter =>
        filter.matches (tcpPacket (ip4 10 1 0 1) 0) []) = .ok true ∧
      (ranMap allButFirst).matches (tcpPacket (ip4 10 1 0 1) 0) [] = false) :=
  ⟨⟨rfl, by decide⟩, rfl, by decide⟩

end TailscaleRs.Filter
