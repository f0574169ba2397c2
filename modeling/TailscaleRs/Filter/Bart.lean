import TailscaleRs.Filter.Rule
import TailscaleRs.Lib.InvertedIndex
import TailscaleRs.Lib.Slots

namespace TailscaleRs.Filter

open Function InvertedIndex
open Bart (Modifier Panic SplitStackTable)
open Net (IpAddr IpNet)

/-- A dynamically growing bitset is a set of naturals. -/
abbrev DynBitset : Type := Bitset

abbrev RuleId : Type := Nat

abbrev DstMatchId : Type := Nat

abbrev CapId : Type := Nat

section Tables

variable {β : Type}

def popFreelist (freelist : DynBitset) : Option (Nat × DynBitset) := Slots.pop freelist

variable (entries : List (Option β)) (id : Nat)

def readSlot : Except Panic (Option β) :=
  match entries[id]? with
  | none => .error .outOfBounds
  | some value => .ok value

def writeSlot (value : Option β) : Except Panic (List (Option β)) :=
  if id < entries.length then .ok (entries.set id value) else .error .outOfBounds

def entering : Modifier DynBitset where
  absent := .insert (Bitset.empty.set id)
  present := fun ids => (ids.set id, .noop)

def leaving : Modifier DynBitset where
  absent := .noop
  present := fun ids => (ids.clear id, if (ids.clear id).isEmpty then .remove else .noop)

def modifyRoutes (table : SplitStackTable DynBitset) (pfxs : List IpNet) (f : Modifier DynBitset) :
    Except Panic (SplitStackTable DynBitset) :=
  pfxs.foldlM (fun table pfx => do return (← table.modify pfx f).1) table

end Tables

structure CapLookup where
  ids : String → Option CapId
  capsToRules : List (Option DynBitset)
  freelist : DynBitset

namespace CapLookup

def empty : CapLookup := ⟨fun _ => none, [], Bitset.empty⟩

variable (caps : CapLookup) (capName : String)

/-- The id of a capability, given out anew if it has none. -/
def idFor : CapId × CapLookup :=
  match caps.ids capName with
  | some id => (id, caps)
  | none =>
    match popFreelist caps.freelist with
    | some (id, freelist) =>
      (id, { caps with ids := update caps.ids capName (some id), freelist := freelist })
    | none =>
      let id := caps.capsToRules.length
      (id, { caps with
        ids := update caps.ids capName (some id)
        capsToRules := caps.capsToRules ++ [none] })

def insert (ruleId : RuleId) :
    Except Panic (CapLookup × CapId) := do
  let (id, caps) := caps.idFor capName
  let rules ← readSlot caps.capsToRules id
  let capsToRules ← writeSlot caps.capsToRules id (some ((rules.getD Bitset.empty).set ruleId))
  return ({ caps with capsToRules := capsToRules }, id)

def compact : CapLookup :=
  let capsToRules := Slots.trim caps.capsToRules
  { caps with capsToRules := capsToRules, freelist := caps.freelist.zeroFrom capsToRules.length }

def remove (ruleId : RuleId) (capName : String) : CapLookup :=
  match caps.ids capName with
  | none => caps
  | some id =>
    let caps : CapLookup :=
      match caps.capsToRules[id]? with
      | some (some rules) =>
        let rules := rules.clear ruleId
        if rules.isEmpty then
          { ids := update caps.ids capName none
            capsToRules := caps.capsToRules.set id none
            freelist := caps.freelist.set id }
        else { caps with capsToRules := caps.capsToRules.set id (some rules) }
      | _ => caps
    caps.compact

def lookup (names : List String) : DynBitset :=
  let sets := (names.filterMap caps.ids).filterMap fun id => caps.capsToRules[id]?.join
  sets.foldl Bitset.union Bitset.empty

end CapLookup

/-- Resolves a packet's destination to the rules with a `DstMatch` for it. -/
structure DstMatchLookup where
  dsts : SplitStackTable DynBitset
  ports : PortTrie DynBitset
  dstmatchIds : DstMatch → Option DynBitset
  dstmatchIdToRuleId : List (Option RuleId)
  freelist : DynBitset

namespace DstMatchLookup

def empty : DstMatchLookup :=
  ⟨SplitStackTable.empty, PortTrie.empty, fun _ => none, [], Bitset.empty⟩

def findOwned (table : List (Option RuleId)) (rule : RuleId) :
    List DstMatchId → Except Panic (Option DstMatchId)
  | [] => .ok none
  | id :: rest => do
      if (← readSlot table id) = some rule then return some id else findOwned table rule rest

def lookupDstmatchId (lookup : DstMatchLookup) (rule : RuleId) (dst : DstMatch) :
    Except Panic (Option DstMatchId) :=
  match lookup.dstmatchIds dst with
  | none => .ok none
  | some ids => findOwned lookup.dstmatchIdToRuleId rule ids.members

def compact (lookup : DstMatchLookup) : DstMatchLookup :=
  let table := Slots.trim lookup.dstmatchIdToRuleId
  { lookup with
    dstmatchIdToRuleId := table
    freelist := lookup.freelist.zeroFrom table.length }

/-- The id of a rule's destination, given out anew if it has none. -/
def allocate (lookup : DstMatchLookup) (rule : RuleId) (dst : DstMatch) :
    Except Panic (DstMatchId × DstMatchLookup) := do
  match ← lookup.lookupDstmatchId rule dst with
  | some id => return (id, lookup)
  | none =>
    match popFreelist lookup.freelist with
    | some (free, freelist) => do
        let table ← writeSlot lookup.dstmatchIdToRuleId free (some rule)
        let ids := enter free (lookup.dstmatchIds dst)
        return (free, { lookup with
          dstmatchIds := update lookup.dstmatchIds dst ids
          dstmatchIdToRuleId := table
          freelist := freelist })
    | none =>
      let idx := lookup.dstmatchIdToRuleId.length
      let ids := enter idx (lookup.dstmatchIds dst)
      return (idx, { lookup with
        dstmatchIds := update lookup.dstmatchIds dst ids
        dstmatchIdToRuleId := lookup.dstmatchIdToRuleId ++ [some rule] })

def insert (lookup : DstMatchLookup) (rule : RuleId) (dst : DstMatch) :
    Except Panic DstMatchLookup := do
  let (id, lookup) ← lookup.allocate rule dst
  let dsts ← modifyRoutes lookup.dsts dst.ips (entering id)
  let ports := lookup.ports.modify dst.ports (entering id)
  return { lookup with dsts := dsts, ports := ports }.compact

/-- The debug assertion on the stored rule is checked always. -/
def remove (lookup : DstMatchLookup) (rule : RuleId) (dst : DstMatch) :
    Except Panic DstMatchLookup := do
  match ← lookup.lookupDstmatchId rule dst with
  | none => return lookup
  | some id => do
      let dsts ← modifyRoutes lookup.dsts dst.ips (leaving id)
      let ports := lookup.ports.modify dst.ports (leaving id)
      let entry ← Bart.unwrap (lookup.dstmatchIds dst)
      let ids := leave id (some entry)
      let stored ← readSlot lookup.dstmatchIdToRuleId id
      let table ← writeSlot lookup.dstmatchIdToRuleId id none
      if stored ≠ some rule then .error .assertion
      else
        let lookup : DstMatchLookup :=
          { dsts := dsts
            ports := ports
            dstmatchIds := update lookup.dstmatchIds dst ids
            dstmatchIdToRuleId := table
            freelist := lookup.freelist.set id }
        return lookup.compact

def portBitset (lookup : DstMatchLookup) (port : UInt16) : DynBitset :=
  (lookup.ports.lookup port).foldl Bitset.union Bitset.empty

def dstBitset (lookup : DstMatchLookup) (dst : IpAddr) : Except Panic DynBitset := do
  return (← lookup.dsts.lookupAll dst).foldl Bitset.union Bitset.empty

def resolveRuleIds (lookup : DstMatchLookup) (ids : DynBitset) : Except Panic DynBitset := do
  let rules ← ids.members.mapM (readSlot lookup.dstmatchIdToRuleId)
  return Bitset.ofList (rules.filterMap id)

def lookup (lookup : DstMatchLookup) (dst : IpAddr) (port : UInt16) : Except Panic DynBitset := do
  lookup.resolveRuleIds ((lookup.portBitset port).intersect (← lookup.dstBitset dst))

def lookupIpsOnly (lookup : DstMatchLookup) (dst : IpAddr) : Except Panic DynBitset := do
  lookup.resolveRuleIds (← lookup.dstBitset dst)

/-- The destinations that cover an address and both the first and the last port. -/
def lookupAllPortsIps (lookup : DstMatchLookup) (dst : IpAddr) : Except Panic DynBitset := do
  let allPorts := (lookup.portBitset 0).intersect (lookup.portBitset 65535)
  lookup.resolveRuleIds (allPorts.intersect (← lookup.dstBitset dst))

end DstMatchLookup

structure RulesetEntry where
  ruleset : Ruleset
  ruleIds : DynBitset

def RulesetEntry.rulesAndIds (entry : RulesetEntry) : List (RuleId × Rule) :=
  entry.ruleIds.members.zip entry.ruleset

/-- The filter that keeps each component of its rules in an index of its own. -/
structure BartFilter where
  caps : CapLookup
  srcs : SplitStackTable DynBitset
  dsts : DstMatchLookup
  ipProtos : IpProto → Option DynBitset
  rulesToRulesets : List (Option String)
  ruleFreelist : DynBitset
  rulesets : String → Option RulesetEntry

namespace BartFilter

def empty : BartFilter where
  caps := CapLookup.empty
  srcs := SplitStackTable.empty
  dsts := DstMatchLookup.empty
  ipProtos := fun _ => none
  rulesToRulesets := []
  ruleFreelist := Bitset.empty
  rulesets := fun _ => none

variable (filter : BartFilter)

def compact : BartFilter :=
  let table := Slots.trim filter.rulesToRulesets
  { filter with
    rulesToRulesets := table
    ruleFreelist := filter.ruleFreelist.zeroFrom table.length }

def addRule (ruleId : RuleId) (rule : Rule) : Except Panic BartFilter := do
  let ipProtos := rule.protos.foldl (fun protos proto =>
    update protos proto (enter ruleId (protos proto))) filter.ipProtos
  let caps ← rule.src.caps.foldlM (fun caps cap => do return (← caps.insert cap ruleId).1)
    filter.caps
  let srcs ← modifyRoutes filter.srcs rule.src.pfxs (entering ruleId)
  let dsts ← rule.dst.foldlM (fun dsts dst => dsts.insert ruleId dst) filter.dsts
  return { filter with ipProtos := ipProtos, caps := caps, srcs := srcs, dsts := dsts }

def dropRule (ruleId : RuleId) (rule : Rule) : Except Panic BartFilter := do
  let ipProtos := rule.protos.foldl (fun protos proto =>
    update protos proto (leave ruleId (protos proto))) filter.ipProtos
  let dsts ← rule.dst.foldlM (fun dsts dst => dsts.remove ruleId dst) filter.dsts
  let caps := rule.src.caps.foldl (fun caps cap => caps.remove ruleId cap) filter.caps
  let srcs ← modifyRoutes filter.srcs rule.src.pfxs (leaving ruleId)
  return { filter with ipProtos := ipProtos, caps := caps, srcs := srcs, dsts := dsts }

def allocate : RuleId × BartFilter :=
  match popFreelist filter.ruleFreelist with
  | some (idx, freelist) => (idx, { filter with ruleFreelist := freelist })
  | none =>
    (filter.rulesToRulesets.length,
      { filter with rulesToRulesets := filter.rulesToRulesets ++ [none] })

variable (name : String)

def insertRule (state : BartFilter × DynBitset) (rule : Rule) :
    Except Panic (BartFilter × DynBitset) := do
  let (filter, ruleIds) := state
  let (ruleId, filter) := filter.allocate
  let table ← writeSlot filter.rulesToRulesets ruleId (some name)
  let filter ← { filter with rulesToRulesets := table }.addRule ruleId rule
  return (filter, ruleIds.set ruleId)

def remove : Except Panic BartFilter := do
  match filter.rulesets name with
  | none => return filter
  | some entry => do
      let table ← entry.ruleIds.members.foldlM (fun table id => writeSlot table id none)
        filter.rulesToRulesets
      let filter := { filter with
        rulesets := update filter.rulesets name none
        ruleFreelist := filter.ruleFreelist.union entry.ruleIds
        rulesToRulesets := table }
      let filter ← entry.rulesAndIds.foldlM (fun filter item => filter.dropRule item.1 item.2)
        filter
      return filter.compact

/-- Insert a ruleset, in place of one of the same name. -/
def insert (ruleset : Ruleset) :
    Except Panic BartFilter := do
  let filter ← filter.remove name
  let (filter, ruleIds) ← ruleset.foldlM (insertRule name) (filter, Bitset.empty)
  let rulesets := update filter.rulesets name (some ⟨ruleset, ruleIds⟩)
  return { filter with rulesets := rulesets }.compact

def srcMatches (capMatches : DynBitset) : Option DynBitset → DynBitset
  | some ipMatches => capMatches.union ipMatches
  | none => capMatches

def protoMatches (matched : DynBitset) : Option DynBitset → DynBitset
  | some protoMatches => matched.intersect protoMatches
  | none => Bitset.empty

def lookup (info : PacketInfo) (caps : List String) :
    Except Panic DynBitset := do
  let srcMatches := srcMatches (filter.caps.lookup caps) (← filter.srcs.lookup info.src)
  if srcMatches.isEmpty then return srcMatches
  else
    let allMatches := protoMatches srcMatches (filter.ipProtos info.ipProto)
    if allMatches.isEmpty then return allMatches
    else do
      let dstMatches ←
        if info.ipProto.isPortFul then filter.dsts.lookup info.dst info.port
        else if info.ipProto = .icmp ∨ info.ipProto = .icmpv6 then
          filter.dsts.lookupIpsOnly info.dst
        else filter.dsts.lookupAllPortsIps info.dst
      return allMatches.intersect dstMatches

def matchFor (info : PacketInfo) (caps : List String) :
    Except Panic (Option String) := do
  match (← filter.lookup info caps).firstSet with
  | none => return none
  | some ruleId => return some (← Bart.unwrap (← readSlot filter.rulesToRulesets ruleId))

end BartFilter

def BartFilter.matches (filter : BartFilter) (info : PacketInfo) (caps : List String) :
    Except Panic Bool := do
  return !(← filter.lookup info caps).isEmpty

def StorageOp.onBart (filter : BartFilter) : StorageOp → Except Panic BartFilter
  | .insert name ruleset => filter.insert name ruleset
  | .remove name => filter.remove name
  | .clear => .ok BartFilter.empty

end TailscaleRs.Filter
