import TailscaleRs.Filter.Updater
import TailscaleRs.Lib.KeyedMap

namespace TailscaleRs.Filter

open List Option AList KeyedMap
open Net (IpAddr IpNet)
open Control (StateUpdate FilterUpdate)
open StorageOp (onMap)

inductive IpRange where
  | wildcard
  | net (pfx : IpNet)
  | range (start stop : IpAddr)
  deriving DecidableEq

inductive SrcIp where
  | ipRange (range : IpRange)
  | nodeCap (cap : String)
  deriving DecidableEq

structure DstPort where
  ip : IpRange
  ports : PortRange
  deriving DecidableEq

structure NetworkRule where
  srcIps : List SrcIp
  ipProto : List IpProto
  dstPorts : List DstPort
  deriving DecidableEq

/-- The capabilities granted towards some prefixes, each with its values. -/
structure AppGrant where
  dsts : List IpNet
  peerCaps : List (String × List String)
  deriving DecidableEq

structure AppRule where
  srcIps : List SrcIp
  capGrant : List AppGrant
  deriving DecidableEq

/-- A rule of a response: for packets, or for the capabilities of peers. -/
inductive FilterRule where
  | network (rule : NetworkRule)
  | application (rule : AppRule)
  deriving DecidableEq

/-- A grant that is retained, with its sources spelled out. -/
structure CapGrant where
  srcPfxs : List IpNet
  srcNodeCaps : List String
  dstPfxs : List IpNet
  caps : List (String × List String)
  deriving DecidableEq

/-- The fields of a response that bring rules; the rest of it is as it is handed on. -/
structure MapResponse where
  rest : StateUpdate
  packetFilter : Option (List FilterRule)
  packetFilters : KeyedMap String (Option (List FilterRule))

section Rules

-- the subnets that make up a range of addresses of one family, from the library of networks
variable (subnets : IpAddr → IpAddr → List IpNet)

def IpRange.iterPrefixes : IpRange → List IpNet
  | .wildcard => [⟨⟨.v4, replicate 4 0, rfl⟩, 0, Nat.zero_le _⟩,
      ⟨⟨.v6, replicate 16 0, rfl⟩, 0, Nat.zero_le _⟩]
  | .net pfx => [pfx]
  | .range start stop => if start.family = stop.family then subnets start stop else []

def srcPfxs (srcs : List SrcIp) : List IpNet :=
  srcs.flatMap fun
    | .ipRange range => range.iterPrefixes subnets
    | .nodeCap _ => []

def srcCaps (srcs : List SrcIp) : List String :=
  srcs.filterMap fun
    | .ipRange _ => none
    | .nodeCap cap => some cap

/-- None for a rule that is not for packets. -/
def ruleToPf : FilterRule → Option Rule
  | .application _ => none
  | .network rule =>
    some
      { src := ⟨srcPfxs subnets rule.srcIps, srcCaps rule.srcIps⟩
        protos := rule.ipProto
        dst := rule.dstPorts.map fun port => ⟨port.ports, port.ip.iterPrefixes subnets⟩ }

variable (rules : List FilterRule)

def rulesToPf : Ruleset := rules.filterMap (ruleToPf subnets)

def retainCapGrants : List CapGrant :=
  rules.flatMap fun
    | .network _ => []
    | .application rule =>
      rule.capGrant.map fun grant =>
        ⟨srcPfxs subnets rule.srcIps, srcCaps rule.srcIps, grant.dsts, grant.peerCaps⟩

variable (response : MapResponse)

def packetFilter : Option FilterUpdate :=
  if response.packetFilter.isNone ∧ response.packetFilters.entries.isEmpty then none
  else some
    ⟨response.packetFilter.map (rulesToPf subnets),
      response.packetFilters.mapVal fun rules => rules.map (rulesToPf subnets)⟩

def grantsOf (rules : Option (List FilterRule)) : List CapGrant :=
  (rules.map (retainCapGrants subnets)).getD []

/-- The grants of all rulesets of the response, if it brings any. -/
def capGrants : Option (List CapGrant) :=
  if response.packetFilter.isNone ∧ response.packetFilters.entries.isEmpty then none
  else some (grantsOf subnets response.packetFilter ++
    response.packetFilters.walk.flatMap fun name =>
      grantsOf subnets ((lookup name response.packetFilters).getD none))

end Rules

/-- A grant applies from one of its sources to one of its destinations. -/
def CapGrant.covers (grant : CapGrant) (src dst : IpAddr) (srcHoldsCap : String → Bool) : Bool :=
  (grant.srcPfxs.any (fun pfx => pfx.contains src) || grant.srcNodeCaps.any srcHoldsCap) &&
    grant.dstPfxs.any fun pfx => pfx.contains dst

def capsFor (grants : List CapGrant) (src dst : IpAddr) (srcHoldsCap : String → Bool) :
    String → Option (List String) :=
  grants.foldl
    (fun out grant =>
      if grant.covers src dst srcHoldsCap then
        grant.caps.foldl (fun out cap =>
          Function.update out cap.1 (some ((out cap.1).getD [] ++ cap.2))) out
      else out)
    fun _ => none

/-- The updater with the cell that the grants are published in. -/
structure GrantsUpdater where
  updater : PacketfilterUpdater
  grants : List CapGrant

namespace GrantsUpdater

def new : GrantsUpdater := ⟨PacketfilterUpdater.new, []⟩

/-- A response is decoded and handled; grants replace those of the last response with rules. -/
def handle (subnets : IpAddr → IpAddr → List IpNet) (env : Env) (updater : GrantsUpdater)
    (response : MapResponse) : GrantsUpdater where
  updater := updater.updater.handle env
    { response.rest with packetfilter := packetFilter subnets response }
  grants := (capGrants subnets response).getD updater.grants

end GrantsUpdater

/-- The rulesets in force: the one without a name and those with one, none of them replaced or
removed since. -/
structure InForce where
  legacy : Option (List FilterRule)
  named : KeyedMap String (List FilterRule)

namespace InForce

def none : InForce := ⟨.none, ∅⟩

variable (inForce : InForce)

/-- The rules in force under a name; those without a name have a default. -/
def rulesAt (name : String) : Option (List FilterRule) :=
  if name = defaultRulesetName then inForce.legacy.or (lookup name inForce.named)
  else lookup name inForce.named

variable (response : MapResponse)

def clears : Bool :=
  lookup clearMapKey response.packetFilters = some .none

/-- What is in force before the named rulesets of a response. -/
def begin : InForce :=
  if clears response then none
  else match response.packetFilter with
    | some rules => ⟨some rules, inForce.named.erase defaultRulesetName⟩
    | .none => inForce

/-- A response replaces and removes rulesets by their name. -/
def after : InForce where
  legacy :=
    if (lookup defaultRulesetName response.packetFilters).isSome then .none
    else (inForce.begin response).legacy
  named := (inForce.begin response).named.amend response.packetFilters.entries

/-- All of them in one response. -/
def oneResponse (rest : StateUpdate) : MapResponse :=
  ⟨rest, inForce.legacy, inForce.named.mapVal some⟩

section

variable (subnets : IpAddr → IpAddr → List IpNet) (inForce : InForce) (response : MapResponse)

/-- Where a response brings rules, it restates or removes every ruleset in force that grants
something, and neither clears nor replaces a ruleset of its own that does. -/
@[mk_iff] structure Restates : Prop where
  kept : clears response ∨ lookup defaultRulesetName response.packetFilters ≠ .none →
    grantsOf subnets response.packetFilter = []
  legacy : clears response ∨ response.packetFilter ≠ .none ∨
    lookup defaultRulesetName response.packetFilters ≠ .none ∨
    grantsOf subnets inForce.legacy = []
  named : ∀ name ∈ inForce.named.keys, clears response ∨
    lookup name response.packetFilters ≠ .none ∨
    (name = defaultRulesetName ∧ response.packetFilter ≠ .none) ∨
    grantsOf subnets (lookup name inForce.named) = []

instance restatesDecidable : Decidable (Restates subnets inForce response) :=
  decidable_of_iff _ (restates_iff subnets inForce response).symm

end

theorem lookup_named_after (name : String) :
    lookup name (inForce.after response).named =
      (lookup name response.packetFilters).getD (lookup name (inForce.begin response).named) :=
  lookup_amend _ _ response.packetFilters.nodupKeys name

variable {subnets : IpAddr → IpAddr → List IpNet} {inForce : InForce} {response : MapResponse}

def grants (subnets : IpAddr → IpAddr → List IpNet) (inForce : InForce) : List CapGrant :=
  grantsOf subnets inForce.legacy ++
    inForce.named.walk.flatMap fun name => grantsOf subnets (lookup name inForce.named)

theorem grantsOf_none : grantsOf subnets .none = [] := rfl

theorem lookup_ne_none_of_grants {map : KeyedMap String (List FilterRule)} {name : String}
    (grants : grantsOf subnets (lookup name map) ≠ []) : lookup name map ≠ .none := by
  intro absent
  rw [absent] at grants
  exact grants grantsOf_none

theorem capGrants_oneResponse (rest : StateUpdate) :
    (capGrants subnets (inForce.oneResponse rest)).getD [] = inForce.grants subnets := by
  have walked : (inForce.named.mapVal some).walk.flatMap (fun name =>
        grantsOf subnets ((lookup name (inForce.named.mapVal some)).getD .none)) =
      inForce.named.walk.flatMap fun name =>
        grantsOf subnets (lookup name inForce.named) := by
    apply flatMap_walk_congr
    · funext name
      rw [lookup_mapVal]
      cases lookup name inForce.named <;> rfl
    · intro name _
      rw [lookup_mapVal]
      cases lookup name inForce.named <;> simp
  rw [capGrants]
  split
  · rename_i empty
    have unnamed : inForce.named.entries = [] := by
      simpa [oneResponse, mapVal] using empty.2
    have legacy : inForce.legacy = .none := isNone_iff_eq_none.mp empty.1
    rw [grants, legacy, walk, AList.keys, unnamed]
    rfl
  · rw [getD_some, grants]
    rw [← walked]
    rfl

variable (restates : Restates subnets inForce response)
include restates

/-- The ruleset without a name that is in force after a response grants what the response's
does. -/
theorem Restates.legacy_after :
    grantsOf subnets (inForce.after response).legacy = grantsOf subnets response.packetFilter := by
  rw [after]
  split
  · rename_i replaced
    rw [restates.kept (.inr (isSome_iff_ne_none.mp replaced)), grantsOf_none]
  · rename_i kept
    rw [begin]
    split
    · rename_i cleared
      rw [restates.kept (.inl cleared)]
      exact grantsOf_none
    · rename_i uncleared
      split
      · rename_i rules carried
        rw [carried]
      · rename_i absent
        rw [absent, grantsOf_none]
        rcases restates.legacy with cleared | carried | replaced | nothing
        · exact absurd cleared uncleared
        · exact absurd absent carried
        · exact absurd (isSome_iff_ne_none.mpr replaced) kept
        · exact nothing

theorem Restates.begin_named {name : String}
    (unnamed : lookup name response.packetFilters = .none) :
    grantsOf subnets (lookup name (inForce.begin response).named) = [] := by
  have left (uncleared : ¬ clears response = true)
      (stays : name = defaultRulesetName → response.packetFilter = .none) :
      grantsOf subnets (lookup name inForce.named) = [] := by
    by_contra something
    have held : name ∈ inForce.named.keys :=
      mem_keys.mp (lookup_isSome.mp (isSome_iff_ne_none.mpr (lookup_ne_none_of_grants something)))
    rcases restates.named name held with cleared | restated | ⟨is, carried⟩ | nothing
    · exact uncleared cleared
    · exact restated unnamed
    · exact carried (stays is)
    · exact something nothing
  rw [begin]
  split
  · rfl
  · rename_i uncleared
    split
    · dsimp only
      by_cases is : name = defaultRulesetName
      · rw [is, lookup_erase]
        exact grantsOf_none
      · rw [lookup_erase_ne is]
        exact left uncleared fun same => absurd same is
    · rename_i absent
      exact left uncleared fun _ => absent

theorem Restates.named_after (name : String) :
    grantsOf subnets (lookup name (inForce.after response).named) =
      grantsOf subnets ((lookup name response.packetFilters).getD .none) := by
  rw [lookup_named_after]
  cases restated : lookup name response.packetFilters with
  | some rules => rfl
  | none =>
    rw [getD_none, restates.begin_named restated]
    rfl

/-- After a response that restates them, the rulesets in force grant what the response does. -/
theorem Restates.grants_after :
    (inForce.after response).grants subnets = grantsOf subnets response.packetFilter ++
      response.packetFilters.walk.flatMap fun name =>
        grantsOf subnets ((lookup name response.packetFilters).getD .none) := by
  rw [grants, restates.legacy_after]
  congr 1
  apply flatMap_walk_congr
  · exact funext restates.named_after
  · intro name something
    refine iff_of_true (lookup_ne_none_of_grants something) ?_
    rw [restates.named_after name] at something
    intro absent
    rw [absent] at something
    exact something grantsOf_none

omit restates

theorem after_of_quiet (legacy : response.packetFilter = .none)
    (named : response.packetFilters.entries = []) : inForce.after response = inForce := by
  have unnamed (name : String) : AList.lookup name response.packetFilters = .none := by
    rw [AList.lookup, named]
    rfl
  have begun : inForce.begin response = inForce := by
    rw [begin, clears, unnamed, if_neg (by decide), legacy]
  rw [after, begun, unnamed, named]
  rfl

end InForce

section Stored

theorem primary_foldl (ops : List StorageOp) (filter : CheckingFilter) :
    (ops.foldl CheckingFilter.call filter).primary = ops.foldl onMap filter.primary := by
  induction ops generalizing filter with
  | nil => rfl
  | cons op rest ih => rw [foldl_cons, foldl_cons, ih, CheckingFilter.primary_call]

variable (store : MapFilter)

theorem lookup_namedOp (entry : Σ _ : String, Option Ruleset) (name : String) :
    (lookup name ((namedOp entry).onMap store)).getD [] =
      if name = entry.1 then entry.2.getD [] else (lookup name store).getD [] := by
  obtain ⟨key, ruleset⟩ := entry
  unfold namedOp
  by_cases is : name = key
  · subst is
    cases ruleset with
    | none => simp [onMap]
    | some rules => cases rules <;> simp [onMap]
  · rw [if_neg is]
    cases ruleset with
    | none => simp [onMap, is]
    | some rules => cases rules <;> simp [onMap, is]

variable (entries : List (Σ _ : String, Option Ruleset))

theorem lookup_namedOps (distinct : entries.NodupKeys) (name : String) :
    (lookup name ((entries.map namedOp).foldl onMap store)).getD [] =
      ((entries.dlookup name).map fun ruleset => ruleset.getD []).getD
        ((lookup name store).getD []) := by
  induction entries generalizing store with
  | nil => rfl
  | cons entry rest ih =>
    obtain ⟨apart, distinct⟩ := nodupKeys_cons.mp distinct
    rw [map_cons, foldl_cons, ih _ distinct, lookup_namedOp]
    by_cases is : name = entry.1
    · subst is
      rw [if_pos rfl, dlookup_eq_none.mpr apart, dlookup_cons_eq]
      rfl
    · rw [if_neg is, dlookup_cons_ne _ _ is]

variable (update : FilterUpdate)

/-- What the filter holds under a name before the named rulesets of an update. -/
def storedBefore (name : String) : Ruleset :=
  if shouldClearStorage update.packetFilters then []
  else if name = defaultRulesetName then
    update.packetFilter.getD ((lookup name store).getD [])
  else (lookup name store).getD []

theorem dlookup_filter (distinct : entries.NodupKeys) (p : (Σ _ : String, Option Ruleset) → Bool)
    (name : String) :
    (entries.filter p).dlookup name =
      (entries.dlookup name).filter fun ruleset => p ⟨name, ruleset⟩ := by
  ext ruleset
  rw [← mem_def, mem_dlookup_iff (distinct.sublist filter_sublist),
    mem_filter, ← mem_dlookup_iff distinct, mem_def, filter_eq_some_iff]

theorem lookup_storageOps (name : String) :
    (lookup name ((storageOps update).foldl onMap store)).getD [] =
      ((lookup name update.packetFilters).map fun ruleset => ruleset.getD []).getD
        (storedBefore store update name) := by
  have distinct := update.packetFilters.nodupKeys
  rw [show storageOps update = _ ++ map namedOp _ from rfl, foldl_append,
    lookup_namedOps _ _ (distinct.sublist filter_sublist), dlookup_filter _ distinct]
  show _ = ((update.packetFilters.entries.dlookup name).map _).getD _
  have before : (lookup name (foldl onMap store
      (if shouldClearStorage update.packetFilters then [.clear]
        else (update.packetFilter.map (StorageOp.insert defaultRulesetName)).toList))).getD [] =
      storedBefore store update name := by
    rw [storedBefore]
    split
    · rfl
    · cases update.packetFilter with
      | none => simp
      | some rules =>
        by_cases is : name = defaultRulesetName
        · subst is
          simp [onMap]
        · simp [is, onMap]
  rw [before]
  cases named : update.packetFilters.entries.dlookup name with
  | none => rfl
  | some ruleset =>
    by_cases null : name = clearMapKey ∧ ruleset = none
    · -- the null under the clear key is left out, and nothing is stored under that name
      obtain ⟨rfl, rfl⟩ := null
      have cleared : shouldClearStorage update.packetFilters = true :=
        decide_eq_true named
      rw [storedBefore, if_pos cleared, filter_some]
      rfl
    · have passes : (!(decide (name = clearMapKey) && ruleset.isNone)) = true := by
        cases ruleset <;> simp_all
      rw [filter_some, passes]
      simp

theorem handle_pfState (env : Env) (updater : PacketfilterUpdater) (update : StateUpdate) :
    (updater.handle env update).pfState =
      match update.packetfilter with
      | some rules => applyUpdate updater.pfState rules
      | none => updater.pfState := by
  have assessed (other : PacketfilterUpdater) :
      other.reassessUnlockedNodes.1.pfState = other.pfState := by
    unfold PacketfilterUpdater.reassessUnlockedNodes
    split <;> rfl
  unfold PacketfilterUpdater.handle
  simp only
  split_ifs
  · rfl
  · exact assessed _
  · exact assessed _

end Stored

/-- The rules for packets of the rulesets in force are those that the filter holds. -/
def StoredIn (subnets : IpAddr → IpAddr → List IpNet) (inForce : InForce) (filter : MapFilter) :
    Prop :=
  ∀ name, (lookup name filter).getD [] = ((inForce.rulesAt name).map (rulesToPf subnets)).getD []

namespace InForce

variable {subnets : IpAddr → IpAddr → List IpNet} {inForce : InForce} {response : MapResponse}

theorem rulesAt_after (name : String) :
    (inForce.after response).rulesAt name =
      (lookup name response.packetFilters).getD ((inForce.begin response).rulesAt name) := by
  rw [rulesAt, lookup_named_after, rulesAt]
  by_cases is : name = defaultRulesetName
  · subst is
    rw [if_pos rfl, if_pos rfl, after]
    cases lookup defaultRulesetName response.packetFilters <;> simp
  · rw [if_neg is, if_neg is]

theorem storedBefore_eq {filter : MapFilter} (stored : StoredIn subnets inForce filter)
    (name : String) :
    storedBefore filter
        ⟨response.packetFilter.map (rulesToPf subnets),
          response.packetFilters.mapVal fun rules => rules.map (rulesToPf subnets)⟩ name =
      (((inForce.begin response).rulesAt name).map (rulesToPf subnets)).getD [] := by
  have clear : shouldClearStorage
      (response.packetFilters.mapVal fun rules => rules.map (rulesToPf subnets)) =
      clears response := by
    rw [shouldClearStorage, clears, lookup_mapVal]
    rcases lookup clearMapKey response.packetFilters with _ | _ | rules <;> simp
  rw [storedBefore, clear, begin, stored name]
  split
  · rw [none, rulesAt]
    split <;> rfl
  · cases response.packetFilter with
    | none =>
      split <;> rfl
    | some rules =>
      rw [rulesAt, rulesAt]
      by_cases is : name = defaultRulesetName
      · rw [if_pos is, if_pos is, if_pos is]
        rfl
      · rw [if_neg is, if_neg is, if_neg is, lookup_erase_ne is]

theorem stored_after {filter : CheckingFilter} (stored : StoredIn subnets inForce filter.primary)
    {update : FilterUpdate} (carried : packetFilter subnets response = some update) :
    StoredIn subnets (inForce.after response) (applyUpdate filter update).primary := by
  rw [packetFilter] at carried
  split at carried
  · cases carried
  · cases carried
    intro name
    rw [applyUpdate, primary_foldl, lookup_storageOps, storedBefore_eq stored, rulesAt_after,
      lookup_mapVal]
    rcases lookup name response.packetFilters with _ | _ | rules <;> rfl

end InForce

/-- The updater, and the rulesets that the responses have put in force. -/
structure Tracking where
  updater : GrantsUpdater
  inForce : InForce

namespace Tracking

variable (subnets : IpAddr → IpAddr → List IpNet) (env : Env)

def new : Tracking := ⟨GrantsUpdater.new, InForce.none⟩

def step (tracking : Tracking) (response : MapResponse) : Tracking :=
  ⟨tracking.updater.handle subnets env response, tracking.inForce.after response⟩

/-- The response brings no rules, or restates what is in force. -/
def Restates (tracking : Tracking) (response : MapResponse) : Prop :=
  (packetFilter subnets response).isSome → InForce.Restates subnets tracking.inForce response

instance restatesDecidable (tracking : Tracking) (response : MapResponse) :
    Decidable (tracking.Restates subnets response) :=
  inferInstanceAs (Decidable ((packetFilter subnets response).isSome → _))

/-- The grants published are those in force, and so are the rules of the filter. -/
structure Agrees (tracking : Tracking) : Prop where
  grants : tracking.updater.grants = tracking.inForce.grants subnets
  stored : StoredIn subnets tracking.inForce tracking.updater.updater.pfState.primary

variable {subnets env} {tracking : Tracking} {response : MapResponse}

theorem Agrees.step (agrees : Agrees subnets tracking)
    (restates : tracking.Restates subnets response) :
    Agrees subnets (tracking.step subnets env response) := by
  by_cases quiet : response.packetFilter.isNone ∧ response.packetFilters.entries.isEmpty
  · have same : tracking.inForce.after response = tracking.inForce :=
      InForce.after_of_quiet (isNone_iff_eq_none.mp quiet.1) (isEmpty_iff.mp quiet.2)
    constructor
    · show (capGrants subnets response).getD tracking.updater.grants = _
      rw [Tracking.step, same, capGrants, if_pos quiet]
      exact agrees.grants
    · rw [Tracking.step, same, GrantsUpdater.handle]
      rw [handle_pfState, packetFilter, if_pos quiet]
      exact agrees.stored
  · obtain ⟨update, carried⟩ : ∃ update, packetFilter subnets response = some update :=
      ⟨_, by rw [packetFilter, if_neg quiet]⟩
    constructor
    · show (capGrants subnets response).getD tracking.updater.grants = _
      have restates := restates (by rw [carried]; rfl)
      rw [Tracking.step, capGrants, if_neg quiet, getD_some, restates.grants_after]
    · rw [Tracking.step, GrantsUpdater.handle]
      rw [handle_pfState, carried]
      exact InForce.stored_after agrees.stored carried

theorem agrees_new : Agrees subnets new where
  grants := rfl
  stored := by
    intro name
    rw [new, InForce.none, InForce.rulesAt]
    split <;> rfl

/-- In every run in which each response with rules restates what grants something, the grants
published are those that one response with all rulesets in force would bring, `capsFor` answers
accordingly, and the filter holds the packet rules of just these rulesets. -/
theorem grants_track_rulesets (subnets : IpAddr → IpAddr → List IpNet) (env : Env)
    (responses : List MapResponse)
    (restated : Along (step subnets env) (Restates subnets) new responses) (rest : StateUpdate) :
    (run (step subnets env) new responses).updater.grants =
        (capGrants subnets
          ((run (step subnets env) new responses).inForce.oneResponse rest)).getD [] ∧
      (∀ src dst srcHoldsCap,
        capsFor (run (step subnets env) new responses).updater.grants src dst srcHoldsCap =
          capsFor ((capGrants subnets
            ((run (step subnets env) new responses).inForce.oneResponse rest)).getD [])
            src dst srcHoldsCap) ∧
      StoredIn subnets (run (step subnets env) new responses).inForce
        (run (step subnets env) new responses).updater.updater.pfState.primary := by
  have agrees : Agrees subnets (run (step subnets env) new responses) :=
    run_invariant (step subnets env) (Restates subnets) (Agrees subnets)
      (fun _ _ agrees restates => agrees.step restates) new responses agrees_new restated
  have grants := agrees.grants.trans (InForce.capGrants_oneResponse rest).symm
  refine ⟨grants, ?_, agrees.stored⟩
  intro src dst srcHoldsCap
  rw [← grants]

def toyGrant (cap : String) : List FilterRule :=
  [.application ⟨[.ipRange (.net Control.cgnat)], [⟨[Control.cgnat], [(cap, [])]⟩]⟩]

def toyResponse (packetFilter : Option (List FilterRule))
    (packetFilters : KeyedMap String (Option (List FilterRule))) : MapResponse :=
  ⟨⟨none, none, [], none, [], [], none⟩, packetFilter, packetFilters⟩

def toyNamed (name : String) (rules : Option (List FilterRule)) :
    KeyedMap String (Option (List FilterRule)) :=
  insert name rules ∅

/-- A named ruleset is replaced, and then all are cleared for another. -/
def toyReplaced : List MapResponse :=
  [toyResponse none (toyNamed "a" (some (toyGrant "x"))),
    toyResponse none (toyNamed "a" (some (toyGrant "y"))),
    toyResponse none (insert "b" (some (toyGrant "z")) (toyNamed clearMapKey none))]

/-- A second ruleset is named in a response of its own. -/
def toyAdded : List MapResponse :=
  [toyResponse none (toyNamed "a" (some (toyGrant "x"))), toyResponse none (toyNamed "b" (some []))]

/-- A ruleset without a name comes with the clear key. -/
def toyCleared : List MapResponse :=
  [toyResponse (some (toyGrant "x")) (toyNamed clearMapKey none)]

theorem grants_track_rulesets_toyReplaced :
    Along (step (fun _ _ => []) ⟨false, false⟩) (Restates fun _ _ => []) new toyReplaced ∧
      (run (step (fun _ _ => []) ⟨false, false⟩) new toyReplaced).updater.grants =
        (capGrants (fun _ _ => [])
          ((run (step (fun _ _ => []) ⟨false, false⟩) new toyReplaced).inForce.oneResponse
            (toyResponse none ∅).rest)).getD [] := by
  have restated : Along (step (fun _ _ => []) ⟨false, false⟩) (Restates fun _ _ => []) new
      toyReplaced := by
    decide +kernel
  generalize toyReplaced = responses at restated ⊢
  exact ⟨restated, (grants_track_rulesets _ _ responses restated (toyResponse none ∅).rest).1⟩

/-- The grant of the first ruleset is no longer published, although the ruleset is in force; and
one is published of a ruleset that never was. -/
theorem grants_of_last_response_only :
    ((run (step (fun _ _ => []) ⟨false, false⟩) new toyAdded).updater.grants = [] ∧
      (capGrants (fun _ _ => [])
        ((run (step (fun _ _ => []) ⟨false, false⟩) new toyAdded).inForce.oneResponse
          (toyResponse none ∅).rest)).getD [] ≠ []) ∧
    ((run (step (fun _ _ => []) ⟨false, false⟩) new toyCleared).updater.grants ≠ [] ∧
      (capGrants (fun _ _ => [])
        ((run (step (fun _ _ => []) ⟨false, false⟩) new toyCleared).inForce.oneResponse
          (toyResponse none ∅).rest)).getD [] = []) := by
  refine ⟨⟨?_, ?_⟩, ⟨?_, ?_⟩⟩ <;> decide +kernel

end Tracking

end TailscaleRs.Filter
