import TailscaleRs.Bart.Routes
import TailscaleRs.Bart.Lookup

namespace TailscaleRs.Bart

open Option
open Net (Family IpAddr IpNet)
open SplitStackTable (onStackTable)

variable {α : Type}

section Reading

variable {family : Family} {routes : Routes α} {addr : IpAddr}

/-- The prefix of so many bits that contains an address. -/
def prefixAt (addr : IpAddr) (len : Nat) : IpNet :=
  IpNet.trunc ⟨addr, min len (8 * addr.family.size), Nat.min_le_right _ _⟩

theorem prefixAt_contains (len : Nat) : (prefixAt addr len).contains addr = true := by
  rw [contains_iff, prefixAt, key_trunc]
  exact ⟨rfl, rfl⟩

variable {len : Nat} {net : IpNet} {eligible' : IpNet → Prop} {table : SimpleTable α}

theorem prefixLen_prefixAt (bounded : len ≤ 8 * addr.family.size) :
    (prefixAt addr len).prefixLen = len := Nat.min_eq_left bounded

theorem key_prefixAt (bounded : len ≤ 8 * addr.family.size) :
    key (prefixAt addr len) = keyAt addr.octets len := by
  rw [prefixAt, key_trunc]
  exact congrArg (keyAt addr.octets) (Nat.min_eq_left bounded)

theorem entries_keyAt (same : addr.family = family) (bounded : len ≤ 8 * addr.family.size) :
    entries family routes (keyAt addr.octets len) = routes (prefixAt addr len) := by
  have proper : (labels family).Proper (prefixAt addr len) := ⟨same, IpNet.truncated_trunc _⟩
  rw [← key_prefixAt bounded, entries_key proper]

theorem eq_prefixAt (truncated : net.Truncated) (covers : net.contains addr = true) :
    net = prefixAt addr net.prefixLen := by
  obtain ⟨same, held⟩ := (contains_iff net).mp covers
  have bounded : net.prefixLen ≤ 8 * addr.family.size := by rw [same]; exact net.bounded
  apply net_eq_of_key_eq same.symm truncated (IpNet.truncated_trunc _)
  rw [← held]
  exact (key_prefixAt bounded).symm

theorem covering_descending {longest : Nat} (same : addr.family = family)
    (truncated : ∀ net, routes net ≠ none → net.Truncated)
    (bounded : longest ≤ 8 * addr.family.size) :
    Descending routes (fun net => net.prefixLen ≤ longest ∧ net.contains addr = true)
      (covering (entries family routes) addr.octets 0 longest) := by
  refine ⟨(downTo 0 longest).filterMap fun len =>
    (routes (prefixAt addr len)).map fun value => (prefixAt addr len, value), ?_, ?_, ?_⟩
  · rw [covering, List.map_filterMap]
    apply List.filterMap_congr
    intro len member
    have range := mem_downTo.mp member
    rw [entries_keyAt same (by omega), map_map]
    exact map_id'.symm
  · intro net value
    simp only [List.mem_filterMap, mem_downTo, map_eq_some_iff, Prod.mk.injEq]
    constructor
    · rintro ⟨len, range, found, held, rfl, rfl⟩
      rw [prefixLen_prefixAt (by omega)]
      exact ⟨⟨range.2, prefixAt_contains len⟩, held⟩
    · rintro ⟨⟨short, covers⟩, held⟩
      have is := eq_prefixAt (truncated net (by rw [held]; simp)) covers
      exact ⟨net.prefixLen, ⟨Nat.zero_le _, short⟩, value, by rw [← is, held], is.symm, rfl⟩
  · rw [List.pairwise_filterMap]
    have lower : (downTo 0 longest).Pairwise fun first second => second < first := by
      rw [downTo, List.pairwise_reverse]
      exact List.pairwise_lt_range'
    apply lower.imp_of_mem
    intro first second member member' shorter
    have range := mem_downTo.mp member
    simp only [map_eq_some_iff]
    rintro _ ⟨_, _, rfl⟩ _ ⟨_, _, rfl⟩
    rw [prefixLen_prefixAt (by omega), prefixLen_prefixAt (by omega)]
    exact shorter

variable {eligible : IpNet → Prop} {found : List α}

theorem Descending.head (descending : Descending routes eligible found) :
    Longest routes eligible found.head? := by
  obtain ⟨nets, rfl, lists, sorted⟩ := descending
  cases nets with
  | nil =>
    intro net included
    rw [eq_none_iff_forall_ne_some]
    intro value held
    cases (lists net value).mpr ⟨included, held⟩
  | cons best rest =>
    have is := (lists best.1 best.2).mp List.mem_cons_self
    refine ⟨best.1, is.1, is.2, ?_⟩
    intro other included held
    obtain ⟨value, held⟩ := ne_none_iff_exists'.mp held
    rcases List.mem_cons.mp ((lists other value).mpr ⟨included, held⟩) with rfl | later
    · exact Nat.le_refl _
    · exact Nat.le_of_lt ((List.pairwise_cons.mp sorted).1 _ later)

theorem Descending.isEmpty (descending : Descending routes eligible found) :
    (!found.isEmpty) = true ↔ ∃ net, eligible net ∧ routes net ≠ none := by
  obtain ⟨nets, rfl, lists, _⟩ := descending
  constructor
  · intro some
    cases nets with
    | nil => cases some
    | cons best rest =>
      have is := (lists best.1 best.2).mp List.mem_cons_self
      exact ⟨best.1, is.1, by rw [is.2]; simp⟩
  · rintro ⟨net, included, held⟩
    obtain ⟨value, held⟩ := ne_none_iff_exists'.mp held
    have member := (lists net value).mpr ⟨included, held⟩
    cases nets with
    | nil => cases member
    | cons best rest => rfl

theorem Descending.congr (descending : Descending routes eligible found)
    (same : ∀ net, eligible net ↔ eligible' net) : Descending routes eligible' found := by
  rwa [show eligible' = eligible from funext fun net => propext (same net).symm]

theorem Longest.congr {found : Option α} (longest : Longest routes eligible found)
    (same : ∀ net, eligible net ↔ eligible' net) : Longest routes eligible' found := by
  rwa [show eligible' = eligible from funext fun net => propext (same net).symm]

theorem Holds.descending (holds : Holds family routes table)
    (truncated : ∀ net, routes net ≠ none → net.Truncated) (same : addr.family = family) :
    Descending routes (fun net => net.contains addr = true)
      (covering (entries family routes) addr.octets 0 (8 * family.size)) := by
  subst same
  apply (covering_descending rfl truncated (Nat.le_refl _)).congr
  intro net
  apply and_iff_right_of_imp
  intro covers
  rw [((contains_iff net).mp covers).1]
  exact net.bounded

theorem contains_trunc {net other : IpNet} (short : other.prefixLen ≤ net.prefixLen) :
    other.contains net.trunc.addr = other.contains net.addr := by
  have same : net.trunc.addr.truncate other.prefixLen = net.addr.truncate other.prefixLen :=
    IpAddr.ext rfl (Net.truncate_truncate _ _ short _)
  rw [IpNet.contains, IpNet.contains, same]

/-- The longest route that covers a prefix and its value, if there is one. -/
def LongestRoute (routes : Routes α) (net : IpNet) : Option (IpNet × α) → Prop
  | none => ∀ other, Covers other net → routes other = none
  | some (best, value) => Covers best net ∧ routes best = some value ∧
      ∀ other, Covers other net → routes other ≠ none → other.prefixLen ≤ best.prefixLen

theorem LongestRoute.value {best : Option (IpNet × α)} (longest : LongestRoute routes net best) :
    Longest routes (fun other => Covers other net) (best.map Prod.snd) := by
  cases best with
  | none => exact longest
  | some best => exact ⟨best.1, longest⟩

theorem entries_placed :
    entries family (fun net => (routes net).map fun value => (key net, value)) =
      placed (entries family routes) := by
  funext place
  by_cases held : ∃ net, (labels family).Proper net ∧ key net = place
  · obtain ⟨net, proper, rfl⟩ := held
    rw [entries_key proper, placed, entries_key proper]
  · rw [entries_none held, placed, entries_none held]
    rfl

/-- What `lookup_prefix_lpm` reports is the longest route, up to the host bits of its prefix. -/
theorem Holds.lookupPrefixLpm (holds : Holds family routes table)
    (truncated : ∀ net, routes net ≠ none → net.Truncated) (same : net.addr.family = family) :
    ∃ result, table.lookupPrefixLpm net = .ok result ∧
      LongestRoute routes net (result.map (Prod.map IpNet.trunc id)) := by
  obtain ⟨result, ran, found⟩ := lookupPrefixLpm_eq same holds.canonical
  refine ⟨result, ran, ?_⟩
  have family' : net.trunc.addr.family = family := same
  have bounded : net.prefixLen ≤ 8 * net.trunc.addr.family.size := net.bounded
  have covers (other : IpNet) : (other.prefixLen ≤ net.prefixLen ∧
      other.contains net.trunc.addr = true) ↔ Covers other net :=
    and_congr_right fun short => by rw [contains_trunc short]
  rw [← entries_placed] at found
  have truncated' (other : IpNet)
      (held : (routes other).map (fun value => (key other, value)) ≠ none) : other.Truncated :=
    truncated other (by simpa using held)
  have longest := (covering_descending family' truncated' bounded).head.congr covers
  rw [← found] at longest
  cases result with
  | none => exact fun other eligible => map_eq_none_iff.mp (longest other eligible)
  | some result =>
    obtain ⟨best, eligible, held, longer⟩ := longest
    obtain ⟨value, held, is⟩ := map_eq_some_iff.mp held
    have family : best.addr.family = result.1.trunc.addr.family :=
      ((contains_iff _).mp eligible.2).1.symm.trans (lookupPrefixLpm_leaf ran).1.symm
    have place : best = result.1.trunc := by
      apply net_eq_of_key_eq family (truncated best (by simp [held])) result.1.truncated_trunc
      rw [key_trunc]
      exact congrArg Prod.fst is
    refine ⟨place ▸ eligible, ?_, fun other covered stored => ?_⟩
    · rw [← place, held]
      exact congrArg (some ∘ Prod.snd) is
    · rw [← place]
      exact longer other covered (by simpa using stored)

theorem Holds.lookupPrefix (holds : Holds family routes table)
    (truncated : ∀ net, routes net ≠ none → net.Truncated) (same : net.addr.family = family) :
    ∃ found, table.lookupPrefix net = .ok found ∧
      Longest routes (fun other => Covers other net) found := by
  obtain ⟨result, ran, longest⟩ := holds.lookupPrefixLpm truncated same
  refine ⟨result.map Prod.snd, by rw [SimpleTable.lookupPrefix, ran]; rfl, ?_⟩
  have value := longest.value
  rwa [map_map] at value

end Reading

section Tables

variable {routes : Routes α} {table : SplitStackTable α}

/-- A table holds the routes of both families. -/
structure TableHolds (routes : Routes α) (table : SplitStackTable α) : Prop where
  v4 : Holds .v4 routes table.table4
  v6 : Holds .v6 routes table.table6
  truncated : ∀ net, routes net ≠ none → net.Truncated

theorem tableHolds_empty : TableHolds (fun _ => none : Routes α) SplitStackTable.empty :=
  ⟨holds_empty, holds_empty, fun _ held => absurd rfl held⟩

theorem TableHolds.stackTable (holds : TableHolds routes table) (addr : IpAddr) :
    Holds addr.family routes (table.stackTable addr.isIpv4) := by
  cases family : addr.family with
  | v4 => simpa [SplitStackTable.stackTable, IpAddr.isIpv4, family] using holds.v4
  | v6 => simpa [SplitStackTable.stackTable, IpAddr.isIpv4, family] using holds.v6

theorem Edit.truncated_onRoutes (edit : Edit α)
    (truncated : ∀ net, routes net ≠ none → net.Truncated) :
    ∀ net, (edit.onRoutes routes).1 net ≠ none → net.Truncated := by
  intro net held
  by_cases is : net = edit.net.trunc
  · rw [is]
    exact edit.net.truncated_trunc
  · apply truncated net
    rwa [edit.onRoutes_fst, Function.update_of_ne is] at held

theorem Call.onTable_edit (edit : Edit α) :
    (Call.edit edit).onTable table = table.onStackTable edit.net.addr.isIpv4 edit.onSimple := by
  cases edit <;> rfl

theorem Call.onTable_holds (call : Call α) (holds : TableHolds routes table) :
    ∃ after, call.onTable table = .ok (after, (call.onRoutes routes).2) ∧
      TableHolds (call.onRoutes routes).1 after := by
  cases call with
  | clear => exact ⟨_, rfl, tableHolds_empty⟩
  | edit edit =>
    have truncated := edit.truncated_onRoutes holds.truncated
    obtain ⟨after, ran, kept⟩ := edit.onSimple_holds rfl (holds.stackTable edit.net.addr)
    rw [Call.onTable_edit, onStackTable, ran, ok_bind]
    cases family : edit.net.addr.family with
    | v4 =>
      rw [family] at kept
      refine ⟨{ table with table4 := after }, ?_, kept, holds.v6.other ?_, truncated⟩
      · simp [IpAddr.isIpv4, family]
        rfl
      · rw [family]
        decide
    | v6 =>
      rw [family] at kept
      refine ⟨{ table with table6 := after }, ?_, holds.v4.other ?_, kept, truncated⟩
      · simp [IpAddr.isIpv4, family]
        rfl
      · rw [family]
        decide

variable (calls : List (Call α))

theorem called_holds (holds : TableHolds routes table) :
    ∃ after, called table calls = .ok (after, (calledRoutes routes calls).2) ∧
      TableHolds (calledRoutes routes calls).1 after := by
  induction calls generalizing table routes with
  | nil => exact ⟨table, rfl, holds⟩
  | cons call rest ih =>
    obtain ⟨mid, ran, kept⟩ := call.onTable_holds holds
    obtain ⟨after, ran', kept'⟩ := ih kept
    refine ⟨after, ?_, kept'⟩
    rw [called, ran, ok_bind]
    dsimp only
    rw [ran']
    rfl

theorem TableHolds.represents (holds : TableHolds routes table) : Represents table routes where
  size4 := holds.v4.counts
  size6 := holds.v6.counts
  lookupPrefixExact := by
    intro net truncated
    have stack := holds.stackTable net.addr
    have proper : (labels net.addr.family).Proper net := ⟨rfl, truncated⟩
    have held : entries net.addr.family routes (key net) = routes net := entries_key proper
    have ran := lookupPrefixExact_eq rfl (Nat.zero_add _) List.nil_prefix stack.canonical
    rwa [if_neg (fun both => both.1 truncated), held] at ran
  lookup := by
    intro ip
    have stack := holds.stackTable ip
    exact ⟨_, lookupAddress_eq rfl stack.canonical, (stack.descending holds.truncated rfl).head⟩
  lookupAll := by
    intro ip
    have stack := holds.stackTable ip
    exact ⟨_, lookupAddressAll_eq rfl stack.canonical, stack.descending holds.truncated rfl⟩
  contains := by
    intro ip
    have stack := holds.stackTable ip
    rw [← (stack.descending holds.truncated rfl).isEmpty]
    apply Eq.congr_left
    exact contains_eq rfl (Nat.zero_add _) stack.canonical
  lookupPrefix := fun net => (holds.stackTable net.addr).lookupPrefix holds.truncated rfl

/-- Every sequence of calls runs through and returns what the map from prefixes to values says,
and the table it ends with reads as that map. -/
theorem table_refines_routes :
    ∃ table, called SplitStackTable.empty calls =
        .ok (table, (calledRoutes (fun _ => none) calls).2) ∧
      Represents table (calledRoutes (fun _ => none) calls).1 := by
  obtain ⟨table, ran, holds⟩ := called_holds calls tableHolds_empty
  exact ⟨table, ran, holds.represents⟩

end Tables

open Net (IpAddr IpNet)

/-- A routing table that calls have built, with the routes it holds. -/
structure BuiltTable (α : Type) where
  table : SplitStackTable α
  routes : Routes α
  holds : TableHolds routes table

namespace BuiltTable

variable {α : Type}

def empty : BuiltTable α := ⟨SplitStackTable.empty, fun _ => none, tableHolds_empty⟩

variable (built : BuiltTable α) (ip : IpAddr)

def lookup : Option α :=
  match built.table.lookup ip with
  | .ok found => found
  | .error _ => none

theorem lookup_longest :
    built.table.lookup ip = .ok (built.lookup ip) ∧
      Longest built.routes (fun net => net.contains ip = true) (built.lookup ip) := by
  obtain ⟨found, ran, longest⟩ := built.holds.represents.lookup ip
  rw [lookup, ran]
  exact ⟨rfl, longest⟩

theorem route_eq {first second : IpNet} {ip : IpAddr} (held : built.routes first ≠ none)
    (held' : built.routes second ≠ none) (inFirst : first.contains ip = true)
    (inSecond : second.contains ip = true) (length : first.prefixLen = second.prefixLen) :
    first = second := by
  have truncated : first.trunc = first := built.holds.truncated first held
  have truncated' : second.trunc = second := built.holds.truncated second held'
  rw [IpNet.contains, decide_eq_true_iff] at inFirst inSecond
  rw [← truncated, ← truncated']
  apply IpNet.ext
  · show first.addr.truncate first.prefixLen = second.addr.truncate second.prefixLen
    rw [← inFirst, ← inSecond, length]
  · exact length

theorem lookup_eq_some_iff (value : α) :
    built.lookup ip = some value ↔
      ∃ net, net.contains ip = true ∧ built.routes net = some value ∧
        ∀ other, other.contains ip = true → built.routes other ≠ none →
          other.prefixLen ≤ net.prefixLen := by
  have longest := (built.lookup_longest ip).2
  constructor
  · intro found
    rw [found] at longest
    exact longest
  · rintro ⟨net, inside, held, longer⟩
    cases found : built.lookup ip with
    | none =>
      rw [found] at longest
      rw [longest net inside] at held
      cases held
    | some other =>
      rw [found] at longest
      obtain ⟨net', inside', held', longer'⟩ := longest
      have stored : built.routes net ≠ none := by simp [held]
      have stored' : built.routes net' ≠ none := by simp [held']
      have same : net' = net := built.route_eq stored' stored inside' inside
        (Nat.le_antisymm (longer net' inside' stored') (longer' net inside stored))
      rw [same, held] at held'
      exact held'.symm

theorem lookup_map {β : Type} (other : BuiltTable β) {f : α → β} (injective : Function.Injective f)
    (related : ∀ net, other.routes net = (built.routes net).map f) (ip : IpAddr) (value : α) :
    other.lookup ip = some (f value) ↔ built.lookup ip = some value := by
  rw [lookup_eq_some_iff, lookup_eq_some_iff]
  simp only [related, ne_eq, Option.map_eq_none_iff, Option.map_eq_some_iff]
  simp only [injective.eq_iff, exists_eq_right]

theorem edit_holds (edit : Edit α) {after : SplitStackTable α × Option α}
    (ran : (Call.edit edit).onTable built.table = .ok after) :
    TableHolds (edit.onRoutes built.routes).1 after.1 := by
  obtain ⟨table, is, kept⟩ := (Call.edit edit).onTable_holds built.holds
  rw [is] at ran
  cases ran
  exact kept

def edit (built : BuiltTable α) (edit : Edit α) : BuiltTable α :=
  match ran : (Call.edit edit).onTable built.table with
  | .ok after => ⟨after.1, (edit.onRoutes built.routes).1, built.edit_holds edit ran⟩
  | .error _ => built

theorem edit_routes {edit : Edit α} :
    (built.edit edit).routes = (edit.onRoutes built.routes).1 := by
  unfold BuiltTable.edit
  split
  · rfl
  · rename_i failed
    obtain ⟨table, is, _⟩ := (Call.edit edit).onTable_holds built.holds
    rw [is] at failed
    cases failed

variable (net : IpNet)

def insert (value : α) : BuiltTable α :=
  built.edit (.insert net value)

@[simp] theorem insert_routes (value : α) :
    (built.insert net value).routes = Function.update built.routes net.trunc (some value) :=
  built.edit_routes

def remove : BuiltTable α := built.edit (.remove net)

@[simp] theorem remove_routes :
    (built.remove net).routes = Function.update built.routes net.trunc none :=
  built.edit_routes

def modify (f : Modifier α) : BuiltTable α :=
  built.edit (.modify net f)

@[simp] theorem modify_routes (f : Modifier α) :
    (built.modify net f).routes =
      Function.update built.routes net.trunc (f.effect (built.routes net.trunc)).1 :=
  built.edit_routes

def lookupPrefix : Option α :=
  match built.table.lookupPrefix net with
  | .ok found => found
  | .error _ => none

theorem lookupPrefix_longest :
    built.table.lookupPrefix net = .ok (built.lookupPrefix net) ∧
      Longest built.routes (fun other => Covers other net) (built.lookupPrefix net) := by
  obtain ⟨found, ran, longest⟩ := built.holds.represents.lookupPrefix net
  rw [lookupPrefix, ran]
  exact ⟨rfl, longest⟩

end BuiltTable

variable {α : Type}

section Normalisation

/-- Every operation does to a prefix what it does to the prefix without its host bits. -/
structure Normalises (table : SplitStackTable α) (net : IpNet) : Prop where
  insert : ∀ value, table.insert net value = table.insert net.trunc value
  remove : table.remove net = table.remove net.trunc
  modify : ∀ f, table.modify net f = table.modify net.trunc f
  lookupPrefixExact : table.lookupPrefixExact net = table.lookupPrefixExact net.trunc
  lookupPrefix : table.lookupPrefix net = table.lookupPrefix net.trunc
  lookupPrefixLpm : table.lookupPrefixLpm net = table.lookupPrefixLpm net.trunc

variable (table : SplitStackTable α)

theorem lookupPrefixLpm_trunc (net : IpNet) :
    table.lookupPrefixLpm net = table.lookupPrefixLpm net.trunc := by
  have again : net.trunc.trunc = net.trunc := net.truncated_trunc
  show Bart.lookupPrefixLpm _ net = Bart.lookupPrefixLpm _ net.trunc
  rw [Bart.lookupPrefixLpm, Bart.lookupPrefixLpm, again]
  rfl

/-- All operations but `lookup_prefix_exact` truncate the prefix they are given. -/
theorem normalises_iff_exact (net : IpNet) :
    Normalises table net ↔ table.lookupPrefixExact net = table.lookupPrefixExact net.trunc := by
  refine ⟨fun all => all.lookupPrefixExact, fun exact => ?_⟩
  have again : net.trunc.trunc = net.trunc := net.truncated_trunc
  constructor
  · intro value
    show onStackTable _ _ _ = onStackTable _ _ _
    simp only [SimpleTable.insert, again]
    rfl
  · show onStackTable _ _ _ = onStackTable _ _ _
    simp only [SimpleTable.remove, Bart.remove, again]
    rfl
  · intro f
    show onStackTable _ _ _ = onStackTable _ _ _
    simp only [SimpleTable.modify, Bart.modify, again]
    rfl
  · exact exact
  · have lpm := lookupPrefixLpm_trunc table net
    show (do return (← table.lookupPrefixLpm net).map Prod.snd) =
      (do return (← table.lookupPrefixLpm net.trunc).map Prod.snd)
    rw [lpm]
  · exact lookupPrefixLpm_trunc table net

/-- In every table that calls have built, the operations disregard the host bits of a prefix,
unless it is that of a route kept in a leaf. -/
theorem normalises_iff (calls : List (Call α)) (net : IpNet) :
    ∃ table rets, called SplitStackTable.empty calls = .ok (table, rets) ∧
      (Normalises table net ↔ net.Truncated ∨
        (calledRoutes (fun _ => none) calls).1 net.trunc = none ∨
        leafAlong (key net).1 (table.stackTable net.addr.isIpv4).root ≠ some net.trunc) := by
  obtain ⟨table, ran, holds⟩ := called_holds calls tableHolds_empty
  refine ⟨table, _, ran, ?_⟩
  have proper : (labels net.addr.family).Proper net.trunc := ⟨rfl, net.truncated_trunc⟩
  have plain := holds.represents.lookupPrefixExact net.trunc net.truncated_trunc
  have found : table.lookupPrefixExact net = _ := lookupPrefixExact_eq rfl (Nat.zero_add _)
    List.nil_prefix (holds.stackTable net.addr).canonical
  rw [← key_trunc, entries_key proper, key_trunc, List.drop_zero] at found
  rw [normalises_iff_exact, plain, found, Except.ok.injEq]
  grind

/-- A leaf is not found under its prefix with host bits. -/
theorem host_bits_miss_leaf :
    let route : IpNet := ⟨⟨.v4, [10, 1, 0, 0], rfl⟩, 16, by decide⟩
    let query : IpNet := ⟨⟨.v4, [10, 1, 2, 3], rfl⟩, 16, by decide⟩
    ∃ table, SplitStackTable.empty.insert route 1 = .ok (table, none) ∧ query.trunc = route ∧
      table.lookupPrefixExact route = .ok (some 1) ∧ table.lookupPrefixExact query = .ok none :=
  ⟨_, rfl, by decide, rfl, rfl⟩

end Normalisation

/-- In every table that calls have built, `lookup_prefix_lpm` finds the longest route that covers
the query. The prefix it reports with the value is the stored one exactly if that is a leaf's or
has the address of the query. -/
theorem lookupPrefixLpm_reports_iff (calls : List (Call α)) (net : IpNet) :
    ∃ table rets best, called SplitStackTable.empty calls = .ok (table, rets) ∧
      LongestRoute (calledRoutes (fun _ => none) calls).1 net best ∧
      match best with
      | none => table.lookupPrefixLpm net = .ok none
      | some (best, value) => ∃ found, table.lookupPrefixLpm net = .ok (some (found, value)) ∧
          found.trunc = best ∧
          ((found = best ∧ table.lookupPrefixExact found = .ok (some value)) ↔
            best.addr = net.trunc.addr ∨
              leafAlong (net.trunc.addr.octets.take (strideCount net + 1))
                (table.stackTable net.addr.isIpv4).root = some best) := by
  obtain ⟨table, ran, holds⟩ := called_holds calls tableHolds_empty
  obtain ⟨result, reported, longest⟩ :=
    (holds.stackTable net.addr).lookupPrefixLpm holds.truncated rfl
  refine ⟨table, _, _, ran, longest, ?_⟩
  cases result with
  | none => exact reported
  | some result =>
    obtain ⟨found, value⟩ := result
    obtain ⟨-, from_leaf, reaches⟩ := lookupPrefixLpm_leaf reported
    obtain ⟨⟨short, covers⟩, held, -⟩ := longest
    refine ⟨found, reported, rfl, ?_⟩
    constructor
    · rintro ⟨same, -⟩
      rcases from_leaf with addr | leaf
      · exact .inl (by rw [← same, addr])
      · exact .inr (by rw [leaf, ← same])
    · intro kept
      have truncated : found.Truncated := by
        rcases kept with addr | leaf
        · rcases from_leaf with addr' | leaf
          · exact IpNet.ext (addr.trans addr'.symm) rfl
          · exact (leafAlong_proper (holds.stackTable net.addr).canonical leaf).2
        · exact (reaches _ leaf short (by rw [contains_trunc short, covers])).symm
      have same : found.trunc = found := truncated
      rw [same] at held ⊢
      exact ⟨rfl, (holds.represents.lookupPrefixExact found truncated).trans (congrArg _ held)⟩

/-- The prefix reported for a fringe has the host bits of the query. -/
theorem lpm_reports_query :
    let route : IpNet := ⟨⟨.v4, [10, 0, 0, 0], rfl⟩, 8, by decide⟩
    let query : IpNet := ⟨⟨.v4, [10, 1, 2, 3], rfl⟩, 32, by decide⟩
    ∃ table, SplitStackTable.empty.insert route 1 = .ok (table, none) ∧
      table.lookupPrefixLpm query = .ok (some (⟨⟨.v4, [10, 1, 2, 3], rfl⟩, 8, by decide⟩, 1)) :=
  ⟨_, rfl, rfl⟩

end TailscaleRs.Bart
