import Mathlib.Tactic.IntervalCases
import TailscaleRs.Bart.Paths

namespace TailscaleRs.Bart

open List BaseIndex
open Net (Family IpAddr IpNet)
open StrideTrie (Canonical ChildFits Sole Vacant)

section Lengths

variable (shortest longest : Nat)

def downTo : List Nat :=
  (range' shortest (longest + 1 - shortest)).reverse

theorem mem_downTo {shortest longest len : Nat} :
    len ∈ downTo shortest longest ↔ shortest ≤ len ∧ len ≤ longest := by
  rw [downTo, mem_reverse, mem_range'_1]
  omega

theorem nodup_downTo : (downTo shortest longest).Nodup := by
  rw [downTo, nodup_reverse]
  exact nodup_range'

theorem downTo_append {shortest middle longest : Nat} (lower : shortest ≤ middle)
    (upper : middle ≤ longest + 1) (positive : 0 < middle) :
    downTo shortest longest = downTo middle longest ++ downTo shortest (middle - 1) := by
  have first : middle - 1 + 1 - shortest = middle - shortest := by omega
  have count : longest + 1 - shortest = (middle - shortest) + (longest + 1 - middle) := by omega
  have start : middle = shortest + 1 * (middle - shortest) := by omega
  rw [downTo, downTo, downTo, first, count, ← reverse_append, reverse_inj]
  conv_lhs => rw [← range'_append]
  rw [← start]

theorem filterMap_eq_singleton {β γ : Type} {items : List β} {pick : β → Option γ} {item : β}
    {value : γ} (member : item ∈ items) (nodup : items.Nodup) (picked : pick item = some value)
    (others : ∀ other ∈ items, other ≠ item → pick other = none) :
    items.filterMap pick = [value] := by
  induction items with
  | nil => cases member
  | cons first rest ih =>
    rw [nodup_cons] at nodup
    rcases mem_cons.mp member with rfl | later
    · rw [filterMap_cons, picked]
      have none : rest.filterMap pick = [] := by
        rw [filterMap_eq_nil_iff]
        intro other inRest
        apply others other (mem_cons_of_mem item inRest)
        intro same
        exact nodup.1 (same ▸ inRest)
      rw [none]
    · have different : first ≠ item := fun same => nodup.1 (same ▸ later)
      rw [filterMap_cons, others first mem_cons_self different]
      exact ih later nodup.2 (fun other inRest => others other (mem_cons_of_mem first inRest))

end Lengths

theorem tryNew_shift (octet : UInt8) (bits : Fin 8) (shift : Nat) :
    tryNew ((fromPrefix octet bits).get / 2 ^ shift) =
      if shift ≤ bits.val then some (fromPrefix octet (bitsIn (bits.val - shift)))
      else none := by
  have short := high_lt octet bits
  rw [get_fromPrefix]
  by_cases covers : shift ≤ bits.val
  · have left : (bitsIn (bits.val - shift)).val = bits.val - shift :=
      Nat.mod_eq_of_lt (by omega)
    have width : 8 - (bits.val - shift) = 8 - bits.val + shift := by omega
    have value : (octet.toNat / 2 ^ (8 - bits.val) + 2 ^ bits.val) / 2 ^ shift =
        (fromPrefix octet (bitsIn (bits.val - shift))).get := by
      have split : 2 ^ bits.val = 2 ^ (bits.val - shift) * 2 ^ shift := by
        rw [← Nat.pow_add, Nat.sub_add_cancel covers]
      rw [get_fromPrefix, left, width, split,
        Nat.add_mul_div_right _ _ (Nat.two_pow_pos shift), Nat.div_div_eq_div_mul, ← Nat.pow_add]
    rw [if_pos covers, value, tryNew, dif_pos]
    · rfl
    · exact fromPrefix_bounds octet
  · have vanishes : (octet.toNat / 2 ^ (8 - bits.val) + 2 ^ bits.val) / 2 ^ shift = 0 := by
      apply Nat.div_eq_of_lt
      have next : 2 ^ (bits.val + 1) ≤ 2 ^ shift := Nat.pow_le_pow_right Nat.two_pos (by omega)
      omega
    rw [if_neg covers, vanishes, tryNew, dif_neg (by omega)]

theorem lpm_fromPrefix (octet : UInt8) (bits : Fin 8) :
    lpm (fromPrefix octet bits) =
      (downTo 0 bits.val).map fun shorter => fromPrefix octet (bitsIn shorter) := by
  rw [lpm]
  simp only [tryNew_shift]
  obtain ⟨bits, bound⟩ := bits
  interval_cases bits <;> rfl

section Covering

variable {α : Type} {values : List UInt8 × BaseIndex → Option α} {octets : List UInt8}
  {octet : UInt8} {depth : Nat}

/-- The values of the prefixes of an address with these lengths, longest first. -/
def covering (values : List UInt8 × BaseIndex → Option α) (octets : List UInt8)
    (shortest longest : Nat) : List α :=
  (downTo shortest longest).filterMap fun len => values (keyAt octets len)

def placed (values : List UInt8 × BaseIndex → Option α) (place : List UInt8 × BaseIndex) :
    Option ((List UInt8 × BaseIndex) × α) :=
  (values place).map fun value => (place, value)

theorem covering_placed (shortest longest : Nat) :
    (covering (placed values) octets shortest longest).map Prod.snd =
      covering values octets shortest longest := by
  rw [covering, map_filterMap]
  simp [placed, covering]

theorem vacant_placed {path : List UInt8} (vacant : Vacant values path) :
    Vacant (placed values) path := by
  intro place below
  rw [placed, vacant place below]
  rfl

theorem sole_placed {path : List UInt8} {place : List UInt8 × BaseIndex} {value : α}
    (sole : Sole values path place value) : Sole (placed values) path place (place, value) where
  below := sole.below
  holds := by
    rw [placed, sole.holds]
    rfl
  others := by
    intro other below different
    rw [placed, sole.others other below different]
    rfl

theorem keyAt_within (found : octets[depth]? = some octet) {bits : Nat} (short : bits ≤ 7) :
    keyAt octets (8 * depth + bits) = (octets.take depth, fromPrefix octet (bitsIn bits)) := by
  have strides : (8 * depth + bits) / 8 = depth := by omega
  have left : bitsIn (8 * depth + bits) = bitsIn bits :=
    Fin.ext (by simp only [bitsIn]; omega)
  rw [keyAt, strides, left, getD_eq_getElem?_getD, found, Option.getD_some]

theorem keyAt_below {len : Nat} (long : 8 * depth ≤ len) :
    octets.take depth <+: (keyAt octets len).1 :=
  take_prefix_take_left (by omega)

theorem covering_vacant (vacant : Vacant values (octets.take depth)) (longest : Nat) :
    covering values octets (8 * depth) longest = [] := by
  rw [covering, filterMap_eq_nil_iff]
  intro len member
  exact vacant _ (keyAt_below (mem_downTo.mp member).1)

variable {position : List UInt8 × BaseIndex} {value : α} {longest : Nat}
  (sole : Sole values (octets.take depth) position value)
include sole

theorem covering_sole {len longest : Nat} (at_len : keyAt octets len = position)
    (long : 8 * depth ≤ len) (bounded : len ≤ longest) (sized : longest ≤ 8 * octets.length) :
    covering values octets (8 * depth) longest = [value] := by
  apply filterMap_eq_singleton (mem_downTo.mpr ⟨long, bounded⟩) (nodup_downTo _ _)
  · rw [at_len, sole.holds]
  · intro other member different
    have range := mem_downTo.mp member
    apply sole.others _ (keyAt_below range.1)
    intro same
    rw [← at_len] at same
    exact different (len_of_keyAt_eq (by omega) (by omega) same)

theorem covering_sole_other
    (never : ∀ len, 8 * depth ≤ len → len ≤ longest → keyAt octets len ≠ position) :
    covering values octets (8 * depth) longest = [] := by
  rw [covering, filterMap_eq_nil_iff]
  intro len member
  have range := mem_downTo.mp member
  exact sole.others _ (keyAt_below range.1) (never len range.1 range.2)

omit sole

theorem covering_append (long : 8 * (depth + 1) ≤ longest + 1) :
    covering values octets (8 * depth) longest =
      covering values octets (8 * (depth + 1)) longest ++
        covering values octets (8 * depth) (8 * depth + 7) := by
  rw [covering, downTo_append (by omega) long (by omega),
    filterMap_append]
  rfl

theorem covering_beyond {shortest longest : Nat} (beyond : longest < shortest) :
    covering values octets shortest longest = [] := by
  rw [covering, downTo, Nat.sub_eq_zero_of_le beyond]
  rfl

/-- The prefixes of the node at a depth that end within the octet there are those that cover. -/
def Within (values : List UInt8 × BaseIndex → Option α) (octets : List UInt8) (depth : Nat)
    (node : Node α) (octet : UInt8) : Prop :=
  ∀ bits : Fin 8, ((lpm (fromPrefix octet bits)).filterMap fun cover =>
      (node.prefixes cover).map fun value => (cover, value)).map
        (Prod.map (octets.take depth, ·) id) =
    covering (placed values) octets (8 * depth) (8 * depth + bits.val)

variable {node : Node α}

theorem Within.append (within : Within values octets depth node octet)
    (long : 8 * (depth + 1) ≤ longest + 1) :
    covering values octets (8 * depth) longest =
      covering values octets (8 * (depth + 1)) longest ++
        (matchingPrefixes node octet).map Prod.snd := by
  have here := congrArg (map Prod.snd) (within 7)
  rw [covering_placed, map_map] at here
  rw [covering_append long, matchingPrefixes]
  exact congrArg _ here.symm

theorem covering_within {family : Family} {height : Nat}
    (canonical : Canonical (labels family) values (height + 1) (octets.take depth) node)
    (found : octets[depth]? = some octet) : Within values octets depth node octet := by
  intro bits
  have shifted : downTo (8 * depth) (8 * depth + bits.val) =
      (downTo 0 bits.val).map (8 * depth + ·) := by
    have count : 8 * depth + bits.val + 1 - 8 * depth = bits.val + 1 - 0 := by omega
    rw [downTo, downTo, map_reverse, count, map_add_range']
    rfl
  rw [lpm_fromPrefix, filterMap_map, map_filterMap, covering, shifted, filterMap_map]
  apply filterMap_congr
  intro len member
  have short : len ≤ 7 := by
    have range := mem_downTo.mp member
    omega
  simp only [Function.comp_def, Option.map_map, keyAt_within found short, canonical.1]
  rfl

end Covering

section Addresses

variable {α : Type} {family : Family} {values : List UInt8 × BaseIndex → Option α}
  {height depth : Nat} {node : Node α} {addr : IpAddr} {leafPrefix : IpNet} {value : α}
  {longest : Nat} (same : addr.family = family)
include same

theorem covering_leaf (inside : depth ≤ family.size) (proper : (labels family).Proper leafPrefix)
    (bounded : longest ≤ 8 * family.size)
    (sole : Sole values (addr.octets.take depth) (key leafPrefix) value) :
    covering values addr.octets (8 * depth) longest =
      if leafPrefix.prefixLen ≤ longest ∧ leafPrefix.contains addr then [value] else [] := by
  have size : addr.octets.length = family.size := by rw [addr.sized, same]
  have below := sole.below.length_le
  rw [length_key, strideCount, length_take] at below
  by_cases covers : leafPrefix.prefixLen ≤ longest ∧ leafPrefix.contains addr = true
  · have held := ((contains_iff leafPrefix).mp covers.2).2
    rw [if_pos covers]
    exact covering_sole sole held (by omega) covers.1 (by omega)
  · rw [if_neg covers]
    apply covering_sole_other sole
    intro len long short held
    apply covers
    have len_eq : len = leafPrefix.prefixLen :=
      len_of_keyAt_eq (by omega) (bounded_octets leafPrefix) held
    rw [contains_iff, ← len_eq]
    exact ⟨short, same.trans proper.1.symm, held⟩

theorem covering_leaf_all (inside : depth ≤ family.size)
    (proper : (labels family).Proper leafPrefix)
    (sole : Sole values (addr.octets.take depth) (key leafPrefix) value) :
    covering values addr.octets (8 * depth) (8 * family.size) =
      if leafPrefix.contains addr then [value] else [] := by
  have bounded : leafPrefix.prefixLen ≤ 8 * family.size := by
    rw [← proper.1]
    exact leafPrefix.bounded
  rw [covering_leaf same inside proper (Nat.le_refl _) sole]
  simp only [bounded, true_and]

theorem covering_fringe (reached : 8 * depth ≤ longest) (bounded : longest ≤ 8 * family.size)
    (sole : Sole values (addr.octets.take depth) (addr.octets.take depth, one) value) :
    covering values addr.octets (8 * depth) longest = [value] := by
  have size : addr.octets.length = family.size := by rw [addr.sized, same]
  exact covering_sole sole (keyAt_full _ _) (by omega) reached (by omega)

/-- What a walk along an address finds at a node: the octet to read, the child there, and the
prefixes that end within the octet. -/
theorem visit (deep : depth + (height + 1) = family.size)
    (canonical : Canonical (labels family) values (height + 1) (addr.octets.take depth) node) :
    ∃ octet, addr.octets.drop depth = octet :: addr.octets.drop (depth + 1) ∧
      ChildFits (labels family) values
        (Canonical (labels family) values height (addr.octets.take (depth + 1)))
        (addr.octets.take (depth + 1)) (node.children octet) ∧
      Within values addr.octets depth node octet := by
  have size : addr.octets.length = family.size := by rw [addr.sized, same]
  have bound : depth < addr.octets.length := by omega
  have found : addr.octets[depth]? = some addr.octets[depth] := getElem?_eq_getElem bound
  have next : addr.octets.take (depth + 1) = addr.octets.take depth ++ [addr.octets[depth]] := by
    rw [take_add_one, found, Option.toList_some]
  refine ⟨addr.octets[depth], drop_eq_cons found, ?_, covering_within canonical found⟩
  rw [next]
  exact canonical.2 _

omit same

theorem descendAddress_covering (stack : List (Node α × UInt8)) (same : addr.family = family)
    (deep : depth + height = family.size) (passed : stack.length = depth)
    (canonical : Canonical (labels family) values height (addr.octets.take depth) node) :
    ∃ nodes found, descendAddress addr (addr.octets.drop depth) stack node =
        .ok (nodes ++ stack, found) ∧
      found.toList ++ walkStack nodes =
        covering values addr.octets (8 * depth) (8 * family.size) := by
  induction height generalizing depth node stack with
  | zero => exact canonical.elim
  | succ height ih =>
    obtain ⟨octet, unread, fits, within⟩ := visit same deep canonical
    have limit : family.size ≤ maxDepth := size_le_maxDepth
    have here : walkStack [(node, octet)] = (matchingPrefixes node octet).map Prod.snd := by
      rw [walkStack, flatMap_singleton]
    rw [unread, descendAddress, push, if_pos (by omega), ok_bind, within.append (by omega), ← here]
    match node.children octet, fits with
    | none, vacant =>
      refine ⟨[(node, octet)], none, rfl, ?_⟩
      rw [covering_vacant vacant]
      rfl
    | some (.path next), ⟨_, inner⟩ =>
      obtain ⟨nodes, value, ran, all⟩ :=
        ih ((node, octet) :: stack) (by omega) (by simp [passed]) inner
      refine ⟨nodes ++ [(node, octet)], value, ?_, ?_⟩
      · dsimp only
        rw [ran, append_assoc, singleton_append]
      · rw [← all, append_assoc]
        simp only [walkStack, flatMap_append]
    | some (.fringe value), sole =>
      refine ⟨[(node, octet)], some value, rfl, ?_⟩
      rw [covering_fringe same (by omega) (by omega) sole]
      rfl
    | some (.leaf leafPrefix value), ⟨proper, _, sole⟩ =>
      refine ⟨[(node, octet)], _, rfl, ?_⟩
      rw [covering_leaf_all same (by omega) proper sole]
      split <;> rfl

variable (same : addr.family = family)
include same

theorem lookupAddressAll_eq
    (canonical : Canonical (labels family) values family.size [] node) :
    lookupAddressAll node addr = .ok (covering values addr.octets 0 (8 * family.size)) := by
  obtain ⟨nodes, found, ran, all⟩ :=
    descendAddress_covering [] same (Nat.zero_add _) rfl canonical
  rw [drop_zero, append_nil] at ran
  rw [lookupAddressAll, ran, ok_bind, ← all]
  rfl

theorem lookupAddress_eq
    (canonical : Canonical (labels family) values family.size [] node) :
    lookupAddress node addr = .ok (covering values addr.octets 0 (8 * family.size)).head? := by
  obtain ⟨nodes, found, ran, all⟩ :=
    descendAddress_covering [] same (Nat.zero_add _) rfl canonical
  rw [drop_zero, append_nil] at ran
  rw [lookupAddress, ran, ok_bind, ← all]
  cases found <;> rfl

omit same in
theorem supersetsPrefix_eq (node : Node α) (octet : UInt8) :
    supersetsPrefix node (fromPfx7 octet) = !(matchingPrefixes node octet).isEmpty := by
  rw [supersetsPrefix, matchingPrefixes]
  induction lpm (fromPfx7 octet) with
  | nil => rfl
  | cons cover rest ih =>
    rw [any_cons, filterMap_cons, ih]
    cases node.prefixes cover <;> rfl

theorem contains_eq (deep : depth + height = family.size)
    (canonical : Canonical (labels family) values height (addr.octets.take depth) node) :
    contains addr (addr.octets.drop depth) node =
      !(covering values addr.octets (8 * depth) (8 * family.size)).isEmpty := by
  induction height generalizing depth node with
  | zero => exact canonical.elim
  | succ height ih =>
    obtain ⟨octet, unread, fits, within⟩ := visit same deep canonical
    rw [unread, contains, within.append (by omega), supersetsPrefix_eq]
    by_cases matched : matchingPrefixes node octet = []
    · rw [matched, map_nil, append_nil, if_neg (by simp)]
      match node.children octet, fits with
      | none, vacant =>
        rw [covering_vacant vacant]
        rfl
      | some (.path next), ⟨_, inner⟩ => exact ih (by omega) inner
      | some (.fringe value), sole =>
        rw [covering_fringe same (by omega) (by omega) sole]
        rfl
      | some (.leaf leafPrefix value), ⟨proper, _, sole⟩ =>
        rw [covering_leaf_all same (by omega) proper sole]
        dsimp only
        cases leafPrefix.contains addr <;> rfl
    · have stored : prefixCount node ≠ 0 := by
        intro none
        apply matched
        rw [matchingPrefixes, filterMap_eq_nil_iff]
        intro cover _
        rw [StrideTrie.count_eq_zero.mp none cover]
        rfl
      rw [if_pos ⟨stored, by simp [matched]⟩]
      simp [matched]

end Addresses

section Exact

variable {α : Type} {family : Family} {values : List UInt8 × BaseIndex → Option α}
  {height depth : Nat} {node : Node α} {net : IpNet}

/-- The prefix of the leaf that the walk along some octets ends in. -/
def leafAlong : List UInt8 → Node α → Option IpNet
  | [], _ => none
  | octet :: rest, node =>
    match node.children octet with
    | some (.path next) => leafAlong rest next
    | some (.leaf leafPrefix _) => some leafPrefix
    | _ => none

theorem leafAlong_proper {octets path : List UInt8} {leaf : IpNet}
    (canonical : Canonical (labels family) values height path node)
    (is : leafAlong octets node = some leaf) : (labels family).Proper leaf := by
  induction octets generalizing height path node with
  | nil => cases is
  | cons octet rest ih =>
    cases height with
    | zero => exact canonical.elim
    | succ height =>
      have fits := canonical.2 octet
      rw [leafAlong] at is
      split at is
      · case _ child =>
          rw [child] at fits
          exact ih fits.2 is
      · case _ child =>
          cases is
          rw [child] at fits
          exact fits.1
      · cases is

/-- A prefix with host bits is looked up as if it had none, but in a leaf it is not found. -/
theorem lookupPrefixExact_eq (family_eq : net.addr.family = family)
    (deep : depth + height = family.size) (below : net.addr.octets.take depth <+: (key net).1)
    (canonical : Canonical (labels family) values height (net.addr.octets.take depth) node) :
    lookupPrefixExact net (net.addr.octets.drop depth) depth node =
      .ok (if ¬net.Truncated ∧ leafAlong ((key net).1.drop depth) node = some net.trunc then none
        else values (key net)) := by
  induction height generalizing depth node with
  | zero => exact canonical.elim
  | succ height ih =>
    have size : net.addr.octets.length = family.size := by rw [net.addr.sized, family_eq]
    have length : (net.addr.octets.take depth).length = depth := by
      rw [length_take]
      omega
    obtain ⟨octet, found, ends, goes⟩ := key_step below (by rw [length, family_eq]; omega)
    rw [length] at found ends goes
    rw [drop_eq_cons found, lookupPrefixExact]
    by_cases last : depth = strideCount net
    · have read : (key net).1.drop depth = [] := by
        rw [drop_eq_nil_iff, length_key, last]
      rw [if_pos last, read, leafAlong, if_neg (by simp), ends last, canonical.1]
    · have below' := goes last
      have next : net.addr.octets.take (depth + 1) = net.addr.octets.take depth ++ [octet] := by
        rw [take_add_one, found, Option.toList_some]
      have read : (key net).1.drop depth = octet :: (key net).1.drop (depth + 1) := by
        obtain ⟨rest, is⟩ := below'
        apply drop_eq_cons
        rw [← is, append_assoc, getElem?_append_right (by omega), length, Nat.sub_self]
        rfl
      rw [if_neg last, read, leafAlong]
      match node.children octet, canonical.2 octet with
      | none, vacant => rw [if_neg (by simp), vacant _ below']
      | some (.path next'), ⟨_, inner⟩ =>
        rw [← next] at inner below'
        exact ih (by omega) below' inner
      | some (.leaf leafPrefix value), ⟨proper, _, sole⟩ =>
        have leaf : leafPrefix.Truncated := proper.2
        dsimp only
        by_cases held : leafPrefix = net.trunc
        · have stored : values (key net) = some value := by
            rw [← key_trunc, ← held]
            exact sole.holds
          by_cases truncated : net.Truncated
          · rw [if_pos (truncated.symm.trans held.symm), if_neg (fun both => both.1 truncated),
              stored]
          · rw [if_neg, if_pos ⟨truncated, congrArg some held⟩]
            rintro rfl
            exact truncated leaf
        · rw [if_neg, if_neg (fun both => held (Option.some.inj both.2)), sole.others _ below']
          · intro sameKey
            apply held
            apply (labels family).injective _ net.trunc proper ⟨family_eq, net.truncated_trunc⟩
            exact sameKey.symm.trans (key_trunc net).symm
          · rintro rfl
            exact held leaf.symm
      | some (.fringe value), sole =>
        have fringe := isFringe_eq below'
        rw [length] at fringe
        dsimp only
        rw [fringe, ok_bind]
        simp only [reduceCtorEq, and_false]
        by_cases same : key net = (net.addr.octets.take depth ++ [octet], one)
        · rw [if_pos (decide_eq_true same), same]
          exact congrArg Except.ok sole.holds.symm
        · rw [if_neg (by simpa using same), sole.others _ below' same]
          rfl

end Exact

variable {α : Type} {family : Family} {values : List UInt8 × BaseIndex → Option α}
  {height depth : Nat} {node : Node α} {net : IpNet}

/-- A part of the lookup finds the first of some values and its prefix, or leaves the rest of it
to decide. -/
def Locates (result : Except Panic (Option (IpNet × α)))
    (among : List ((List UInt8 × BaseIndex) × α)) (otherwise : Except Panic (Option (IpNet × α))) :
    Prop :=
  (∃ found, result = .ok (some found) ∧ among.head? = some (key found.1, found.2)) ∨
    among = [] ∧ result = otherwise

theorem Locates.trans {first second last : Except Panic (Option (IpNet × α))}
    {front rest : List ((List UInt8 × BaseIndex) × α)} (locates : Locates first front second)
    (then_locates : Locates second rest last) :
    Locates first (front ++ rest) last := by
  rcases locates with ⟨found, ran, head⟩ | ⟨nothing, rfl⟩
  · refine .inl ⟨found, ran, ?_⟩
    rw [head?_append, head, Option.some_or]
  · rwa [nothing, nil_append]

variable {otherwise : Except Panic (Option (IpNet × α))} {found : IpNet × α}

theorem Locates.here : Locates (.ok (some found)) [(key found.1, found.2)] otherwise :=
  .inl ⟨found, rfl, rfl⟩

theorem Locates.nothing : Locates otherwise [] otherwise :=
  .inr ⟨rfl, rfl⟩

theorem ascendPrefix_locates {octet : UInt8} (same : net.addr.family = family)
    (deep : depth < family.size) (reached : depth ≤ strideCount net)
    (within : Within values net.addr.octets depth node octet)
    (stack : List (Node α × UInt8 × Nat)) :
    Locates (ascendPrefix net ((node, octet, depth) :: stack))
      (covering (placed values) net.addr.octets (8 * depth) (min (8 * depth + 7) net.prefixLen))
      (ascendPrefix net stack) := by
  obtain ⟨bits, index, last⟩ : ∃ bits : Fin 8,
      (if depth = strideCount net then fromPrefix octet (overflowBits net)
        else fromPfx7 octet) = fromPrefix octet bits ∧
      min (8 * depth + 7) net.prefixLen = 8 * depth + bits.val := by
    rw [strideCount] at reached
    by_cases ends : depth = strideCount net
    · refine ⟨overflowBits net, if_pos ends, ?_⟩
      rw [strideCount] at ends
      have left : (overflowBits net).val = net.prefixLen % 8 := rfl
      omega
    · refine ⟨7, if_neg ends, ?_⟩
      rw [strideCount] at ends
      omega
  have found := within bits
  rw [ascendPrefix, index, last, ← found]
  by_cases stored : prefixCount node = 0
  · have none : ∀ cover, node.prefixes cover = none := StrideTrie.count_eq_zero.mp stored
    simp only [none, Option.map_none, filterMap_none, if_pos stored]
    exact Locates.nothing
  · rw [if_neg stored]
    dsimp only
    rw [lookupIndex, ← head?_filterMap]
    generalize (lpm (fromPrefix octet bits)).filterMap (fun cover =>
        (node.prefixes cover).map fun value => (cover, value)) = covers at found ⊢
    cases covers with
    | nil => exact Locates.nothing
    | cons best rest =>
      have member : ((net.addr.octets.take depth, best.1), best.2) ∈
          covering (placed values) net.addr.octets (8 * depth) (8 * depth + bits.val) := by
        rw [← found]
        exact mem_cons_self
      obtain ⟨len, range, held⟩ := mem_filterMap.mp member
      obtain ⟨value, -, is⟩ := Option.map_eq_some_iff.mp held
      have place : keyAt net.addr.octets len = (net.addr.octets.take depth, best.1) :=
        congrArg Prod.fst is
      have length : best.1.prefixBits depth = len := by
        have bits' : best.1.bits = len % 8 := by rw [← bits_keyAt net.addr.octets len, place]
        rw [mem_downTo] at range
        rw [prefixBits]
        omega
      have short := best.1.bits_le
      have bounded : best.1.prefixBits depth ≤ 8 * net.addr.family.size := by
        rw [same, prefixBits]
        omega
      refine .inl ⟨(⟨net.addr, best.1.prefixBits depth, bounded⟩, best.2), ?_, ?_⟩
      · rw [head?_cons]
        dsimp only
        rw [newAssert, dif_pos bounded]
        rfl
      · dsimp only [key]
        rw [length, place]
        rfl

/-- What `lookup_prefix_lpm` makes of the walk down. -/
def resolve (net : IpNet) (walk : List (Node α × UInt8 × Nat) × Option (IpNet × α)) :
    Except Panic (Option (IpNet × α)) :=
  match walk.2 with
  | some result => .ok (some result)
  | none => ascendPrefix net walk.1

theorem descendPrefix_locates (net : IpNet) (stack : List (Node α × UInt8 × Nat))
    (same : net.addr.family = family) (deep : depth + height = family.size)
    (passed : stack.length = depth)
    (canonical : Canonical (labels family) values height (net.addr.octets.take depth) node) :
    ∃ walk, descendPrefix net (net.addr.octets.drop depth) depth stack node = .ok walk ∧
      Locates (resolve net walk)
        (covering (placed values) net.addr.octets (8 * depth) net.prefixLen)
        (ascendPrefix net stack) := by
  induction height generalizing depth node stack with
  | zero => exact canonical.elim
  | succ height ih =>
    obtain ⟨octet, unread, fits, within⟩ := visit same deep canonical
    have limit : family.size ≤ maxDepth := size_le_maxDepth
    have bounded : net.prefixLen ≤ 8 * family.size := by rw [← same]; exact net.bounded
    have strides : strideCount net = net.prefixLen / 8 := rfl
    rw [unread, descendPrefix]
    by_cases beyond : depth > strideCount net
    · rw [if_pos beyond, covering_beyond (by omega)]
      exact ⟨_, rfl, Locates.nothing⟩
    · have up := ascendPrefix_locates same (by omega) (by omega) within stack
      have parts : covering (placed values) net.addr.octets (8 * depth) net.prefixLen =
          covering (placed values) net.addr.octets (8 * (depth + 1)) net.prefixLen ++
            covering (placed values) net.addr.octets (8 * depth)
              (min (8 * depth + 7) net.prefixLen) := by
        by_cases last : depth = strideCount net
        · rw [covering_beyond (show net.prefixLen < 8 * (depth + 1) by omega), nil_append,
            Nat.min_eq_right (by omega)]
        · rw [covering_append (by omega), Nat.min_eq_left (by omega)]
      rw [if_neg beyond, push, if_pos (by omega), ok_bind, parts]
      match node.children octet, fits with
      | none, vacant =>
        rw [covering_vacant (vacant_placed vacant)]
        exact ⟨_, rfl, Locates.nothing.trans up⟩
      | some (.path next), ⟨_, inner⟩ =>
        obtain ⟨walk, ran, locates⟩ :=
          ih ((node, octet, depth) :: stack) (by omega) (by simp [passed]) inner
        exact ⟨walk, ran, locates.trans up⟩
      | some (.leaf leafPrefix value), ⟨proper, _, sole⟩ =>
        rw [covering_leaf same (by omega) proper bounded (sole_placed sole)]
        dsimp only
        by_cases skipped : leafPrefix.prefixLen > net.prefixLen ∨ !leafPrefix.contains net.addr
        · rw [if_pos skipped, if_neg]
          · exact ⟨_, rfl, Locates.nothing.trans up⟩
          · rintro ⟨short, covers⟩
            rw [covers] at skipped
            simp at skipped
            omega
        · rw [if_neg skipped, if_pos]
          · exact ⟨_, rfl, Locates.here.trans up⟩
          · simp at skipped
            exact skipped
      | some (.fringe value), sole =>
        dsimp only
        by_cases skipped : (depth + 1) * 8 > net.prefixLen
        · rw [if_pos skipped, covering_beyond (by omega)]
          exact ⟨_, rfl, Locates.nothing.trans up⟩
        · have bounded' : (depth + 1) * 8 ≤ 8 * net.addr.family.size := by
            rw [same]
            omega
          rw [if_neg skipped, covering_fringe same (by omega) bounded (sole_placed sole),
            newAssert, dif_pos bounded', ok_bind]
          have place : key ⟨net.addr, (depth + 1) * 8, bounded'⟩ =
              (net.addr.octets.take (depth + 1), one) := by
            show keyAt net.addr.octets ((depth + 1) * 8) = _
            rw [Nat.mul_comm]
            exact keyAt_full _ _
          rw [← place]
          exact ⟨_, rfl, Locates.here.trans up⟩

theorem lookupPrefixLpm_eq (same : net.addr.family = family)
    (canonical : Canonical (labels family) values family.size [] node) :
    ∃ result, lookupPrefixLpm node net = .ok result ∧
      result.map (Prod.map key id) =
        (covering (placed values) net.trunc.addr.octets 0 net.prefixLen).head? := by
  obtain ⟨walk, ran, locates⟩ :=
    descendPrefix_locates net.trunc [] same (Nat.zero_add _) rfl canonical
  rw [drop_zero] at ran
  have resolved : lookupPrefixLpm node net = resolve net.trunc walk := by
    rw [lookupPrefixLpm, ran, ok_bind]
    obtain ⟨stack, found⟩ := walk
    cases found <;> rfl
  rw [resolved]
  rcases locates with ⟨found, is, head⟩ | ⟨nothing, is⟩
  · exact ⟨some found, is, head.symm⟩
  · refine ⟨none, is, ?_⟩
    have nothing' : covering (placed values) net.trunc.addr.octets 0 net.prefixLen = [] := nothing
    rw [nothing']
    rfl

theorem addr_newAssert {addr : IpAddr} {len : Nat} (made : newAssert addr len = .ok net) :
    net.addr = addr := by
  rw [newAssert] at made
  split at made
  · cases made
    rfl
  · cases made

theorem ascendPrefix_addr {stack : List (Node α × UInt8 × Nat)} {found : IpNet × α}
    (ran : ascendPrefix net stack = .ok (some found)) : found.1.addr = net.addr := by
  fun_induction ascendPrefix net stack with
  | case1 => cases ran
  | case2 _ _ _ _ _ ih => exact ih ran
  | case3 _ _ _ _ _ _ _ ih => exact ih ran
  | case4 _ _ depth _ _ _ top value =>
    obtain ⟨net', made, ran⟩ := (bind_ok _ _ _).mp ran
    cases ran
    exact addr_newAssert made

/-- The walk down ends with a prefix that has the address of the query, unless it is that of a
leaf; and it ends with a leaf it comes to that covers the query. -/
theorem descendPrefix_leaf {octets : List UInt8} {stack : List (Node α × UInt8 × Nat)}
    {walk : List (Node α × UInt8 × Nat) × Option (IpNet × α)}
    (ran : descendPrefix net octets depth stack node = .ok walk) :
    (∀ found, walk.2 = some found → found.1.addr.family = net.addr.family ∧
      (found.1.addr = net.addr ∨
        leafAlong (octets.take (strideCount net + 1 - depth)) node = some found.1)) ∧
    ∀ leaf, leafAlong (octets.take (strideCount net + 1 - depth)) node = some leaf →
      leaf.prefixLen ≤ net.prefixLen → leaf.contains net.addr = true →
      ∃ value, walk.2 = some (leaf, value) := by
  induction octets generalizing depth stack node with
  | nil =>
    cases ran
    simp [leafAlong]
  | cons octet rest ih =>
    rw [descendPrefix] at ran
    by_cases beyond : depth > strideCount net
    · rw [if_pos beyond] at ran
      cases ran
      simp [show strideCount net + 1 - depth = 0 by omega, leafAlong]
    · have count : strideCount net + 1 - depth = strideCount net + 1 - (depth + 1) + 1 := by omega
      rw [if_neg beyond] at ran
      obtain ⟨stack', -, ran⟩ := (bind_ok _ _ _).mp ran
      rw [count, take_succ_cons, leafAlong]
      match node.children octet, ran with
      | none, rfl => simp
      | some (.path next), ran => exact ih ran
      | some (.leaf leafPrefix value), ran =>
        dsimp only at ran
        split at ran
        · case _ skipped =>
            cases ran
            refine ⟨by simp, fun leaf is short covers => ?_⟩
            cases is
            simp [covers] at skipped
            omega
        · case _ kept =>
            cases ran
            simp only [not_or, Bool.not_eq_true', Bool.not_eq_false] at kept
            simp [((contains_iff leafPrefix).mp kept.2).1]
      | some (.fringe value), ran =>
        dsimp only at ran
        split at ran
        · cases ran
          simp
        · obtain ⟨fringe, made, ran⟩ := (bind_ok _ _ _).mp ran
          cases ran
          simp [addr_newAssert made]

theorem lookupPrefixLpm_leaf (ran : lookupPrefixLpm node net = .ok (some found)) :
    let leaf := leafAlong (net.trunc.addr.octets.take (strideCount net + 1)) node
    found.1.addr.family = net.addr.family ∧
      (found.1.addr = net.trunc.addr ∨ leaf = some found.1) ∧
      ∀ other, leaf = some other → other.prefixLen ≤ net.prefixLen →
        other.contains net.trunc.addr = true → found.1 = other := by
  rw [lookupPrefixLpm] at ran
  obtain ⟨⟨stack, ended⟩, down, ran⟩ := (bind_ok _ _ _).mp ran
  obtain ⟨reports, reaches⟩ := descendPrefix_leaf down
  cases ended with
  | some result =>
    cases ran
    obtain ⟨family, from_leaf⟩ := reports found rfl
    refine ⟨family, from_leaf, fun other is short covers => ?_⟩
    obtain ⟨value, same⟩ := reaches other is short covers
    cases same
    rfl
  | none =>
    have addr := ascendPrefix_addr ran
    refine ⟨by rw [addr]; rfl, .inl addr, fun other is short covers => ?_⟩
    obtain ⟨value, same⟩ := reaches other is short covers
    cases same

end TailscaleRs.Bart
