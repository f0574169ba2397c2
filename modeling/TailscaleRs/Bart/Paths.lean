import TailscaleRs.Bart.Keys

namespace TailscaleRs.Bart

open List BaseIndex
open Net (Family IpAddr IpNet keepBits truncate)

theorem BaseIndex.bits_le (index : BaseIndex) : index.bits ≤ 7 := by
  have positive : index.get ≠ 0 := fun zero => index.2 (Fin.ext zero)
  have small : index.get < 2 ^ 8 := index.1.isLt
  have log : index.bits < 8 := (Nat.log2_lt positive).mpr small
  omega

theorem BaseIndex.fromPrefix_toPrefix (index : BaseIndex) :
    keepBits index.bits index.toPrefix.1 = index.toPrefix.1 ∧
      fromPrefix index.toPrefix.1 ⟨index.bits, Nat.lt_succ_of_le index.bits_le⟩ = index := by
  have positive : index.get ≠ 0 := fun zero => index.2 (Fin.ext zero)
  have high : index.get < 2 ^ (index.bits + 1) := Nat.lt_log2_self
  have low : 2 ^ index.bits ≤ index.get := Nat.log2_self_le positive
  have short := index.bits_le
  have split : 2 ^ index.bits * 2 ^ (8 - index.bits) = 256 := by
    rw [← Nat.pow_add, Nat.add_sub_cancel' (by omega)]
  have remainder : index.get % 2 ^ index.bits = index.get - 2 ^ index.bits := by
    rw [Nat.mod_eq_sub_mod low, Nat.mod_eq_of_lt]
    omega
  have fits : index.get % 2 ^ index.bits * 2 ^ (8 - index.bits) < 256 := by
    rw [← split]
    exact Nat.mul_lt_mul_of_pos_right (Nat.mod_lt _ (Nat.two_pow_pos _)) (Nat.two_pow_pos _)
  have octet : index.toPrefix.1.toNat = index.get % 2 ^ index.bits * 2 ^ (8 - index.bits) := by
    show (UInt8.ofNat _).toNat = _
    rw [UInt8.toNat_ofNat', Nat.mod_eq_of_lt fits]
  have shifted : index.toPrefix.1.toNat / 2 ^ (8 - index.bits) = index.get % 2 ^ index.bits := by
    rw [octet, Nat.mul_div_cancel _ (Nat.two_pow_pos _)]
  constructor
  · rw [← UInt8.toNat_inj, Net.toNat_keepBits, shifted, octet]
  · apply ext
    rw [get_fromPrefix]
    dsimp only
    omega

variable {β : Type} {octets : List UInt8} {depth : Nat}

theorem drop_eq_cons {items : List β} {n : Nat} {item : β} (found : items[n]? = some item) :
    items.drop n = item :: items.drop (n + 1) := by
  obtain ⟨bound, read⟩ := List.getElem?_eq_some_iff.mp found
  rw [List.drop_eq_getElem_cons bound, read]

theorem takeD_replicate (n k : Nat) (filler : β) :
    (replicate k filler).takeD n filler = replicate n filler := by
  induction n generalizing k with
  | zero => rfl
  | succ n ih =>
    cases k with
    | zero => rw [replicate_succ, ← ih 0]; rfl
    | succ k => rw [replicate_succ, replicate_succ, ← ih k]; rfl

theorem takeD_append_replicate (n k : Nat) (front : List β) (filler : β)
    (short : front.length ≤ n) :
    (front ++ replicate k filler).takeD n filler =
      front ++ replicate (n - front.length) filler := by
  induction front generalizing n with
  | nil => exact takeD_replicate n k filler
  | cons item front ih =>
    cases n with
    | zero => exact absurd short (by simp)
    | succ n =>
      rw [length_cons] at short
      rw [length_cons, Nat.succ_sub_succ, cons_append, cons_append, ← ih n (by omega)]
      rfl

variable (front rest : List UInt8)

theorem truncate_append (bits : Nat) :
    truncate (8 * front.length + bits) (front ++ rest) = front ++ truncate bits rest := by
  induction front with
  | nil => simp
  | cons octet front ih =>
    have whole : keepBits (8 * (front.length + 1) + bits) octet = octet := by
      rw [← UInt8.toNat_inj, Net.toNat_keepBits, Nat.sub_eq_zero_of_le (by omega)]
      simp
    have left : 8 * (front.length + 1) + bits - 8 = 8 * front.length + bits := by omega
    rw [length_cons, cons_append, truncate, whole, left, ih, cons_append]

theorem keyAt_append (bits : Nat) :
    keyAt (front ++ rest) (8 * front.length + bits) =
      (front ++ (keyAt rest bits).1, (keyAt rest bits).2) := by
  have strides : (8 * front.length + bits) / 8 = front.length + bits / 8 := by omega
  have left : bitsIn (8 * front.length + bits) = bitsIn bits :=
    Fin.ext (by simp only [bitsIn]; omega)
  rw [keyAt, keyAt, strides, left, take_length_add_append]
  rw [getD_eq_getElem?_getD, getElem?_append_right (Nat.le_add_right _ _),
    Nat.add_sub_cancel_left, getD_eq_getElem?_getD]

variable {family : Family}

theorem size_le_maxDepth : family.size ≤ maxDepth := by cases family <;> decide

theorem newAssert_truncated {addr : IpAddr} {len : Nat} (family' : addr.family = family)
    (made : addr.octets = octets) (bounded : len ≤ 8 * family.size)
    (truncated : truncate len octets = octets) :
    ∃ net, newAssert addr len = .ok net ∧ (labels family).Proper net ∧
      key net = keyAt octets len := by
  have bounded' : len ≤ 8 * addr.family.size := by rwa [family']
  have octets' : (addr.truncate len).octets = addr.octets := by
    show truncate len addr.octets = addr.octets
    rw [made, truncated]
  have same : addr.truncate len = addr := IpAddr.ext rfl octets'
  refine ⟨⟨addr, len, bounded'⟩, ?_, ⟨family', IpNet.ext same rfl⟩, ?_⟩
  · rw [newAssert, dif_pos bounded']
  · rw [key, made]

theorem truncate_replicate (bits count : Nat) :
    truncate bits (replicate count 0) = replicate count 0 := by
  induction count generalizing bits with
  | zero => rfl
  | succ count ih =>
    have zero : keepBits bits 0 = 0 := by
      rw [← UInt8.toNat_inj, Net.toNat_keepBits]
      simp
    rw [replicate_succ, truncate, zero, ih]

theorem prefixFromPath_eq (sized : octets.length = family.size) (inside : depth < family.size)
    (index : BaseIndex) :
    ∃ net, prefixFromPath octets depth family index = .ok net ∧ (labels family).Proper net ∧
      key net = (octets.take depth, index) := by
  have limit : family.size ≤ maxDepth := size_le_maxDepth
  have short := index.bits_le
  obtain ⟨kept, same⟩ := index.fromPrefix_toPrefix
  have length : (octets.take depth).length = depth := by
    rw [length_take]
    omega
  have front : (octets.take depth ++ [index.toPrefix.1]).length = depth + 1 := by simp [length]
  have path : ((octets.take depth).takeD maxDepth 0).set depth index.toPrefix.1 =
      (octets.take depth ++ [index.toPrefix.1]) ++ replicate (maxDepth - (depth + 1)) 0 := by
    have padded := takeD_append_replicate maxDepth 0 (octets.take depth) (0 : UInt8) (by omega)
    rw [replicate_zero, append_nil, length] at padded
    have more : maxDepth - depth = maxDepth - (depth + 1) + 1 := by omega
    rw [padded, set_append_right _ _ (by omega), length, Nat.sub_self, more,
      replicate_succ, set_cons_zero, append_assoc, singleton_append]
  have addr : (ipFromPath (((octets.take depth).takeD maxDepth 0).set depth index.toPrefix.1)
      family).octets =
      octets.take depth ++ index.toPrefix.1 :: replicate (family.size - (depth + 1)) 0 := by
    show takeD family.size _ 0 = _
    rw [path, takeD_append_replicate _ _ _ _ (by omega), front, append_assoc,
      singleton_append]
  have len : depth * 8 + index.bits = 8 * (octets.take depth).length + index.bits := by
    rw [length, Nat.mul_comm]
  have bounded : depth * 8 + index.bits ≤ 8 * family.size := by omega
  rw [prefixFromPath, Nat.mod_eq_of_lt (by omega)]
  obtain ⟨net, made, proper, isKey⟩ := newAssert_truncated rfl addr bounded (by
    rw [len, truncate_append, truncate, kept, Nat.sub_eq_zero_of_le (by omega),
      truncate_replicate])
  refine ⟨net, made, proper, ?_⟩
  have ends := keyAt_short index.toPrefix.1 (replicate (family.size - (depth + 1)) 0)
    ⟨index.bits, Nat.lt_succ_of_le short⟩
  rw [isKey, len, keyAt_append, ends, same, append_nil]

theorem keyAt_full (octets : List UInt8) (depth : Nat) :
    keyAt octets (8 * depth) = (octets.take depth, one) := by
  have strides : 8 * depth / 8 = depth := by omega
  have none : bitsIn (8 * depth) = 0 := Fin.ext (by simp [bitsIn])
  rw [keyAt, strides, none, fromPrefix_zero]

theorem keyAt_zero (octets : List UInt8) : keyAt octets 0 = ([], one) :=
  keyAt_full octets 0

theorem fringePrefix_eq (sized : octets.length = family.size) (inside : depth < family.size)
    (octet : UInt8) :
    ∃ net, fringePrefix octets depth family octet = .ok net ∧ (labels family).Proper net ∧
      key net = (octets.take depth ++ [octet], one) := by
  have limit : family.size ≤ maxDepth := size_le_maxDepth
  have front : (octets.take depth ++ [octet]).length = depth + 1 := by
    rw [length_append, length_take, length_singleton]
    omega
  have padded := takeD_append_replicate family.size 0 (octets.take depth ++ [octet]) (0 : UInt8)
    (by omega)
  rw [replicate_zero, append_nil, front] at padded
  have addr : (ipFromPath (octets.takeD depth 0 ++ [octet]) family).octets =
      (octets.take depth ++ [octet]) ++ replicate (family.size - (depth + 1)) 0 := by
    have whole : octets.takeD depth 0 = octets.take depth := takeD_eq_take 0 (by omega)
    rw [whole]
    exact padded
  have len : (depth + 1) * 8 = 8 * (octets.take depth ++ [octet]).length + 0 := by
    omega
  have bounded : (depth + 1) * 8 ≤ 8 * family.size := by omega
  rw [fringePrefix, Nat.mod_eq_of_lt (by omega)]
  obtain ⟨net, made, proper, isKey⟩ := newAssert_truncated rfl addr bounded (by
    rw [len, truncate_append, truncate_replicate])
  refine ⟨net, made, proper, ?_⟩
  rw [isKey, len, keyAt_append, keyAt_zero, append_nil]

open Function
open Net (Family IpAddr IpNet)
open StrideTrie (Canonical Crowded Sole Vacant AgreeBelow)

variable {α : Type} {family : Family} {values : List UInt8 × BaseIndex → Option α} {height : Nat}
  {path : List UInt8} {octet : UInt8} {node : Node α} {net : IpNet}

theorem childFits_single {inner : Node α → Prop} (proper : (labels family).Proper net) {val : α}
    (sole : Sole values (path ++ [octet]) (key net) val) :
    StrideTrie.ChildFits (labels family) values inner (path ++ [octet])
      (some (if key net = (path ++ [octet], one) then .fringe val else .leaf net val)) := by
  by_cases fringe : key net = (path ++ [octet], one)
  · rw [if_pos fringe]
    rw [fringe] at sole
    exact sole
  · rw [if_neg fringe]
    exact ⟨proper, fringe, sole⟩

theorem canonical_blank (family : Family) (height : Nat) (path : List UInt8) :
    Canonical (labels family) (fun _ => (none : Option α)) (height + 1) path
      StrideTrie.Node.empty :=
  StrideTrie.canonical_empty fun _ _ => rfl

theorem insertRounds_descend {rounds : Nat} {val : α} {next next' : Node α}
    {known : List UInt8 × BaseIndex → Option α}
    (canonical : Canonical (labels family) values (height + 1) path node)
    (deeper : path ++ [octet] <+: (key net).1)
    (crowded : Crowded (update values (key net) (some val)) (path ++ [octet]))
    (agree : AgreeBelow (path ++ [octet]) known values)
    (ran : insertRounds rounds net val (path ++ [octet]).length next = .ok (next', known (key net)))
    (holds : Canonical (labels family) (update known (key net) (some val)) height
      (path ++ [octet]) next') :
    ∃ after, (do
        let (next, old) ← insertRounds rounds net val (path.length + 1) next
        return ((insertChild node octet (.path next)).1, old)) =
        Except.ok (after, values (key net)) ∧
      Canonical (labels family) (update values (key net) (some val)) (height + 1) path after := by
  rw [List.length_append, List.length_singleton] at ran
  rw [ran, agree (key net) deeper]
  exact ⟨_, rfl, canonical.setChild_update deeper
    ⟨crowded, holds.congr (agree.update (some val))⟩⟩

theorem insertRounds_canonical (rounds : Nat) (val : α) (proper : (labels family).Proper net)
    (below : path <+: (key net).1) (deep : path.length + height = family.size)
    (enough : height ≤ rounds) (canonical : Canonical (labels family) values height path node) :
    ∃ after, insertRounds rounds net val path.length node = .ok (after, values (key net)) ∧
      Canonical (labels family) (update values (key net) (some val)) height path after := by
  induction rounds generalizing values path height node net val with
  | zero =>
    rw [Nat.le_zero.mp enough] at canonical
    exact canonical.elim
  | succ rounds ih =>
    cases height with
    | zero => exact canonical.elim
    | succ height =>
      have inside : path.length < net.addr.family.size := by
        rw [proper.1]
        omega
      obtain ⟨octet, found, ends, further⟩ := key_step below inside
      rw [insertRounds, found]
      dsimp only
      by_cases last : path.length = strideCount net
      · rw [if_pos last, ends last, ← canonical.1]
        exact ⟨_, rfl, canonical.setPrefix _ (some val)⟩
      rw [if_neg last]
      have deeper := further last
      have step : (path ++ [octet]).length = path.length + 1 := by simp
      have fits := canonical.2 octet
      cases child : node.children octet with
      | none =>
        rw [child] at fits
        rw [isFringe_eq deeper]
        have sole := Vacant.insert fits deeper val
        refine ⟨_, ?_, canonical.setChild_update deeper (childFits_single proper sole)⟩
        rw [fits (key net) deeper]
        simp only [ok_bind, insertChild, child, decide_eq_true_eq]
        rfl
      | some child' =>
        rw [child] at fits
        cases child' with
        | path next =>
          obtain ⟨next', ran, holds⟩ := ih val proper deeper (by omega) (by omega) fits.2
          exact insertRounds_descend canonical deeper (fits.1.insert (key net) val)
            (fun _ _ => rfl) ran holds
        | fringe old =>
          have sole : Sole values (path ++ [octet]) (path ++ [octet], one) old :=
            fits
          dsimp only
          rw [isFringe_eq deeper, ok_bind]
          by_cases fringe : key net = (path ++ [octet], one)
          · rw [if_pos (decide_eq_true fringe), fringe, sole.holds]
            exact ⟨_, rfl, canonical.setChild_update sole.below (sole.replace val)⟩
          · rw [if_neg (by simpa using fringe)]
            cases height with
            | zero => exact absurd (key_last deeper (by rw [proper.1]; omega)) fringe
            | succ height =>
              have single := (canonical_blank family height (path ++ [octet])).setPrefix
                one (some old)
              obtain ⟨next', ran, holds⟩ :=
                ih val proper deeper (by omega) (by omega) single
              exact insertRounds_descend canonical deeper
                (sole.insert deeper fringe val) sole.agreeBelow ran holds
        | leaf leafPrefix leafValue =>
          have proper' : (labels family).Proper leafPrefix := fits.1
          have notFringe : key leafPrefix ≠ (path ++ [octet], one) := fits.2.1
          have sole : Sole values (path ++ [octet]) (key leafPrefix) leafValue := fits.2.2
          dsimp only
          by_cases same : net = leafPrefix
          · rw [if_pos same, same, sole.holds]
            exact ⟨_, rfl, canonical.setChild_update sole.below
              ⟨proper', notFringe, sole.replace val⟩⟩
          · rw [if_neg same]
            have different : key net ≠ key leafPrefix := fun again =>
              same ((labels family).injective net leafPrefix proper proper' again)
            cases height with
            | zero =>
              exact absurd (key_last sole.below (by rw [proper'.1]; omega)) notFringe
            | succ height =>
              have blank := canonical_blank (α := α) family height (path ++ [octet])
              obtain ⟨fresh, made, single⟩ :=
                ih leafValue proper' sole.below (by omega) (by omega) blank
              rw [step] at made
              rw [made, ok_bind]
              obtain ⟨next', ran, holds⟩ :=
                ih val proper deeper (by omega) (by omega) single
              exact insertRounds_descend canonical deeper
                (sole.insert deeper different val) sole.agreeBelow ran holds

theorem insert_canonical {val : α} (same : net.addr.family = family)
    (canonical : Canonical (labels family) values family.size [] node) :
    ∃ after, insert node net val = .ok (after, values (key net)) ∧
      Canonical (labels family) (update values (key net) (some val)) family.size [] after := by
  have proper : (labels family).Proper net.trunc := ⟨same, net.truncated_trunc⟩
  have limit : family.size ≤ maxDepth := by cases family <;> decide
  obtain ⟨after, ran, held⟩ := insertRounds_canonical maxDepth val proper List.nil_prefix
    (by simp) limit canonical
  rw [key_trunc] at ran held
  exact ⟨after, ran, held⟩

end TailscaleRs.Bart
