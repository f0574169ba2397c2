import TailscaleRs.Bart.Trie
import TailscaleRs.Lib.Except

namespace TailscaleRs.Bart

open List BaseIndex
open Net (Family IpAddr IpNet keepBits truncate)

namespace BaseIndex

variable (octet : UInt8) (bits : Fin 8)

theorem get_fromPrefix :
    (fromPrefix octet bits).get = octet.toNat / 2 ^ (8 - bits.val) + 2 ^ bits.val := rfl

theorem ext {first second : BaseIndex} (same : first.get = second.get) : first = second :=
  Subtype.ext (Fin.ext same)

theorem high_lt : octet.toNat / 2 ^ (8 - bits.val) < 2 ^ bits.val := by
  rw [Nat.div_lt_iff_lt_mul (Nat.two_pow_pos _), ← Nat.pow_add,
    Nat.add_sub_cancel' (Nat.le_of_lt bits.isLt)]
  exact octet.toNat_lt

@[simp] theorem bits_fromPrefix : (fromPrefix octet bits).bits = bits.val := by
  have short := high_lt octet bits
  rw [BaseIndex.bits, get_fromPrefix]
  have positive : 0 < 2 ^ bits.val := Nat.two_pow_pos _
  generalize octet.toNat / 2 ^ (8 - bits.val) = high at short
  rw [Nat.log2_eq_iff (by omega), Nat.pow_succ]
  omega

theorem fromPrefix_eq_iff (first second : UInt8) (bits : Fin 8) :
    fromPrefix first bits = fromPrefix second bits ↔
      keepBits bits.val first = keepBits bits.val second := by
  rw [Net.keepBits_eq_iff]
  constructor
  · intro same
    have value := congrArg get same
    exact Nat.add_right_cancel value
  · intro same
    apply ext
    rw [get_fromPrefix, get_fromPrefix, same]

@[simp] theorem fromPrefix_zero : fromPrefix octet 0 = one := by
  apply ext
  rw [get_fromPrefix]
  have small := octet.toNat_lt
  show octet.toNat / 256 + 1 = 1
  omega

theorem fromPrefix_eq_one : fromPrefix octet bits = one ↔ bits = 0 := by
  constructor
  · intro same
    have length := congrArg BaseIndex.bits same
    rw [bits_fromPrefix] at length
    exact Fin.ext length
  · intro zero
    rw [zero, fromPrefix_zero]

end BaseIndex

/-- The bits that a length leaves in its last octet. -/
def bitsIn (len : Nat) : Fin 8 := ⟨len % 8, Nat.mod_lt _ (by decide)⟩

variable (octets : List UInt8)

/-- Where the trie keeps the first `len` bits of an address: the full octets and the index of
the rest. -/
def keyAt (len : Nat) : List UInt8 × BaseIndex :=
  (octets.take (len / 8), fromPrefix (octets.getD (len / 8) 0) (bitsIn len))

def key (net : IpNet) : List UInt8 × BaseIndex := keyAt net.addr.octets net.prefixLen

theorem keyAt_cons (octet : UInt8) (rest : List UInt8) (len : Nat) (long : 8 ≤ len) :
    keyAt (octet :: rest) len = (octet :: (keyAt rest (len - 8)).1, (keyAt rest (len - 8)).2) := by
  have steps : len / 8 = (len - 8) / 8 + 1 := by omega
  have left : bitsIn len = bitsIn (len - 8) := Fin.ext (by simp only [bitsIn]; omega)
  rw [keyAt, keyAt, steps, left, take_succ_cons, getD_cons_succ]

theorem keyAt_short (octet : UInt8) (rest : List UInt8) (bits : Fin 8) :
    keyAt (octet :: rest) bits.val = ([], fromPrefix octet bits) := by
  have none : bits.val / 8 = 0 := Nat.div_eq_of_lt bits.isLt
  have left : bitsIn bits.val = bits := Fin.ext (Nat.mod_eq_of_lt bits.isLt)
  rw [keyAt, none, left, take_zero, getD_cons_zero]

theorem truncate_zero : truncate 0 octets = replicate octets.length 0 := by
  induction octets with
  | nil => rfl
  | cons octet rest ih =>
    have cleared : keepBits 0 octet = 0 := by
      rw [← UInt8.toNat_inj, Net.toNat_keepBits]
      have small := octet.toNat_lt
      show octet.toNat / 256 * 256 = 0
      omega
    rw [truncate, cleared, Nat.zero_sub, ih, length_cons, replicate_succ]

theorem truncate_eq_iff (len : Nat) (first second : List UInt8)
    (sized : first.length = second.length) (bounded : len ≤ 8 * first.length) :
    truncate len first = truncate len second ↔ keyAt first len = keyAt second len := by
  induction first generalizing len second with
  | nil =>
    cases second with
    | nil => simp
    | cons octet rest => cases sized
  | cons octet rest ih =>
    cases second with
    | nil => cases sized
    | cons octet' rest' =>
      have sized' : rest.length = rest'.length := Nat.succ.inj sized
      rw [length_cons] at bounded
      rw [truncate, truncate, cons.injEq]
      by_cases long : 8 ≤ len
      · have same : keepBits len octet = keepBits len octet' ↔ octet = octet' := by
          rw [Net.keepBits_eq_iff, Nat.sub_eq_zero_of_le long]
          simp only [pow_zero, Nat.div_one]
          exact UInt8.toNat_inj
        rw [same, ih (len - 8) rest' sized' (by omega), keyAt_cons octet rest len long,
          keyAt_cons octet' rest' len long]
        simp only [Prod.ext_iff, cons.injEq, and_assoc]
      · have zero : len - 8 = 0 := by omega
        have short := keyAt_short octet rest ⟨len, by omega⟩
        have short' := keyAt_short octet' rest' ⟨len, by omega⟩
        rw [zero, truncate_zero, truncate_zero, sized', short, short']
        simp only [and_true, Prod.mk.injEq, true_and]
        exact (fromPrefix_eq_iff octet octet' ⟨len, by omega⟩).symm

theorem length_strides (len : Nat) (bounded : len ≤ 8 * octets.length) :
    (keyAt octets len).1.length = len / 8 := by
  rw [keyAt, length_take, Nat.min_eq_left]
  omega

@[simp] theorem bits_keyAt (len : Nat) : (keyAt octets len).2.bits = len % 8 := bits_fromPrefix _ _

theorem len_of_keyAt_eq {first second : List UInt8} {len len' : Nat}
    (bounded : len ≤ 8 * first.length) (bounded' : len' ≤ 8 * second.length)
    (same : keyAt first len = keyAt second len') : len = len' := by
  have strides : (keyAt first len).1.length = (keyAt second len').1.length := by rw [same]
  have bits : (keyAt first len).2.bits = (keyAt second len').2.bits := by rw [same]
  rw [length_strides first len bounded, length_strides second len' bounded'] at strides
  rw [bits_keyAt, bits_keyAt] at bits
  omega

section Nets

variable (net : IpNet)

theorem bounded_octets : net.prefixLen ≤ 8 * net.addr.octets.length := by
  rw [net.addr.sized]
  exact net.bounded

@[simp] theorem length_key : (key net).1.length = strideCount net :=
  length_strides net.addr.octets net.prefixLen (bounded_octets net)

/-- An address lies in a network when its first bits are kept in the network's place. -/
theorem contains_iff {addr : IpAddr} :
    net.contains addr = true ↔
      addr.family = net.addr.family ∧ keyAt addr.octets net.prefixLen = key net := by
  rw [IpNet.contains, decide_eq_true_iff, IpAddr.truncate_eq_iff]
  apply and_congr_right
  intro family
  have sized : addr.octets.length = net.addr.octets.length := by
    rw [addr.sized, net.addr.sized, family]
  apply truncate_eq_iff net.prefixLen _ _ sized
  rw [sized]
  exact bounded_octets net

@[simp] theorem key_trunc : key net.trunc = key net := by
  have sized : (truncate net.prefixLen net.addr.octets).length = net.addr.octets.length :=
    Net.length_truncate _ _
  apply (truncate_eq_iff net.prefixLen _ _ sized _).mp
  · exact Net.truncate_idem
  · rw [sized]
    exact bounded_octets net

end Nets

theorem net_eq_of_key_eq {first second : IpNet} (family : first.addr.family = second.addr.family)
    (truncated : first.Truncated) (truncated' : second.Truncated) (same : key first = key second) :
    first = second := by
  have len : first.prefixLen = second.prefixLen :=
    len_of_keyAt_eq (bounded_octets first) (bounded_octets second) same
  have sized : first.addr.octets.length = second.addr.octets.length := by
    rw [first.addr.sized, second.addr.sized, family]
  have octets : truncate first.prefixLen first.addr.octets =
      truncate first.prefixLen second.addr.octets := by
    apply (truncate_eq_iff _ _ _ sized (bounded_octets first)).mpr
    rw [← key, same, key, len]
  rw [← truncated, ← truncated']
  have addr : first.trunc.addr = second.trunc.addr := by
    apply (IpAddr.truncate_eq_iff _ _ _ _).mpr
    rw [octets, len]
    exact ⟨family, rfl⟩
  exact IpNet.ext addr len

theorem strides_eq (net : IpNet) : (key net).1 = net.addr.octets.take (strideCount net) := rfl

variable {net : IpNet} {path : List UInt8}

/-- The octet that the walk along a prefix reads after a path, and where it leads. -/
theorem key_step (below : path <+: (key net).1) (inside : path.length < net.addr.family.size) :
    ∃ octet, net.addr.octets[path.length]? = some octet ∧
      (path.length = strideCount net → key net = (path, fromPrefix octet (overflowBits net))) ∧
      (path.length ≠ strideCount net → path ++ [octet] <+: (key net).1) := by
  have bound : path.length < net.addr.octets.length := by rwa [net.addr.sized]
  have isTake : path = net.addr.octets.take path.length :=
    prefix_iff_eq_take.mp (below.trans (List.take_prefix _ _))
  have found : net.addr.octets[path.length]? = some net.addr.octets[path.length] :=
    getElem?_eq_getElem bound
  refine ⟨net.addr.octets[path.length], found, ?_, ?_⟩
  · intro last
    apply Prod.ext
    · rw [strides_eq, ← last]
      exact isTake.symm
    · have read : net.addr.octets.getD (strideCount net) 0 = net.addr.octets[path.length] := by
        rw [← last, getD_eq_getElem?_getD, found, Option.getD_some]
      show fromPrefix (net.addr.octets.getD (strideCount net) 0) _ = _
      rw [read]
      rfl
  · intro further
    have longer : path.length + 1 ≤ strideCount net := by
      have bound := below.length_le
      rw [length_key] at bound
      omega
    have extended : path ++ [net.addr.octets[path.length]] =
        net.addr.octets.take (path.length + 1) := by
      rw [take_succ_eq_append_getElem bound, ← isTake]
    rw [extended, strides_eq]
    exact take_prefix_take_left longer

theorem isFringe_eq {octet : UInt8} (below : path ++ [octet] <+: (key net).1) :
    isFringe path.length net = .ok (decide (key net = (path ++ [octet], one))) := by
  have bound := below.length_le
  rw [length_append, length_singleton, length_key] at bound
  have ends : key net = (path ++ [octet], one) ↔
      path.length = strideCount net - 1 ∧ (overflowBits net).val = 0 := by
    have whole : (key net).1 = path ++ [octet] ↔ path.length = strideCount net - 1 := by
      constructor
      · intro same
        have length := congrArg length same
        rw [length_key, length_append, length_singleton] at length
        omega
      · intro length
        apply (below.eq_of_length _).symm
        rw [length_key, length_append, length_singleton]
        omega
    rw [Prod.ext_iff, whole]
    apply and_congr_right
    intro _
    exact (fromPrefix_eq_one _ _).trans Fin.ext_iff
  rw [isFringe, if_neg (by omega)]
  simp only [ends]

theorem key_last (below : path <+: (key net).1) (last : path.length = net.addr.family.size) :
    key net = (path, one) := by
  have bounded := net.bounded
  have length := below.length_le
  rw [length_key, strideCount] at length
  apply Prod.ext
  · apply (below.eq_of_length _).symm
    rw [length_key, strideCount]
    omega
  · apply (fromPrefix_eq_one _ _).mpr
    apply Fin.ext
    show net.prefixLen % 8 = 0
    omega

/-- Truncated prefixes of a family, by where a trie keeps them. -/
def labels (family : Family) : StrideTrie.Labels UInt8 BaseIndex IpNet where
  top := one
  Proper := fun net => net.addr.family = family ∧ net.Truncated
  keyOf := key
  injective := by
    rintro first second ⟨family, truncated⟩ ⟨family', truncated'⟩ same
    exact net_eq_of_key_eq (family.trans family'.symm) truncated truncated' same

end TailscaleRs.Bart
