import TailscaleRs.Bart.Lookup
import TailscaleRs.Bart.Modify
import TailscaleRs.Filter.Rule

namespace TailscaleRs.Filter

open Function List PortPrefix
open Bart (BaseIndex lpm Modifier bitsIn)
open PortPrefixIter (collect)

theorem toPrefix_fromPrefix (octet : UInt8) (bits : Fin 8) :
    (BaseIndex.fromPrefix octet bits).toPrefix = (Net.keepBits bits.val octet, bits.val) := by
  have small := BaseIndex.high_lt octet bits
  have rest : (BaseIndex.fromPrefix octet bits).get % 2 ^ bits.val =
      octet.toNat / 2 ^ (8 - bits.val) := by
    rw [BaseIndex.get_fromPrefix, Nat.add_mod_right, Nat.mod_eq_of_lt small]
  rw [BaseIndex.toPrefix, BaseIndex.bits_fromPrefix, rest]
  rfl

theorem mem_lpm (first octet : UInt8) (bits : Fin 8) :
    BaseIndex.fromPrefix first bits ∈ lpm (BaseIndex.fromPfx7 octet) ↔
      first.toNat / 2 ^ (8 - bits.val) = octet.toNat / 2 ^ (8 - bits.val) := by
  have whole : bitsIn bits.val = bits := Fin.ext (Nat.mod_eq_of_lt bits.isLt)
  rw [BaseIndex.fromPfx7, Bart.lpm_fromPrefix, mem_map, ← Net.keepBits_eq_iff,
    ← BaseIndex.fromPrefix_eq_iff]
  constructor
  · rintro ⟨len, range, same⟩
    have length := congrArg BaseIndex.bits same
    rw [BaseIndex.bits_fromPrefix, BaseIndex.bits_fromPrefix] at length
    have is : bitsIn len = bits := Fin.ext length
    rw [← same, is]
  · intro same
    refine ⟨bits.val, (Bart.mem_downTo).mpr ⟨Nat.zero_le _, Nat.le_of_lt_succ bits.isLt⟩, ?_⟩
    rw [whole, same]

theorem toNat_upperByte {port : Nat} (bound : port < 65536) :
    (upperByte port).toNat = port / 256 := by
  rw [upperByte, UInt8.toNat_ofNat', Nat.mod_eq_of_lt (by omega)]

theorem toNat_lowerByte (port : Nat) : (lowerByte port).toNat = port % 256 := by
  rw [lowerByte, UInt8.toNat_ofNat', Nat.mod_eq_of_lt (by omega)]

theorem div_eq_div_iff_bytes {first second width rest : Nat} (split : 256 = width * rest) :
    first / 256 = second / 256 ∧ first % 256 / width = second % 256 / width ↔
      first / width = second / width := by
  rw [split, Nat.mod_mul_right_div_self, Nat.mod_mul_right_div_self, ← Nat.div_div_eq_div_mul,
    ← Nat.div_div_eq_div_mul]
  constructor
  · rintro ⟨high, low⟩
    rw [← Nat.div_add_mod (first / width) rest, high, low, Nat.div_add_mod]
  · intro same
    rw [same]
    exact ⟨rfl, rfl⟩

def lookupKeys (port : Nat) : List PortPrefix :=
  (lpm (BaseIndex.fromPfx7 (upperByte port))).reverse.map .topPrefix ++
    (lpm (BaseIndex.fromPfx7 (lowerByte port))).reverse.map (.childPrefix (upperByte port)) ++
    [.singleton port]

theorem mem_lookupKeys {first port len : Nat} (bound : first < 65536) (bound' : port < 65536)
    (short : len ≤ 16) :
    fromPfx first len ∈ lookupKeys port ↔
      first / 2 ^ (16 - len) = port / 2 ^ (16 - len) := by
  rw [lookupKeys, mem_append, mem_append, mem_singleton, mem_map, mem_map, fromPfx]
  by_cases top : len < 8
  · have split : 2 ^ (16 - len) = 256 * 2 ^ (8 - len) := by
      rw [show 256 = 2 ^ 8 from rfl, ← Nat.pow_add]
      congr 1
      omega
    rw [dif_pos top, split, ← Nat.div_div_eq_div_mul, ← Nat.div_div_eq_div_mul,
      ← toNat_upperByte bound, ← toNat_upperByte bound']
    simp [mem_lpm]
  · by_cases child : len - 8 < 8
    · have width : 8 - (len - 8) = 16 - len := by omega
      have split : 256 = 2 ^ (16 - len) * 2 ^ (len - 8) := by
        rw [← Nat.pow_add, show 16 - len + (len - 8) = 8 by omega]
      rw [dif_neg top, dif_pos child]
      simp only [childPrefix.injEq, reduceCtorEq, and_false, exists_false, false_or,
        or_false, mem_reverse]
      rw [← div_eq_div_iff_bytes split, ← toNat_upperByte bound, ← toNat_upperByte bound',
        ← toNat_lowerByte, ← toNat_lowerByte, UInt8.toNat_inj]
      constructor
      · rintro ⟨index, covers, same, rfl⟩
        rw [mem_lpm, width] at covers
        exact ⟨same.symm, covers⟩
      · rintro ⟨same, low⟩
        refine ⟨_, ?_, same.symm, rfl⟩
        rw [mem_lpm, width]
        exact low
    · have all : len = 16 := by omega
      rw [dif_neg top, dif_neg child, all]
      simp

theorem prefixForm_fromPfx {first len : Nat} (bound : first < 65536) (short : len ≤ 16) :
    (fromPfx first len).prefixForm = (first / 2 ^ (16 - len) * 2 ^ (16 - len), len) := by
  rw [fromPfx]
  by_cases top : len < 8
  · have split : 2 ^ (16 - len) = 256 * 2 ^ (8 - len) := by
      rw [show 256 = 2 ^ 8 from rfl, ← Nat.pow_add]
      congr 1
      omega
    rw [dif_pos top, prefixForm, toPrefix_fromPrefix]
    rw [Net.toNat_keepBits, toNat_upperByte bound, split, ← Nat.div_div_eq_div_mul, Nat.mul_assoc,
      Nat.mul_comm (2 ^ (8 - len))]
  · by_cases child : len - 8 < 8
    · have width : 8 - (len - 8) = 16 - len := by omega
      have length : 8 + (len - 8) = len := by omega
      have split : 256 = 2 ^ (16 - len) * 2 ^ (len - 8) := by
        rw [← Nat.pow_add, show 16 - len + (len - 8) = 8 by omega]
      rw [dif_neg top, dif_pos child, prefixForm, toPrefix_fromPrefix]
      rw [Net.toNat_keepBits, toNat_upperByte bound, toNat_lowerByte, width, length]
      generalize 2 ^ (16 - len) = width at split
      generalize 2 ^ (len - 8) = rest at split
      rw [split, Nat.mod_mul_right_div_self, ← Nat.div_div_eq_div_mul, Nat.mul_comm width rest,
        ← Nat.mul_assoc, ← Nat.add_mul, Nat.mul_comm _ rest, Nat.div_add_mod]
    · have all : len = 16 := by omega
      rw [dif_neg top, dif_neg child, all]
      simp [prefixForm]

theorem last_fromPfx {first len : Nat} (bound : first < 65536) (short : len ≤ 16) :
    (fromPfx first len).last =
      first / 2 ^ (16 - len) * 2 ^ (16 - len) + (2 ^ (16 - len) - 1) := by
  have whole : 2 ^ len * 2 ^ (16 - len) = 65536 := by
    rw [← Nat.pow_add, Nat.add_sub_cancel' short]
  have positive := Nat.two_pow_pos (16 - len)
  rw [last, prefixForm_fromPfx bound short]
  dsimp only
  by_cases none : len = 0
  · have zero : first / 2 ^ 16 = 0 := Nat.div_eq_of_lt bound
    rw [if_pos none, none, Nat.sub_zero, zero]
    rfl
  · have half : 0x8000 / 2 ^ (len - 1) = 2 ^ (16 - len) := by
      rw [show 0x8000 = 2 ^ 15 from rfl, Nat.pow_div (by omega) Nat.two_pos]
      congr 1
      omega
    have block : first / 2 ^ (16 - len) < 2 ^ len := by
      rw [Nat.div_lt_iff_lt_mul positive, whole]
      exact bound
    have ends : (first / 2 ^ (16 - len) + 1) * 2 ^ (16 - len) ≤ 65536 := by
      rw [← whole]
      exact Nat.mul_le_mul_right _ block
    rw [Nat.add_mul, Nat.one_mul] at ends
    rw [if_neg none, half, Nat.min_eq_right]
    omega

section Ranges

theorem trailingZeros_spec {x : Nat} :
    trailingZeros x ≤ 16 ∧ 2 ^ trailingZeros x ∣ x ∧ (trailingZeros x = 0 → x % 2 = 1) := by
  have zeros : ∀ n, (∀ j < n, x.testBit j = false) → 2 ^ n ∣ x := by
    intro n clear
    apply Nat.dvd_of_mod_eq_zero
    apply Nat.eq_of_testBit_eq
    intro j
    rw [Nat.testBit_mod_two_pow, Nat.zero_testBit]
    by_cases below : j < n
    · rw [clear j below, Bool.and_false]
    · rw [decide_eq_false below, Bool.false_and]
  rw [trailingZeros]
  cases found : (range 16).find? x.testBit with
  | none =>
    rw [find?_range_eq_none] at found
    refine ⟨Nat.le_refl _, zeros 16 fun j below => by simpa using found j below, ?_⟩
    intro impossible
    cases impossible
  | some i =>
    rw [find?_range_eq_some] at found
    obtain ⟨lowest, member, below⟩ := found
    have short := mem_range.mp member
    refine ⟨Nat.le_of_lt short, zeros i fun j before => by simpa using below j before, ?_⟩
    intro first
    rw [Option.getD_some] at first
    rw [first, Nat.testBit_zero] at lowest
    simpa using lowest

variable {iter : PortPrefixIter}

theorem collect_done {rounds : Nat} (done : iter.stop < iter.start) :
    iter.collect rounds = [] := by
  cases rounds with
  | zero => rfl
  | succ rounds =>
    rw [collect, PortPrefixIter.next, if_neg (by omega), if_neg (by omega)]

theorem div_eq_iff_block {width first port : Nat} (positive : 0 < width) (aligned : width ∣ first) :
    first / width = port / width ↔ first ≤ port ∧ port < first + width := by
  obtain ⟨k, rfl⟩ := aligned
  rw [Nat.mul_div_cancel_left k positive, eq_comm, Nat.div_eq_iff positive]
  rw [Nat.mul_comm k width]
  omega

/-- A prefix is read for the ports of its range. -/
def PortPrefix.IsRead (p : PortPrefix) : Prop :=
  ∀ port < 65536, p ∈ lookupKeys port ↔ p.start ≤ port ∧ port ≤ p.last

/-- One call yields a prefix for the first ports that are left, and leaves the others. -/
theorem next_covers (bound : iter.stop < 65536) (narrow : iter.stop - iter.start + 1 < 65535)
    (more : iter.start ≤ iter.stop) :
    ∃ p rest, iter.next = some (p, rest) ∧ p.start = iter.start ∧ p.start ≤ p.last ∧
      p.last ≤ iter.stop ∧ p.IsRead ∧
      (rest = ⟨p.last + 1, iter.stop⟩ ∨ rest.stop < rest.start ∧ p.last = iter.stop) := by
  rw [PortPrefixIter.next]
  by_cases one : iter.start = iter.stop
  · have last : (singleton iter.start).last = iter.start := by
      rw [last, prefixForm]
      simp
      omega
    rw [if_neg (by omega), if_pos one]
    refine ⟨_, _, rfl, rfl, last.ge, by omega, fun port below => ?_, .inr ⟨by decide, by omega⟩⟩
    rw [last]
    simp [lookupKeys, start, prefixForm]
    omega
  · have range : min 65535 (iter.stop - iter.start + 1) = iter.stop - iter.start + 1 := by
      omega
    obtain ⟨zeros, aligned, odd⟩ := trailingZeros_spec
    have logLe : 2 ^ (iter.stop - iter.start + 1).log2 ≤ iter.stop - iter.start + 1 :=
      Nat.log2_self_le (by omega)
    have logPos : 1 ≤ (iter.stop - iter.start + 1).log2 := by
      rw [Nat.le_log2 (by omega)]
      omega
    rw [if_pos (by omega), range, if_neg (by omega)]
    dsimp only
    generalize (iter.stop - iter.start + 1).log2 = wide at logLe logPos
    generalize trailingZeros iter.start = low at zeros aligned odd
    have length : 16 - (16 - min wide low) = min wide low := by omega
    have aligned' : 2 ^ min wide low ∣ iter.start :=
      (Nat.pow_dvd_pow 2 (Nat.min_le_right wide low)).trans aligned
    have fits : 2 ^ min wide low ≤ iter.stop - iter.start + 1 :=
      (Nat.pow_le_pow_right Nat.two_pos (Nat.min_le_left wide low)).trans logLe
    have positive := Nat.two_pow_pos (min wide low)
    have starts := congrArg Prod.fst (prefixForm_fromPfx (show iter.start < 65536 by omega)
      (show 16 - min wide low ≤ 16 by omega))
    have ends := last_fromPfx (show iter.start < 65536 by omega)
      (show 16 - min wide low ≤ 16 by omega)
    rw [length, Nat.div_mul_cancel aligned'] at starts ends
    -- a start of `u16::MAX` comes from saturation only, so nothing is cut off
    have past_end : iter.start + 2 ^ min wide low ≠ 65535 := by
      intro ends
      have single : min wide low = 0 := by
        by_contra many
        have even : 2 ∣ 2 ^ min wide low := dvd_pow_self 2 many
        have even' := even.trans aligned'
        omega
      rw [single] at ends
      omega
    refine ⟨_, _, rfl, starts, ?_, ?_, ?_, ?_⟩
    · rw [start, starts, ends]
      exact Nat.le_add_right _ _
    · rw [ends]
      omega
    · intro port below
      rw [start, starts, ends, mem_lookupKeys (by omega) below (by omega), length,
        div_eq_iff_block positive aligned']
      omega
    · rw [ends]
      by_cases last : min 65535 (iter.start + (2 ^ min wide low - 1) + 1) = 65535
      · rw [if_pos last]
        exact .inr ⟨by dsimp only; omega, by omega⟩
      · rw [if_neg last, Nat.min_eq_right (by omega)]
        exact .inl rfl

theorem collect_covers {rounds : Nat} (bound : iter.stop < 65536)
    (narrow : iter.stop - iter.start + 1 < 65535) (enough : iter.stop + 1 - iter.start ≤ rounds)
    {port : Nat} (bound' : port < 65536) :
    (∃ p ∈ iter.collect rounds, p ∈ lookupKeys port) ↔ iter.start ≤ port ∧ port ≤ iter.stop := by
  induction rounds generalizing iter with
  | zero =>
    rw [collect]
    simp
    omega
  | succ rounds ih =>
    by_cases more : iter.start ≤ iter.stop
    · obtain ⟨p, rest, next, first, lower, upper, reads, left⟩ := next_covers bound narrow more
      rw [collect, next]
      dsimp only
      rw [exists_mem_cons_iff, reads port bound', first]
      rcases left with rfl | ⟨done, last⟩
      · rw [@ih ⟨p.last + 1, iter.stop⟩ bound (by dsimp only; omega) (by dsimp only; omega)]
        dsimp only
        omega
      · rw [collect_done done, last]
        simp
    · rw [collect_done (by omega)]
      simp
      omega

theorem collect_increasing (rounds : Nat) (bound : iter.stop < 65536)
    (narrow : iter.stop - iter.start + 1 < 65535) :
    (∀ p ∈ iter.collect rounds, iter.start ≤ p.start ∧ p.IsRead) ∧
      (iter.collect rounds).Pairwise fun p q => p.last < q.start := by
  induction rounds generalizing iter with
  | zero => exact ⟨forall_mem_nil _, .nil⟩
  | succ rounds ih =>
    by_cases more : iter.start ≤ iter.stop
    · obtain ⟨p, rest, next, first, lower, upper, reads, left⟩ := next_covers bound narrow more
      rw [collect, next]
      dsimp only
      rw [forall_mem_cons, pairwise_cons]
      rcases left with rfl | ⟨done, last⟩
      · obtain ⟨later, increasing⟩ := @ih ⟨p.last + 1, iter.stop⟩ bound (by dsimp only; omega)
        refine ⟨⟨⟨first.ge, reads⟩, fun q member => ?_⟩, fun q member => ?_, increasing⟩
        · exact ⟨by have := (later q member).1; dsimp only at this; omega, (later q member).2⟩
        · exact (later q member).1
      · rw [collect_done done]
        exact ⟨⟨⟨first.ge, reads⟩, forall_mem_nil _⟩, forall_mem_nil _, .nil⟩
    · rw [collect_done (by omega)]
      exact ⟨forall_mem_nil _, .nil⟩

variable (ports : PortRange)

/-- The ranges with all ports but one, whose length saturates to that of all ports. -/
def PortRange.Saturates : Prop := ports = ⟨0, 65534⟩ ∨ ports = ⟨1, 65535⟩

instance PortRange.saturatesDecidable (ports : PortRange) : Decidable ports.Saturates :=
  inferInstanceAs (Decidable (_ ∨ _))

variable {ports}

theorem all_mem_lookupKeys {port : Nat} (below : port < 65536) :
    fromPfx 0 0 ∈ lookupKeys port := by
  rw [mem_lookupKeys (by decide) below (by decide)]
  exact (Nat.div_eq_of_lt below).symm

/-- The iterator takes a range for all ports when its length saturates. -/
theorem iterPrefixes_wide {ports : PortRange}
    (wide : ¬ ports.stop.toNat - ports.start.toNat + 1 < 65535) :
    iterPrefixes ports = [.fromPfx 0 0] := by
  have bound := ports.stop.toNat_lt
  rw [iterPrefixes, collect, PortPrefixIter.next, if_pos (by dsimp only; omega),
    if_pos (by dsimp only; omega)]
  dsimp only
  rw [collect_done (by decide)]

theorem iterPrefixes_covers {port : UInt16} :
    (∃ p ∈ iterPrefixes ports, p ∈ lookupKeys port.toNat) ↔
      ports.Saturates ∨ ports.contains port = true := by
  have bound := ports.stop.toNat_lt
  have bound' := port.toNat_lt
  have within : ports.contains port = true ↔
      ports.start.toNat ≤ port.toNat ∧ port.toNat ≤ ports.stop.toNat := by
    rw [PortRange.contains, Bool.and_eq_true, decide_eq_true_eq, decide_eq_true_eq,
      UInt16.le_iff_toNat_le, UInt16.le_iff_toNat_le]
  have saturates : ports.Saturates ↔
      ports.start.toNat = 0 ∧ ports.stop.toNat = 65534 ∨
        ports.start.toNat = 1 ∧ ports.stop.toNat = 65535 := by
    have ends : ∀ a b : UInt16, ports = ⟨a, b⟩ ↔
        ports.start.toNat = a.toNat ∧ ports.stop.toNat = b.toNat := by
      intro a b
      rw [UInt16.toNat_inj, UInt16.toNat_inj]
      exact PortRange.mk.injEq .. ▸ Iff.rfl
    rw [PortRange.Saturates, ends, ends]
    rfl
  rw [within, saturates]
  by_cases narrow : ports.stop.toNat - ports.start.toNat + 1 < 65535
  · have covers : (∃ p ∈ iterPrefixes ports, p ∈ lookupKeys port.toNat) ↔
        ports.start.toNat ≤ port.toNat ∧ port.toNat ≤ ports.stop.toNat :=
      collect_covers bound narrow (by dsimp only; omega) bound'
    rw [covers]
    omega
  · rw [iterPrefixes_wide narrow]
    simp only [exists_mem_cons_iff, all_mem_lookupKeys bound', true_or, true_iff]
    omega

theorem iterPrefixes_increasing :
    (∀ p ∈ iterPrefixes ports, p.IsRead) ∧
      (iterPrefixes ports).Pairwise fun p q => p.last < q.start := by
  by_cases narrow : ports.stop.toNat - ports.start.toNat + 1 < 65535
  · obtain ⟨reads, increasing⟩ := @collect_increasing ⟨ports.start.toNat, ports.stop.toNat⟩ 65536
      ports.stop.toNat_lt narrow
    exact ⟨fun p member => (reads p member).2, increasing⟩
  · have last : (fromPfx 0 0).last = 65535 := by decide
    rw [iterPrefixes_wide narrow, forall_mem_singleton]
    refine ⟨fun port below => iff_of_true (all_mem_lookupKeys below) ⟨Nat.zero_le _, ?_⟩,
      pairwise_singleton _ _⟩
    omega

end Ranges

variable {α : Type} (trie : PortTrie α)

def PortTrie.get : PortPrefix → Option α
  | .topPrefix index => trie.prefixes index
  | .childPrefix hi lo => (trie.children hi).bind fun child => child lo
  | .singleton port => trie.singletons port

theorem PortTrie.get_empty : (PortTrie.empty : PortTrie α).get = fun _ => none := by
  funext p
  cases p <;> rfl

theorem decide_eq {κ : Type} [DecidableEq κ] (entries : κ → Option α) (key : κ) (f : Modifier α) :
    PortTrie.decide entries key f = update entries key (f.effect (entries key)).1 := by
  rw [PortTrie.decide]
  cases old : entries key with
  | none =>
    rw [Modifier.effect]
    cases f.absent with
    | noop => exact (update_eq_self_iff.mpr old.symm).symm
    | insert value => rfl
    | remove => rfl
  | some value =>
    rw [Modifier.effect]
    dsimp only
    cases f.present value with
    | mk changed decided => cases decided <;> rfl

theorem get_modifyPrefix (p : PortPrefix) (f : Modifier α) :
    (trie.modifyPrefix f p).get = update trie.get p (f.effect (trie.get p)).1 := by
  funext other
  cases p with
  | topPrefix index =>
    rw [PortTrie.modifyPrefix, decide_eq]
    cases other <;> simp [PortTrie.get, update_apply]
  | singleton port =>
    rw [PortTrie.modifyPrefix, decide_eq]
    cases other <;> simp [PortTrie.get, update_apply]
  | childPrefix hi lo =>
    rw [PortTrie.modifyPrefix]
    cases held : trie.children hi with
    | none =>
      have absent : trie.get (.childPrefix hi lo) = none := by simp [PortTrie.get, held]
      rw [absent, Modifier.effect]
      cases f.absent with
      | insert value =>
        cases other with
        | childPrefix hi' lo' =>
          by_cases same : hi' = hi
          · subst same
            simp [PortTrie.get, update_apply, held]
          · simp [PortTrie.get, update_of_ne, same]
        | topPrefix index => simp [PortTrie.get]
        | singleton port => simp [PortTrie.get]
      | noop => rw [update_eq_self_iff.mpr absent.symm]
      | remove => rw [update_eq_self_iff.mpr absent.symm]
    | some child =>
      have present : trie.get (.childPrefix hi lo) = child lo := by simp [PortTrie.get, held]
      dsimp only
      rw [decide_eq, present]
      cases other with
      | childPrefix hi' lo' =>
        by_cases same : hi' = hi
        · subst same
          simp [PortTrie.get, update_apply, held]
        · simp [PortTrie.get, update_of_ne, same]
      | topPrefix index => simp [PortTrie.get]
      | singleton port => simp [PortTrie.get]

theorem lookup_eq (port : UInt16) :
    trie.lookup port = (lookupKeys port.toNat).filterMap trie.get := by
  rw [PortTrie.lookup, lookupKeys, filterMap_append, filterMap_append, filterMap_map, filterMap_map]
  have single : (trie.singletons port.toNat).toList =
      [singleton port.toNat].filterMap trie.get := by
    simp only [filterMap_cons, filterMap_nil, PortTrie.get]
    cases trie.singletons port.toNat <;> rfl
  refine congrArg₂ (· ++ ·) (congrArg₂ (· ++ ·) rfl ?_) single
  cases held : trie.children (upperByte port.toNat) with
  | none => simp [Function.comp_def, PortTrie.get, held]
  | some child => simp [Function.comp_def, PortTrie.get, held]

end TailscaleRs.Filter
