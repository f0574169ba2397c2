import Mathlib.Data.List.Induction
import Mathlib.Data.Nat.Bitwise
import TailscaleRs.Tunnel.Types

namespace TailscaleRs.Tunnel

open List
open UInt64 (lt_iff_toNat_lt toNat_zero le_iff_toNat_le)

namespace ReplayWindow

variable (counter : UInt64)

theorem blockIdxUnbounded_toNat : (blockIdxUnbounded counter).toNat = counter.toNat / 64 := by
  rw [blockIdxUnbounded, UInt64.toNat_shiftRight, Nat.shiftRight_eq_div_pow]
  rfl

theorem and_127_toNat (n : UInt64) : (n &&& 127).toNat = n.toNat % 128 := by
  exact Nat.and_two_pow_sub_one_eq_mod n.toNat 7

theorem blockIdx_eq : blockIdx counter = counter.toNat / 64 % 128 := by
  rw [blockIdx, and_127_toNat, blockIdxUnbounded_toNat]

theorem bitMask_toNat : (bitMask counter).toNat = 2 ^ (counter.toNat % 64) := by
  have low : (counter &&& 63).toNat = counter.toNat % 64 := by
    exact Nat.and_two_pow_sub_one_eq_mod counter.toNat 6
  have small : counter.toNat % 64 < 64 := Nat.mod_lt _ (by decide)
  rw [bitMask, UInt64.toNat_shiftLeft, low, Nat.mod_eq_of_lt small, UInt64.toNat_one,
    Nat.one_shiftLeft]
  exact Nat.mod_eq_of_lt (Nat.pow_lt_pow_right (by decide) small)

variable (blocks : List UInt64)

def marked (counter : UInt64) : Bool :=
  (blocks.getD (blockIdx counter) 0).toNat.testBit (counter.toNat % 64)

theorem and_bitMask_eq_zero (block counter : UInt64) :
    block &&& bitMask counter = 0 ↔ block.toNat.testBit (counter.toNat % 64) = false := by
  rw [← UInt64.toNat_inj, UInt64.toNat_and, bitMask_toNat, Nat.and_two_pow, toNat_zero,
    Nat.mul_eq_zero]
  cases block.toNat.testBit (counter.toNat % 64) <;> simp

/-- A window that has a full ring, and in which exactly the seen counters are marked among those
that the ring has room for. -/
structure Records (w : ReplayWindow) (seen : List UInt64) : Prop where
  size : w.blocks.length = nBlocks
  highest : ∀ counter ∈ seen, counter ≤ w.last
  bits : ∀ counter : UInt64, counter.toNat / 64 ≤ w.last.toNat / 64 →
    w.last.toNat / 64 < counter.toNat / 64 + nBlocks →
    (marked w.blocks counter ↔ counter ∈ seen)

theorem getD_replicate_zero (size slot : Nat) : (replicate size (0 : UInt64)).getD slot 0 = 0 := by
  rw [getD_eq_getElem?_getD, getElem?_replicate]
  split <;> rfl

theorem default_records : default.Records [] where
  size := length_replicate
  highest _ member := nomatch member
  bits counter _ _ := by
    rw [marked, default, getD_replicate_zero, toNat_zero, Nat.zero_testBit]
    simp

theorem getD_set {slot other : Nat} (block : UInt64) (inside : slot < blocks.length) :
    (blocks.set slot block).getD other 0 = if slot = other then block else blocks.getD other 0 := by
  rw [getD_eq_getElem?_getD, getElem?_set, if_pos inside]
  split
  · rfl
  · rw [getD_eq_getElem?_getD]

theorem length_clear (slot : Nat → Nat) (count : Nat) :
    ((range count).foldl (fun blocks i => blocks.set (slot i) 0) blocks).length =
      blocks.length := by
  induction count with
  | zero => rfl
  | succ count ih =>
    rw [range_succ, foldl_append, foldl_cons, foldl_nil, length_set, ih]

theorem getD_clear (slot : Nat → Nat) (count other : Nat)
    (inside : ∀ i < count, slot i < blocks.length) :
    ((range count).foldl (fun blocks i => blocks.set (slot i) 0) blocks).getD other 0 =
      if ∃ i < count, slot i = other then 0 else blocks.getD other 0 := by
  induction count with
  | zero => simp
  | succ count ih =>
    have last : slot count < ((range count).foldl
        (fun blocks i => blocks.set (slot i) 0) blocks).length := by
      rw [length_clear]
      exact inside count (Nat.lt_succ_self count)
    rw [range_succ, foldl_append, foldl_cons, foldl_nil,
      getD_set _ _ last, ih (fun i below => inside i (Nat.lt_succ_of_lt below))]
    by_cases here : slot count = other
    · rw [if_pos here, if_pos ⟨count, Nat.lt_succ_self count, here⟩]
    · rw [if_neg here]
      refine if_congr ⟨fun ⟨i, below, same⟩ => ⟨i, Nat.lt_succ_of_lt below, same⟩, ?_⟩ rfl rfl
      rintro ⟨i, below, same⟩
      refine ⟨i, Nat.lt_of_le_of_ne (Nat.le_of_lt_succ below) ?_, same⟩
      rintro rfl
      exact here same

theorem delta_toNat {last counter : UInt64} (later : last < counter) :
    (blockIdxUnbounded counter - blockIdxUnbounded last).toNat =
      counter.toNat / 64 - last.toNat / 64 := by
  have order : last.toNat / 64 ≤ counter.toNat / 64 :=
    Nat.div_le_div_right (Nat.le_of_lt (lt_iff_toNat_lt.mp later))
  have below : blockIdxUnbounded last ≤ blockIdxUnbounded counter := by
    rw [le_iff_toNat_le, blockIdxUnbounded_toNat, blockIdxUnbounded_toNat]
    exact order
  rw [UInt64.toNat_sub_of_le _ _ below, blockIdxUnbounded_toNat, blockIdxUnbounded_toNat]

theorem clearedSlot_toNat (last : UInt64) (i : Nat) :
    ((blockIdxUnbounded last + UInt64.ofNat i + 1) &&& 127).toNat =
      (last.toNat / 64 + i + 1) % 128 := by
  rw [and_127_toNat, UInt64.toNat_add, UInt64.toNat_add, blockIdxUnbounded_toNat,
    UInt64.toNat_ofNat', UInt64.toNat_one]
  omega

section

variable {w : ReplayWindow} {seen : List UInt64}

theorem Records.not_seen (records : w.Records seen) {counter : UInt64}
    (later : w.last.toNat < counter.toNat) : counter ∉ seen :=
  fun member => Nat.not_le.mpr later (le_iff_toNat_le.mp (records.highest counter member))

/-- The head moves: the blocks it moves over are those of counters never seen. -/
theorem Records.advance (records : w.Records seen) (counter : UInt64) (later : w.last < counter) :
    (w.advance counter).Records seen := by
  have order := lt_iff_toNat_lt.mp later
  have delta := delta_toNat later
  have slots (i : Nat) : ((blockIdxUnbounded w.last + UInt64.ofNat i + 1) &&& 127).toNat <
      w.blocks.length := by
    rw [and_127_toNat, records.size]
    exact Nat.mod_lt _ (by decide)
  refine ⟨?_, ?_, ?_⟩
  · unfold ReplayWindow.advance
    dsimp only
    split
    · exact length_replicate
    · rw [length_clear, records.size]
  · intro seenCounter member
    exact UInt64.le_of_lt (UInt64.lt_of_le_of_lt (records.highest seenCounter member) later)
  · intro other lower upper
    have lower : other.toNat / 64 ≤ counter.toNat / 64 := lower
    have upper : counter.toNat / 64 < other.toNat / 64 + 128 := upper
    have fresh (past : w.last.toNat / 64 < other.toNat / 64) : other ∉ seen :=
      records.not_seen (by omega)
    unfold ReplayWindow.advance marked
    dsimp only
    rw [delta, nBlocks]
    split
    · case _ far =>
        rw [getD_replicate_zero, toNat_zero, Nat.zero_testBit]
        simp only [Bool.false_eq_true, false_iff]
        exact fresh (by omega)
    · case _ near =>
        rw [getD_clear w.blocks _ _ _ (fun i _ => slots i), blockIdx_eq]
        by_cases past : w.last.toNat / 64 < other.toNat / 64
        · rw [if_pos, toNat_zero, Nat.zero_testBit]
          · simp only [Bool.false_eq_true, false_iff]
            exact fresh past
          · refine ⟨other.toNat / 64 - w.last.toNat / 64 - 1, by omega, ?_⟩
            rw [clearedSlot_toNat]
            omega
        · rw [if_neg, ← blockIdx_eq]
          · exact records.bits other (by omega) (by unfold nBlocks; omega)
          · rintro ⟨i, below, same⟩
            rw [clearedSlot_toNat] at same
            omega

theorem smallestValid_toNat (w : ReplayWindow) : w.smallestValid.toNat = w.last.toNat - 8128 := by
  have size : windowSize.toNat = 8128 := rfl
  unfold smallestValid
  split
  · case _ large => rw [UInt64.toNat_sub_of_le _ _ large, size]
  · case _ small =>
      rw [le_iff_toNat_le, size] at small
      rw [toNat_zero]
      omega

/-- The held-back block keeps the deepest valid counter in the ring. -/
theorem in_ring (w : ReplayWindow) {counter : UInt64} (valid : ¬counter < w.smallestValid) :
    w.last.toNat / 64 < counter.toNat / 64 + nBlocks := by
  rw [lt_iff_toNat_lt, smallestValid_toNat] at valid
  unfold nBlocks
  omega

/-- The check lets through what was never seen and is not too old. -/
theorem Records.check_iff (records : w.Records seen) {counter : UInt64} :
    w.check counter = true ↔ counter ∉ seen ∧ ¬counter < w.smallestValid := by
  unfold ReplayWindow.check
  split
  · case _ later =>
      have order := lt_iff_toNat_lt.mp later
      refine iff_of_true rfl ⟨records.not_seen order, ?_⟩
      rw [lt_iff_toNat_lt, smallestValid_toNat]
      omega
  · case _ reached =>
      split
      · case _ old => exact iff_of_false Bool.false_ne_true (fun both => both.2 old)
      · case _ valid =>
          rw [lt_iff_toNat_lt] at reached
          have recorded := records.bits counter (by omega) (in_ring w valid)
          rw [decide_eq_true_eq, and_bitMask_eq_zero, ← Bool.not_eq_true]
          exact ⟨fun unmarked => ⟨fun member => unmarked (recorded.mpr member), valid⟩,
            fun both marked => both.1 (recorded.mp marked)⟩

theorem marked_set {counter other : UInt64} (size : blocks.length = nBlocks) :
    marked (blocks.set (blockIdx counter)
        (blocks.getD (blockIdx counter) 0 ||| bitMask counter)) other =
      (marked blocks other || decide (other.toNat % 8192 = counter.toNat % 8192)) := by
  have inside : blockIdx counter < blocks.length := by
    rw [size, blockIdx_eq]
    exact Nat.mod_lt _ (by decide)
  unfold marked
  rw [getD_set blocks _ inside]
  by_cases same : blockIdx counter = blockIdx other
  · rw [if_pos same, UInt64.toNat_or, bitMask_toNat, Nat.testBit_or, Nat.testBit_two_pow, same]
    congr 1
    rw [blockIdx_eq, blockIdx_eq] at same
    apply decide_eq_decide.mpr
    omega
  · rw [if_neg same]
    rw [blockIdx_eq, blockIdx_eq] at same
    have apart : ¬other.toNat % 8192 = counter.toNat % 8192 := by omega
    rw [decide_eq_false apart, Bool.or_false]

theorem Records.mark (records : w.Records seen) {counter : UInt64} (reached : counter ≤ w.last)
    (inRing : w.last.toNat / 64 < counter.toNat / 64 + nBlocks) :
    Records ⟨w.last, w.blocks.set (blockIdx counter)
      (w.blocks.getD (blockIdx counter) 0 ||| bitMask counter)⟩ (seen ++ [counter]) := by
  have order := le_iff_toNat_le.mp reached
  refine ⟨?_, ?_, ?_⟩
  · rw [length_set, records.size]
  · intro other member
    rcases mem_append.mp member with old | new
    · exact records.highest other old
    · rw [mem_singleton.mp new]
      exact reached
  · intro other lower upper
    have lower : other.toNat / 64 ≤ w.last.toNat / 64 := lower
    have upper : w.last.toNat / 64 < other.toNat / 64 + nBlocks := upper
    rw [marked_set w.blocks records.size, Bool.or_eq_true, decide_eq_true_eq,
      records.bits other lower upper, mem_append, mem_singleton, ← UInt64.toNat_inj]
    unfold nBlocks at inRing upper
    -- two counters of the ring that agree below its size are equal
    exact or_congr_right ⟨fun same => by omega, fun same => by rw [same]⟩

theorem Records.set (records : w.Records seen) (counter : UInt64) (passes : w.check counter) :
    ∃ after, w.set counter = .ok after ∧ after.Records (seen ++ [counter]) := by
  obtain ⟨fresh, valid⟩ := records.check_iff.mp passes
  have advanced : ∃ ring, (if w.last < counter then w.advance counter else w) = ring ∧
      ring.Records seen ∧ counter ≤ ring.last ∧
      ring.last.toNat / 64 < counter.toNat / 64 + nBlocks := by
    split
    · case _ later =>
        refine ⟨w.advance counter, rfl, records.advance counter later, UInt64.le_refl counter, ?_⟩
        exact Nat.lt_add_of_pos_right (by decide)
    · case _ reached =>
        exact ⟨w, rfl, records, UInt64.not_lt.mp reached, in_ring w valid⟩
  obtain ⟨ring, same, records, reached, inRing⟩ := advanced
  have unmarked : ring.blocks.getD (blockIdx counter) 0 &&& bitMask counter = 0 := by
    rw [and_bitMask_eq_zero]
    have order := le_iff_toNat_le.mp reached
    have recorded := records.bits counter (Nat.div_le_div_right order) inRing
    exact Bool.eq_false_iff.mpr (fun set => fresh (recorded.mp set))
  refine ⟨_, ?_, records.mark reached inRing⟩
  rw [ReplayWindow.set, if_neg valid, same]
  rw [if_neg (not_not.mpr unmarked)]

/-- `set` panics on everything that does not pass the check. -/
theorem check_of_set {w after : ReplayWindow} {counter : UInt64}
    (accepted : w.set counter = .ok after) : w.check counter := by
  unfold ReplayWindow.set at accepted
  unfold ReplayWindow.check
  split at accepted
  · cases accepted
  · case _ valid =>
      by_cases later : w.last < counter
      · rw [if_pos later]
      · rw [if_neg later] at accepted
        dsimp only at accepted
        split at accepted
        · cases accepted
        · case _ unmarked =>
            rw [if_neg later, if_neg valid, decide_eq_true_eq]
            exact not_not.mp unmarked

end

variable (seen : List UInt64)

/-- The window of a session after it has accepted some counters. -/
def having : Except Halt ReplayWindow := seen.foldlM ReplayWindow.set default

theorem having_snoc (counter : UInt64) :
    having (seen ++ [counter]) = having seen >>= fun w => w.set counter := by
  simp [having]

theorem having_records (w : ReplayWindow) (made : having seen = .ok w) : w.Records seen := by
  induction seen using reverseRecOn generalizing w with
  | nil =>
    cases made
    exact default_records
  | append_singleton seen counter ih =>
    rw [having_snoc] at made
    cases first : having seen with
    | error halt =>
      rw [first] at made
      cases made
    | ok before =>
      rw [first] at made
      have accepted : before.set counter = .ok w := made
      obtain ⟨after, same, records⟩ :=
        (ih before first).set counter (check_of_set accepted)
      rw [accepted] at same
      cases same
      exact records

/-- One counter goes through `check` and, if that lets it, `set`; those accepted are noted. -/
def process (state : ReplayWindow × List UInt64) (counter : UInt64) :
    Except Halt (ReplayWindow × List UInt64) := do
  if state.1.check counter then return (← state.1.set counter, state.2 ++ [counter])
  else return state

def largest (accepted : List UInt64) : Nat := (accepted.map UInt64.toNat).foldl max 0

theorem last_of_set (w after : ReplayWindow) (counter : UInt64)
    (accepted : w.set counter = .ok after) :
    after.last.toNat = max w.last.toNat counter.toNat := by
  have moved : after.last = if w.last < counter then counter else w.last := by
    unfold ReplayWindow.set at accepted
    by_cases later : w.last < counter <;> simp only [later, if_true, if_false] at accepted ⊢ <;>
      grind [advance]
  grind [lt_iff_toNat_lt]

variable (counters : List UInt64)

theorem process_records (state : ReplayWindow × List UInt64) (records : state.1.Records state.2)
    (ends : state.1.last.toNat = largest state.2) :
    ∃ after, counters.foldlM process state = .ok after ∧ after.1.Records after.2 ∧
      after.1.last.toNat = largest after.2 := by
  induction counters generalizing state with
  | nil => exact ⟨state, rfl, records, ends⟩
  | cons counter rest ih =>
    rw [foldlM_cons, process]
    by_cases passes : state.1.check counter = true
    · obtain ⟨after, accepted, records'⟩ := records.set counter passes
      rw [if_pos passes, accepted]
      apply ih (after, state.2 ++ [counter]) records'
      rw [last_of_set _ _ _ accepted, ends, largest, largest, map_append, foldl_append]
      rfl
    · rw [if_neg passes]
      exact ih state records ends

/-- The ring is a sliding window: in every run `set` panics nowhere, and then a counter passes
the check exactly if it was not accepted before and is at most 8128 behind the largest one. -/
theorem check_process_iff :
    ∃ w accepted, counters.foldlM process (default, []) = .ok (w, accepted) ∧
      ∀ counter, w.check counter = true ↔
        counter ∉ accepted ∧ largest accepted - 8128 ≤ counter.toNat := by
  obtain ⟨⟨w, accepted⟩, ran, records, ends⟩ :=
    process_records counters (default, []) default_records rfl
  refine ⟨w, accepted, ran, fun counter => ?_⟩
  rw [records.check_iff, lt_iff_toNat_lt, smallestValid_toNat, ends, Nat.not_lt]

end ReplayWindow

end TailscaleRs.Tunnel
