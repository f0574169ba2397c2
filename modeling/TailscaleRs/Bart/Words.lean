import Mathlib.Data.List.Nodup

namespace TailscaleRs.Bart

/-- `Bitset<N_WORDS>`, from the lowest word on. -/
abbrev Words (N : Nat) : Type := Vector (BitVec 64) N

namespace Words

variable {N M : Nat} (s : Words N)

/-- A word, of which no bit is set past the end. -/
def word (i : Nat) : BitVec 64 := s[i]?.getD 0

def test (bit : Nat) : Bool := (word s (bit / 64)).getLsbD (bit % 64)

/-- Panics where the lengths differ. -/
def copyFromSlice (_out : Words M) (src : Words N) : Option (Words M) :=
  if same : N = M then some (src.cast same) else none

def resize (M : Nat) (emptyValue : Bool) : Option (Words M) :=
  let empty := if emptyValue then BitVec.allOnes 64 else 0
  let n := if N ≤ M then N else M
  copyFromSlice (Vector.replicate M empty) (s.take n)

/-- The words of a range are put in its order, each from the words as they are by then. -/
def putEach (put : Words N → Nat → BitVec 64) (range : List Nat) : Words N :=
  range.foldl (fun words tgt => words.setIfInBounds tgt (put words tgt)) s

def shlWord (rhs : Nat) (s : Words N) (tgt : Nat) : BitVec 64 :=
  let src := tgt - rhs / 64
  word s src <<< (rhs % 64) ||| (if src = 0 then 0 else word s (src - 1)) >>> (64 - rhs % 64)

def unboundedShl (rhs : Nat) : Words N :=
  if N * 64 ≤ rhs then Vector.replicate N 0
  else
    let shifted := putEach s (shlWord rhs) (List.range' (rhs / 64) (N - rhs / 64)).reverse
    putEach shifted (fun _ _ => 0) (List.range (rhs / 64))

def shrWord (rhs : Nat) (s : Words N) (tgt : Nat) : BitVec 64 :=
  let src := tgt + rhs / 64
  word s src >>> (rhs % 64) ||| word s (src + 1) <<< (64 - rhs % 64)

def unboundedShr (rhs : Nat) : Words N :=
  if N * 64 ≤ rhs then Vector.replicate N 0
  else
    let shifted := putEach s (shrWord rhs) (List.range (N - rhs / 64))
    putEach shifted (fun _ _ => 0) (List.range' (N - rhs / 64) (rhs / 64))

theorem test_past {bit : Nat} (past : N * 64 ≤ bit) : test s bit = false := by
  rw [test, word, Vector.getElem?_eq_none (by omega)]
  exact BitVec.getLsbD_zero

theorem test_empty (bit : Nat) : test (Vector.replicate N 0) bit = false := by
  rw [test, word, Vector.getElem?_replicate]
  split <;> simp

theorem word_set_ne {i j : Nat} (other : i ≠ j) (w : BitVec 64) :
    word (s.setIfInBounds i w) j = word s j := by
  rw [word, Vector.getElem?_setIfInBounds_ne other, word]

theorem word_set {i j : Nat} (inside : j < N) (w : BitVec 64) :
    word (s.setIfInBounds i w) j = if i = j then w else word s j := by
  rw [word, Vector.getElem?_setIfInBounds]
  split
  case isTrue is => simp [is, inside]
  case isFalse => rfl

variable {s} in
/-- What is put in a word does not depend on the ones put before it, so it comes from the start. -/
theorem word_putEach {put : Words N → Nat → BitVec 64} {range : List Nat}
    (unread : range.Pairwise fun i j => ∀ s w, put (s.setIfInBounds i w) j = put s j)
    {i : Nat} (inside : i < N) :
    word (putEach s put range) i = if i ∈ range then put s i else word s i := by
  induction range generalizing s with
  | nil => rfl
  | cons first rest ih =>
    obtain ⟨before, later⟩ := List.pairwise_cons.mp unread
    rw [putEach, List.foldl_cons, ← putEach, ih later]
    by_cases again : i ∈ rest
    · rw [if_pos again, if_pos (List.mem_cons_of_mem _ again), before i again]
    · rw [if_neg again, word_set s inside]
      by_cases is : first = i
      · simp [is]
      · simp [is, again, Ne.symm is]

theorem test_shlWord {rhs bit : Nat} (from' : rhs / 64 ≤ bit / 64) :
    (shlWord rhs s (bit / 64)).getLsbD (bit % 64) =
      if bit < rhs then false else test s (bit - rhs) := by
  have small := Nat.mod_lt bit (by decide : 0 < 64)
  rw [shlWord, BitVec.getLsbD_or, BitVec.getLsbD_shiftLeft, BitVec.getLsbD_ushiftRight, test]
  by_cases carried : bit % 64 < rhs % 64
  · by_cases first : bit / 64 - rhs / 64 = 0
    · have before : bit < rhs := by omega
      simp [carried, first, before]
    · have quotient : (bit - rhs) / 64 = bit / 64 - rhs / 64 - 1 := by omega
      have remainder : (bit - rhs) % 64 = 64 - rhs % 64 + bit % 64 := by omega
      have reached : ¬ bit < rhs := by omega
      simp [carried, first, reached, quotient, remainder]
  · have quotient : (bit - rhs) / 64 = bit / 64 - rhs / 64 := by omega
    have remainder : (bit - rhs) % 64 = bit % 64 - rhs % 64 := by omega
    have reached : ¬ bit < rhs := by omega
    rw [BitVec.getLsbD_of_ge _ (64 - rhs % 64 + bit % 64) (by omega)]
    simp [carried, small, reached, quotient, remainder]

theorem test_shrWord (rhs bit : Nat) :
    (shrWord rhs s (bit / 64)).getLsbD (bit % 64) = test s (bit + rhs) := by
  have small := Nat.mod_lt bit (by decide : 0 < 64)
  rw [shrWord, BitVec.getLsbD_or, BitVec.getLsbD_shiftLeft, BitVec.getLsbD_ushiftRight, test]
  by_cases carried : rhs % 64 + bit % 64 < 64
  · have quotient : (bit + rhs) / 64 = bit / 64 + rhs / 64 := by omega
    have remainder : (bit + rhs) % 64 = rhs % 64 + bit % 64 := by omega
    have low : bit % 64 < 64 - rhs % 64 := by omega
    simp [low, quotient, remainder]
  · have quotient : (bit + rhs) / 64 = bit / 64 + rhs / 64 + 1 := by omega
    have remainder : (bit + rhs) % 64 = bit % 64 - (64 - rhs % 64) := by omega
    have high : ¬ bit % 64 < 64 - rhs % 64 := by omega
    rw [BitVec.getLsbD_of_ge _ (rhs % 64 + bit % 64) (by omega)]
    simp [small, high, quotient, remainder]

/-- From the last word down: what is read lies at the word that is put or below it. -/
theorem test_unboundedShl (rhs : Nat) {bit : Nat} (inside : bit < N * 64) :
    test (unboundedShl s rhs) bit = if bit < rhs then false else test s (bit - rhs) := by
  rw [unboundedShl]
  split
  · rw [test_empty, if_pos (by omega)]
  · have unread : (List.range' (rhs / 64) (N - rhs / 64)).reverse.Pairwise fun i j =>
        ∀ (s : Words N) w, shlWord rhs (s.setIfInBounds i w) j = shlWord rhs s j := by
      refine (List.pairwise_reverse.mpr List.pairwise_lt_range').imp fun below s w => ?_
      rw [shlWord, word_set_ne s (by omega), word_set_ne s (by omega), shlWord]
    rw [test, word_putEach (List.pairwise_of_forall fun _ _ _ _ => rfl) (by omega),
      word_putEach unread (by omega)]
    simp only [List.mem_range, List.mem_reverse, List.mem_range'_1]
    by_cases cleared : bit / 64 < rhs / 64
    · simp [cleared, show bit < rhs by omega]
    · rw [if_neg cleared, if_pos (by omega), test_shlWord s (by omega)]

/-- From the first word up: what is read lies at the word that is put or above it. -/
theorem test_unboundedShr (rhs : Nat) {bit : Nat} (inside : bit < N * 64) :
    test (unboundedShr s rhs) bit = test s (bit + rhs) := by
  rw [unboundedShr]
  split
  · rw [test_empty, test_past s (by omega)]
  · have unread : (List.range (N - rhs / 64)).Pairwise fun i j =>
        ∀ (s : Words N) w, shrWord rhs (s.setIfInBounds i w) j = shrWord rhs s j := by
      refine List.pairwise_lt_range.imp fun below s w => ?_
      rw [shrWord, word_set_ne s (by omega), word_set_ne s (by omega), shrWord]
    rw [test, word_putEach (List.pairwise_of_forall fun _ _ _ _ => rfl) (by omega),
      word_putEach unread (by omega)]
    simp only [List.mem_range, List.mem_range'_1]
    by_cases cleared : N - rhs / 64 ≤ bit / 64
    · rw [if_pos (by omega), test_past s (by omega)]
      exact BitVec.getLsbD_zero
    · rw [if_neg (by omega), if_pos (by omega), test_shrWord]

theorem test_resize (fits : M ≤ N) (fill : Bool) :
    ∃ out, resize s M fill = some out ∧ ∀ bit < M * 64, test out bit = test s bit := by
  have copied : min (if N ≤ M then N else M) N = M := by split <;> omega
  refine ⟨_, dif_pos copied, fun bit inside => ?_⟩
  rw [test, test, word, Vector.getElem?_eq_getElem (by omega), word,
    Vector.getElem?_eq_getElem (by omega), Vector.getElem_cast, Vector.getElem_take]

/-- Resizing keeps every bit and fills the new ones, exactly where it does not add words; a shift by
any number of bits moves each bit by that many. -/
theorem resizes_iff_and_shifts (fill : Bool) :
    ((∃ out, resize s M fill = some out ∧
        ∀ bit : Fin (M * 64), test out bit = if bit < N * 64 then test s bit else fill) ↔
      M ≤ N) ∧
      ∀ (rhs : Nat) (bit : Fin (N * 64)),
        test (unboundedShl s rhs) bit = (if bit < rhs then false else test s (bit - rhs)) ∧
        test (unboundedShr s rhs) bit =
          if bit + rhs < N * 64 then test s (bit + rhs) else false := by
  refine ⟨⟨fun ⟨out, resized, _⟩ => ?_, fun fits => ?_⟩, fun rhs bit => ⟨?_, ?_⟩⟩
  · obtain ⟨copied, -⟩ := Option.dite_none_right_eq_some.mp resized
    omega
  · obtain ⟨out, resized, kept⟩ := test_resize s fits fill
    refine ⟨out, resized, fun bit => ?_⟩
    rw [if_pos (by omega), kept bit bit.isLt]
  · exact test_unboundedShl s rhs bit.isLt
  · rw [test_unboundedShr s rhs bit.isLt]
    split
    · rfl
    · exact test_past s (by omega)

/-- Four words do not take in the one of a shorter bitset. -/
theorem resize_grows_panics : resize (Vector.replicate 1 5) 4 false = none := rfl

end Words

end TailscaleRs.Bart
