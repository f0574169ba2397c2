import Mathlib.Data.List.Basic
import Mathlib.Data.Nat.Bitwise

namespace TailscaleRs

open List

/-- A set of naturals that grows as needed, as the bits of a natural. -/
structure Bitset where
  word : Nat
  deriving DecidableEq

namespace Bitset

def empty : Bitset := ⟨0⟩

variable (s : Bitset) (i : Nat)

def test : Bool := s.word.testBit i

def set : Bitset := ⟨s.word ||| 2 ^ i⟩

def clear : Bitset := ⟨s.word ^^^ (s.word &&& 2 ^ i)⟩

def union (s other : Bitset) : Bitset := ⟨s.word ||| other.word⟩

def intersect (s other : Bitset) : Bitset := ⟨s.word &&& other.word⟩

def zeroFrom (bound : Nat) : Bitset := ⟨s.word % 2 ^ bound⟩

def isEmpty : Bool := s.word == 0

def members : List Nat := (range (s.word.log2 + 1)).filter s.test

def firstSet : Option Nat := s.members.head?

def ofList (members : List Nat) : Bitset := members.foldl set empty

variable (s other : Bitset) (i j : Nat)

@[simp] theorem test_empty : empty.test i = false := Nat.zero_testBit i

@[simp] theorem test_set : (s.set i).test j = true ↔ s.test j = true ∨ j = i := by
  rw [set, test, Nat.testBit_or, Nat.testBit_two_pow, Bool.or_eq_true, decide_eq_true_eq]
  exact or_congr Iff.rfl eq_comm

@[simp] theorem test_clear : (s.clear i).test j = true ↔ s.test j = true ∧ j ≠ i := by
  rw [clear, test, test, Nat.testBit_xor, Nat.testBit_and, Nat.testBit_two_pow]
  by_cases same : i = j
  · simp [same]
  · simp [same, Ne.symm same]

@[simp] theorem test_union :
    (s.union other).test i = true ↔ s.test i = true ∨ other.test i = true := by
  simp [union, test, Nat.testBit_or]

@[simp] theorem test_intersect :
    (s.intersect other).test i = true ↔ s.test i = true ∧ other.test i = true := by
  simp [intersect, test, Nat.testBit_and]

@[simp] theorem test_zeroFrom : (s.zeroFrom j).test i = true ↔ i < j ∧ s.test i = true := by
  simp [zeroFrom, test, Nat.testBit_mod_two_pow]

variable {s other}

theorem ext (same : ∀ i, s.test i = true ↔ other.test i = true) : s = other := by
  cases s
  congr 1
  apply Nat.eq_of_testBit_eq
  intro i
  exact Bool.eq_iff_iff.mpr (same i)

theorem isEmpty_iff : s.isEmpty = true ↔ ∀ i, s.test i = false := by
  constructor
  · intro none i
    have zero : s.word = 0 := beq_iff_eq.mp none
    rw [test, zero, Nat.zero_testBit]
  · intro none
    have is : s = empty := ext fun i => by rw [none i, test_empty]
    rw [is]
    rfl

theorem isEmpty_eq_false : s.isEmpty = false ↔ ∃ i, s.test i = true := by
  rw [← Bool.not_eq_true, isEmpty_iff]
  push Not
  simp only [Bool.not_eq_false]

theorem mem_members : i ∈ s.members ↔ s.test i = true := by
  rw [members, mem_filter, mem_range]
  apply and_iff_right_of_imp
  intro member
  have large : 2 ^ i ≤ s.word := Nat.ge_two_pow_of_testBit member
  have some : s.word ≠ 0 := Nat.ne_of_gt (Nat.lt_of_lt_of_le (Nat.two_pow_pos i) large)
  exact Nat.lt_succ_of_le ((Nat.le_log2 some).mpr large)

theorem pairwise_members (s : Bitset) : s.members.Pairwise (· < ·) :=
  pairwise_lt_range.filter _

theorem ascending_ext {first second : List Nat} (ascending : first.Pairwise (· < ·))
    (ascending' : second.Pairwise (· < ·)) (same : ∀ i, i ∈ first ↔ i ∈ second) :
    first = second := by
  have perm : first.Perm second :=
    (perm_ext_iff_of_nodup (ascending.imp Nat.ne_of_lt) (ascending'.imp Nat.ne_of_lt)).mpr same
  exact perm.eq_of_pairwise (fun a b _ _ below above => absurd below (Nat.lt_asymm above))
    ascending ascending'

theorem members_eq {list : List Nat} (ascending : list.Pairwise (· < ·))
    (same : ∀ i, s.test i = true ↔ i ∈ list) : s.members = list :=
  ascending_ext (pairwise_members s) ascending fun i => by rw [mem_members, same]

theorem members_set_last (above : ∀ j, s.test j = true → j < i) :
    (s.set i).members = s.members ++ [i] := by
  apply members_eq
  · rw [pairwise_append]
    refine ⟨pairwise_members s, pairwise_singleton _ _, ?_⟩
    intro j member last is
    rw [mem_singleton.mp is]
    exact above j ((mem_members j).mp member)
  · intro j
    rw [test_set, mem_append, mem_members, mem_singleton]

theorem firstSet_eq_none : s.firstSet = none ↔ ∀ i, s.test i = false := by
  rw [firstSet, head?_eq_none_iff, eq_nil_iff_forall_not_mem]
  simp only [mem_members, Bool.not_eq_true]

theorem firstSet_eq_some (first : s.firstSet = some i) :
    s.test i = true ∧ ∀ j, s.test j = true → i ≤ j := by
  have ascending := pairwise_members s
  rw [firstSet, head?_eq_some_iff] at first
  obtain ⟨rest, is⟩ := first
  rw [is, pairwise_cons] at ascending
  have listed : ∀ j, s.test j = true ↔ j = i ∨ j ∈ rest := fun j => by
    rw [← mem_members, is, mem_cons]
  refine ⟨(listed i).mpr (.inl rfl), ?_⟩
  intro j member
  rcases (listed j).mp member with rfl | later
  · exact Nat.le_refl _
  · exact Nat.le_of_lt (ascending.1 j later)

theorem test_foldl_union (sets : List Bitset) (start : Bitset) :
    (sets.foldl union start).test i = true ↔ start.test i = true ∨ ∃ s ∈ sets, s.test i = true := by
  induction sets generalizing start with
  | nil => simp
  | cons first rest ih =>
    rw [foldl_cons, ih, test_union]
    simp [or_assoc]

theorem test_unions (sets : List Bitset) :
    (sets.foldl union empty).test i = true ↔ ∃ s ∈ sets, s.test i = true := by
  rw [test_foldl_union]
  simp

theorem test_foldl_set (items : List Nat) (start : Bitset) :
    (items.foldl set start).test i = true ↔ start.test i = true ∨ i ∈ items := by
  induction items generalizing start with
  | nil => simp
  | cons item rest ih =>
    rw [foldl_cons, ih, test_set, mem_cons, or_assoc]

@[simp] theorem test_ofList (items : List Nat) : (ofList items).test i = true ↔ i ∈ items := by
  rw [ofList, test_foldl_set]
  simp

end Bitset

end TailscaleRs
