import Mathlib.Algebra.Ring.Nat

namespace TailscaleRs

abbrev Bytes := List UInt8

namespace BigEndian

/-- The low `width` bytes of a number, most significant byte first. -/
def toBytes : Nat → Nat → Bytes
  | 0, _ => []
  | width + 1, n => UInt8.ofNat (n / 256 ^ width) :: toBytes width (n % 256 ^ width)

def ofBytes (bytes : Bytes) : Nat :=
  bytes.foldl (fun value byte => 256 * value + byte.toNat) 0

@[simp] theorem toBytes_length (width n : Nat) : (toBytes width n).length = width := by
  induction width generalizing n with
  | zero => rfl
  | succ width ih => simp only [toBytes, List.length_cons, ih]

private theorem foldl_start (bytes : Bytes) (start : Nat) :
    bytes.foldl (fun value byte => 256 * value + byte.toNat) start =
      start * 256 ^ bytes.length + ofBytes bytes := by
  induction bytes generalizing start with
  | nil => simp [ofBytes]
  | cons byte rest ih =>
    simp only [List.foldl_cons, List.length_cons, ofBytes]
    rw [ih, ih (256 * 0 + byte.toNat), Nat.pow_succ', Nat.add_mul, Nat.mul_zero, Nat.zero_add,
      Nat.add_assoc, Nat.mul_left_comm start, Nat.mul_assoc 256]

theorem ofBytes_cons (byte : UInt8) (rest : Bytes) :
    ofBytes (byte :: rest) = byte.toNat * 256 ^ rest.length + ofBytes rest := by
  have start := foldl_start rest byte.toNat
  simpa only [ofBytes, List.foldl_cons, Nat.mul_zero, Nat.zero_add] using start

theorem ofBytes_toBytes (width n : Nat) (fits : n < 256 ^ width) :
    ofBytes (toBytes width n) = n := by
  induction width generalizing n with
  | zero =>
    have zero : n = 0 := by simpa using fits
    simp [toBytes, ofBytes, zero]
  | succ width ih =>
    have positive : 0 < 256 ^ width := Nat.pow_pos (by decide)
    have small : n / 256 ^ width < 256 := by
      rw [Nat.div_lt_iff_lt_mul positive]
      simpa only [Nat.pow_succ'] using fits
    rw [toBytes, ofBytes_cons, toBytes_length, ih _ (Nat.mod_lt n positive), UInt8.toNat_ofNat',
      Nat.mod_eq_of_lt small]
    exact Nat.div_add_mod' n (256 ^ width)

end BigEndian

end TailscaleRs
