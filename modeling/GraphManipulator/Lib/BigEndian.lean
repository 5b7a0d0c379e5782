import Mathlib.Algebra.Order.Ring.Nat
import Mathlib.Data.List.Induction

/-!
This module contains natural numbers as sequences of bytes of a fixed length, the most significant byte first.
-/

namespace BigEndian

def decode (bytes : List UInt8) : Nat := bytes.foldl (fun n b => 256 * n + b.toNat) 0

def encode : (width n : Nat) → List UInt8
  | 0, _ => []
  | width + 1, n => encode width (n / 256) ++ [UInt8.ofNat n]

theorem decode_append_singleton (bytes : List UInt8) (b : UInt8)
    : decode (bytes ++ [b]) = 256 * decode bytes + b.toNat := by
  rw [decode, List.foldl_append]
  rfl

@[simp]
theorem length_encode (width n : Nat) : (encode width n).length = width := by
  induction width generalizing n with
  | zero => rfl
  | succ width ih => rw [encode, List.length_append, ih, List.length_singleton]

theorem decode_encode {width n : Nat} (h : n < 256 ^ width) : decode (encode width n) = n := by
  induction width generalizing n with
  | zero =>
    rw [Nat.pow_zero] at h
    rw [Nat.lt_one_iff.mp h]
    rfl
  | succ width ih =>
    have hquotient : n / 256 < 256 ^ width := by
      rw [Nat.pow_succ] at h
      exact Nat.div_lt_of_lt_mul (by omega)
    have hdigit : (UInt8.ofNat n).toNat = n % 256 := UInt8.toNat_ofNat'
    rw [encode, decode_append_singleton, ih hquotient, hdigit]
    exact Nat.div_add_mod n 256

end BigEndian
