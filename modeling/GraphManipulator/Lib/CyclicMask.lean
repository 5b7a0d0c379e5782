import GraphManipulator.Lib.Memory
import Mathlib.Algebra.Order.Ring.Nat

/-!
This module contains masks that are repeated over a sequence of bytes and combined with it by exclusive or.
-/

abbrev CyclicMask (n : Nat) : Type := Fin n → UInt8

namespace CyclicMask

variable {n : Nat} [NeZero n]

def rotate (mask : CyclicMask n) (k : Nat) : CyclicMask n := fun j => mask (Fin.ofNat n (j.val + k))

def unmask (mask : CyclicMask n) : List UInt8 → List UInt8
  | [] => []
  | b :: data => (b ^^^ mask (Fin.ofNat n 0)) :: unmask (mask.rotate 1) data

@[simp]
theorem rotate_zero (mask : CyclicMask n) : mask.rotate 0 = mask := by
  funext j
  have hj : Fin.ofNat n (j.val + 0) = j := Fin.ext (Nat.mod_eq_of_lt j.isLt)
  rw [rotate, hj]

theorem rotate_apply_ofNat (mask : CyclicMask n) (k i : Nat)
    : mask.rotate k (Fin.ofNat n i) = mask (Fin.ofNat n (i + k)) := by
  have : Fin.ofNat n ((Fin.ofNat n i).val + k) = Fin.ofNat n (i + k) := by
    apply Fin.ext
    exact Nat.mod_add_mod i n k
  rw [rotate, this]

theorem rotate_rotate (mask : CyclicMask n) (k l : Nat) : (mask.rotate k).rotate l = mask.rotate (k + l) := by
  funext j
  rw [rotate, rotate_apply_ofNat, rotate, Nat.add_assoc, Nat.add_comm l k]

theorem rotate_mod (mask : CyclicMask n) (k : Nat) : mask.rotate (k % n) = mask.rotate k := by
  funext j
  have : Fin.ofNat n (j.val + k % n) = Fin.ofNat n (j.val + k) := by
    apply Fin.ext
    exact Nat.add_mod_mod j.val k n
  rw [rotate, rotate, this]

@[simp]
theorem unmask_nil (mask : CyclicMask n) : mask.unmask [] = [] := rfl

@[simp]
theorem length_unmask (mask : CyclicMask n) (data : List UInt8) : (mask.unmask data).length = data.length := by
  induction data generalizing mask with
  | nil => rfl
  | cons b data ih => rw [unmask, List.length_cons, ih, List.length_cons]

theorem unmask_append (mask : CyclicMask n) (data₁ data₂ : List UInt8)
    : mask.unmask (data₁ ++ data₂) = mask.unmask data₁ ++ (mask.rotate data₁.length).unmask data₂ := by
  induction data₁ generalizing mask with
  | nil => simp
  | cons b data₁ ih =>
    rw [List.cons_append, unmask, ih, unmask, List.cons_append, rotate_rotate, List.length_cons,
      Nat.add_comm 1]

theorem unmask_unmask (mask : CyclicMask n) (data : List UInt8) : mask.unmask (mask.unmask data) = data := by
  induction data generalizing mask with
  | nil => rfl
  | cons b data ih => rw [unmask, unmask, ih, UInt8.xor_assoc, UInt8.xor_self, UInt8.xor_zero]

@[simp]
theorem rotate_const (b : UInt8) (k : Nat) : rotate (n := n) (fun _ => b) k = fun _ => b := rfl

@[simp]
theorem unmask_zero (data : List UInt8) : unmask (n := n) (fun _ => 0) data = data := by
  induction data with
  | nil => rfl
  | cons b data ih => rw [unmask, rotate_const, ih, UInt8.xor_zero]

theorem read_eq_unmask {mask : CyclicMask n} {mem mem' : Memory UInt8} {dst src length : Nat}
    (h : ∀ i < length, mem' (dst + i) = mem (src + i) ^^^ mask (Fin.ofNat n i))
    : mem'.read dst length = mask.unmask (mem.read src length) := by
  induction length generalizing mask dst src with
  | zero => rfl
  | succ length ih =>
    have hhead := h 0 (by omega)
    rw [Nat.add_zero, Nat.add_zero] at hhead
    rw [Memory.read, Memory.read, unmask, hhead, ih]
    intro i hi
    have hnext := h (i + 1) (by omega)
    rw [Nat.add_assoc, Nat.add_assoc, Nat.add_comm 1 i, rotate_apply_ofNat]
    exact hnext

end CyclicMask
