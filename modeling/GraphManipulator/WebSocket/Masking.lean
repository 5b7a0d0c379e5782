import GraphManipulator.WebSocket.Protocol

/-!
This module contains what the unmasking in place leaves in the buffer: the payload, and behind it at most four
bytes that are overwritten.
-/

namespace WebSocketProtocol

open Memory CyclicMask

section

variable (mem : Memory UInt8) {dst src : Nat} (mask : Mask)

theorem unmaskRounds_of_outside (n : Nat) {p : Nat} (h : p < dst ∨ dst + 4 * n ≤ p)
    : unmaskRounds mem dst src mask n p = mem p := by
  induction n generalizing mem dst src with
  | zero => rfl
  | succ n ih =>
    rw [unmaskRounds, ih _ (by omega)]
    rw [write_of_ne _ _ (by omega), write_of_ne _ _ (by omega), write_of_ne _ _ (by omega),
      write_of_ne _ _ (by omega)]

theorem unmaskRounds_of_inside (hle : dst ≤ src) (n : Nat) {i : Nat} (h : i < 4 * n)
    : unmaskRounds mem dst src mask n (dst + i) = mem (src + i) ^^^ mask (Fin.ofNat 4 i) := by
  induction n generalizing mem dst src i with
  | zero => omega
  | succ n ih =>
    rw [unmaskRounds]
    by_cases hfirst : i < 4
    . rw [unmaskRounds_of_outside _ _ _ (by omega)]
      obtain rfl | rfl | rfl | rfl : i = 0 ∨ i = 1 ∨ i = 2 ∨ i = 3 := by omega
      . rw [write_of_ne _ _ (by omega), write_of_ne _ _ (by omega), write_of_ne _ _ (by omega)]
        exact write_self _ _ _
      . rw [write_of_ne _ _ (by omega), write_of_ne _ _ (by omega), write_self,
          write_of_ne _ _ (by omega)]
        rfl
      . rw [write_of_ne _ _ (by omega), write_self, write_of_ne _ _ (by omega), write_of_ne _ _ (by omega)]
        rfl
      . rw [write_self, write_of_ne _ _ (by omega), write_of_ne _ _ (by omega), write_of_ne _ _ (by omega)]
        rfl
    . obtain ⟨j, rfl⟩ := Nat.exists_eq_add_of_le (Nat.not_lt.mp hfirst)
      have hmask : Fin.ofNat 4 (4 + j) = Fin.ofNat 4 j := Fin.ext (Nat.add_mod_left 4 j)
      rw [← Nat.add_assoc, ih _ (by omega) (by omega), hmask, ← Nat.add_assoc]
      -- the round before has written nothing that is still to be read
      rw [write_of_ne _ _ (by omega), write_of_ne _ _ (by omega), write_of_ne _ _ (by omega),
        write_of_ne _ _ (by omega)]

theorem read_unmaskImprecise (hle : dst ≤ src) (length : Nat)
    : (unmaskImprecise mem dst src mask length).read dst length = mask.unmask (mem.read src length) := by
  apply read_eq_unmask
  intro i hi
  exact unmaskRounds_of_inside mem mask hle _ (by omega)

theorem unmaskImprecise_of_outside {length p : Nat} (h : p < dst ∨ dst + (length + 4) ≤ p)
    : unmaskImprecise mem dst src mask length p = mem p :=
  unmaskRounds_of_outside mem mask _ (by omega)

theorem unmaskTail_of_outside (i n : Nat) {p : Nat} (h : p < src + i ∨ src + i + n ≤ p)
    : unmaskTail mem src mask i n p = mem p := by
  induction n generalizing mem i with
  | zero => rfl
  | succ n ih => rw [unmaskTail, ih _ _ (by omega), write_of_ne _ _ (by omega)]

theorem unmaskTail_of_inside (i n : Nat) {j : Nat} (hi : i ≤ j) (hj : j < i + n)
    : unmaskTail mem src mask i n (src + j) = mem (src + j) ^^^ mask (Fin.ofNat 4 j) := by
  induction n generalizing mem i with
  | zero => omega
  | succ n ih =>
    rw [unmaskTail]
    by_cases hij : j = i
    . rw [unmaskTail_of_outside _ _ _ _ (by omega), hij, write_self]
    . rw [ih _ _ (by omega) (by omega), write_of_ne _ _ (by omega)]

def unmaskRest (src remainingBytes : Nat) : Memory UInt8 :=
  let n := remainingBytes / 4
  unmaskTail (unmaskInplace mem src (src + n * 4) mask) (src + n * 4) mask 0 (remainingBytes % 4)

theorem unmaskRest_of_outside (remainingBytes : Nat) {p : Nat} (h : p < src ∨ src + remainingBytes ≤ p)
    : unmaskRest mem mask src remainingBytes p = mem p := by
  rw [unmaskRest, unmaskTail_of_outside _ _ _ _ (by omega), unmaskInplace,
    unmaskRounds_of_outside _ _ _ (by omega)]

theorem read_unmaskRest (remainingBytes : Nat)
    : (unmaskRest mem mask src remainingBytes).read src remainingBytes
        =
      mask.unmask (mem.read src remainingBytes) := by
  apply read_eq_unmask
  intro i hi
  rw [unmaskRest, unmaskInplace]
  by_cases htail : i < remainingBytes / 4 * 4
  . rw [unmaskTail_of_outside _ _ _ _ (by omega)]
    exact unmaskRounds_of_inside mem mask (Nat.le_refl src) _ (by omega)
  . obtain ⟨j, rfl⟩ := Nat.exists_eq_add_of_le (Nat.not_lt.mp htail)
    have hmask : Fin.ofNat 4 (remainingBytes / 4 * 4 + j) = Fin.ofNat 4 j := by
      apply Fin.ext
      exact Nat.mul_add_mod_self_right (remainingBytes / 4) 4 j
    rw [hmask, ← Nat.add_assoc, unmaskTail_of_inside _ _ _ _ (Nat.zero_le j) (by omega)]
    rw [unmaskRounds_of_outside _ _ _ (by omega)]

theorem read_unmaskInplace (length : Nat)
    : (unmaskInplace mem src (src + (length / 4 + 1) * 4) mask).read src length
        =
      mask.unmask (mem.read src length) := by
  apply read_eq_unmask
  intro i hi
  exact unmaskRounds_of_inside mem mask (Nat.le_refl src) _ (by omega)

theorem unmaskInplace_of_outside {length p : Nat} (h : p < src ∨ src + (length + 4) ≤ p)
    : unmaskInplace mem src (src + (length / 4 + 1) * 4) mask p = mem p :=
  unmaskRounds_of_outside mem mask _ (by omega)

end

theorem rotateMask_eq_rotate (mask : Mask) (k : Nat) : rotateMask (4 - k % 4) mask = mask.rotate k := by
  rw [← CyclicMask.rotate_mod mask k]
  have hk : k % 4 < 4 := Nat.mod_lt k (by decide)
  generalize k % 4 = r at hk
  obtain rfl | rfl | rfl | rfl : r = 0 ∨ r = 1 ∨ r = 2 ∨ r = 3 := by omega
  all_goals
    funext j
    match j with
    | 0 | 1 | 2 | 3 => rfl

end WebSocketProtocol
