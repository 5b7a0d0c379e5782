import Mathlib.Data.List.Basic

/-!
This module contains a sequence of writes into a list that grows as it is written to. The write number `w`
replaces the element at `w % m`, as an index that wraps around at `m` does, and adds its value at the end.
-/

universe u

namespace CyclicWrites

variable {α : Type u}

def lastWrite (m n i : Nat) : Option Nat :=
  match n with
  | 0 => none
  | n + 1 => if n % m = i then some n else lastWrite m n i

def contents (m : Nat) (init ws : List α) (i : Nat) : Option α :=
  match lastWrite m ws.length i with
  | some x => ws[x]?
  | none => (init ++ ws)[i]?

theorem lastWrite_lt {m n i x : Nat} (h : lastWrite m n i = some x) : x < n := by
  induction n with
  | zero => simp [lastWrite] at h
  | succ n ih =>
    simp only [lastWrite] at h
    split at h
    . simp only [Option.some.injEq] at h
      omega
    . have := ih h
      omega

theorem lastWrite_mod {m n i x : Nat} (h : lastWrite m n i = some x) : x % m = i := by
  induction n with
  | zero => simp [lastWrite] at h
  | succ n ih =>
    simp only [lastWrite] at h
    split at h
    . simp only [Option.some.injEq] at h
      rwa [← h]
    . exact ih h

theorem lastWrite_of_le {m n : Nat} (h : n ≤ m) (i : Nat)
    : lastWrite m n i = if i < n then some i else none := by
  induction n with
  | zero => rfl
  | succ n ih =>
    have hmod : n % m = n := Nat.mod_eq_of_lt h
    rw [lastWrite, hmod, ih (by omega)]
    by_cases heq : n = i
    . simp [heq]
    . rw [if_neg heq]
      have : i < n + 1 ↔ i < n := by omega
      simp only [this]

@[simp]
theorem contents_nil (m : Nat) (init : List α) (i : Nat) : contents m init [] i = init[i]? := by
  simp [contents, lastWrite]

theorem contents_append {m : Nat} {init ws l : List α} {a : α}
    (hlength : l.length = init.length + ws.length) (hm : ws.length % m < l.length)
    (hl : ∀ i, l[i]? = contents m init ws i) (i : Nat)
    : (l.set (ws.length % m) a ++ [a])[i]? = contents m init (ws ++ [a]) i := by
  unfold contents at hl ⊢
  rw [List.length_append, List.length_singleton, lastWrite]
  by_cases hi : ws.length % m = i
  . have hlt : i < (l.set (ws.length % m) a).length := by
      rw [List.length_set]
      omega
    subst hi
    rw [List.getElem?_append_left hlt]
    simp [hm]
  . rw [if_neg hi]
    by_cases hend : i < l.length
    . rw [List.getElem?_append_left (by rwa [List.length_set]), List.getElem?_set_ne hi, hl i]
      split
      . next hx => rw [List.getElem?_append_left (lastWrite_lt hx)]
      . have hlt : i < (init ++ ws).length := by
          rw [List.length_append]
          omega
        rw [← List.append_assoc, List.getElem?_append_left hlt]
    . have hnone : lastWrite m ws.length i = none := by
        cases hx : lastWrite m ws.length i with
        | none => rfl
        | some x =>
          have := hl i
          rw [hx, List.getElem?_eq_none (by omega)] at this
          have := List.getElem?_eq_none_iff.mp this.symm
          have := lastWrite_lt hx
          omega
      simp only [hnone]
      rw [← List.append_assoc, List.getElem?_append_right (by rw [List.length_set]; omega),
        List.getElem?_append_right (by rw [List.length_append]; omega)]
      simp only [List.length_set, List.length_append, hlength]

theorem lastWrite_eq_some_iff {m n i x : Nat} (hm : 0 < m)
    : lastWrite m n i = some x ↔ x < n ∧ x % m = i ∧ n ≤ x + m := by
  induction n with
  | zero => simp [lastWrite]
  | succ n ih =>
    rw [lastWrite]
    by_cases hi : n % m = i
    . rw [if_pos hi, Option.some.injEq]
      constructor
      . rintro rfl
        exact ⟨Nat.lt_succ_self n, hi, by omega⟩
      . rintro ⟨hlt, hmod, hle⟩
        -- less than `m` apart, and the same remainder
        have hsub : (n - x) % m = 0 := Nat.sub_mod_eq_zero_of_mod_eq (hi.trans hmod.symm)
        rw [Nat.mod_eq_of_lt (by omega)] at hsub
        omega
    . rw [if_neg hi, ih]
      constructor
      . rintro ⟨hlt, hmod, hle⟩
        refine ⟨by omega, hmod, ?_⟩
        have hne : n ≠ x + m := by
          rintro rfl
          rw [Nat.add_mod_right] at hi
          exact hi hmod
        omega
      . rintro ⟨hlt, hmod, hle⟩
        have hne : x ≠ n := by
          rintro rfl
          exact hi hmod
        exact ⟨by omega, hmod, by omega⟩

theorem lastWrite_eq_none_iff {m n i : Nat} (hm : 0 < m)
    : lastWrite m n i = none ↔ min n m ≤ i := by
  induction n with
  | zero => simp [lastWrite]
  | succ n ih =>
    rw [lastWrite]
    by_cases hi : n % m = i
    . rw [if_pos hi]
      have hle := Nat.mod_le n m
      have hlt := Nat.mod_lt n hm
      simp only [reduceCtorEq, false_iff]
      omega
    . rw [if_neg hi, ih]
      by_cases hn : n < m
      . rw [Nat.mod_eq_of_lt hn] at hi
        omega
      . omega

/--
The value of write `x` is found at an index from `base` on, after `n` writes to a list that had `base` elements.
-/
def Remains (m base n x : Nat) : Prop :=
  n ≤ x + m ∧ base ≤ x % m ∨ min n m ≤ base + x

instance (m base n x : Nat) : Decidable (Remains m base n x) := inferInstanceAs (Decidable (_ ∨ _))

theorem remains_of_le {m base n : Nat} (h : n ≤ base) (x : Nat) : Remains m base n x := by
  right
  omega

theorem remains_iff_of_le {m base n x : Nat} (hn : n ≤ m) (hx : x < n)
    : Remains m base n x ↔ base ≤ x ∨ n ≤ base + x := by
  rw [Remains, Nat.mod_eq_of_lt (Nat.lt_of_lt_of_le hx hn), Nat.min_eq_left hn]
  constructor
  . rintro (⟨-, hbase⟩ | hle)
    . exact Or.inl hbase
    . exact Or.inr hle
  . rintro (hbase | hle)
    . exact Or.inl ⟨by omega, hbase⟩
    . exact Or.inr hle

theorem exists_contents_iff {m : Nat} (hm : 0 < m) (init ws : List α) {a : α}
    : (∃ w < ws.length, contents m init ws (init.length + w) = some a)
        ↔ ∃ x, ws[x]? = some a ∧ Remains m init.length ws.length x := by
  have hown : ∀ w, (init ++ ws)[init.length + w]? = ws[w]? := by
    intro w
    rw [List.getElem?_append_right (by omega), Nat.add_sub_cancel_left]
  constructor
  . rintro ⟨w, hw, hcontents⟩
    unfold contents at hcontents
    split at hcontents
    . next x hx =>
      obtain ⟨-, hmod, hle⟩ := (lastWrite_eq_some_iff hm).mp hx
      exact ⟨x, hcontents, Or.inl ⟨hle, by omega⟩⟩
    . next hnone =>
      rw [hown] at hcontents
      exact ⟨w, hcontents, Or.inr ((lastWrite_eq_none_iff hm).mp hnone)⟩
  . rintro ⟨x, hx, hremains⟩
    have hlt : x < ws.length := (List.getElem?_eq_some_iff.mp hx).1
    rcases hremains with ⟨hle, hbase⟩ | hle
    . obtain ⟨w, hw⟩ := Nat.exists_eq_add_of_le hbase
      have hmod := Nat.mod_le x m
      refine ⟨w, by omega, ?_⟩
      rw [contents, (lastWrite_eq_some_iff hm).mpr ⟨hlt, hw, hle⟩]
      exact hx
    . refine ⟨x, hlt, ?_⟩
      rw [contents, (lastWrite_eq_none_iff hm).mpr hle]
      dsimp only
      rw [hown, hx]

end CyclicWrites
