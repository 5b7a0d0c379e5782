import Mathlib.Tactic.Common

/-!
This module contains the partial update of a list of fixed length: values replace its elements from the first
one on, until there is no other value or no other element.
-/

universe u

variable {α : Type u}

def overwrite (values old : List α) : List α :=
  values.take old.length ++ old.drop values.length

@[simp]
theorem overwrite_nil_left (old : List α) : overwrite [] old = old := by
  simp [overwrite]

@[simp]
theorem overwrite_nil_right (values : List α) : overwrite values [] = [] := by
  simp [overwrite]

@[simp]
theorem overwrite_cons (x y : α) (values old : List α)
    : overwrite (x :: values) (y :: old) = x :: overwrite values old := by
  simp [overwrite]

@[simp]
theorem length_overwrite (values old : List α) : (overwrite values old).length = old.length := by
  simp only [overwrite, List.length_append, List.length_take, List.length_drop]
  omega

theorem getElem?_overwrite_of_lt {values old : List α} {i : Nat} (hvalues : i < values.length)
    (hold : i < old.length)
    : (overwrite values old)[i]? = values[i]? := by
  unfold overwrite
  rw [List.getElem?_append_left (by simp only [List.length_take]; omega)]
  rw [List.getElem?_take_of_lt hold]

theorem getElem?_overwrite_of_le {values old : List α} {i : Nat} (h : values.length ≤ i)
    : (overwrite values old)[i]? = old[i]? := by
  induction values generalizing old i with
  | nil => rw [overwrite_nil_left]
  | cons x values ih =>
    cases old with
    | nil => rw [overwrite_nil_right]
    | cons y old =>
      cases i with
      | zero => simp at h
      | succ i =>
        simp only [overwrite_cons, List.getElem?_cons_succ]
        apply ih
        simpa using h

theorem overwrite_of_le {values old : List α} (h : old.length ≤ values.length)
    : overwrite values old = values.take old.length := by
  rw [overwrite, List.drop_eq_nil_of_le h, List.append_nil]

theorem overwrite_take (values old : List α) : overwrite (values.take old.length) old = overwrite values old := by
  unfold overwrite
  rw [List.take_take, Nat.min_self, List.length_take]
  cases Nat.le_total old.length values.length with
  | inl hle => rw [Nat.min_eq_left hle, List.drop_length, List.drop_eq_nil_of_le hle]
  | inr hle => rw [Nat.min_eq_right hle]

theorem getElem?_overwrite_congr {values old old' : List α} (hlength : old.length = old'.length) {i : Nat}
    (hi : i < values.length)
    : (overwrite values old)[i]? = (overwrite values old')[i]? := by
  by_cases hold : i < old.length
  . rw [getElem?_overwrite_of_lt hi hold, getElem?_overwrite_of_lt hi (by omega)]
  . rw [List.getElem?_eq_none (by rw [length_overwrite]; omega)]
    rw [List.getElem?_eq_none (by rw [length_overwrite]; omega)]

theorem overwrite_congr {values old old' : List α} (hlength : old.length = old'.length)
    (hle : old.length ≤ values.length)
    : overwrite values old = overwrite values old' := by
  rw [overwrite_of_le hle, overwrite_of_le (hlength ▸ hle), hlength]
