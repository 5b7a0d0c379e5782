import Mathlib.Init

/-!
This module contains a memory as a function from addresses to values: reading and copying runs of consecutive
addresses.
-/

universe u

abbrev Memory (α : Type u) : Type u := Nat → α

namespace Memory

variable {α : Type u}

def write (mem : Memory α) (p : Nat) (a : α) : Memory α := fun q => if q = p then a else mem q

def read (mem : Memory α) (src : Nat) : Nat → List α
  | 0 => []
  | length + 1 => mem src :: read mem (src + 1) length

def copy (mem : Memory α) (dst : Nat) : List α → Memory α
  | [] => mem
  | a :: data => copy (mem.write dst a) (dst + 1) data

@[simp]
theorem write_self (mem : Memory α) (p : Nat) (a : α) : mem.write p a p = a := if_pos rfl

theorem write_of_ne (mem : Memory α) {p q : Nat} (a : α) (h : q ≠ p) : mem.write p a q = mem q := if_neg h

@[simp]
theorem length_read (mem : Memory α) (src length : Nat) : (mem.read src length).length = length := by
  induction length generalizing src with
  | zero => rfl
  | succ length ih => rw [read, List.length_cons, ih]

theorem read_add (mem : Memory α) (src m n : Nat)
    : mem.read src (m + n) = mem.read src m ++ mem.read (src + m) n := by
  induction m generalizing src with
  | zero => rw [Nat.zero_add, read, List.nil_append, Nat.add_zero]
  | succ m ih =>
    have hsrc : src + (m + 1) = src + 1 + m := by omega
    rw [Nat.succ_add, read, ih, read, List.cons_append, hsrc]

theorem take_read (mem : Memory α) (src : Nat) {n length : Nat} (h : n ≤ length)
    : (mem.read src length).take n = mem.read src n := by
  obtain ⟨rest, rfl⟩ := Nat.exists_eq_add_of_le h
  rw [read_add]
  exact List.take_left' (length_read mem src n)

theorem drop_read (mem : Memory α) (src : Nat) {n length : Nat} (h : n ≤ length)
    : (mem.read src length).drop n = mem.read (src + n) (length - n) := by
  obtain ⟨rest, rfl⟩ := Nat.exists_eq_add_of_le h
  rw [read_add, Nat.add_sub_cancel_left]
  exact List.drop_left' (length_read mem src n)

theorem getElem?_read (mem : Memory α) (src : Nat) {i length : Nat} (h : i < length)
    : (mem.read src length)[i]? = some (mem (src + i)) := by
  induction length generalizing src i with
  | zero => omega
  | succ length ih =>
    cases i with
    | zero => rfl
    | succ i =>
      have hsrc : src + (i + 1) = src + 1 + i := by omega
      rw [read, List.getElem?_cons_succ, ih (src + 1) (by omega), hsrc]

theorem read_congr {mem mem' : Memory α} {src length : Nat}
    (h : ∀ p, src ≤ p → p < src + length → mem p = mem' p)
    : mem.read src length = mem'.read src length := by
  induction length generalizing src with
  | zero => rfl
  | succ length ih =>
    rw [read, read, h src (by omega) (by omega), ih]
    intro p hlower hupper
    exact h p (by omega) (by omega)

theorem copy_of_outside (mem : Memory α) {dst p : Nat} {data : List α} (h : p < dst ∨ dst + data.length ≤ p)
    : mem.copy dst data p = mem p := by
  induction data generalizing mem dst with
  | nil => rfl
  | cons a data ih =>
    rw [List.length_cons] at h
    rw [copy, ih _ (by omega), write_of_ne _ _ (by omega)]

theorem read_copy (mem : Memory α) (dst : Nat) (data : List α)
    : (mem.copy dst data).read dst data.length = data := by
  induction data generalizing mem dst with
  | nil => rfl
  | cons a data ih =>
    rw [List.length_cons, read, copy, ih, copy_of_outside _ (by omega), write_self]

theorem read_copy_of_disjoint (mem : Memory α) {dst src length : Nat} {data : List α}
    (h : src + length ≤ dst ∨ dst + data.length ≤ src)
    : (mem.copy dst data).read src length = mem.read src length := by
  apply read_congr
  intro p hlower hupper
  exact copy_of_outside mem (by omega)

end Memory
