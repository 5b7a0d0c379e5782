import GraphManipulator.Lib.Ascending
import Mathlib.Data.List.Sort
import Mathlib.Order.Defs.LinearOrder

/-!
This module contains an ordered associative container: a list of entries kept in ascending order of
its keys, with an insertion that keeps an entry that is already there and one that updates it.
-/

universe u v

variable {κ : Type u} {ν : Type v} [LinearOrder κ]

namespace OrdMap

def Sorted (l : List (κ × ν)) : Prop :=
  l.Pairwise (fun a b => a.1 < b.1)

/--
Put `f old` under `k`, where `old` is the value found there. Nothing else changes.
-/
def upsert (k : κ) (f : Option ν → ν) (l : List (κ × ν)) : List (κ × ν) :=
  match l with
  | [] => [(k, f none)]
  | (k', v') :: tail =>
    if k < k' then
      (k, f none) :: (k', v') :: tail
    else if k = k' then
      (k', f (some v')) :: tail
    else
      (k', v') :: upsert k f tail

def emplace (k : κ) (v : ν) (l : List (κ × ν)) : List (κ × ν) :=
  upsert k (fun old => old.getD v) l

def ofList (l : List (κ × ν)) : List (κ × ν) :=
  l.foldl (fun acc e => emplace e.1 e.2 acc) []

theorem mem_keys_upsert {k k' : κ} {f : Option ν → ν} {l : List (κ × ν)}
    : k' ∈ (upsert k f l).map Prod.fst ↔ k' = k ∨ k' ∈ l.map Prod.fst := by
  induction l with
  | nil => simp [upsert]
  | cons head tail ih =>
    simp only [upsert]
    split
    . simp
    . split
      . next heq => simp [heq]
      . simp only [List.map_cons, List.mem_cons, ih]
        apply or_left_comm

theorem upsert_key_mem {k : κ} {f : Option ν → ν} {l : List (κ × ν)}
    : ∀ e ∈ upsert k f l, e.1 = k ∨ e.1 ∈ l.map Prod.fst := by
  intro e he
  exact mem_keys_upsert.mp (List.mem_map_of_mem he)

theorem sorted_upsert {k : κ} {f : Option ν → ν} {l : List (κ × ν)} (h : Sorted l)
    : Sorted (upsert k f l) := by
  unfold Sorted at *
  induction l with
  | nil => simp [upsert]
  | cons head tail ih =>
    rw [List.pairwise_cons] at h
    simp only [upsert]
    split
    . next hlt =>
      refine List.pairwise_cons.mpr ⟨?_, List.pairwise_cons.mpr h⟩
      intro e he
      rcases List.mem_cons.mp he with rfl | he
      . exact hlt
      . exact lt_trans hlt (h.1 e he)
    . split
      . exact List.pairwise_cons.mpr h
      . next hlt hne =>
        refine List.pairwise_cons.mpr ⟨?_, ih h.2⟩
        intro e he
        rcases upsert_key_mem e he with hk | hk
        . rw [hk]
          exact lt_of_le_of_ne (not_lt.mp hlt) (Ne.symm hne)
        . obtain ⟨e', he', heq⟩ := List.mem_map.mp hk
          rw [← heq]
          exact h.1 e' he'

theorem Sorted.not_mem_of_lt {k : κ} {l : List (κ × ν)} (h : Sorted l) (hk : ∀ e ∈ l.head?, k < e.1)
    : k ∉ l.map Prod.fst := by
  cases l with
  | nil => simp
  | cons head tail =>
    have hhead : k < head.1 := hk head rfl
    intro hmem
    rcases List.mem_cons.mp hmem with heq | hmem
    . exact absurd heq hhead.ne
    . obtain ⟨e, he, heq⟩ := List.mem_map.mp hmem
      have hlt := (List.pairwise_cons.mp h).1 e he
      rw [heq] at hlt
      exact absurd hlt hhead.not_gt

theorem mem_upsert {k : κ} {f : Option ν → ν} {l : List (κ × ν)} (h : Sorted l)
    : ∀ e ∈ upsert k f l,
        e ∈ l ∧ e.1 ≠ k
          ∨ (∃ v, (k, v) ∈ l ∧ e = (k, f (some v)))
          ∨ k ∉ l.map Prod.fst ∧ e = (k, f none) := by
  induction l with
  | nil => simp [upsert]
  | cons head tail ih =>
    intro e he
    have htail := List.pairwise_cons.mp h
    simp only [upsert] at he
    split at he
    . next hlt =>
      have hnew : k ∉ (head :: tail).map Prod.fst := h.not_mem_of_lt (by simpa using hlt)
      rcases List.mem_cons.mp he with rfl | hmem
      . exact Or.inr (Or.inr ⟨hnew, rfl⟩)
      . refine Or.inl ⟨hmem, ?_⟩
        rintro rfl
        exact hnew (List.mem_map_of_mem hmem)
    . next hlt =>
      split at he
      . next heq =>
        subst heq
        rcases List.mem_cons.mp he with rfl | he
        . exact Or.inr (Or.inl ⟨head.2, List.mem_cons_self, rfl⟩)
        . exact Or.inl ⟨List.mem_cons_of_mem _ he, (htail.1 e he).ne'⟩
      . next hne =>
        rcases List.mem_cons.mp he with rfl | he
        . exact Or.inl ⟨List.mem_cons_self, Ne.symm hne⟩
        . rcases ih htail.2 e he with ⟨hmem, hk⟩ | ⟨v, hv, heq⟩ | ⟨hnew, heq⟩
          . exact Or.inl ⟨List.mem_cons_of_mem _ hmem, hk⟩
          . exact Or.inr (Or.inl ⟨v, List.mem_cons_of_mem _ hv, heq⟩)
          . refine Or.inr (Or.inr ⟨?_, heq⟩)
            rw [List.map_cons, List.mem_cons, not_or]
            exact ⟨hne, hnew⟩

theorem sorted_emplace {k : κ} {v : ν} {l : List (κ × ν)} (h : Sorted l)
    : Sorted (emplace k v l) :=
  sorted_upsert h

theorem emplace_perm {k : κ} {v : ν} {l : List (κ × ν)} (h : k ∉ l.map Prod.fst)
    : (emplace k v l).Perm ((k, v) :: l) := by
  unfold emplace
  induction l with
  | nil => simp [upsert]
  | cons head tail ih =>
    simp only [List.map_cons, List.mem_cons, not_or] at h
    simp only [upsert]
    split
    . simp
    . rw [if_neg h.1]
      exact ((ih h.2).cons head).trans (List.Perm.swap _ _ _)

def rank (k : κ) (l : List (κ × ν)) : Nat := l.countP (fun e => e.1 < k)

theorem rank_eq_countP (k : κ) (l : List (κ × ν)) : rank k l = (l.map Prod.fst).countP (fun k' => k' < k) := by
  rw [rank, List.countP_map]
  rfl

theorem rank_cons_of_lt {k : κ} {head : κ × ν} {tail : List (κ × ν)} (h : head.1 < k)
    : rank k (head :: tail) = rank k tail + 1 := by
  simp [rank, h]

theorem Sorted.rank_eq_zero {k : κ} {head : κ × ν} {tail : List (κ × ν)} (h : Sorted (head :: tail))
    (hk : k ≤ head.1)
    : rank k (head :: tail) = 0 := by
  rw [rank, List.countP_eq_zero]
  intro e he
  rw [decide_eq_true_eq, not_lt]
  rcases List.mem_cons.mp he with rfl | he
  . exact hk
  . exact hk.trans ((List.pairwise_cons.mp h).1 e he).le

theorem Sorted.getElem?_rank {l : List (κ × ν)} (h : Sorted l) {e : κ × ν} (he : e ∈ l)
    : l[rank e.1 l]? = some e :=
  Ascending.getElem?_countP (fun _ _ hlt hgt => lt_asymm hlt hgt) h he

theorem take_upsert {k : κ} {f : Option ν → ν} {l : List (κ × ν)} (h : Sorted l) {n : Nat} (hn : n ≤ rank k l)
    : (upsert k f l).take n = l.take n := by
  induction l generalizing n with
  | nil =>
    have hzero : n = 0 := Nat.le_zero.mp hn
    simp [hzero]
  | cons head tail ih =>
    have htail := List.pairwise_cons.mp h
    by_cases hlt : head.1 < k
    . rw [rank_cons_of_lt hlt] at hn
      simp only [upsert, if_neg hlt.not_gt, if_neg hlt.ne']
      cases n with
      | zero => rfl
      | succ n =>
        rw [List.take_succ_cons, List.take_succ_cons, ih htail.2 (Nat.le_of_succ_le_succ hn)]
    . rw [h.rank_eq_zero (not_lt.mp hlt), Nat.le_zero] at hn
      simp [hn]

theorem sorted_foldl_emplace {es acc : List (κ × ν)} (h : Sorted acc)
    : Sorted (es.foldl (fun acc e => emplace e.1 e.2 acc) acc) := by
  induction es generalizing acc with
  | nil => exact h
  | cons e es ih => exact ih (sorted_emplace h)

theorem sorted_ofList (l : List (κ × ν)) : Sorted (ofList l) :=
  sorted_foldl_emplace List.Pairwise.nil

theorem mem_of_mem_emplace {k : κ} {v : ν} {l : List (κ × ν)} (h : Sorted l) {e : κ × ν} (he : e ∈ emplace k v l)
    : e = (k, v) ∨ e ∈ l := by
  obtain ⟨hmem, -⟩ | ⟨v', hmem, rfl⟩ | ⟨-, rfl⟩ := mem_upsert h e he
  . exact Or.inr hmem
  . exact Or.inr hmem
  . exact Or.inl rfl

theorem mem_of_mem_foldl_emplace {es acc : List (κ × ν)} (h : Sorted acc) {e : κ × ν}
    (he : e ∈ es.foldl (fun acc e => emplace e.1 e.2 acc) acc)
    : e ∈ acc ∨ e ∈ es := by
  induction es generalizing acc with
  | nil => exact Or.inl he
  | cons e' es ih =>
    obtain hmem | hmem := ih (sorted_emplace h) he
    . obtain rfl | hmem := mem_of_mem_emplace h hmem
      . exact Or.inr List.mem_cons_self
      . exact Or.inl hmem
    . exact Or.inr (List.mem_cons_of_mem _ hmem)

theorem mem_of_mem_ofList {l : List (κ × ν)} {e : κ × ν} (he : e ∈ ofList l) : e ∈ l :=
  (mem_of_mem_foldl_emplace List.Pairwise.nil he).resolve_left List.not_mem_nil

theorem foldl_emplace_perm {es acc : List (κ × ν)}
    (h : ((acc ++ es).map Prod.fst).Nodup)
    : (es.foldl (fun acc e => emplace e.1 e.2 acc) acc).Perm (acc ++ es) := by
  induction es generalizing acc with
  | nil => simp
  | cons e es ih =>
    have hperm : (acc ++ e :: es).Perm ((e :: acc) ++ es) := List.perm_middle
    have hnodup := (hperm.map Prod.fst).nodup_iff.mp h
    simp only [List.cons_append, List.map_cons, List.nodup_cons] at hnodup
    have hnew : e.1 ∉ acc.map Prod.fst := by
      intro hmem
      apply hnodup.1
      simp only [List.map_append, List.mem_append]
      exact Or.inl hmem
    have hacc : (emplace e.1 e.2 acc).Perm (e :: acc) := emplace_perm hnew
    rw [List.foldl_cons]
    refine (ih ?_).trans ((hacc.append_right es).trans hperm.symm)
    exact (((hacc.append_right es).trans hperm.symm).map Prod.fst).nodup_iff.mpr h

theorem ofList_perm {l : List (κ × ν)} (h : (l.map Prod.fst).Nodup) : (ofList l).Perm l :=
  foldl_emplace_perm h

theorem Sorted.eq_of_perm {l₁ l₂ : List (κ × ν)} (h₁ : Sorted l₁) (h₂ : Sorted l₂)
    (h : l₁.Perm l₂) : l₁ = l₂ :=
  List.Perm.eq_of_pairwise (fun _ _ _ _ hab hba => absurd hab (not_lt.mpr hba.le)) h₁ h₂ h

theorem Sorted.nodup_keys {l : List (κ × ν)} (h : Sorted l) : (l.map Prod.fst).Nodup :=
  List.pairwise_map.mpr (h.imp (fun hlt => hlt.ne))

theorem ofList_of_sorted {l : List (κ × ν)} (h : Sorted l) : ofList l = l :=
  (sorted_ofList l).eq_of_perm h (ofList_perm h.nodup_keys)

end OrdMap

structure OrdMap (κ : Type u) (ν : Type v) [LinearOrder κ] where
  toList : List (κ × ν)
  sorted : OrdMap.Sorted toList

namespace OrdMap

def empty : OrdMap κ ν where
  toList := []
  sorted := List.Pairwise.nil

def alter (m : OrdMap κ ν) (k : κ) (f : Option ν → ν) : OrdMap κ ν where
  toList := upsert k f m.toList
  sorted := sorted_upsert m.sorted

def insert (m : OrdMap κ ν) (k : κ) (v : ν) : OrdMap κ ν where
  toList := emplace k v m.toList
  sorted := sorted_emplace m.sorted

end OrdMap
