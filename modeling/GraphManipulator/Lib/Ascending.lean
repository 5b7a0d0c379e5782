import Mathlib.Data.Finset.Card
import Mathlib.Data.List.Count

/-!
This module contains the positions in a list that ascends along a relation: the position of an element is the
number of those before it.
-/

universe u

namespace Ascending

variable {α : Type u} {R : α → α → Prop} {l : List α}

theorem nodup (hasymm : ∀ a b, R a b → ¬ R b a) (h : l.Pairwise R) : l.Nodup := by
  apply h.imp
  rintro a b hab rfl
  exact hasymm a a hab hab

variable [DecidableRel R]

theorem countP_cons_eq_zero (hasymm : ∀ a b, R a b → ¬ R b a) {a : α} (h : (a :: l).Pairwise R)
    : (a :: l).countP (fun b => R b a) = 0 := by
  rw [List.countP_eq_zero]
  intro b hb
  rw [decide_eq_true_eq]
  rcases List.mem_cons.mp hb with rfl | hb
  . exact fun hself => hasymm _ _ hself hself
  . exact hasymm a b ((List.pairwise_cons.mp h).1 b hb)

theorem getElem?_countP (hasymm : ∀ a b, R a b → ¬ R b a) (h : l.Pairwise R) {a : α} (ha : a ∈ l)
    : l[l.countP (fun b => R b a)]? = some a := by
  induction l with
  | nil => contradiction
  | cons head tail ih =>
    have htail := List.pairwise_cons.mp h
    rcases List.mem_cons.mp ha with rfl | ha
    . rw [countP_cons_eq_zero hasymm h, List.getElem?_cons_zero]
    . have hhead : decide (R head a) = true := decide_eq_true (htail.1 a ha)
      rw [List.countP_cons_of_pos (p := fun b => R b a) hhead, List.getElem?_cons_succ]
      exact ih htail.2 ha

theorem getElem?_eq_some_iff [DecidableEq α] (hasymm : ∀ a b, R a b → ¬ R b a) (h : l.Pairwise R)
    {s : Finset α} (hs : ∀ a, a ∈ l ↔ a ∈ s) {j : Nat} {a : α}
    : l[j]? = some a ↔ a ∈ s ∧ (s.filter (fun b => R b a)).card = j := by
  have hnodup := nodup hasymm h
  have hcard : (s.filter (fun b => R b a)).card = l.countP (fun b => R b a) := by
    have heq : l.toFinset = s := by
      ext b
      rw [List.mem_toFinset, hs]
    have hfilter : s.filter (fun b => R b a) = (l.filter (fun b => R b a)).toFinset := by
      rw [← heq, List.toFinset_filter]
      simp only [decide_eq_true_eq]
    rw [hfilter, List.toFinset_card_of_nodup (hnodup.filter _), List.countP_eq_length_filter]
  rw [hcard, ← hs]
  constructor
  . intro hj
    have ha : a ∈ l := List.mem_of_getElem? hj
    refine ⟨ha, ?_⟩
    have hlt := (List.getElem?_eq_some_iff.mp hj).1
    have hcount := getElem?_countP hasymm h ha
    exact ((List.getElem?_inj hlt hnodup).mp (hj.trans hcount.symm)).symm
  . rintro ⟨ha, rfl⟩
    exact getElem?_countP hasymm h ha

end Ascending
