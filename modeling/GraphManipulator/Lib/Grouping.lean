import GraphManipulator.Lib.OrdMap
import Mathlib.Data.List.Perm.Basic

/-!
This module contains the grouping of values by keys: each group has the values under its key, in their order,
and there is a group for each key that occurs.
-/

universe u v

variable {κ : Type u} {α : Type v} [LinearOrder κ]

namespace OrdMap

structure IsGrouping (l : List (κ × α)) (groups : List (κ × List α)) : Prop where
  keys : ∀ k, k ∈ groups.map Prod.fst ↔ k ∈ l.map Prod.fst
  values : ∀ e ∈ groups, e.2 = (l.filter (fun x => x.1 = e.1)).map Prod.snd

def push (k : κ) (x : α) (groups : List (κ × List α)) : List (κ × List α) :=
  upsert k (fun xs => xs.getD [] ++ [x]) groups

theorem isGrouping_nil : IsGrouping ([] : List (κ × α)) [] where
  keys := by simp
  values := by simp

theorem isGrouping_push {l : List (κ × α)} {groups : List (κ × List α)} (hsorted : Sorted groups)
    (h : IsGrouping l groups) (k : κ) (x : α)
    : IsGrouping (l ++ [(k, x)]) (push k x groups) := by
  constructor
  . intro k'
    rw [push, mem_keys_upsert, h.keys k', List.map_append, List.mem_append, or_comm]
    simp
  . intro e he
    rw [List.filter_append, List.map_append]
    rcases mem_upsert hsorted e he with ⟨hmem, hk⟩ | ⟨xs, hxs, rfl⟩ | ⟨hnew, rfl⟩
    . simp [← h.values e hmem, Ne.symm hk]
    . simp [← h.values _ hxs]
    . -- no value came under `k` before
      have hnil : l.filter (fun x => x.1 = k) = [] := by
        rw [List.filter_eq_nil_iff]
        intro y hy hk
        apply hnew
        rw [h.keys, ← of_decide_eq_true hk]
        exact List.mem_map_of_mem hy
      simp [hnil]

section

variable {l : List (κ × α)} {groups : List (κ × List α)}

theorem IsGrouping.mem_iff (h : IsGrouping l groups) {e : κ × List α} (he : e ∈ groups) {x : α}
    : x ∈ e.2 ↔ (e.1, x) ∈ l := by
  rw [h.values e he]
  simp only [List.mem_map, List.mem_filter, decide_eq_true_eq]
  constructor
  . rintro ⟨y, ⟨hy, hk⟩, rfl⟩
    rwa [← hk]
  . intro hx
    exact ⟨_, ⟨hx, rfl⟩, rfl⟩

theorem IsGrouping.sublist (h : IsGrouping l groups) {e : κ × List α} (he : e ∈ groups)
    : e.2.Sublist (l.map Prod.snd) := by
  rw [h.values e he]
  apply List.Sublist.map
  apply List.filter_sublist

theorem IsGrouping.tail {e : κ × List α} (hsorted : Sorted (e :: groups)) (h : IsGrouping l (e :: groups))
    : IsGrouping (l.filter (fun x => x.1 ≠ e.1)) groups := by
  have hne : ∀ e' ∈ groups, e'.1 ≠ e.1 := fun e' he' => ((List.pairwise_cons.mp hsorted).1 e' he').ne'
  constructor
  . intro k
    have hkeys := h.keys k
    rw [List.map_cons, List.mem_cons] at hkeys
    constructor
    . intro hk
      obtain ⟨x, hx, rfl⟩ := List.mem_map.mp (hkeys.mp (Or.inr hk))
      obtain ⟨e', he', heq⟩ := List.mem_map.mp hk
      apply List.mem_map_of_mem
      rw [List.mem_filter, ← heq]
      exact ⟨hx, decide_eq_true (hne e' he')⟩
    . intro hk
      obtain ⟨x, hx, rfl⟩ := List.mem_map.mp hk
      rw [List.mem_filter, decide_eq_true_eq] at hx
      exact (hkeys.mpr (List.mem_map_of_mem hx.1)).resolve_left hx.2
  . intro e' he'
    rw [h.values e' (List.mem_cons_of_mem _ he'), List.filter_filter]
    congr 1
    apply List.filter_congr
    intro x _
    by_cases hx : x.1 = e'.1
    . simp [hx, hne e' he']
    . simp [hx]

theorem IsGrouping.perm (hsorted : Sorted groups) (h : IsGrouping l groups)
    : (groups.flatMap Prod.snd).Perm (l.map Prod.snd) := by
  induction groups generalizing l with
  | nil =>
    have hnil : l.map Prod.fst = [] := by
      rw [List.eq_nil_iff_forall_not_mem]
      intro k hk
      exact absurd ((h.keys k).mpr hk) List.not_mem_nil
    rw [List.map_eq_nil_iff.mp hnil]
    rfl
  | cons e groups ih =>
    have hrest := ih (List.pairwise_cons.mp hsorted).2 (h.tail hsorted)
    have hsplit := List.filter_append_perm (fun x : κ × α => decide (x.1 = e.1)) l
    rw [List.flatMap_cons, h.values e List.mem_cons_self]
    refine (hrest.append_left _).trans ?_
    rw [← List.map_append]
    simpa using hsplit.map Prod.snd

end

end OrdMap
