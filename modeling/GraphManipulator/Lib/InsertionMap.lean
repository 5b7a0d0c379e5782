import Mathlib.Data.List.Nodup

/-!
This module contains finite maps that keep the order in which their keys were added.
-/

universe u v

structure InsertionMap (κ : Type u) (ν : Type v) where
  entries : List (κ × ν)
  nodup : (entries.map Prod.fst).Nodup

namespace InsertionMap

variable {κ : Type u} {ν : Type v}

instance : EmptyCollection (InsertionMap κ ν) := ⟨⟨[], List.nodup_nil⟩⟩

def keys (m : InsertionMap κ ν) : List κ := m.entries.map Prod.fst

instance : Membership κ (InsertionMap κ ν) := ⟨fun m k => k ∈ m.keys⟩

@[simp]
theorem keys_empty : (∅ : InsertionMap κ ν).keys = [] := rfl

@[simp]
theorem not_mem_empty (k : κ) : k ∉ (∅ : InsertionMap κ ν) := List.not_mem_nil

theorem mem_def {m : InsertionMap κ ν} {k : κ} : k ∈ m ↔ k ∈ m.keys := Iff.rfl

variable [DecidableEq κ] (m : InsertionMap κ ν)

instance (k : κ) : Decidable (k ∈ m) := inferInstanceAs (Decidable (k ∈ m.keys))

def get? (k : κ) : Option ν := (m.entries.find? (fun e => e.1 = k)).map Prod.snd

theorem map_fst_update (l : List (κ × ν)) (k : κ) (v : ν)
    : (l.map (fun e => if e.1 = k then (k, v) else e)).map Prod.fst = l.map Prod.fst := by
  rw [List.map_map]
  apply List.map_congr_left
  intro e _
  by_cases he : e.1 = k
  . simp [he]
  . simp [he]

def set (k : κ) (v : ν) : InsertionMap κ ν :=
  if h : k ∈ m then
    { entries := m.entries.map (fun e => if e.1 = k then (k, v) else e)
      nodup := by
        rw [map_fst_update]
        exact m.nodup }
  else
    { entries := m.entries ++ [(k, v)]
      nodup := by
        rw [List.map_append, List.map_singleton, ← List.concat_eq_append]
        exact m.nodup.concat h }

def delete (k : κ) : InsertionMap κ ν where
  entries := m.entries.filter (fun e => e.1 ≠ k)
  nodup := m.nodup.sublist (List.filter_sublist.map Prod.fst)

variable {m} {k k' : κ} {v : ν}

@[simp]
theorem get?_empty (k : κ) : (∅ : InsertionMap κ ν).get? k = none := rfl

theorem get?_eq_some_iff : m.get? k = some v ↔ (k, v) ∈ m.entries := by
  obtain ⟨l, hnodup⟩ := m
  simp only [get?]
  induction l with
  | nil => simp
  | cons e l ih =>
    obtain ⟨k', v'⟩ := e
    rw [List.map_cons, List.nodup_cons] at hnodup
    by_cases hk : k' = k
    . subst hk
      have hnone : (k', v) ∉ l := fun hmem => hnodup.1 (List.mem_map.mpr ⟨_, hmem, rfl⟩)
      simp [hnone, eq_comm]
    . have hne : ¬ k = k' := fun h => hk h.symm
      simp only [List.find?_cons, hk, decide_false, ih hnodup.2, List.mem_cons, Prod.mk.injEq, hne, false_and,
        false_or]

theorem mem_iff : k ∈ m ↔ ∃ v, m.get? k = some v := by
  simp only [mem_def, keys, List.mem_map, get?_eq_some_iff]
  constructor
  . rintro ⟨⟨k', v⟩, hmem, rfl⟩
    exact ⟨v, hmem⟩
  . rintro ⟨v, hmem⟩
    exact ⟨(k, v), hmem, rfl⟩

theorem get?_eq_none_iff : m.get? k = none ↔ k ∉ m := by
  rw [mem_iff, Option.eq_none_iff_forall_ne_some, not_exists]

theorem entries_eq_map {f : κ → ν} (h : ∀ k ∈ m, m.get? k = some (f k))
    : m.entries = m.keys.map (fun k => (k, f k)) := by
  rw [keys, List.map_map]
  nth_rewrite 1 [← List.map_id m.entries]
  apply List.map_congr_left
  rintro ⟨k, v⟩ hentry
  have hget := get?_eq_some_iff.mpr hentry
  rw [h k (mem_iff.mpr ⟨v, hget⟩), Option.some.injEq] at hget
  rw [Function.comp_apply, hget]
  rfl

theorem entries_set_of_not_mem (h : k ∉ m) : (m.set k v).entries = m.entries ++ [(k, v)] := by
  rw [set, dif_neg h]

theorem entries_set_of_mem (h : k ∈ m)
    : (m.set k v).entries = m.entries.map (fun e => if e.1 = k then (k, v) else e) := by
  rw [set, dif_pos h]

theorem keys_set_of_not_mem (h : k ∉ m) : (m.set k v).keys = m.keys ++ [k] := by
  rw [keys, entries_set_of_not_mem h, List.map_append]
  rfl

theorem keys_set_of_mem (h : k ∈ m) : (m.set k v).keys = m.keys := by
  rw [keys, entries_set_of_mem h, map_fst_update, keys]

theorem get?_set : (m.set k v).get? k' = if k' = k then some v else m.get? k' := by
  apply Option.ext
  intro w
  rw [get?_eq_some_iff]
  by_cases hmem : k ∈ m
  . rw [entries_set_of_mem hmem, List.mem_map]
    split
    . next hk =>
      subst hk
      obtain ⟨w', hw'⟩ := mem_iff.mp hmem
      rw [get?_eq_some_iff] at hw'
      constructor
      . rintro ⟨e, -, he⟩
        split at he
        . exact congrArg some (Prod.mk.inj he).2
        . next hne =>
          rw [he] at hne
          exact absurd rfl hne
      . intro hw
        rw [Option.some.inj hw]
        exact ⟨_, hw', if_pos rfl⟩
    . next hk =>
      rw [get?_eq_some_iff]
      constructor
      . rintro ⟨e, he, heq⟩
        split at heq
        . exact absurd (Prod.mk.inj heq).1.symm hk
        . rwa [← heq]
      . intro hw
        exact ⟨_, hw, if_neg hk⟩
  . rw [entries_set_of_not_mem hmem, List.mem_append, List.mem_singleton, Prod.mk.injEq]
    split
    . next hk =>
      subst hk
      have hnone : (k', w) ∉ m.entries := fun h => hmem (mem_iff.mpr ⟨w, get?_eq_some_iff.mpr h⟩)
      simp [hnone, eq_comm]
    . next hk => simp [hk, get?_eq_some_iff]

omit [DecidableEq κ] in
theorem ext {m m' : InsertionMap κ ν} (h : m.entries = m'.entries) : m = m' := by
  obtain ⟨l, hl⟩ := m
  cases h
  rfl

theorem set_set (m : InsertionMap κ ν) (k : κ) (v w : ν) : (m.set k v).set k w = m.set k w := by
  apply ext
  by_cases hmem : k ∈ m
  . have hset : k ∈ m.set k v := by
      rw [mem_def, keys_set_of_mem hmem]
      exact hmem
    rw [entries_set_of_mem hset, entries_set_of_mem hmem, entries_set_of_mem hmem, List.map_map]
    apply List.map_congr_left
    intro e _
    by_cases he : e.1 = k
    . simp [he]
    . simp [he]
  . have hset : k ∈ m.set k v := by
      rw [mem_def, keys_set_of_not_mem hmem]
      simp
    have hsame : m.entries.map (fun e => if e.1 = k then (k, w) else e) = m.entries := by
      nth_rewrite 2 [← List.map_id m.entries]
      apply List.map_congr_left
      intro e he
      apply if_neg
      rintro rfl
      exact hmem (List.mem_map_of_mem he)
    rw [entries_set_of_mem hset, entries_set_of_not_mem hmem, entries_set_of_not_mem hmem, List.map_append, hsame]
    simp

theorem mem_set : k' ∈ m.set k v ↔ k' = k ∨ k' ∈ m := by
  simp only [mem_iff, get?_set]
  split
  . next hk => simp [hk]
  . next hk => simp [hk]

theorem keys_delete : (m.delete k).keys = m.keys.filter (fun k' => k' ≠ k) := by
  rw [keys, keys, delete, List.filter_map]
  rfl

theorem get?_delete : (m.delete k).get? k' = if k' = k then none else m.get? k' := by
  apply Option.ext
  intro w
  rw [get?_eq_some_iff, delete, List.mem_filter]
  split
  . next hk => simp [hk]
  . next hk => simp [hk, get?_eq_some_iff]

theorem mem_delete : k' ∈ m.delete k ↔ k' ≠ k ∧ k' ∈ m := by
  simp only [mem_iff, get?_delete]
  split
  . next hk => simp [hk]
  . next hk => simp [hk]

end InsertionMap
