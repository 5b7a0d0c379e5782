import GraphManipulator.AdjacencyObjectsGenerator.Metrics

/-!
This module contains the table in terms of the draws alone: which key each selected pair gets and at which
position it is in the table.
-/

namespace AdjacencyObjectsGenerator

def rankOf (g : AdjacencyObjectsGenerator) (d : Draws) (p : Str × Str) : Nat :=
  ((g.selectedNames d).filter (fun q => toLex q < toLex p)).card

def keyOf (g : AdjacencyObjectsGenerator) (d : Draws) (p : Str × Str) : Int := g.metricKey d (g.rankOf d p)

def drawnKeys (g : AdjacencyObjectsGenerator) (d : Draws) : Finset Int :=
  (g.selectedNames d).image (g.keyOf d)

def Precedes (g : AdjacencyObjectsGenerator) (d : Draws) (p q : Str × Str) : Prop :=
  g.keyOf d p < g.keyOf d q ∨ g.keyOf d p = g.keyOf d q ∧ toLex p < toLex q

instance (g : AdjacencyObjectsGenerator) (d : Draws) : DecidableRel (g.Precedes d) :=
  fun _ _ => inferInstanceAs (Decidable (_ ∨ _))

def position (g : AdjacencyObjectsGenerator) (d : Draws) (p : Str × Str) : Nat :=
  ((g.selectedNames d).filter (fun q => g.Precedes d q p)).card

section

variable {g : AdjacencyObjectsGenerator} {d : Draws} {ps : List (Str × Str)} {table : GraphPayload}

theorem precedes_asymm (p q : Str × Str) (h : g.Precedes d p q) : ¬ g.Precedes d q p := by
  rintro (hlt | ⟨heq, hlt⟩)
  . rcases h with hgt | ⟨heq, -⟩
    . exact lt_asymm hlt hgt
    . exact absurd heq hlt.ne'
  . rcases h with hgt | ⟨-, hgt⟩
    . exact absurd heq hgt.ne'
    . exact lt_asymm hlt hgt

theorem IsTable.getElem?_iff (h : g.IsTable d ps table) {t : Nat} {p : Str × Str}
    : ps[t]? = some p ↔ p ∈ g.selectedNames d ∧ g.rankOf d p = t :=
  Ascending.getElem?_eq_some_iff (fun _ _ hlt hgt => lt_asymm hlt hgt) h.ascending h.mem_selectedNames

theorem IsTable.mem_keyedPairs_iff (h : g.IsTable d ps table) {key : Int} {p : Str × Str}
    : (key, p) ∈ g.keyedPairs d ps ↔ p ∈ g.selectedNames d ∧ g.keyOf d p = key := by
  simp only [mem_keyedPairs, h.getElem?_iff, keyOf]
  constructor
  . rintro ⟨t, ⟨hp, rfl⟩, hkey⟩
    exact ⟨hp, hkey⟩
  . rintro ⟨hp, hkey⟩
    exact ⟨_, ⟨hp, rfl⟩, hkey⟩

theorem IsTable.keyOf_eq (h : g.IsTable d ps table) {e : Int × List (Str × Str)} (he : e ∈ table.toList)
    {p : Str × Str} (hp : p ∈ e.2)
    : g.keyOf d p = e.1 :=
  (h.mem_keyedPairs_iff.mp ((h.grouping.mem_iff he).mp hp)).2

theorem IsTable.length_toList (h : g.IsTable d ps table) : table.toList.length = (g.drawnKeys d).card := by
  rw [← List.length_map, ← List.toFinset_card_of_nodup table.sorted.nodup_keys]
  congr 1
  ext key
  rw [List.mem_toFinset, h.grouping.keys, drawnKeys, Finset.mem_image]
  constructor
  . intro hkey
    obtain ⟨⟨_, p⟩, hp, rfl⟩ := List.mem_map.mp hkey
    exact ⟨p, h.mem_keyedPairs_iff.mp hp⟩
  . rintro ⟨p, hp⟩
    exact List.mem_map_of_mem (h.mem_keyedPairs_iff.mpr hp)

theorem IsTable.allPairs_ascending (h : g.IsTable d ps table) : (allPairs table).Pairwise (g.Precedes d) := by
  rw [allPairs, List.pairwise_flatMap]
  constructor
  . intro e he
    refine (h.pairwise_lt he).imp_of_mem ?_
    intro p q hp hq hlt
    exact Or.inr ⟨(h.keyOf_eq he hp).trans (h.keyOf_eq he hq).symm, hlt⟩
  . refine table.sorted.imp_of_mem ?_
    intro e e' he he' hlt p hp q hq
    left
    rwa [h.keyOf_eq he hp, h.keyOf_eq he' hq]

theorem IsTable.getElem?_allPairs_iff (h : g.IsTable d ps table) {j : Nat} {p : Str × Str}
    : (allPairs table)[j]? = some p ↔ p ∈ g.selectedNames d ∧ g.position d p = j :=
  Ascending.getElem?_eq_some_iff precedes_asymm h.allPairs_ascending
    (fun p => h.perm.mem_iff.trans (h.mem_selectedNames p))

end

end AdjacencyObjectsGenerator
