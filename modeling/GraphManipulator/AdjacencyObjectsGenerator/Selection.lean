import GraphManipulator.AdjacencyObjectsGenerator.Lemmas
import Mathlib.Data.Finset.Prod

/-!
This module contains how many pairs the coins select: the pairs of indices, each of which is a round of the loop
that adds names to a set, and the different pairs of names.
-/

namespace AdjacencyObjectsGenerator

def Selects (g : AdjacencyObjectsGenerator) (d : Draws) (i : Nat × Nat) : Prop :=
  g.generateNames (d.name i.1) ≠ g.generateNames (d.name i.2) ∧ d.coin i.1 i.2 % 2 = 1

instance (g : AdjacencyObjectsGenerator) (d : Draws) : DecidablePred (g.Selects d) :=
  fun _ => inferInstanceAs (Decidable (_ ∧ _))

def namesAt (g : AdjacencyObjectsGenerator) (d : Draws) (i : Nat × Nat) : Str × Str :=
  (g.generateNames (d.name i.1), g.generateNames (d.name i.2))

def selectedIndices (g : AdjacencyObjectsGenerator) (d : Draws) : Finset (Nat × Nat) :=
  let indices := Finset.range g.overallAdjencyMatrixDimension
  (indices ×ˢ indices).filter (g.Selects d)

theorem card_selectedIndices_le (g : AdjacencyObjectsGenerator) (d : Draws)
    : (g.selectedIndices d).card
        ≤ g.overallAdjencyMatrixDimension * (g.overallAdjencyMatrixDimension - 1) := by
  have hsub : g.selectedIndices d ⊆ (Finset.range g.overallAdjencyMatrixDimension).offDiag := by
    intro i hi
    simp only [selectedIndices, Selects, Finset.mem_filter, Finset.mem_product] at hi
    obtain ⟨⟨hfst, hsnd⟩, hne, -⟩ := hi
    refine Finset.mem_offDiag.mpr ⟨hfst, hsnd, ?_⟩
    intro heq
    rw [heq] at hne
    exact hne rfl
  have hle := Finset.card_le_card hsub
  rwa [Finset.offDiag_card, Finset.card_range, ← Nat.mul_sub_one] at hle

theorem zipIdx_serversNames (g : AdjacencyObjectsGenerator) (d : Draws)
    : (g.serversNames d).zipIdx
        =
      (List.range g.overallAdjencyMatrixDimension).map (fun n => (g.generateNames (d.name n), n)) := by
  apply List.ext_getElem?
  intro n
  by_cases hn : n < g.overallAdjencyMatrixDimension
  . simp [serversNames, hn]
  . simp [serversNames, Nat.le_of_not_lt hn]

theorem selectedPairs_eq (g : AdjacencyObjectsGenerator) (d : Draws)
    : g.selectedPairs d
        =
      let indices := List.range g.overallAdjencyMatrixDimension
      ((indices ×ˢ indices).filter (fun i => g.Selects d i)).map (g.namesAt d) := by
  dsimp only
  rw [selectedPairs, pairUp, zipIdx_serversNames, List.flatMap_map, SProd.sprod, List.instSProd]
  simp only [List.product, List.filter_flatMap, List.map_flatMap, List.filterMap_map, List.filter_map,
    List.map_map]
  congr 1
  funext i
  rw [← List.filterMap_eq_map, List.filterMap_filter]
  congr 1
  funext j
  by_cases hne : g.generateNames (d.name i) = g.generateNames (d.name j)
  . simp [Selects, hne]
  . simp [Selects, namesAt, hne]

theorem length_selectedPairs (g : AdjacencyObjectsGenerator) (d : Draws)
    : (g.selectedPairs d).length = (g.selectedIndices d).card := by
  rw [selectedPairs_eq, List.length_map]
  rw [← List.toFinset_card_of_nodup ((List.nodup_range.product List.nodup_range).filter _)]
  congr 1
  ext ⟨i, j⟩
  simp only [selectedIndices, List.mem_toFinset, List.mem_filter, List.mem_product, List.mem_range,
    decide_eq_true_eq, Finset.mem_filter, Finset.mem_product, Finset.mem_range]

theorem length_selectedPairs_le (g : AdjacencyObjectsGenerator) (d : Draws)
    : (g.selectedPairs d).length
        ≤ g.overallAdjencyMatrixDimension * (g.overallAdjencyMatrixDimension - 1) := by
  rw [length_selectedPairs]
  apply card_selectedIndices_le

def selectedNames (g : AdjacencyObjectsGenerator) (d : Draws) : Finset (Str × Str) :=
  let indices := Finset.range g.overallAdjencyMatrixDimension
  let odd := (indices ×ˢ indices).filter (fun i => d.coin i.1 i.2 % 2 = 1)
  (odd.image (fun i => (g.generateNames (d.name i.1), g.generateNames (d.name i.2)))).filter
    (fun p => p.1 ≠ p.2)

theorem getElem?_serversNames {g : AdjacencyObjectsGenerator} {d : Draws} {i : Nat} {name : Str}
    : (g.serversNames d)[i]? = some name
        ↔ i < g.overallAdjencyMatrixDimension ∧ g.generateNames (d.name i) = name := by
  simp only [serversNames, List.getElem?_map, Option.map_eq_some_iff, List.getElem?_eq_some_iff,
    List.length_range, List.getElem_range]
  constructor
  . rintro ⟨n, ⟨hlt, rfl⟩, heq⟩
    exact ⟨hlt, heq⟩
  . rintro ⟨hlt, heq⟩
    exact ⟨i, ⟨hlt, rfl⟩, heq⟩

theorem mem_selectedNames {g : AdjacencyObjectsGenerator} {d : Draws} {p : Str × Str}
    : p ∈ g.selectedNames d ↔ g.IsSelected d p.1 p.2 := by
  simp only [selectedNames, IsSelected, Finset.mem_filter, Finset.mem_image, Finset.mem_product,
    Finset.mem_range, getElem?_serversNames]
  constructor
  . rintro ⟨⟨i, ⟨⟨hi, hj⟩, hcoin⟩, rfl⟩, hne⟩
    exact ⟨hne, i.1, i.2, ⟨hi, rfl⟩, ⟨hj, rfl⟩, hcoin⟩
  . rintro ⟨hne, i, j, ⟨hi, hname⟩, ⟨hj, hname'⟩, hcoin⟩
    refine ⟨⟨(i, j), ⟨⟨hi, hj⟩, hcoin⟩, ?_⟩, hne⟩
    rw [hname, hname']

theorem selectedNames_eq (g : AdjacencyObjectsGenerator) (d : Draws)
    : g.selectedNames d = (g.selectedIndices d).image (g.namesAt d) := by
  ext p
  simp only [selectedNames, selectedIndices, namesAt, Selects, Finset.mem_filter, Finset.mem_image]
  constructor
  . rintro ⟨⟨i, ⟨hi, hcoin⟩, rfl⟩, hne⟩
    exact ⟨i, ⟨hi, hne, hcoin⟩, rfl⟩
  . rintro ⟨i, ⟨hi, hne, hcoin⟩, rfl⟩
    exact ⟨⟨i, ⟨hi, hcoin⟩, rfl⟩, hne⟩

theorem card_selectedNames_le (g : AdjacencyObjectsGenerator) (d : Draws)
    : (g.selectedNames d).card ≤ (g.selectedIndices d).card := by
  rw [selectedNames_eq]
  apply Finset.card_image_le

end AdjacencyObjectsGenerator
