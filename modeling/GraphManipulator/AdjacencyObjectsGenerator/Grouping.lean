import GraphManipulator.AdjacencyObjectsGenerator.Selection

/-!
This module contains which table the generator returns: the selected pairs, without repetition and in ascending
order, each grouped under the key that was drawn for it.
-/

namespace AdjacencyObjectsGenerator

def allPairs (table : GraphPayload) : List (Str × Str) := table.toList.flatMap Prod.snd

section

variable {g : AdjacencyObjectsGenerator} {d : Draws} {ps : List (Str × Str)} {table : GraphPayload}

theorem IsTable.nodup (h : g.IsTable d ps table) : ps.Nodup :=
  h.ascending.imp (fun hlt heq => absurd hlt (by rw [heq]; exact lt_irrefl _))

theorem IsTable.perm (h : g.IsTable d ps table) : (allPairs table).Perm ps := by
  have := h.grouping.perm table.sorted
  rwa [map_snd_keyedPairs] at this

theorem IsTable.mem_selectedNames (h : g.IsTable d ps table) (p : Str × Str)
    : p ∈ ps ↔ p ∈ g.selectedNames d := by
  rw [h.selected, AdjacencyObjectsGenerator.mem_selectedNames]

theorem IsTable.length_eq (h : g.IsTable d ps table) : ps.length = (g.selectedNames d).card := by
  rw [← List.toFinset_card_of_nodup h.nodup]
  congr 1
  ext p
  rw [List.mem_toFinset, h.mem_selectedNames]

theorem IsTable.length_le (h : g.IsTable d ps table)
    : ps.length ≤ g.overallAdjencyMatrixDimension * (g.overallAdjencyMatrixDimension - 1) := by
  rw [h.length_eq]
  apply Nat.le_trans (g.card_selectedNames_le d)
  apply card_selectedIndices_le

theorem IsTable.mem_iff (h : g.IsTable d ps table) {t : Nat} {p : Str × Str} (hp : ps[t]? = some p)
    {e : Int × List (Str × Str)} (he : e ∈ table.toList)
    : p ∈ e.2 ↔ e.1 = g.metricKey d t := by
  rw [h.grouping.mem_iff he, mem_keyedPairs]
  constructor
  . rintro ⟨t', hp', hkey⟩
    have hlt : t < ps.length := (List.getElem?_eq_some_iff.mp hp).1
    have ht : t = t' := (List.getElem?_inj hlt h.nodup).mp (hp.trans hp'.symm)
    rw [ht, hkey]
  . intro hkey
    exact ⟨t, hp, hkey.symm⟩

theorem IsTable.pairwise_lt (h : g.IsTable d ps table) {e : Int × List (Str × Str)} (he : e ∈ table.toList)
    : e.2.Pairwise (fun p q => toLex p < toLex q) := by
  have hsub := h.grouping.sublist he
  rw [map_snd_keyedPairs] at hsub
  exact h.ascending.sublist hsub

end

structure IsSimple (table : GraphPayload) : Prop where
  loopless : ∀ p ∈ allPairs table, p.1 ≠ p.2
  once : (allPairs table).Pairwise (fun p q => q ≠ p ∧ q ≠ p.swap)

theorem generateData_isSimple_iff {g : AdjacencyObjectsGenerator} {d : Draws} {table : GraphPayload}
    (htable : g.generateData d = .ok table)
    : IsSimple table ↔ ∀ a b, g.IsSelected d a b → ¬ g.IsSelected d b a := by
  obtain ⟨ps, hps⟩ := isTable_of_generateData htable
  have hmem : ∀ p, p ∈ allPairs table ↔ g.IsSelected d p.1 p.2 :=
    fun p => hps.perm.mem_iff.trans (hps.selected p)
  constructor
  . intro h a b hab hba
    -- the two directions are two elements of the list
    have hne : (a, b) ≠ (b, a) := fun heq => hab.1 (congrArg Prod.fst heq)
    have hsymm : Std.Symm (fun p q : Str × Str => q ≠ p ∧ q ≠ p.swap) := by
      constructor
      rintro p q ⟨heq, hswap⟩
      refine ⟨Ne.symm heq, ?_⟩
      rintro rfl
      exact hswap q.swap_swap.symm
    exact (h.once.forall ((hmem (a, b)).mpr hab) ((hmem (b, a)).mpr hba) hne).2 rfl
  . intro h
    constructor
    . intro p hp
      exact ((hmem p).mp hp).1
    . have hnodup : (allPairs table).Nodup := hps.perm.nodup_iff.mpr hps.nodup
      refine hnodup.imp_of_mem ?_
      intro p q hp hq hne
      refine ⟨Ne.symm hne, ?_⟩
      rintro rfl
      exact h p.1 p.2 ((hmem p).mp hp) ((hmem p.swap).mp hq)

theorem generateData_isSimple_single
    : let g : AdjacencyObjectsGenerator := .ofDims 2 1 1
      let d : Draws := ⟨fun n _ => n, fun i _ => 1 - i, fun n _ => n + 4⟩
      IsSimple (OrdMap.empty.alter 5 (fun _ => [(['A'], ['B'])]))
        ↔ ∀ a b, g.IsSelected d a b → ¬ g.IsSelected d b a := by
  intro g d
  have htable : g.generateData d = .ok (OrdMap.empty.alter 5 (fun _ => [(['A'], ['B'])])) := rfl
  exact generateData_isSimple_iff htable

theorem not_isSimple_opposite
    : let g : AdjacencyObjectsGenerator := .ofDims 2 1 1
      let d : Draws := ⟨fun n _ => n, fun _ _ => 1, fun n _ => n + 4⟩
      let table : GraphPayload := (OrdMap.empty.alter 5 (fun _ => [(['A'], ['B'])])).alter 6
        (fun _ => [(['B'], ['A'])])
      g.generateData d = .ok table ∧ ¬ IsSimple table := by
  intro g d table
  refine ⟨rfl, ?_⟩
  intro h
  exact absurd h.once (by decide)

end AdjacencyObjectsGenerator
