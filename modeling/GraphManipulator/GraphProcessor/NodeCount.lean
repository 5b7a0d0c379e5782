import GraphManipulator.GraphMapper.MentionedNames
import GraphManipulator.GraphProcessor
import Mathlib.Data.Fintype.BigOperators
import Mathlib.Data.Fintype.Pi

/-!
This module contains when the text of the processor mentions as many names as servers were asked for.
-/

theorem card_eq_card_iff {ι α : Type*} [DecidableEq α] {s : Finset ι} {f : ι → α} {t : Finset α}
    (h : t ⊆ s.image f)
    : t.card = s.card ↔ Set.InjOn f s ∧ ∀ i ∈ s, f i ∈ t := by
  constructor
  . intro hcard
    have heq : t = s.image f := Finset.eq_of_subset_of_card_le h (hcard ▸ Finset.card_image_le)
    refine ⟨?_, ?_⟩
    . rw [← Finset.card_image_iff, ← heq, hcard]
    . intro i hi
      rw [heq]
      exact Finset.mem_image_of_mem f hi
  . rintro ⟨hinj, hmem⟩
    have heq : t = s.image f := Finset.Subset.antisymm h (Finset.image_subset_iff.mpr hmem)
    rw [heq, Finset.card_image_iff.mpr hinj]

namespace AdjacencyObjectsGenerator

theorem drawChars_eq_ofFn (chars : Str) (dimension : Nat) (w : Nat → Nat)
    : drawChars chars dimension w
        =
      List.ofFn (fun i : Fin dimension => chars.getD (indexDist chars (w i)) '\x00') := by
  apply List.ext_getElem?
  intro i
  by_cases hi : i < dimension
  . simp [drawChars, hi]
  . simp [drawChars, hi]

theorem card_image_drawChars_le {ι : Type*} {chars : Str} (hne : chars ≠ []) (dimension : Nat)
    (s : Finset ι) (w : ι → Nat → Nat)
    : (s.image (fun i => drawChars chars dimension (w i))).card ≤ chars.toFinset.card ^ dimension := by
  have hsub : s.image (fun i => drawChars chars dimension (w i))
      ⊆ (Fintype.piFinset (fun _ : Fin dimension => chars.toFinset)).image List.ofFn := by
    intro name hname
    obtain ⟨i, -, rfl⟩ := Finset.mem_image.mp hname
    rw [drawChars_eq_ofFn]
    apply Finset.mem_image_of_mem
    rw [Fintype.mem_piFinset]
    intro k
    rw [List.mem_toFinset]
    apply getD_indexDist_mem hne
  calc
    (s.image (fun i => drawChars chars dimension (w i))).card
    _ ≤ ((Fintype.piFinset (fun _ : Fin dimension => chars.toFinset)).image List.ofFn).card :=
      Finset.card_le_card hsub
    _ ≤ (Fintype.piFinset (fun _ : Fin dimension => chars.toFinset)).card := Finset.card_image_le
    _ = chars.toFinset.card ^ dimension := by simp

theorem Mentions.exists_name {g : AdjacencyObjectsGenerator} {d : Draws} {name : Str} (h : g.Mentions d name)
    : ∃ n < g.overallAdjencyMatrixDimension, g.generateNames (d.name n) = name := by
  obtain ⟨p, hp, hname⟩ := h
  obtain ⟨-, i, j, hi, hj, -⟩ := mem_selectedNames.mp hp
  rw [getElem?_serversNames] at hi hj
  rcases hname with ⟨rfl, -⟩ | ⟨rfl, -⟩
  . exact ⟨i, hi⟩
  . exact ⟨j, hj⟩

/--
The drawn names are different, the loop over the selected pairs ends, and each name is kept somewhere.
-/
structure MentionsAll (g : AdjacencyObjectsGenerator) (d : Draws) : Prop where
  distinct : ∀ i < g.overallAdjencyMatrixDimension, ∀ j < g.overallAdjencyMatrixDimension,
    g.generateNames (d.name i) = g.generateNames (d.name j) → i = j
  few : (g.selectedIndices d).card < 2 ^ 32
  mentioned : ∀ i < g.overallAdjencyMatrixDimension, g.Mentions d (g.generateNames (d.name i))

theorem MentionsAll.le_pow {g : AdjacencyObjectsGenerator} {d : Draws} (h : g.MentionsAll d)
    : g.overallAdjencyMatrixDimension ≤ 22 ^ g.charactersDimension := by
  have hinj : Set.InjOn (fun i => g.generateNames (d.name i))
      (Finset.range g.overallAdjencyMatrixDimension) := by
    intro i hi j hj heq
    rw [Finset.mem_coe, Finset.mem_range] at hi hj
    exact h.distinct i hi j hj heq
  have hletters : namesChars.toFinset.card = 22 := by decide
  have hle := card_image_drawChars_le (by decide : namesChars ≠ []) g.charactersDimension
    (Finset.range g.overallAdjencyMatrixDimension) d.name
  rw [hletters] at hle
  rw [← Finset.card_range g.overallAdjencyMatrixDimension, ← Finset.card_image_iff.mpr hinj]
  exact hle

end AdjacencyObjectsGenerator

namespace GraphProcessor

open AdjacencyObjectsGenerator GraphlibDot

def nodeCount (text : Str) : Option Nat :=
  (parse text).map (fun tree => tree.nodeIds.toFinset.card)

section

variable (env : MapperEnv) {d : Draws} {payload : List Int} {g : AdjacencyObjectsGenerator}

theorem serializeGraph_nodeIds (hg : adjacencyObjects payload = .ok g)
    (hd : (g.selectedIndices d).card < 4294967296)
    : ∃ text tree, serializeGraph env d payload = .ok text
        ∧ parse text = some tree
        ∧ ∀ name, name ∈ tree.nodeIds ↔ g.Mentions d name := by
  rw [← length_selectedPairs] at hd
  obtain ⟨table, htable, hgraph⟩ := serializeGraph_eq_ok env hg hd
  have hnames := GraphMapper.hasNames_printed (GraphMapper.isName_of_generateData htable)
  obtain ⟨tree, hparse, hmem⟩ := mem_nodeIds_dotText hnames
  refine ⟨_, tree, hgraph, hparse, ?_⟩
  intro name
  rw [hmem, mentions_iff_exists_printed htable]

theorem card_nodeIds_iff {tree : GraphStmt} (hmem : ∀ name, name ∈ tree.nodeIds ↔ g.Mentions d name)
    : tree.nodeIds.toFinset.card = g.overallAdjencyMatrixDimension
        ↔ (∀ i < g.overallAdjencyMatrixDimension, ∀ j < g.overallAdjencyMatrixDimension,
            g.generateNames (d.name i) = g.generateNames (d.name j) → i = j)
          ∧ ∀ i < g.overallAdjencyMatrixDimension, g.Mentions d (g.generateNames (d.name i)) := by
  let drawn (n : Nat) : Str := g.generateNames (d.name n)
  have hsub : tree.nodeIds.toFinset ⊆ (Finset.range g.overallAdjencyMatrixDimension).image drawn := by
    intro name hname
    rw [List.mem_toFinset, hmem] at hname
    obtain ⟨n, hn, heq⟩ := hname.exists_name
    rw [Finset.mem_image]
    exact ⟨n, Finset.mem_range.mpr hn, heq⟩
  have hcount := card_eq_card_iff hsub
  simpa only [Finset.card_range, Set.InjOn, Finset.mem_coe, Finset.mem_range, List.mem_toFinset, hmem]
    using hcount

theorem serializeGraph_nodeCount (hg : adjacencyObjects payload = .ok g)
    : (∃ text, serializeGraph env d payload = .ok text
        ∧ nodeCount text = some g.overallAdjencyMatrixDimension)
      ↔ g.MentionsAll d := by
  by_cases hd : (g.selectedIndices d).card < 4294967296
  . obtain ⟨text, tree, hgraph, hparse, hmem⟩ := serializeGraph_nodeIds env hg hd
    have hcard := card_nodeIds_iff hmem
    constructor
    . rintro ⟨text', htext', hcount⟩
      rw [hgraph] at htext'
      cases htext'
      rw [nodeCount, hparse] at hcount
      obtain ⟨hdistinct, hmentioned⟩ := hcard.mp (Option.some.inj hcount)
      exact ⟨hdistinct, hd, hmentioned⟩
    . intro h
      refine ⟨text, hgraph, ?_⟩
      rw [nodeCount, hparse, Option.map_some, hcard.mpr ⟨h.distinct, h.mentioned⟩]
  . constructor
    . rintro ⟨text, hgraph, -⟩
      have hle : 4294967296 ≤ (g.selectedPairs d).length := by
        rw [length_selectedPairs]
        exact Nat.le_of_not_lt hd
      rw [serializeGraph_nonterminating env hg hle] at hgraph
      contradiction
    . intro h
      exact absurd h.few hd

end

theorem serializeGraph_nodeCount_iff {n c m : Int} (hn : 2 ≤ n) (env : MapperEnv) (d : Draws)
    : (∃ text, serializeGraph env d [n, c, m] = .ok text ∧ nodeCount text = some n.toNat)
        ↔ (ofDims n c m).MentionsAll d := by
  have hdim : (ofDims n c m).overallAdjencyMatrixDimension = n.toNat := by
    simp only [ofDims]
    rw [if_pos (by omega)]
  have hiff := serializeGraph_nodeCount env (d := d) (adjacencyObjects_eq_ok n c m)
  rwa [hdim] at hiff

theorem serializeGraph_nodeCount_two
    : let d : Draws := ⟨fun n _ => n, fun i _ => 1 - i, fun _ _ => 4⟩
      ∃ text, serializeGraph GraphMapper.isolatedStart d [2, 1, 1] = .ok text ∧ nodeCount text = some 2 := by
  intro d
  have hall : (ofDims 2 1 1).MentionsAll d := by
    refine ⟨?_, ?_, ?_⟩
    . decide
    . decide
    . decide
  exact (serializeGraph_nodeCount_iff (by decide) GraphMapper.isolatedStart d).mpr hall

theorem not_nodeCount_overwritten
    : let coin (i j : Nat) : Nat := if i = 0 ∧ j = 1 ∨ i = 2 ∧ (j = 3 ∨ j = 4) then 1 else 0
      let d : Draws := ⟨fun n _ => n, coin, fun _ _ => 4⟩
      let text := dotText [⟨['D'], ['C'], 5, .blue⟩, ⟨['E'], ['D'], 5, .blue⟩, ⟨['C'], ['E'], 5, .blue⟩]
      (ofDims 5 1 1).generateData d
          =
        .ok (OrdMap.empty.alter 5 (fun _ => [(['A'], ['B']), (['C'], ['D']), (['C'], ['E'])]))
        ∧ serializeGraph GraphMapper.isolatedStart d [5, 1, 1] = .ok text
        ∧ nodeCount text = some 3
        ∧ ¬ ∃ text, serializeGraph GraphMapper.isolatedStart d [5, 1, 1] = .ok text
          ∧ nodeCount text = some 5 := by
  intro coin d text
  have htable : (ofDims 5 1 1).generateData d
      = .ok (OrdMap.empty.alter 5 (fun _ => [(['A'], ['B']), (['C'], ['D']), (['C'], ['E'])])) := by
    rfl
  have hgraph : serializeGraph GraphMapper.isolatedStart d [5, 1, 1] = .ok text := by
    obtain ⟨table, htable', hgraph⟩ := serializeGraph_eq_ok GraphMapper.isolatedStart (d := d)
      (adjacencyObjects_eq_ok 5 1 1) (by decide)
    rw [htable] at htable'
    cases htable'
    exact hgraph
  have hcount : nodeCount text = some 3 := by
    rw [nodeCount, parse_dotText_eq (by unfold HasNames IsName; decide)]
    rfl
  refine ⟨htable, hgraph, hcount, ?_⟩
  rintro ⟨text', htext', hcount'⟩
  rw [hgraph] at htext'
  cases htext'
  rw [hcount] at hcount'
  exact absurd hcount' (by decide)

end GraphProcessor
