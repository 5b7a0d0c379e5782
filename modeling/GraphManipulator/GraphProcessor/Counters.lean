import GraphManipulator.GraphMapper.MentionedNames

/-!
This module contains when the counters of 32 bits keep up with what they count: the loop over the selected pairs
compares its counter with a size of 64 bits, and the loop that builds the graph steps twice for each pair.
-/

namespace GraphProcessor

open AdjacencyObjectsGenerator

/--
The loops whose counters have 32 bits get as far as what they count. While the graph is built, `it_graph` is twice
the number of pairs that were added.
-/
structure CountsExactly (g : AdjacencyObjectsGenerator) (d : Draws) : Prop where
  servers : ∃ fuel, UnsignedLoop.collect g.overallAdjencyMatrixDimension fuel (fun n => g.generateNames (d.name n))
    = .ok (g.serversNames d)
  names : ∀ n, ∃ fuel, UnsignedLoop.collect g.charactersDimension fuel
    (fun i => namesChars.getD (indexDist namesChars (d.name n i)) '\x00') = .ok (g.generateNames (d.name n))
  metrics : ∀ t, ∃ fuel, UnsignedLoop.collect g.metricDimension fuel
    (fun i => metricsChars.getD (indexDist metricsChars (d.metric t i)) '\x00')
      = .ok (drawChars metricsChars g.metricDimension (d.metric t))
  -- each selected pair is visited once, in order
  pairs : Visits (g.selectedPairs d) 0 OrdMap.empty (g.selectedPairs d)
  itGraph : ∃ table, g.generateData d = .ok table
    ∧ ∀ ps, ps <+: tableEntries table →
      ∃ state, (GraphMapper.ofServersData table).buildPairs ps = .ok state
        ∧ state.2.toNat = 2 * ps.length

theorem itGraph_iff (table : GraphPayload)
    : (∀ ps, ps <+: tableEntries table →
        ∃ state, (GraphMapper.ofServersData table).buildPairs ps = .ok state
          ∧ state.2.toNat = 2 * ps.length)
      ↔ 2 * (tableEntries table).length < counterValues := by
  constructor
  . intro h
    obtain ⟨state, -, hit⟩ := h (tableEntries table) List.prefix_rfl
    rw [← hit]
    apply UInt32.toNat_lt
  . intro hlt ps hps
    obtain ⟨state, hbuild, hbuilt⟩ := (GraphMapper.ofServersData table).buildPairs_built ps
    have hle := hps.length_le
    refine ⟨state, hbuild, ?_⟩
    rw [hbuilt.itGraph, Nat.mod_eq_of_lt]
    omega

theorem countsExactly_iff_card {g : AdjacencyObjectsGenerator}
    (hdim : g.overallAdjencyMatrixDimension < 4294967296) (hchars : g.charactersDimension < 4294967296)
    (d : Draws)
    : CountsExactly g d ↔ (g.selectedIndices d).card < 2 ^ 32 ∧ (g.selectedNames d).card < 2 ^ 31 := by
  rw [← length_selectedPairs]
  constructor
  . rintro ⟨-, -, -, hvisits, table, htable, hit⟩
    rw [itGraph_iff, length_tableEntries htable] at hit
    unfold counterValues at hit
    exact ⟨visits_iff.mp hvisits, by omega⟩
  . rintro ⟨hpairs, hnames⟩
    have hmetric := g.metric_lt
    refine ⟨?_, ?_, ?_, visits_iff.mpr hpairs, ?_⟩
    . exact UnsignedLoop.collect_eq_ok hdim _
    . intro n
      exact UnsignedLoop.collect_eq_ok hchars _
    . intro t
      exact UnsignedLoop.collect_eq_ok (by omega) _
    . obtain ⟨table, htable⟩ := generateData_eq_ok hpairs
      refine ⟨table, htable, ?_⟩
      rw [itGraph_iff, length_tableEntries htable]
      unfold counterValues
      omega

theorem ofDims_lt {a b c : Int} (ha : IsInt a) (hb : IsInt b)
    : (ofDims a b c).overallAdjencyMatrixDimension < 4294967296
      ∧ (ofDims a b c).charactersDimension < 4294967296 := by
  unfold IsInt intMax at ha hb
  simp only [ofDims]
  omega

theorem countsExactly_iff {a b c : Int} (ha : IsInt a) (hb : IsInt b) (d : Draws)
    : CountsExactly (.ofDims a b c) d
        ↔ ((ofDims a b c).selectedIndices d).card < 2 ^ 32
          ∧ ((ofDims a b c).selectedNames d).card < 2 ^ 31 := by
  obtain ⟨hdim, hchars⟩ := ofDims_lt (c := c) ha hb
  exact countsExactly_iff_card hdim hchars d

theorem countsExactly_pair
    : CountsExactly (.ofDims 2 1 1) ⟨fun n _ => n, fun _ _ => 1, fun _ _ => 4⟩ := by
  rw [countsExactly_iff (by decide) (by decide)]
  decide

theorem countsExactly_of_le {a b c : Int} (ha : IsInt a) (hle : a ≤ 46341) (hb : IsInt b) (d : Draws)
    : CountsExactly (.ofDims a b c) d := by
  obtain ⟨hdim, hchars⟩ := ofDims_lt (c := c) ha hb
  have hbound : (ofDims a b c).overallAdjencyMatrixDimension ≤ 46341 := by
    simp only [ofDims]
    omega
  have hmul := Nat.mul_le_mul hbound (Nat.sub_le_sub_right hbound 1)
  have hindices := (ofDims a b c).card_selectedIndices_le d
  have hnames := (ofDims a b c).card_selectedNames_le d
  rw [countsExactly_iff_card hdim hchars]
  omega

theorem mul_le_card_selectedIndices {g : AdjacencyObjectsGenerator} {d : Draws} {k : Nat}
    (hk : 2 * k ≤ g.overallAdjencyMatrixDimension) {a b : Str} (hne : a ≠ b)
    (hfirst : ∀ n < k, g.generateNames (d.name n) = a) (hsecond : ∀ n ≥ k, g.generateNames (d.name n) = b)
    (hcoin : ∀ i j, d.coin i j % 2 = 1)
    : k * k ≤ (g.selectedIndices d).card := by
  have hsub : Finset.range k ×ˢ Finset.Ico k (2 * k) ⊆ g.selectedIndices d := by
    intro i hi
    rw [Finset.mem_product, Finset.mem_range, Finset.mem_Ico] at hi
    rw [selectedIndices, Finset.mem_filter, Finset.mem_product, Finset.mem_range, Finset.mem_range]
    refine ⟨⟨by omega, by omega⟩, ?_, hcoin i.1 i.2⟩
    rwa [hfirst i.1 hi.1, hsecond i.2 hi.2.1]
  have hle := Finset.card_le_card hsub
  rwa [Finset.card_product, Finset.card_range, Nat.card_Ico, Nat.two_mul, Nat.add_sub_cancel] at hle

theorem not_countsExactly_halves
    : let g : AdjacencyObjectsGenerator := .ofDims 131072 1 1
      let d : Draws := ⟨fun n _ => if n < 65536 then 0 else 1, fun _ _ => 1, fun _ _ => 4⟩
      g.generateData d = .error .nonterminating ∧ ¬ CountsExactly g d := by
  intro g d
  have hfirst : ∀ n < 65536, g.generateNames (d.name n) = ['A'] := by
    intro n hn
    simp only [d, if_pos hn]
    rfl
  have hsecond : ∀ n ≥ 65536, g.generateNames (d.name n) = ['B'] := by
    intro n hn
    simp only [d, if_neg (Nat.not_lt_of_le hn)]
    rfl
  have hcard := mul_le_card_selectedIndices (Nat.le_refl 131072) (by decide) hfirst hsecond (fun _ _ => rfl)
  have hdata : g.generateData d = .error .nonterminating := by
    apply generateData_nonterminating
    rwa [length_selectedPairs]
  refine ⟨hdata, ?_⟩
  rintro ⟨-, -, -, -, table, htable, -⟩
  rw [hdata] at htable
  cases htable

end GraphProcessor
