import GraphManipulator.GraphMapper.BuiltGraph

/-!
This module contains which distances Dijkstra's algorithm computes in the graph that the mapper builds: no edge
gets a weight, the keys are stored beside the weights.
-/

namespace ServersGraph

def keyGraph (G : ServersGraph) : WGraph Nat (Fin G.edges.length) Int :=
  .ofList G.edges (fun e => (e.source, e.target)) EdgeData.qkdKey

end ServersGraph

def KeyIsZeroAt (table : GraphPayload) (s : Nat) : Prop :=
  ∀ (j : Nat) p, (tableEntries table)[j]? = some p →
    s = 2 * table.toList.length + 1 + 2 * j ∨ s = 2 * table.toList.length + 2 + 2 * j → p.1 = 0

namespace GraphMapper

section

variable {table : GraphPayload} {G : ServersGraph}

theorem edge_eq (hedges : G.edges = edgesFrom (2 * table.toList.length + 1) (tableEntries table))
    (e : Fin G.edges.length)
    : ∃ p, (tableEntries table)[e.val]? = some p
        ∧ G.edges[e] = {
          source := 2 * table.toList.length + 1 + 2 * e
          target := 2 * table.toList.length + 1 + 2 * e + 1
          edgeName := "QKD".toList
          qkdKey := p.1
        } := by
  have hget : (edgesFrom (2 * table.toList.length + 1) (tableEntries table))[e.val]? = some G.edges[e] := by
    rw [← hedges]
    exact List.getElem?_eq_getElem e.isLt
  rw [getElem?_edgesFrom] at hget
  obtain ⟨p, hp, heq⟩ := Option.map_eq_some_iff.mp hget
  exact ⟨p, hp, heq.symm⟩

theorem isMatching_keyGraph (hedges : G.edges = edgesFrom (2 * table.toList.length + 1) (tableEntries table))
    : G.keyGraph.IsMatching := by
  intro e e' a b c hb hc
  obtain ⟨p, -, he⟩ := edge_eq hedges e
  obtain ⟨p', -, he'⟩ := edge_eq hedges e'
  simp only [ServersGraph.keyGraph, WGraph.ofList, WGraph.Joins, he, he', Prod.mk.injEq] at hb hc
  constructor
  . apply Fin.ext
    omega
  . omega

theorem weight_toWGraph (hedges : G.edges = edgesFrom (2 * table.toList.length + 1) (tableEntries table))
    (e : Fin G.edges.length)
    : G.toWGraph.weight e = 0 := by
  obtain ⟨p, -, he⟩ := edge_eq hedges e
  simp only [ServersGraph.toWGraph, WGraph.ofList, he]

theorem cost_toWGraph (hedges : G.edges = edgesFrom (2 * table.toList.length + 1) (tableEntries table))
    (p : List (Fin G.edges.length × Nat))
    : G.toWGraph.cost p = 0 := by
  induction p with
  | nil => apply WGraph.cost_nil
  | cons step p ih => rw [WGraph.cost_cons, weight_toWGraph hedges, ih, add_zero]

theorem reachable_toWGraph {s t : Nat} : G.toWGraph.Reachable s t ↔ G.keyGraph.Reachable s t := by
  have hjoins : ∀ e a b, G.toWGraph.Joins e a b ↔ G.keyGraph.Joins e a b := fun _ _ _ => Iff.rfl
  constructor
  . rintro ⟨q, hq⟩
    exact ⟨q, hq.mono (fun e a b => (hjoins e a b).mp)⟩
  . rintro ⟨q, hq⟩
    exact ⟨q, hq.mono (fun e a b => (hjoins e a b).mpr)⟩

theorem leastDistances_toWGraph_iff
    (hedges : G.edges = edgesFrom (2 * table.toList.length + 1) (tableEntries table)) {s : Nat}
    {dist : Nat → Int}
    : G.toWGraph.LeastDistances s dist ↔ ∀ t, G.keyGraph.Reachable s t → dist t = 0 := by
  constructor
  . intro h t hreach
    obtain ⟨q, -, hcost⟩ := (h t (reachable_toWGraph.mpr hreach)).1
    rw [hcost, cost_toWGraph hedges]
  . intro h t hreach
    rw [h t (reachable_toWGraph.mp hreach)]
    constructor
    . obtain ⟨q, hq⟩ := hreach
      exact ⟨q, hq, (cost_toWGraph hedges q).symm⟩
    . rintro c ⟨q, -, rfl⟩
      rw [cost_toWGraph hedges]

theorem keyIsZeroAt_iff (hedges : G.edges = edgesFrom (2 * table.toList.length + 1) (tableEntries table))
    {s : Nat}
    : KeyIsZeroAt table s ↔ ∀ e t, G.keyGraph.Joins e s t → t ≠ s → G.keyGraph.weight e = 0 := by
  constructor
  . intro h e t hjoins _
    obtain ⟨p, hp, he⟩ := edge_eq hedges e
    simp only [ServersGraph.keyGraph, WGraph.ofList, WGraph.Joins, he, Prod.mk.injEq] at hjoins ⊢
    apply h e p hp
    omega
  . intro h j p hp hs
    have hlt : j < G.edges.length := by
      have := (List.getElem?_eq_some_iff.mp hp).1
      rw [hedges, edgesFrom, List.length_map, List.length_zipIdx]
      exact this
    obtain ⟨p', hp', he⟩ := edge_eq hedges ⟨j, hlt⟩
    have hweight := h ⟨j, hlt⟩
    simp only [ServersGraph.keyGraph, WGraph.ofList, WGraph.Joins, he, Prod.mk.injEq] at hweight
    cases hp.symm.trans hp'
    -- the other end of the edge
    rcases hs with rfl | rfl
    . apply hweight (2 * table.toList.length + 1 + 2 * j + 1)
      . omega
      . omega
    . apply hweight (2 * table.toList.length + 1 + 2 * j)
      . omega
      . omega

theorem leastDistances_keyGraph_iff
    (hedges : G.edges = edgesFrom (2 * table.toList.length + 1) (tableEntries table))
    (hkeys : ∀ e ∈ tableEntries table, 0 ≤ e.1) {s : Nat} {dist : Nat → Int}
    (hdist : G.toWGraph.LeastDistances s dist)
    : G.keyGraph.LeastDistances s dist ↔ KeyIsZeroAt table s := by
  have hnonneg : ∀ e, 0 ≤ G.keyGraph.weight e := by
    intro e
    obtain ⟨p, hp, he⟩ := edge_eq hedges e
    simp only [ServersGraph.keyGraph, WGraph.ofList, he]
    exact hkeys p (List.mem_of_getElem? hp)
  rw [keyIsZeroAt_iff hedges]
  exact WGraph.leastDistances_iff_of_zero (isMatching_keyGraph hedges) hnonneg
    ((leastDistances_toWGraph_iff hedges).mp hdist)

end

/--
Dijkstra's algorithm reads the weights, and is assumed to be correct for them. Its distances are those for the
keys just where no edge ends at the start vertex, or one with the key zero.
-/
theorem dijkstraShortestPaths_keys_iff {table : GraphPayload} (hkeys : ∀ e ∈ tableEntries table, 0 ≤ e.1)
    {G : ServersGraph} (hbuild : (ofServersData table).buildGraph = .ok G) {s : Nat} {env : MapperEnv}
    (hdijkstra : G.toWGraph.LeastDistances s (fun t => (env.dijkstraShortestPaths G s t).2))
    : G.keyGraph.LeastDistances s (fun t => (env.dijkstraShortestPaths G s t).2) ↔ KeyIsZeroAt table s := by
  obtain ⟨G', hbuild', -, hedges⟩ := buildGraph_eq_ok (ofServersData table)
  rw [hbuild] at hbuild'
  cases hbuild'
  exact leastDistances_keyGraph_iff hedges hkeys hdijkstra

/--
What Dijkstra's algorithm writes where no edge has a weight and no vertex is an end of two edges
-/
def neighbourDistances : MapperEnv where
  dijkstraShortestPaths G s v :=
    if v = s ∨ ∃ e ∈ G.edges, e.source = s ∧ e.target = v ∨ e.source = v ∧ e.target = s then
      (s, 0)
    else
      (v, intMax)
  behindPredecessors _ := 0
  behindDistances _ := 0

theorem leastDistances_neighbourDistances {table : GraphPayload} {G : ServersGraph}
    (hedges : G.edges = edgesFrom (2 * table.toList.length + 1) (tableEntries table)) (s : Nat)
    : G.toWGraph.LeastDistances s (fun t => (neighbourDistances.dijkstraShortestPaths G s t).2) := by
  rw [leastDistances_toWGraph_iff hedges]
  rintro t ⟨q, hq⟩
  dsimp only [neighbourDistances]
  rw [if_pos]
  rcases hq.eq_or_joins (isMatching_keyGraph hedges) with heq | ⟨e, he⟩
  . exact Or.inl heq
  . refine Or.inr ⟨G.edges[e], List.getElem_mem _, ?_⟩
    simpa only [ServersGraph.keyGraph, WGraph.ofList, WGraph.Joins, Prod.mk.injEq] using he

theorem dijkstraShortestPaths_keys_pair
    : let table : GraphPayload := OrdMap.empty.alter 5 (fun _ => [(['A'], ['B'])])
      let dist (G : ServersGraph) (t : Nat) := (neighbourDistances.dijkstraShortestPaths G 0 t).2
      ∃ G, (ofServersData table).buildGraph = .ok G
        ∧ (G.keyGraph.LeastDistances 0 (dist G) ↔ KeyIsZeroAt table 0) := by
  intro table dist
  obtain ⟨G, hbuild, -, hedges⟩ := buildGraph_eq_ok (ofServersData table)
  refine ⟨G, hbuild, ?_⟩
  exact dijkstraShortestPaths_keys_iff (by decide) hbuild (leastDistances_neighbourDistances hedges 0)

theorem not_leastDistances_pair
    : let table : GraphPayload := OrdMap.empty.alter 5 (fun _ => [(['A'], ['B'])])
      let dist (G : ServersGraph) (t : Nat) := (neighbourDistances.dijkstraShortestPaths G 3 t).2
      ∃ G, (ofServersData table).buildGraph = .ok G
        ∧ G.toWGraph.LeastDistances 3 (dist G)
        ∧ dist G 4 = 0
        ∧ ¬ G.keyGraph.LeastDistances 3 (dist G) := by
  intro table dist
  have hedges : [{ source := 3, target := 4, edgeName := "QKD".toList, qkdKey := 5 }]
      = edgesFrom (2 * table.toList.length + 1) (tableEntries table) := rfl
  refine ⟨_, rfl, leastDistances_neighbourDistances hedges 3, by decide, ?_⟩
  rw [leastDistances_keyGraph_iff hedges (by decide) (leastDistances_neighbourDistances hedges 3)]
  intro h
  exact absurd (h 0 (5, (['A'], ['B'])) rfl (Or.inl rfl)) (by decide)

end GraphMapper
