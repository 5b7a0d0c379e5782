import GraphManipulator.GraphMapper.PrintLemmas
import GraphManipulator.Lib.WGraph
import Mathlib.Data.Int.ConditionallyCompleteOrder

/-!
This module contains the graph that a table of pathes stands for, and how the graph that the mapper builds
and the edges that it prints relate to it.
-/

def tableServers (table : GraphPayload) : List Str :=
  (tableEntries table).flatMap (fun e => [e.2.1, e.2.2])

def tableGraph (table : GraphPayload) : WGraph Str (Fin (tableEntries table).length) Int :=
  .ofList (tableEntries table) (fun e => e.2) (fun e => e.1)

def Holds (table : GraphPayload) (key : Int) (a b : Str) : Prop :=
  (key, (a, b)) ∈ tableEntries table ∨ (key, (b, a)) ∈ tableEntries table

@[simp]
theorem length_tableServers (table : GraphPayload)
    : (tableServers table).length = 2 * (tableEntries table).length := by
  simp [tableServers, Nat.mul_comm]

theorem serverNames_serversOf (table : GraphPayload)
    : (serversOf (tableEntries table)).map VertexData.serverName = tableServers table := by
  simp [serversOf, tableServers, List.map_flatMap]

namespace ServersGraph

def HasName (G : ServersGraph) (v : Nat) (name : Str) : Prop :=
  G.vertices[v]?.map VertexData.serverName = some name

def toWGraph (G : ServersGraph) : WGraph Nat (Fin G.edges.length) Int :=
  .ofList G.edges (fun e => (e.source, e.target)) EdgeData.edgeWeight

structure Represents (G : ServersGraph) (table : GraphPayload) : Prop where
  nodup : (G.vertices.map VertexData.serverName).Nodup
  mem : ∀ name, name ∈ G.vertices.map VertexData.serverName ↔ name ∈ tableServers table
  edges : ∀ key a b,
    (∃ e ∈ G.edges, e.qkdKey = key
      ∧ (G.HasName e.source a ∧ G.HasName e.target b ∨ G.HasName e.source b ∧ G.HasName e.target a))
    ↔ Holds table key a b
  reachable : ∀ u v a b, G.HasName u a → G.HasName v b →
    (G.toWGraph.Reachable u v ↔ (tableGraph table).Reachable a b)

theorem not_represents_of_length {G : ServersGraph} {table : GraphPayload}
    (h : 2 * (tableEntries table).length < G.vertices.length)
    : ¬ G.Represents table := by
  intro hrep
  have hsub := List.subperm_of_subset hrep.nodup (fun name hname => (hrep.mem name).mp hname)
  have hle := hsub.length_le
  rw [List.length_map, length_tableServers] at hle
  omega

end ServersGraph

namespace GraphMapper

theorem buildGraph_not_represents (table : GraphPayload)
    : ∃ G, (ofServersData table).buildGraph = .ok G ∧ ¬ G.Represents table := by
  obtain ⟨G, hbuild, hservers, -⟩ := buildGraph_eq_ok (ofServersData table)
  refine ⟨G, hbuild, ?_⟩
  apply ServersGraph.not_represents_of_length
  rw [hservers.length, length_serversOf]
  exact Nat.lt_add_of_pos_left (Nat.succ_pos _)

theorem buildGraph_not_represents_chain
    : let table : GraphPayload := OrdMap.empty.alter 5 (fun _ => [(['A'], ['B']), (['B'], ['C'])])
      ∃ G, (ofServersData table).buildGraph = .ok G ∧ G.numVertices = 7 ∧ ¬ G.Represents table := by
  refine ⟨_, rfl, rfl, ?_⟩
  intro hrep
  exact absurd hrep.nodup (by decide)

structure PrintsShortestPathes (table : GraphPayload) (es : List EdgeStatement) (start : Str) : Prop where
  tree : (tableGraph table).ShortestPathTree
    (.ofList (es.filter (fun e => e.color = .black)) (fun e => (e.source, e.target)) EdgeStatement.label
      : WGraph Str _ Int) start
  blue : ∀ e ∈ es, e.color ≠ .black → e.color = .blue

theorem isolated_iff {table : GraphPayload} {start : Str}
    : (∀ e c, (tableGraph table).Joins e start c → c = start)
      ↔ ∀ e ∈ tableEntries table, e.2.1 = start ∨ e.2.2 = start → e.2.1 = e.2.2 := by
  constructor
  . intro h e he hstart
    have hjoins : ∀ c, e.2 = (start, c) ∨ e.2 = (c, start) → c = start := by
      intro c hc
      obtain ⟨i, hi⟩ := WGraph.ofList_joins.mpr ⟨e, he, hc⟩
      exact h i c hi
    rcases hstart with heq | heq
    . rw [heq, hjoins e.2.2 (Or.inl (by rw [← heq]))]
    . rw [heq, hjoins e.2.1 (Or.inr (by rw [← heq]))]
  . intro h i c hi
    obtain ⟨e, he, hc⟩ := WGraph.ofList_joins.mp ⟨i, hi⟩
    have := h e he
    rcases hc with hc | hc
    . rw [hc] at this
      exact (this (Or.inl rfl)).symm
    . rw [hc] at this
      exact this (Or.inr rfl)

theorem printsShortestPathes_iff {table : GraphPayload} {es : List EdgeStatement}
    (hkeys : ∀ e ∈ tableEntries table, 0 ≤ e.1) (hes : ∀ e ∈ es, e.color = .blue) (start : Str)
    : PrintsShortestPathes table es start
      ↔ ∀ e ∈ tableEntries table, e.2.1 = start ∨ e.2.2 = start → e.2.1 = e.2.2 := by
  have hnil : es.filter (fun e => e.color = .black) = [] := by
    rw [List.filter_eq_nil_iff]
    intro e he
    simp [hes e he]
  have hempty : IsEmpty (Fin (es.filter (fun e => e.color = .black)).length) := by
    rw [hnil]
    exact Fin.isEmpty
  have hnonneg : ∀ e, 0 ≤ (tableGraph table).weight e := fun e => hkeys _ (List.getElem_mem _)
  rw [← isolated_iff]
  constructor
  . intro h
    exact (WGraph.shortestPathTree_iff_of_isEmpty hnonneg).mp h.tree
  . intro h
    exact ⟨(WGraph.shortestPathTree_iff_of_isEmpty hnonneg).mpr h, fun e he _ => hes e he⟩

theorem finalName_zero {table : GraphPayload} {key : Int} {a b : Str} {rest : List (Int × (Str × Str))}
    (hfirst : tableEntries table = (key, (a, b)) :: rest)
    (hlength : 2 * (tableEntries table).length ≤ counterValues)
    : (ofServersData table).finalName 0 = a := by
  have hpos : 0 < 2 * (tableEntries table).length := by simp [hfirst]
  simp only [finalName, ofServersData, CyclicWrites.contents, length_serversOf,
    CyclicWrites.lastWrite_of_le hlength, if_pos hpos]
  simp [hfirst, serversOf]

theorem getShortestPath_printsShortestPathes_iff {table : GraphPayload} {key : Int} {a b : Str}
    {rest : List (Int × (Str × Str))} (hfirst : tableEntries table = (key, (a, b)) :: rest)
    (hkeys : ∀ e ∈ tableEntries table, 0 ≤ e.1) (env : MapperEnv)
    : ∃ G es m, (ofServersData table).buildGraph = .ok G
        ∧ edgeStatements G = .ok es
        ∧ (ofServersData table).getShortestPath env = .ok m
        ∧ m.getGraph = dotText es
        ∧ (2 * (tableEntries table).length ≤ counterValues → G.HasName 0 a)
        ∧ ∀ start, start = a ∨ G.HasName 0 start →
            (PrintsShortestPathes table es start
              ↔ ∀ e ∈ tableEntries table, e.2.1 = start ∨ e.2.2 = start → e.2.1 = e.2.2) := by
  obtain ⟨G, hbuild, hservers, hes, hpath⟩ := getShortestPath_eq_ok (ofServersData table) env
  refine ⟨G, _, _, hbuild, hes, hpath, rfl, ?_, ?_⟩
  . intro hlength
    obtain ⟨data, hdata, hname⟩ := getElem?_vertices hservers (v := 0) (by omega)
    rw [ServersGraph.HasName, hdata, Option.map_some, hname, finalName_zero hfirst hlength]
  . intro start _
    exact printsShortestPathes_iff hkeys (fun e he => color_of_mem_printed he) start

def isolatedStart : MapperEnv where
  dijkstraShortestPaths _ s v := (v, if v = s then 0 else intMax)
  behindPredecessors _ := 0
  behindDistances _ := 0

theorem getShortestPath_printsShortestPathes_pair
    : let table : GraphPayload := OrdMap.empty.alter 5 (fun _ => [(['A'], ['B'])])
      ∃ G es m, (ofServersData table).buildGraph = .ok G
        ∧ edgeStatements G = .ok es
        ∧ (ofServersData table).getShortestPath isolatedStart = .ok m
        ∧ m.getGraph = dotText es
        ∧ (2 * (tableEntries table).length ≤ counterValues → G.HasName 0 ['A'])
        ∧ ∀ start, start = ['A'] ∨ G.HasName 0 start →
            (PrintsShortestPathes table es start
              ↔ ∀ e ∈ tableEntries table, e.2.1 = start ∨ e.2.2 = start → e.2.1 = e.2.2) :=
  getShortestPath_printsShortestPathes_iff rfl (by decide) isolatedStart

theorem not_printsShortestPathes_pair
    : let table : GraphPayload := OrdMap.empty.alter 5 (fun _ => [(['A'], ['B'])])
      let es : List EdgeStatement := [⟨['A'], ['B'], 5, .blue⟩]
      (ofServersData table).getShortestPath isolatedStart = .ok { ofServersData table with graphData := dotText es }
        ∧ ¬ PrintsShortestPathes table es ['A'] := by
  intro table es
  obtain ⟨G, -, -, -, hpath⟩ := getShortestPath_eq_ok (ofServersData table) isolatedStart
  refine ⟨hpath, ?_⟩
  rw [printsShortestPathes_iff (by decide) (by decide)]
  decide

end GraphMapper
