import GraphManipulator.GraphMapper.PrintedTable

/-!
This module contains the closed form of the graph that the mapper builds, and that the table which the mapper
returns for it is empty.
-/

theorem getElem?_edgesFrom (base : Nat) (ps : List (Int × (Str × Str))) (j : Nat)
    : (edgesFrom base ps)[j]? = ps[j]?.map (fun e => {
        source := base + 2 * j
        target := base + 2 * j + 1
        edgeName := "QKD".toList
        qkdKey := e.1
      }) := by
  simp [edgesFrom, List.getElem?_map, List.getElem?_zipIdx, Option.map_map, Function.comp_def]

namespace GraphMapper

theorem hasName_finalName {table : GraphPayload} {G : ServersGraph} {v : Nat}
    (hservers : HasServers (2 * table.toList.length + 1) (serversOf (tableEntries table)) G)
    (hv : v < 2 * table.toList.length + 1 + 2 * (tableEntries table).length)
    : G.HasName v ((ofServersData table).finalName v) := by
  obtain ⟨data, hdata, hname⟩ := getElem?_vertices (m := ofServersData table) hservers hv
  rw [ServersGraph.HasName, hdata, Option.map_some, hname]

theorem finalName_of_le {table : GraphPayload} (hle : 2 * (tableEntries table).length ≤ counterValues) {w : Nat}
    (hw : w < (tableServers table).length)
    : some ((ofServersData table).finalName (2 * table.toList.length + 1 + w))
      = (tableServers table)[2 * table.toList.length + 1 + w]?.or (tableServers table)[w]? := by
  rw [finalName_eq hw, CyclicWrites.lastWrite_of_le (by rwa [length_tableServers])]
  by_cases hlt : 2 * table.toList.length + 1 + w < (tableServers table).length
  . rw [if_pos hlt]
    dsimp only
    rw [List.getElem?_eq_getElem hlt]
    rfl
  . rw [if_neg hlt, List.getElem?_eq_none (Nat.le_of_not_lt hlt)]
    rfl

/--
The closed form of the graph. There are `K` keys and `P` pairs, and the vertices for the pairs begin behind
`2 * K + 1` other ones.
-/
structure IsBuiltFrom (G : ServersGraph) (table : GraphPayload) : Prop where
  numVertices : G.numVertices = 2 * table.toList.length + 1 + 2 * (tableEntries table).length
  numEdges : G.edges.length = (tableEntries table).length
  edge : ∀ (j : Nat) p, (tableEntries table)[j]? = some p →
    ∃ e, G.edges[j]? = some e
      ∧ e.source = 2 * table.toList.length + 1 + 2 * j
      ∧ e.target = 2 * table.toList.length + 2 + 2 * j
      ∧ e.qkdKey = p.1
  isolated : ∀ v ≤ 2 * table.toList.length, ∀ e ∈ G.edges, e.source ≠ v ∧ e.target ≠ v
  source : ∀ (j : Nat) p, (tableEntries table)[j]? = some p →
    G.HasName (2 * table.toList.length + 1 + 2 * j)
      (match (tableEntries table)[table.toList.length + j]? with
        | some q => q.2.2
        | none => p.2.1)
  target : ∀ (j : Nat) p, (tableEntries table)[j]? = some p →
    G.HasName (2 * table.toList.length + 2 + 2 * j)
      (match (tableEntries table)[table.toList.length + j + 1]? with
        | some q => q.2.1
        | none => p.2.2)

theorem finalName_source {table : GraphPayload} (hle : 2 * (tableEntries table).length ≤ counterValues) {j : Nat}
    {p : Int × (Str × Str)} (hp : (tableEntries table)[j]? = some p)
    : (ofServersData table).finalName (2 * table.toList.length + 1 + 2 * j)
      = match (tableEntries table)[table.toList.length + j]? with
        | some q => q.2.2
        | none => p.2.1 := by
  have hlt : j < (tableEntries table).length := (List.getElem?_eq_some_iff.mp hp).1
  have hname := finalName_of_le hle (w := 2 * j) (by rw [length_tableServers]; omega)
  have hindex : 2 * table.toList.length + 1 + 2 * j = 2 * (table.toList.length + j) + 1 := by omega
  rw [hindex, (getElem?_tableServers table _).2, (getElem?_tableServers table _).1, hp] at hname
  rw [hindex]
  cases hq : (tableEntries table)[table.toList.length + j]? <;> rw [hq] at hname <;> exact Option.some.inj hname

theorem finalName_target {table : GraphPayload} (hle : 2 * (tableEntries table).length ≤ counterValues) {j : Nat}
    {p : Int × (Str × Str)} (hp : (tableEntries table)[j]? = some p)
    : (ofServersData table).finalName (2 * table.toList.length + 2 + 2 * j)
      = match (tableEntries table)[table.toList.length + j + 1]? with
        | some q => q.2.1
        | none => p.2.2 := by
  have hlt : j < (tableEntries table).length := (List.getElem?_eq_some_iff.mp hp).1
  have hname := finalName_of_le hle (w := 2 * j + 1) (by rw [length_tableServers]; omega)
  have hindex : 2 * table.toList.length + 1 + (2 * j + 1) = 2 * (table.toList.length + j + 1) := by omega
  have hvertex : 2 * table.toList.length + 2 + 2 * j = 2 * (table.toList.length + j + 1) := by omega
  rw [hindex, (getElem?_tableServers table _).1, (getElem?_tableServers table _).2, hp] at hname
  rw [hvertex]
  cases hq : (tableEntries table)[table.toList.length + j + 1]? <;> rw [hq] at hname <;> exact Option.some.inj hname

theorem buildGraph_isBuiltFrom {table : GraphPayload}
    (h : 2 * table.toList.length + 1 + 2 * (tableEntries table).length < 2 ^ 32)
    : ∃ G, (ofServersData table).buildGraph = .ok G ∧ IsBuiltFrom G table := by
  obtain ⟨G, hbuild, hservers, hedges⟩ := buildGraph_eq_ok (ofServersData table)
  have hle : 2 * (tableEntries table).length ≤ counterValues := by
    unfold counterValues
    omega
  refine ⟨G, hbuild, ?_, ?_, ?_, ?_, ?_, ?_⟩
  . rw [ServersGraph.numVertices, hservers.length, length_serversOf]
    rfl
  . rw [hedges]
    simp [edgesFrom, ofServersData]
  . intro j p hp
    rw [hedges, getElem?_edgesFrom]
    refine ⟨_, by rw [ofServersData, hp, Option.map_some], rfl, ?_, rfl⟩
    dsimp only
    omega
  . intro v hv e he
    rw [hedges] at he
    obtain ⟨hbase, -, htarget, -⟩ := mem_edgesFrom he
    dsimp only [ofServersData] at hbase
    omega
  . intro j p hp
    have hlt : j < (tableEntries table).length := (List.getElem?_eq_some_iff.mp hp).1
    rw [← finalName_source hle hp]
    exact hasName_finalName hservers (by omega)
  . intro j p hp
    have hlt : j < (tableEntries table).length := (List.getElem?_eq_some_iff.mp hp).1
    rw [← finalName_target hle hp]
    exact hasName_finalName hservers (by omega)

theorem buildGraph_isBuiltFrom_overlap
    : let table : GraphPayload := OrdMap.empty.alter 5 (fun _ => [(['A'], ['B']), (['B'], ['C'])])
      ∃ G, (ofServersData table).buildGraph = .ok G ∧ IsBuiltFrom G table :=
  buildGraph_isBuiltFrom (by decide)

def edgePairs (G : ServersGraph) : List (Int × (Str × Str)) :=
  G.edges.map (fun e => (e.qkdKey, ((G.vertices.getD e.source {}).serverName,
    (G.vertices.getD e.target {}).serverName)))

/--
The loop over the edges fills a variable of the function, so that the member stays as it was constructed.
-/
theorem getActualTable_isGrouping_iff (table : GraphPayload) (env : MapperEnv)
    : ∃ G m, (ofServersData table).buildGraph = .ok G
        ∧ (ofServersData table).getShortestPath env = .ok m
        ∧ (OrdMap.IsGrouping (edgePairs G) m.getActualTable.toList ↔ tableEntries table = []) := by
  obtain ⟨G, hbuild, -, hedges⟩ := buildGraph_eq_ok (ofServersData table)
  obtain ⟨-, -, -, -, hpath⟩ := getShortestPath_eq_ok (ofServersData table) env
  refine ⟨G, _, hbuild, hpath, ?_⟩
  have hnil : edgePairs G = [] ↔ tableEntries table = [] := by
    rw [edgePairs, hedges, List.map_eq_nil_iff, edgesFrom, List.map_eq_nil_iff, List.zipIdx_eq_nil_iff]
    rfl
  rw [← hnil]
  constructor
  . intro h
    rw [← List.map_eq_nil_iff (f := Prod.fst), List.eq_nil_iff_forall_not_mem]
    intro key hkey
    exact absurd ((h.keys key).mpr hkey) List.not_mem_nil
  . intro h
    rw [h]
    exact OrdMap.isGrouping_nil

theorem not_isGrouping_pair
    : let table : GraphPayload := OrdMap.empty.alter 5 (fun _ => [(['A'], ['B'])])
      ∃ G m, (ofServersData table).buildGraph = .ok G
        ∧ (ofServersData table).getShortestPath isolatedStart = .ok m
        ∧ edgePairs G = [(5, (['A'], ['B']))]
        ∧ m.getActualTable = OrdMap.empty
        ∧ ¬ OrdMap.IsGrouping (edgePairs G) m.getActualTable.toList := by
  intro table
  obtain ⟨-, -, -, -, hpath⟩ := getShortestPath_eq_ok (ofServersData table) isolatedStart
  refine ⟨_, _, rfl, hpath, rfl, rfl, ?_⟩
  intro h
  exact absurd ((h.keys 5).mpr (by decide)) List.not_mem_nil

end GraphMapper
