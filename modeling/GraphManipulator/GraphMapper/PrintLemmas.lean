import GraphManipulator.GraphMapper.BuildLemmas

/-!
This module contains what the mapper prints for a table: no vertex becomes a parent, so that every edge is
blue, and the names are those that the build loop left at the ends of the edges.
-/

def dotText (es : List EdgeStatement) : Str :=
  GraphMapper.header ++ es.flatMap EdgeStatement.text ++ "\x7d".toList

namespace GraphMapper

def edgeStatements (G : ServersGraph) : Except Fault (List EdgeStatement) :=
  G.edges.mapM (edgeStatement G (initialParents G))

def finalName (m : GraphMapper) (v : Nat) : Str :=
  ((CyclicWrites.contents counterValues (List.replicate (2 * m.nodesCount + 1) {})
    (serversOf (tableEntries m.tableOfPathes)) v).getD {}).serverName

def printedEdge (m : GraphMapper) (e : EdgeData) : EdgeStatement where
  source := m.finalName e.source
  target := m.finalName e.target
  label := e.qkdKey
  color := .blue

def printed (m : GraphMapper) : List EdgeStatement :=
  (edgesFrom (2 * m.nodesCount + 1) (tableEntries m.tableOfPathes)).map m.printedEdge

theorem mem_edgesFrom {base : Nat} {ps : List (Int × (Str × Str))} {e : EdgeData}
    (h : e ∈ edgesFrom base ps)
    : base ≤ e.source ∧ e.source < base + 2 * ps.length ∧ e.target = e.source + 1
        ∧ e.target < base + 2 * ps.length := by
  obtain ⟨x, hx, rfl⟩ := List.mem_map.mp h
  have := List.snd_lt_of_mem_zipIdx hx
  dsimp only
  omega

theorem getElem?_vertices {m : GraphMapper} {G : ServersGraph} {v : Nat}
    (hservers : HasServers (2 * m.nodesCount + 1) (serversOf (tableEntries m.tableOfPathes)) G)
    (hv : v < 2 * m.nodesCount + 1 + 2 * (tableEntries m.tableOfPathes).length)
    : ∃ data, G.vertices[v]? = some data ∧ data.serverName = m.finalName v := by
  have hlt : v < G.vertices.length := by
    rw [hservers.length, length_serversOf]
    exact hv
  have hget := List.getElem?_eq_getElem hlt
  refine ⟨G.vertices[v], hget, ?_⟩
  rw [finalName, ← hservers.contents v, hget]
  rfl

theorem edgeStatement_eq_ok {m : GraphMapper} {G : ServersGraph}
    (hservers : HasServers (2 * m.nodesCount + 1) (serversOf (tableEntries m.tableOfPathes)) G)
    {e : EdgeData} (he : e ∈ edgesFrom (2 * m.nodesCount + 1) (tableEntries m.tableOfPathes))
    : edgeStatement G (initialParents G) e = .ok (m.printedEdge e) := by
  obtain ⟨hbase, hsource, -, htarget⟩ := mem_edgesFrom he
  obtain ⟨u, hu, huname⟩ := getElem?_vertices hservers hsource
  obtain ⟨v, hv, hvname⟩ := getElem?_vertices hservers htarget
  have hu : G.vertexAt e.source = .ok u := vectorAt_eq_ok hu
  have hv : G.vertexAt e.target = .ok v := vectorAt_eq_ok hv
  have hp : vectorAt (initialParents G) e.target = .ok 0 := by
    apply vectorAt_eq_ok
    rw [initialParents, List.getElem?_replicate, if_pos]
    rw [ServersGraph.numVertices, hservers.length, length_serversOf]
    exact htarget
  have hblue : 0 ≠ e.source := by omega
  simp only [edgeStatement, hu, hv, hp, huname, hvname, if_neg hblue, bind, Except.bind, printedEdge]

theorem printEdges_eq_ok {G : ServersGraph} {p : List Nat} {edges : List EdgeData} {es : List EdgeStatement}
    (hes : edges.mapM (edgeStatement G p) = .ok es) (state : PrintState)
    : ∃ state', edges.foldlM (printEdge G p) state = .ok state'
        ∧ state'.graphStream = state.graphStream ++ es.flatMap EdgeStatement.text := by
  induction edges generalizing es state with
  | nil =>
    have hnil : es = [] := (Except.ok.inj hes).symm
    exact ⟨state, rfl, by simp [hnil]⟩
  | cons edge edges ih =>
    rw [List.mapM_cons] at hes
    cases hedge : edgeStatement G p edge with
    | error fault => simp [hedge, bind, Except.bind] at hes
    | ok e =>
      cases hrest : edges.mapM (edgeStatement G p) with
      | error fault => simp [hedge, hrest, bind, Except.bind] at hes
      | ok es' =>
        have hcons : es = e :: es' := by
          simp only [hedge, hrest, bind, Except.bind] at hes
          exact (Except.ok.inj hes).symm
        have hprint : ∃ state', printEdge G p state edge = .ok state'
            ∧ state'.graphStream = state.graphStream ++ e.text :=
          ⟨_, by simp only [printEdge, hedge, bind, Except.bind]; rfl, rfl⟩
        obtain ⟨state₁, hfirst, hstream₁⟩ := hprint
        obtain ⟨state₂, hfold, hstream₂⟩ := ih hrest state₁
        refine ⟨state₂, ?_, ?_⟩
        . rw [List.foldlM_cons, hfirst]
          exact hfold
        . rw [hstream₂, hstream₁, hcons, List.flatMap_cons, List.append_assoc]

theorem extractPath_eq_ok (env : MapperEnv) (G : ServersGraph) : extractPath env G = .ok [] := by
  unfold extractPath
  dsimp only
  split
  . simp [collectPath]
  . rfl

theorem getShortestPath_eq_ok (m : GraphMapper) (env : MapperEnv)
    : ∃ G, m.buildGraph = .ok G
        ∧ HasServers (2 * m.nodesCount + 1) (serversOf (tableEntries m.tableOfPathes)) G
        ∧ edgeStatements G = .ok m.printed
        ∧ m.getShortestPath env = .ok { m with graphData := dotText m.printed } := by
  obtain ⟨G, hbuild, hservers, hedges⟩ := buildGraph_eq_ok m
  have hes : edgeStatements G = .ok m.printed := by
    rw [edgeStatements, printed, ← hedges]
    apply Loop.mapM_ok
    intro e he
    rw [hedges] at he
    exact edgeStatement_eq_ok hservers he
  obtain ⟨state, hprint, hstream⟩ := printEdges_eq_ok hes { graphStream := header }
  refine ⟨G, hbuild, hservers, hes, ?_⟩
  simp only [getShortestPath, hbuild, extractPath_eq_ok, hprint, hstream, bind, Except.bind]
  rfl

theorem getGraph_of_edgeStatements {m : GraphMapper} (env : MapperEnv) {G : ServersGraph}
    {es : List EdgeStatement} (hbuild : m.buildGraph = .ok G) (hes : edgeStatements G = .ok es)
    : ∃ m', m.getShortestPath env = .ok m' ∧ m'.getGraph = dotText es := by
  obtain ⟨G', hbuild', -, hes', hpath⟩ := m.getShortestPath_eq_ok env
  rw [hbuild] at hbuild'
  cases hbuild'
  rw [hes] at hes'
  cases hes'
  exact ⟨_, hpath, rfl⟩

theorem color_of_mem_printed {m : GraphMapper} {e : EdgeStatement} (h : e ∈ m.printed)
    : e.color = .blue := by
  obtain ⟨e', -, rfl⟩ := List.mem_map.mp h
  rfl

end GraphMapper
