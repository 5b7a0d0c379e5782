import GraphManipulator.GraphMapper.Impl
import GraphManipulator.Lib.CyclicWrites
import GraphManipulator.Lib.Loop

/-!
This module contains what the graph looks like that the mapper builds: every pair of the table adds an edge
between two new vertices, and the name of a server is also written over the vertex at a counter that wraps
around.
-/

def tableEntries (table : GraphPayload) : List (Int × (Str × Str)) :=
  table.toList.flatMap (fun e => e.2.map (fun sNode => (e.1, sNode)))

def serversOf (ps : List (Int × (Str × Str))) : List VertexData :=
  ps.flatMap (fun e => [⟨e.2.1, e.1⟩, ⟨e.2.2, e.1⟩])

@[simp]
theorem length_serversOf (ps : List (Int × (Str × Str))) : (serversOf ps).length = 2 * ps.length := by
  induction ps with
  | nil => rfl
  | cons e ps ih =>
    simp only [serversOf, List.flatMap_cons, List.length_append, List.length_cons] at ih ⊢
    rw [ih]
    simp only [List.length_nil]
    omega

@[simp]
theorem serversOf_append (ps ps' : List (Int × (Str × Str)))
    : serversOf (ps ++ ps') = serversOf ps ++ serversOf ps' := by
  simp [serversOf]

def edgesFrom (base : Nat) (ps : List (Int × (Str × Str))) : List EdgeData :=
  ps.zipIdx.map (fun e => {
    source := base + 2 * e.2
    target := base + 2 * e.2 + 1
    edgeName := "QKD".toList
    qkdKey := e.1.1
  })

theorem edgesFrom_append (base : Nat) (ps : List (Int × (Str × Str))) (e : Int × (Str × Str))
    : edgesFrom base (ps ++ [e]) = edgesFrom base ps ++ [{
        source := base + 2 * ps.length
        target := base + 2 * ps.length + 1
        edgeName := "QKD".toList
        qkdKey := e.1
      }] := by
  simp [edgesFrom, List.zipIdx_append]

def counterValues : Nat := 4294967296

namespace GraphMapper

theorem addServer_eq_ok {G : ServersGraph} {itGraph : UInt32} (h : itGraph.toNat < G.vertices.length)
    (name : Str) (key : Int)
    : addServer G itGraph name key =
        .ok ({ G with vertices := G.vertices.set itGraph.toNat ⟨name, key⟩ ++ [⟨name, key⟩] },
          G.vertices.length) := by
  simp [addServer, ServersGraph.setServerName, ServersGraph.setServerKey, ServersGraph.vertexAt,
    ServersGraph.addVertex, vectorAt, h, bind, Except.bind]

structure HasServers (n : Nat) (ws : List VertexData) (G : ServersGraph) : Prop where
  length : G.vertices.length = n + ws.length
  contents : ∀ i, G.vertices[i]? = CyclicWrites.contents counterValues (List.replicate n {}) ws i

theorem addServer_hasServers {n : Nat} {ws : List VertexData} {G : ServersGraph} {itGraph : UInt32}
    (hn : 0 < n) (hG : HasServers n ws G) (hit : itGraph.toNat = ws.length % counterValues)
    (name : Str) (key : Int)
    : ∃ G', addServer G itGraph name key = .ok (G', n + ws.length)
        ∧ G'.edges = G.edges
        ∧ HasServers n (ws ++ [⟨name, key⟩]) G' := by
  have hlt : ws.length % counterValues < G.vertices.length := by
    have := Nat.mod_le ws.length counterValues
    have := hG.length
    omega
  have hlength : G.vertices.length = (List.replicate n ({} : VertexData)).length + ws.length := by
    rw [List.length_replicate, hG.length]
  let data : VertexData := ⟨name, key⟩
  let G' : ServersGraph := { G with vertices := G.vertices.set itGraph.toNat data ++ [data] }
  refine ⟨G', ?_, rfl, ?_, ?_⟩
  . rw [addServer_eq_ok (by rwa [hit]), hG.length]
  . simp only [G', List.length_append, List.length_set, hG.length, List.length_singleton]
    omega
  . intro i
    dsimp only [G']
    rw [hit]
    exact CyclicWrites.contents_append hlength hlt hG.contents i

structure Built (n : Nat) (ps : List (Int × (Str × Str))) (state : ServersGraph × UInt32) : Prop where
  itGraph : state.2.toNat = (2 * ps.length) % counterValues
  servers : HasServers n (serversOf ps) state.1
  edges : state.1.edges = edgesFrom n ps

theorem toNat_succ (i : UInt32) {k : Nat} (h : i.toNat = k % counterValues)
    : (i + 1).toNat = (k + 1) % counterValues := by
  rw [UInt32.toNat_add, h]
  simp [counterValues]

theorem addPair_built {n : Nat} {ps : List (Int × (Str × Str))} {state : ServersGraph × UInt32}
    (hn : 0 < n) (h : Built n ps state) (e : Int × (Str × Str))
    : ∃ state', addPair e.1 state e.2 = .ok state' ∧ Built n (ps ++ [e]) state' := by
  obtain ⟨G, itGraph⟩ := state
  obtain ⟨hit, hservers, hedges⟩ := h
  dsimp only at hit hservers hedges
  have hit₁ : itGraph.toNat = (serversOf ps).length % counterValues := by
    rw [hit, length_serversOf]
  obtain ⟨G₁, hfirst, hedges₁, hservers₁⟩ := addServer_hasServers hn hservers hit₁ e.2.1 e.1
  have hit₂ : (itGraph + 1).toNat = (serversOf ps ++ [VertexData.mk e.2.1 e.1]).length % counterValues := by
    rw [toNat_succ itGraph hit₁, List.length_append, List.length_singleton]
  obtain ⟨G₂, hsecond, hedges₂, hservers₂⟩ := addServer_hasServers hn hservers₁ hit₂ e.2.2 e.1
  refine ⟨_, by simp only [addPair, hfirst, hsecond, bind, Except.bind]; rfl, ?_, ?_, ?_⟩
  . have := toNat_succ (itGraph + 1) hit₂
    simp only [List.length_append, List.length_singleton, length_serversOf] at this ⊢
    rw [this]
    congr 1
  . have heq : serversOf (ps ++ [e]) = serversOf ps ++ [⟨e.2.1, e.1⟩] ++ [⟨e.2.2, e.1⟩] := by
      rw [serversOf_append, List.append_assoc]
      rfl
    rw [heq]
    exact ⟨hservers₂.length, hservers₂.contents⟩
  . rw [edgesFrom_append]
    simp [ServersGraph.addEdge, ServersGraph.setEdgeName, ServersGraph.setQkdKey, hedges₂, hedges₁,
      hedges, Nat.add_assoc, List.modify_eq_take_cons_drop]

def buildPairs (m : GraphMapper) (ps : List (Int × (Str × Str))) : Except Fault (ServersGraph × UInt32) :=
  ps.foldlM (fun state e => addPair e.1 state e.2) (.ofVertices (2 * m.nodesCount + 1), 0)

theorem buildPairs_built (m : GraphMapper) (ps : List (Int × (Str × Str)))
    : ∃ state, m.buildPairs ps = .ok state ∧ Built (2 * m.nodesCount + 1) ps state := by
  have hinit : Built (2 * m.nodesCount + 1) [] (.ofVertices (2 * m.nodesCount + 1), 0) := by
    refine ⟨rfl, ⟨by simp [ServersGraph.ofVertices, serversOf], ?_⟩, rfl⟩
    intro i
    rw [show serversOf [] = [] from rfl, CyclicWrites.contents_nil]
    rfl
  apply Loop.foldlM_ok _ hinit
  intro pre e state _ h
  exact addPair_built (Nat.succ_pos _) h e

theorem buildGraph_eq (m : GraphMapper)
    : m.buildGraph = (do
        let (G, _) ← m.buildPairs (tableEntries m.tableOfPathes)
        .ok G) := by
  have hloops : m.tableOfPathes.toList.foldlM addPathNode (.ofVertices (2 * m.nodesCount + 1), 0)
      = m.buildPairs (tableEntries m.tableOfPathes) := by
    rw [buildPairs, tableEntries, ← Loop.foldlM_nested]
    simp only [List.foldlM_map]
    rfl
  rw [← hloops]
  rfl

theorem buildGraph_eq_ok (m : GraphMapper)
    : ∃ G, m.buildGraph = .ok G
        ∧ HasServers (2 * m.nodesCount + 1) (serversOf (tableEntries m.tableOfPathes)) G
        ∧ G.edges = edgesFrom (2 * m.nodesCount + 1) (tableEntries m.tableOfPathes) := by
  obtain ⟨⟨G, itGraph⟩, hpairs, hbuilt⟩ := m.buildPairs_built (tableEntries m.tableOfPathes)
  refine ⟨G, ?_, hbuilt.servers, hbuilt.edges⟩
  rw [buildGraph_eq, hpairs]
  rfl

end GraphMapper
