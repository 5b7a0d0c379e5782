import GraphManipulator.AdjacencyObjectsGenerator.Lemmas
import GraphManipulator.GraphMapper.PrintLemmas

/-!
This module contains the processor: it hands three parameters to the generator, the table of pathes from there
to the mapper and returns the graph that the mapper has written.
-/

namespace GraphProcessor

def adjacencyObjects (payload : List Int) : Except Fault AdjacencyObjectsGenerator := do
  let adjencyMatrixDim ← vectorAt payload 0
  let charDim ← vectorAt payload 1
  let metricDim ← vectorAt payload 2
  .ok (.ofDims adjencyMatrixDim charDim metricDim)

def serializeGraph (env : MapperEnv) (d : Draws) (payload : List Int) : Except Fault Str := do
  let g ← adjacencyObjects payload
  let bufServersData ← runThread (g.getAdjencyObjects d)
  let graphMapper := GraphMapper.ofServersData bufServersData
  let graphMapper ← runThread (graphMapper.getShortestPath env)
  runThread (.ok graphMapper.getGraph)

theorem adjacencyObjects_eq_ok (a b c : Int) : adjacencyObjects [a, b, c] = .ok (.ofDims a b c) := rfl

theorem adjacencyObjects_of_length {payload : List Int} (h : payload.length = 3)
    : ∃ g, adjacencyObjects payload = .ok g := by
  obtain ⟨a, b, c, rfl⟩ := List.length_eq_three.mp h
  exact ⟨_, adjacencyObjects_eq_ok a b c⟩

section

variable (env : MapperEnv) {d : Draws} {payload : List Int} {g : AdjacencyObjectsGenerator}

theorem serializeGraph_of_table (hg : adjacencyObjects payload = .ok g) {table : GraphPayload}
    (htable : g.generateData d = .ok table)
    : ∃ mapper, (GraphMapper.ofServersData table).getShortestPath env = .ok mapper
        ∧ mapper.getGraph = dotText (GraphMapper.ofServersData table).printed
        ∧ serializeGraph env d payload = .ok mapper.getGraph := by
  obtain ⟨G, -, -, -, hmapper⟩ := (GraphMapper.ofServersData table).getShortestPath_eq_ok env
  refine ⟨_, hmapper, rfl, ?_⟩
  simp only [serializeGraph, hg, AdjacencyObjectsGenerator.getAdjencyObjects, htable, hmapper, runThread_ok,
    bind, Except.bind]

theorem serializeGraph_eq_ok (hg : adjacencyObjects payload = .ok g)
    (hd : (g.selectedPairs d).length < 4294967296)
    : ∃ table, g.generateData d = .ok table
        ∧ serializeGraph env d payload = .ok (dotText (GraphMapper.ofServersData table).printed) := by
  obtain ⟨table, htable⟩ := AdjacencyObjectsGenerator.generateData_eq_ok hd
  obtain ⟨mapper, -, hprinted, hgraph⟩ := serializeGraph_of_table env hg htable
  exact ⟨table, htable, hprinted ▸ hgraph⟩

theorem serializeGraph_nonterminating (hg : adjacencyObjects payload = .ok g)
    (hd : 4294967296 ≤ (g.selectedPairs d).length)
    : serializeGraph env d payload = .error .nonterminating := by
  simp only [serializeGraph, hg, AdjacencyObjectsGenerator.getAdjencyObjects,
    AdjacencyObjectsGenerator.generateData_nonterminating hd, bind, Except.bind]
  rfl

theorem serializeGraph_eq_ok_iff (hg : adjacencyObjects payload = .ok g)
    : (∃ graph, serializeGraph env d payload = .ok graph) ↔ (g.selectedPairs d).length < 4294967296 := by
  constructor
  . rintro ⟨graph, hgraph⟩
    apply Nat.lt_of_not_le
    intro hle
    rw [serializeGraph_nonterminating env hg hle] at hgraph
    contradiction
  . intro hd
    obtain ⟨table, -, hgraph⟩ := serializeGraph_eq_ok env hg hd
    exact ⟨_, hgraph⟩

end

end GraphProcessor
