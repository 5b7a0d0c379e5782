import GraphManipulator.GraphMapper.Representation

/-!
This module contains the mapper with a check for every read of the results of Dijkstra's algorithm, where the
code reads through plain pointers.
-/

namespace GraphMapper

def collectPathChecked (predecessors : List Nat) (startVertex : Nat) (fuel : Nat) (current : Nat)
    (path : List Nat)
    : Except Fault (List Nat) :=
  match fuel with
  | 0 => .error .nonterminating
  | fuel + 1 =>
    if current ≠ ServersGraph.nullVertex then do
      let pred ← vectorAt predecessors current
      if pred ≠ current ∧ current ≠ startVertex then
        collectPathChecked predecessors startVertex fuel pred (pred :: path)
      else
        .ok path
    else
      .ok path

def extractPathChecked (env : MapperEnv) (G : ServersGraph) : Except Fault (List Nat) := do
  let s := 0
  let predecessors := (List.range G.numVertices).map (fun v => (env.dijkstraShortestPaths G s v).1)
  let distances := (List.range G.numVertices).map (fun v => (env.dijkstraShortestPaths G s v).2)
  let startVertex := G.numVertices
  let endVertex := G.numVertices
  let distance ← vectorAt distances endVertex
  if distance ≠ -1 then
    collectPathChecked predecessors startVertex (G.numVertices + 1) endVertex []
  else
    .ok []

def getShortestPathChecked (m : GraphMapper) (env : MapperEnv) : Except Fault GraphMapper := do
  let G ← m.buildGraph
  let _ ← extractPathChecked env G
  let p := initialParents G
  let state ← G.edges.foldlM (printEdge G p) { graphStream := header }
  .ok { m with graphData := state.graphStream ++ "\x7d".toList }

theorem peek_of_vectorAt {v : List α} {i : Nat} {a : α} (h : vectorAt v i = .ok a) (behind : Nat → α)
    : peek v behind i = a := by
  unfold vectorAt at h
  unfold peek
  split at h
  . next b hb =>
    cases h
    rw [hb]
    rfl
  . contradiction

theorem collectPath_of_checked {predecessors : List Nat} {startVertex fuel current : Nat}
    {path res : List Nat} (h : collectPathChecked predecessors startVertex fuel current path = .ok res)
    (behind : Nat → Nat)
    : collectPath (peek predecessors behind) startVertex fuel current path = .ok res := by
  induction fuel generalizing current path with
  | zero => contradiction
  | succ fuel ih =>
    unfold collectPathChecked at h
    unfold collectPath
    by_cases hnull : current = ServersGraph.nullVertex
    . rw [if_neg (by simp [hnull])] at h ⊢
      exact h
    . rw [if_pos hnull] at h
      cases hread : vectorAt predecessors current with
      | error fault =>
        rw [hread] at h
        contradiction
      | ok pred =>
        rw [hread] at h
        rw [peek_of_vectorAt hread behind]
        dsimp only [bind, Except.bind] at h
        by_cases hnext : pred ≠ current ∧ current ≠ startVertex
        . rw [if_pos hnext] at h
          rw [if_pos ⟨hnull, hnext⟩]
          exact ih h
        . rw [if_neg hnext] at h
          rw [if_neg (fun hand => hnext hand.2)]
          exact h

theorem extractPath_of_checked {env : MapperEnv} {G : ServersGraph} {path : List Nat}
    (h : extractPathChecked env G = .ok path)
    : extractPath env G = .ok path := by
  unfold extractPathChecked at h
  unfold extractPath
  dsimp only at h ⊢
  cases hread : vectorAt ((List.range G.numVertices).map (fun v => (env.dijkstraShortestPaths G 0 v).2))
      G.numVertices with
  | error fault =>
    rw [hread] at h
    contradiction
  | ok distance =>
    rw [hread] at h
    rw [peek_of_vectorAt hread env.behindDistances]
    dsimp only [bind, Except.bind] at h
    by_cases hdistance : distance ≠ -1
    . rw [if_pos hdistance] at h ⊢
      exact collectPath_of_checked h env.behindPredecessors
    . rw [if_neg hdistance] at h ⊢
      exact h

/--
The checks are the only difference to the code.
-/
theorem getShortestPath_of_checked {m m' : GraphMapper} {env : MapperEnv}
    (h : m.getShortestPathChecked env = .ok m')
    : m.getShortestPath env = .ok m' := by
  unfold getShortestPathChecked at h
  unfold getShortestPath
  cases hbuild : m.buildGraph with
  | error fault =>
    rw [hbuild] at h
    contradiction
  | ok G =>
    rw [hbuild] at h
    cases hpath : extractPathChecked env G with
    | error fault =>
      simp only [hpath, bind, Except.bind] at h
      contradiction
    | ok path =>
      simp only [hpath, bind, Except.bind] at h
      simp only [extractPath_of_checked hpath, bind, Except.bind]
      exact h

theorem extractPathChecked_outOfBounds (env : MapperEnv) (G : ServersGraph)
    : extractPathChecked env G = .error .outOfBounds := by
  have hread : vectorAt ((List.range G.numVertices).map (fun v => (env.dijkstraShortestPaths G 0 v).2))
      G.numVertices = .error .outOfBounds := by
    unfold vectorAt
    rw [List.getElem?_eq_none (by simp)]
  unfold extractPathChecked
  dsimp only
  rw [hread]
  rfl

/--
The accesses to the graph and to the parents are in bounds. The read of the distance of the end vertex, which is
one behind the last vertex, never is.
-/
theorem getShortestPath_outOfBounds (table : GraphPayload) (env : MapperEnv)
    : (∃ m, (ofServersData table).getShortestPath env = .ok m)
      ∧ (ofServersData table).getShortestPathChecked env = .error .outOfBounds := by
  obtain ⟨G, hbuild, -, -, hpath⟩ := (ofServersData table).getShortestPath_eq_ok env
  refine ⟨⟨_, hpath⟩, ?_⟩
  simp only [getShortestPathChecked, hbuild, extractPathChecked_outOfBounds, bind, Except.bind]

theorem getShortestPathChecked_empty
    : (ofServersData OrdMap.empty).getShortestPathChecked isolatedStart = .error .outOfBounds := by
  rfl

end GraphMapper
