import GraphManipulator.Basic
import GraphManipulator.AdjacencyObjectsGenerator.Impl

/-!
This module contains the mapper: it builds a graph from a table of pathes, has its shortest pathes computed
and writes the graph in the DOT language.
-/

structure VertexData where
  serverName : Str := []
  serverKey : Int := 0
  deriving DecidableEq, Repr

structure EdgeData where
  source : Nat
  target : Nat
  edgeWeight : Int := 0
  edgeName : Str := []
  qkdKey : Int := 0
  deriving DecidableEq, Repr

/--
The vertices are the indices of their data, the edges are in the order in which they were added.
-/
structure ServersGraph where
  vertices : List VertexData
  edges : List EdgeData
  deriving DecidableEq, Repr

namespace ServersGraph

def ofVertices (n : Nat) : ServersGraph where
  vertices := List.replicate n {}
  edges := []

def numVertices (G : ServersGraph) : Nat := G.vertices.length

def nullVertex : Nat := 18446744073709551615

def vertexAt (G : ServersGraph) (v : Nat) : Except Fault VertexData :=
  vectorAt G.vertices v

def setServerName (G : ServersGraph) (v : Nat) (name : Str) : Except Fault ServersGraph := do
  let data ← G.vertexAt v
  .ok { G with vertices := G.vertices.set v { data with serverName := name } }

def setServerKey (G : ServersGraph) (v : Nat) (key : Int) : Except Fault ServersGraph := do
  let data ← G.vertexAt v
  .ok { G with vertices := G.vertices.set v { data with serverKey := key } }

def addVertex (G : ServersGraph) (data : VertexData) : ServersGraph × Nat :=
  ({ G with vertices := G.vertices ++ [data] }, G.vertices.length)

def addEdge (G : ServersGraph) (v1 v2 : Nat) : ServersGraph × Nat :=
  ({ G with edges := G.edges ++ [{ source := v1, target := v2 }] }, G.edges.length)

def setEdgeName (G : ServersGraph) (e : Nat) (name : Str) : ServersGraph :=
  { G with edges := G.edges.modify e (fun data => { data with edgeName := name }) }

def setQkdKey (G : ServersGraph) (e : Nat) (key : Int) : ServersGraph :=
  { G with edges := G.edges.modify e (fun data => { data with qkdKey := key }) }

end ServersGraph

structure MapperEnv where
  -- what `dijkstra_shortest_paths` writes into the predecessor map and the distance map for each vertex
  dijkstraShortestPaths : ServersGraph → Nat → Nat → Nat × Int
  -- what is read behind the end of the predecessors
  behindPredecessors : Nat → Nat
  -- what is read behind the end of the distances
  behindDistances : Nat → Int

def peek (v : List α) (behind : Nat → α) (i : Nat) : α := v[i]?.getD (behind i)

inductive Color where
  | black
  | blue
  deriving DecidableEq, Repr

namespace Color

def name (c : Color) : Str :=
  match c with
  | black => "black".toList
  | blue => "blue".toList

end Color

structure EdgeStatement where
  source : Str
  target : Str
  label : Int
  color : Color
  deriving DecidableEq, Repr

namespace EdgeStatement

def text (e : EdgeStatement) : Str :=
  e.source ++ " -> ".toList ++ e.target ++ "[label=\"".toList ++ intText e.label ++ "\"".toList
    ++ ", color=\"".toList ++ e.color.name ++ "\"".toList
    ++ "]".toList

end EdgeStatement

structure GraphMapper where
  actualPathes : GraphPayload := OrdMap.empty
  tableOfPathes : GraphPayload
  nodesCount : Nat
  graphData : Str := []

namespace GraphMapper

def ofServersData (serversData : GraphPayload) : GraphMapper where
  tableOfPathes := serversData
  nodesCount := serversData.toList.length

def addServer (G : ServersGraph) (itGraph : UInt32) (name : Str) (key : Int)
    : Except Fault (ServersGraph × Nat) := do
  let G ← G.setServerName itGraph.toNat name
  let G ← G.setServerKey itGraph.toNat key
  let data ← G.vertexAt itGraph.toNat
  .ok (G.addVertex data)

def addPair (key : Int) (state : ServersGraph × UInt32) (sNode : Str × Str)
    : Except Fault (ServersGraph × UInt32) := do
  let (G, itGraph) := state
  let (G, v1) ← addServer G itGraph sNode.1 key
  let itGraph := itGraph + 1
  let (G, v2) ← addServer G itGraph sNode.2 key
  let (G, e) := G.addEdge v1 v2
  let G := G.setEdgeName e "QKD".toList
  let G := G.setQkdKey e key
  .ok (G, itGraph + 1)

def addPathNode (state : ServersGraph × UInt32) (itTableData : Int × List (Str × Str))
    : Except Fault (ServersGraph × UInt32) :=
  itTableData.2.foldlM (addPair itTableData.1) state

def buildGraph (m : GraphMapper) : Except Fault ServersGraph := do
  let G := ServersGraph.ofVertices (2 * m.nodesCount + 1)
  let (G, _) ← m.tableOfPathes.toList.foldlM addPathNode (G, 0)
  .ok G

def collectPath (predmap : Nat → Nat) (startVertex : Nat) (fuel : Nat) (current : Nat) (path : List Nat)
    : Except Fault (List Nat) :=
  match fuel with
  | 0 => .error .nonterminating
  | fuel + 1 =>
    if current ≠ ServersGraph.nullVertex ∧ predmap current ≠ current ∧ current ≠ startVertex then
      collectPath predmap startVertex fuel (predmap current) (predmap current :: path)
    else
      .ok path

def extractPath (env : MapperEnv) (G : ServersGraph) : Except Fault (List Nat) :=
  let s := 0
  let predecessors := (List.range G.numVertices).map (fun v => (env.dijkstraShortestPaths G s v).1)
  let distances := (List.range G.numVertices).map (fun v => (env.dijkstraShortestPaths G s v).2)
  let startVertex := G.numVertices
  let endVertex := G.numVertices
  let predmap := peek predecessors env.behindPredecessors
  let distmap := peek distances env.behindDistances
  if distmap endVertex ≠ -1 then
    collectPath predmap startVertex (G.numVertices + 1) endVertex []
  else
    .ok []

def header : Str :=
  "digraph D \x7b\n  rankdir=LR\n  size=\"4,3\"\n  ratio=\"fill\"\n  edge[style=\"bold\"]\n  node[shape=\"circle\"]\n".toList

def edgeStatement (G : ServersGraph) (p : List Nat) (e : EdgeData) : Except Fault EdgeStatement := do
  let u ← G.vertexAt e.source
  let v ← G.vertexAt e.target
  let parent ← vectorAt p e.target
  .ok {
    source := u.serverName
    target := v.serverName
    label := e.qkdKey
    color := if parent = e.source then .black else .blue
  }

structure PrintState where
  bufPairs : List (Str × Str) := []
  actualPathes : GraphPayload := OrdMap.empty
  graphStream : Str := []

def printEdge (G : ServersGraph) (p : List Nat) (state : PrintState) (e : EdgeData)
    : Except Fault PrintState := do
  let statement ← edgeStatement G p e
  let bufPairs := state.bufPairs ++ [(statement.source, statement.target)]
  .ok {
    bufPairs := bufPairs
    actualPathes := state.actualPathes.insert e.qkdKey bufPairs
    graphStream := state.graphStream ++ statement.text
  }

/--
The parents that the loop over the edges compares with, as the vector is constructed
-/
def initialParents (G : ServersGraph) : List Nat := List.replicate G.numVertices 0

def getShortestPath (m : GraphMapper) (env : MapperEnv) : Except Fault GraphMapper := do
  let G ← m.buildGraph
  let _ ← extractPath env G
  let p := initialParents G
  let state ← G.edges.foldlM (printEdge G p) { graphStream := header }
  .ok { m with graphData := state.graphStream ++ "\x7d".toList }

def getActualTable (m : GraphMapper) : GraphPayload := m.actualPathes

def getGraph (m : GraphMapper) : Str := m.graphData

end GraphMapper
