import GraphManipulator.GraphlibDot.Impl
import GraphManipulator.Lib.InsertionMap

/-!
This module contains the directed graphs of `graphlib`, whose nodes might be contained in other nodes.
-/

namespace GraphlibDot

/--
What is thrown. What comes of the name of a property that each object has is left open, and so is an undirected
graph.
-/
inductive Thrown where
  | error (message : Str)
  | typeError
  | inherited (name : Str)
  | undirected

def Thrown.isLeftOpen (e : Thrown) : Bool :=
  match e with
  | error _ => false
  | typeError => false
  | inherited _ => true
  | undirected => true

abbrev Obj (α : Type) := InsertionMap Str α

abbrev KeySet := Obj Unit

def KeySet.ofList (keys : List Str) : KeySet := keys.foldl (fun s k => s.set k ()) ∅

def objectPrototype : List Str := [
  "constructor".toList, "__defineGetter__".toList, "__defineSetter__".toList, "hasOwnProperty".toList,
  "__lookupGetter__".toList, "__lookupSetter__".toList, "isPrototypeOf".toList,
  "propertyIsEnumerable".toList, "toString".toList, "valueOf".toList, "__proto__".toList,
  "toLocaleString".toList
]

/--
The property of an object that is not there is looked up in its prototype.
-/
def lookup {α : Type} (o : Obj α) (k : Str) : Except Thrown (Option α) :=
  match o.get? k with
  | some v => .ok (some v)
  | none => if k ∈ objectPrototype then .error (.inherited k) else .ok none

structure Edge where
  u : Str
  v : Str
  value : Attrs
  deriving DecidableEq

def null : Str := "null".toList

def undefined : Str := "undefined".toList

/--
The children of the graph itself are those of `null`.
-/
structure CDigraph where
  value : Attrs := []
  nodes : Obj Attrs := ∅
  edges : Obj Edge := ∅
  nextId : Nat := 0
  inEdges : Obj (Obj KeySet) := ∅
  outEdges : Obj (Obj KeySet) := ∅
  parents : Obj (Option Str) := ∅
  children : Obj KeySet := (∅ : Obj KeySet).set null ∅

def generatedId (n : Nat) : Str := '_' :: Nat.toDigits 10 n

/--
The loop for a unique id, which gives the last value of `nextId`. It gets past as many ids as are in use.
-/
def uniqueId (used : List Str) (fuel nextId : Nat) : Nat :=
  match fuel with
  | 0 => nextId + 1
  | fuel + 1 => if generatedId (nextId + 1) ∈ used then uniqueId used fuel (nextId + 1) else nextId + 1

def parentKey (parent : Option (Option Str)) : Str :=
  match parent with
  | none => undefined
  | some none => null
  | some (some parent) => parent

def addEdgeToMap (maps : Obj (Obj KeySet)) (u v e : Str) : Except Thrown (Obj (Obj KeySet)) :=
  match maps.get? u with
  | none => .error .typeError
  | some map => .ok (maps.set u (map.set v (((map.get? v).getD ∅).set e ())))

def delEdgeFromMap (maps : Obj (Obj KeySet)) (u v e : Str) : Except Thrown (Obj (Obj KeySet)) :=
  match maps.get? u with
  | none => .error .typeError
  | some map =>
    match map.get? v with
    | none => .error .typeError
    | some entry =>
      let entry := entry.delete e
      .ok (maps.set u (if entry.keys = [] then map.delete v else map.set v entry))

namespace CDigraph

variable (g : CDigraph)

def hasNode (u : Str) : Bool := u ∈ g.nodes || u ∈ objectPrototype

def hasEdge (e : Str) : Bool := e ∈ g.edges || e ∈ objectPrototype

def strictGetNode (u : Str) : Except Thrown Attrs := do
  match ← lookup g.nodes u with
  | some value => .ok value
  | none => .error (.error ("Node '".toList ++ u ++ "' is not in graph".toList))

def strictGetEdge (e : Str) : Except Thrown Edge := do
  match ← lookup g.edges e with
  | some edge => .ok edge
  | none => .error (.error ("Edge '".toList ++ e ++ "' is not in graph".toList))

def insertNode (u : Str) (value : Attrs) : Except Thrown CDigraph :=
  let children := g.children.set u ∅
  match children.get? null with
  | none => .error .typeError
  | some root =>
    .ok {
      g with
      nodes := g.nodes.set u value
      inEdges := g.inEdges.set u ∅
      outEdges := g.outEdges.set u ∅
      parents := g.parents.set u none
      children := children.set null (root.set u ())
    }

def addNode (u : Option Str) (value : Attrs) : Except Thrown (Str × CDigraph) :=
  match u with
  | none => do
    let nextId := uniqueId g.nodes.keys g.nodes.keys.length g.nextId
    let g ← { g with nextId := nextId }.insertNode (generatedId nextId) value
    return (generatedId nextId, g)
  | some u =>
    if g.hasNode u then
      .error (.error ("Graph already has node '".toList ++ u ++ "'".toList))
    else do
      let g ← g.insertNode u value
      return (u, g)

def setParent (u : Str) (parent : Option Str) : Except Thrown CDigraph := do
  let _ ← g.strictGetNode u
  if some u = parent then
    .error (.error ("Cannot make ".toList ++ u ++ " a parent of itself".toList))
  else
    if let some parent := parent then
      let _ ← g.strictGetNode parent
    let former := parentKey (g.parents.get? u)
    match g.children.get? former with
    | none => .error .typeError
    | some siblings =>
      let children := g.children.set former (siblings.delete u)
      match children.get? (parentKey (some parent)) with
      | none => .error .typeError
      | some siblings =>
        .ok {
          g with
          parents := g.parents.set u parent
          children := children.set (parentKey (some parent)) (siblings.set u ())
        }

def childrenOf (u : Str) : Except Thrown (List Str) := do
  let _ ← g.strictGetNode u
  match g.children.get? u with
  | none => .error .typeError
  | some children => .ok children.keys

def edgesAt (maps : Obj (Obj KeySet)) (u : Str) : Except Thrown (List Str) := do
  let _ ← g.strictGetNode u
  match maps.get? u with
  | none => .error .typeError
  | some map => .ok (KeySet.ofList (map.entries.flatMap (fun entry => entry.2.keys))).keys

def incidentEdges (u : Str) : Except Thrown (List Str) := do
  let ins ← g.edgesAt g.inEdges u
  let outs ← g.edgesAt g.outEdges u
  return (KeySet.ofList (ins ++ outs)).keys

def insertEdge (e u v : Str) (value : Attrs) : Except Thrown CDigraph := do
  let inEdges ← addEdgeToMap g.inEdges v u e
  let outEdges ← addEdgeToMap g.outEdges u v e
  return { g with edges := g.edges.set e ⟨u, v, value⟩, inEdges := inEdges, outEdges := outEdges }

def addEdge (e : Option Str) (u v : Str) (value : Attrs) : Except Thrown CDigraph := do
  let _ ← g.strictGetNode u
  let _ ← g.strictGetNode v
  match e with
  | none =>
    let nextId := uniqueId g.edges.keys g.edges.keys.length g.nextId
    { g with nextId := nextId }.insertEdge (generatedId nextId) u v value
  | some e =>
    if g.hasEdge e then
      .error (.error ("Graph already has edge '".toList ++ e ++ "'".toList))
    else
      g.insertEdge e u v value

def delEdge (e : Str) : Except Thrown CDigraph := do
  let edge ← g.strictGetEdge e
  let inEdges ← delEdgeFromMap g.inEdges edge.v edge.u e
  let outEdges ← delEdgeFromMap g.outEdges edge.u edge.v e
  return { g with edges := g.edges.delete e, inEdges := inEdges, outEdges := outEdges }

def delNode (u : Str) : Except Thrown CDigraph := do
  let _ ← g.strictGetNode u
  let parent := g.parents.get? u
  let children ← g.childrenOf u
  let g ← children.foldlM (fun g child => g.setParent child parent.join) g
  match g.children.get? (parentKey parent) with
  | none => .error .typeError
  | some siblings =>
    let g := {
      g with
      children := (g.children.set (parentKey parent) (siblings.delete u)).delete u
      parents := g.parents.delete u
    }
    let edges ← g.incidentEdges u
    let g ← edges.foldlM (fun g e => g.delEdge e) g
    return {
      g with
      nodes := g.nodes.delete u
      inEdges := g.inEdges.delete u
      outEdges := g.outEdges.delete u
    }

end CDigraph

end GraphlibDot
