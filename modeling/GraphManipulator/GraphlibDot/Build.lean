import GraphManipulator.GraphlibDot.Graph
import Mathlib.Data.List.Sort

/-!
This module contains how `graphlib-dot` makes a graph of the statements of a digraph that the grammar has read.
-/

namespace GraphlibDot

namespace Attrs

/--
A property that is `undefined` is as one that is not there.
-/
def get? (attrs : Attrs) (k : Str) : Option Str := ((attrs.find? (fun e => e.1 = k)).map Prod.snd).join

end Attrs

def mergeAttributes (src dst : Attrs) : Attrs := src.foldl (fun dst e => Attrs.set dst e.1 e.2) dst

/--
The number of a key that stands in front of the other keys of an object
-/
def arrayIndex? (k : Str) : Option Nat :=
  let n := Nat.ofDigitChars 10 k 0
  if k = Nat.toDigits 10 n ∧ n < 4294967295 then some n else none

def objectKeys (names : List Str) : List Str :=
  let keys := (KeySet.ofList names).keys
  ((keys.filterMap arrayIndex?).insertionSort (· ≤ ·)).map (Nat.toDigits 10)
    ++ keys.filter (fun k => (arrayIndex? k).isNone)

mutual

/--
The names of the nodes in a statement. The last one that is pushed is visited first.
-/
def Stmt.visit (stmt : Stmt) : Except Thrown (List Str) :=
  match stmt with
  | .attr _ _ => .ok []
  | .inlineAttr _ => .ok []
  | .node id _ => .ok [id]
  | .edge elems _ => visitList elems
  | .subgraph _ stmts => visitOption stmts

def visitList (stmts : List Stmt) : Except Thrown (List Str) :=
  match stmts with
  | [] => .ok []
  | stmt :: tail => do
    let last ← visitList tail
    let first ← stmt.visit
    return last ++ first

def visitOption (stmts : Option (List Stmt)) : Except Thrown (List Str) :=
  match stmts with
  | none => .error .typeError
  | some stmts => visitList stmts

end

def Stmt.collectNodeIds (stmt : Stmt) : Except Thrown (List Str) := do
  let names ← stmt.visit
  return objectKeys names

def Stmt.type (stmt : Stmt) : Str :=
  match stmt with
  | .attr _ _ => "attr".toList
  | .inlineAttr _ => "inlineAttr".toList
  | .node _ _ => "node".toList
  | .edge _ _ => "edge".toList
  | .subgraph _ _ => "subgraph".toList

def Stmt.incident (elem : Stmt) : Except Thrown (List Str) :=
  match elem with
  | .node id _ => .ok [id]
  | .subgraph _ _ => elem.collectNodeIds
  | _ => .error (.error ("Unsupported type incident on edge: ".toList ++ elem.type))

/--
The object `_default` and the chain of its prototypes
-/
structure Defaults where
  own : Obj Attrs := ∅
  prototypes : List (Obj Attrs) := []

namespace Defaults

def lookup (d : Defaults) (type : Str) : Option Attrs := (d.own :: d.prototypes).findSome? (fun o => o.get? type)

def get (d : Defaults) (type : Str) (attrs : Attrs) : Attrs :=
  match d.lookup type with
  | some default => mergeAttributes attrs (mergeAttributes default [])
  | none => attrs

def set (d : Defaults) (type : Str) (attrs : Attrs) : Defaults :=
  { d with own := d.own.set type (d.get type attrs) }

def enterSubDigraph (d : Defaults) : Defaults := { own := ∅, prototypes := d.own :: d.prototypes }

def exitSubDigraph (d : Defaults) : Defaults :=
  match d.prototypes with
  | [] => {}
  | own :: prototypes => { own := own, prototypes := prototypes }

end Defaults

def labelled (defaults : Attrs) (id : Str) : Attrs :=
  if (defaults.get? "label".toList).isNone then Attrs.set defaults "label".toList (some id) else defaults

namespace CDigraph

variable (g : CDigraph)

def putInto (u : Str) (sg : Option Str) : Except Thrown CDigraph :=
  match sg with
  | none => .ok g
  | some sg => g.setParent u (some sg)

def createNode (defaults : Attrs) (id : Str) (attrs : Attrs) (sg : Option Str) : Except Thrown CDigraph := do
  let g ←
    if g.hasNode id then
      .ok g
    else do
      let (_, g) ← g.addNode (some id) (labelled defaults id)
      g.putInto id sg
  let value ← g.strictGetNode id
  return { g with nodes := g.nodes.set id (mergeAttributes attrs value) }

/--
The attributes of the statement itself decide on the id of its edges.
-/
def edgeId (attrs : Attrs) : Option Str :=
  match attrs.get? "id".toList with
  | some (c :: id) => some (c :: id)
  | _ => none

def openSubgraph (id sg : Option Str) : Except Thrown (Str × CDigraph) := do
  let (id, g) ← g.addNode id []
  let g ← g.putInto id sg
  return (id, g)

def closeSubgraph (id : Str) : Except Thrown CDigraph := do
  let children ← g.childrenOf id
  if children = [] then g.delNode id else .ok g

def mergeInline (attrs : Attrs) (sg : Option Str) : Except Thrown CDigraph :=
  match sg with
  | none => .ok { g with value := mergeAttributes attrs g.value }
  | some sg => do
    let value ← g.strictGetNode sg
    return { g with nodes := g.nodes.set sg (mergeAttributes attrs value) }

end CDigraph

structure Builder where
  g : CDigraph := {}
  defaultAttrs : Defaults := {}

namespace Builder

variable (b : Builder)

def createNode (id : Str) (attrs : Attrs) (sg : Option Str) : Except Thrown Builder := do
  let g ← b.g.createNode (b.defaultAttrs.get "node".toList []) id attrs sg
  return { b with g := g }

def createEdge (source target : Str) (attrs : Attrs) : Except Thrown Builder := do
  let edge := mergeAttributes (b.defaultAttrs.get "edge".toList attrs) []
  let g ← b.g.addEdge (CDigraph.edgeId attrs) source target edge
  return { b with g := g }

def createEdges (prev : Option (List Str)) (curr : List Str) (attrs : Attrs) : Except Thrown Builder :=
  (prev.getD []).foldlM (fun b p => curr.foldlM (fun b c => b.createEdge p c attrs) b) b

end Builder

mutual

def handleStmt (stmt : Stmt) (sg : Option Str) (b : Builder) : Except Thrown Builder :=
  match stmt with
  | .node id attrs => b.createNode id attrs sg
  | .edge elems attrs => handleElems elems attrs none sg b
  | .subgraph id stmts => do
    let (id, g) ← b.g.openSubgraph id sg
    let b ← handleOption stmts id { g := g, defaultAttrs := b.defaultAttrs.enterSubDigraph }
    let g ← b.g.closeSubgraph id
    return { g := g, defaultAttrs := b.defaultAttrs.exitSubDigraph }
  | .attr attrType attrs => .ok { b with defaultAttrs := b.defaultAttrs.set attrType attrs }
  | .inlineAttr attrs => do
    let g ← b.g.mergeInline attrs sg
    return { b with g := g }

def handleElems (elems : List Stmt) (attrs : Attrs) (prev : Option (List Str)) (sg : Option Str) (b : Builder)
    : Except Thrown Builder :=
  match elems with
  | [] => .ok b
  | elem :: tail => do
    let b ← handleStmt elem sg b
    let curr ← elem.incident
    let b ← b.createEdges prev curr attrs
    handleElems tail attrs (some curr) sg b

def handleOption (stmts : Option (List Stmt)) (sg : Str) (b : Builder) : Except Thrown Builder :=
  match stmts with
  | none => .ok b
  | some stmts => handleStmts stmts (some sg) b

def handleStmts (stmts : List Stmt) (sg : Option Str) (b : Builder) : Except Thrown Builder :=
  match stmts with
  | [] => .ok b
  | stmt :: tail => do
    let b ← handleStmt stmt sg b
    handleStmts tail sg b

end

def buildGraph (parseTree : GraphStmt) : Except Thrown CDigraph :=
  if parseTree.type = "graph".toList then
    -- the constructor of `DotGraph`
    .error .undirected
  else do
    let b ← handleStmts (parseTree.stmts.getD []) none {}
    return b.g

end GraphlibDot
