import GraphManipulator.Basic
import GraphManipulator.Lib.Peg

/-!
This module contains the grammar of `graphlib-dot`, by which the client reads the text of a graph. Each rule
keeps the order of its alternatives.
-/

namespace GraphlibDot

open Peg

abbrev Rule (α : Type) := Peg Char α

/--
An object, as its properties in the order in which they were added. A property might be `undefined`.
-/
abbrev Attrs := List (Str × Option Str)

namespace Attrs

def put (attrs : Attrs) (k : Str) (v : Option Str) : Attrs :=
  match attrs with
  | [] => [(k, v)]
  | (k', v') :: tail => if k = k' then (k', v) :: tail else (k', v') :: put tail k v

/--
`attrs[k] = v`. The prototype of an object can not be set to a string.
-/
def set (attrs : Attrs) (k : Str) (v : Option Str) : Attrs :=
  if k = "__proto__".toList then attrs else attrs.put k v

def rightBiasedMerge (lhs rhs : Attrs) : Attrs :=
  let result := lhs.foldl (fun result e => Attrs.set result e.1 e.2) []
  rhs.foldl (fun result e => Attrs.set result e.1 e.2) result

end Attrs

inductive Stmt where
  | attr (attrType : Str) (attrs : Attrs)
  | inlineAttr (attrs : Attrs)
  | node (id : Str) (attrs : Attrs)
  | edge (elems : List Stmt) (attrs : Attrs)
  | subgraph (id : Option Str) (stmts : Option (List Stmt))

structure GraphStmt where
  type : Str
  id : Str
  stmts : Option (List Stmt)

def isWhitespace (c : Char) : Bool := c = ' ' || c = '\t' || c = '\r' || c = '\n'

def parseWhitespace : Rule Str := plus (sat isWhitespace)

def parseComment : Rule Str :=
  choice
    (do
      let _ ← word ['/', '/']
      star (sat (fun c => c ≠ '\n')))
    (do
      let _ ← word ['/', '*']
      let text ← star (do
        notFollowedBy (word ['*', '/'])
        sat (fun _ => true))
      let _ ← word ['*', '/']
      return text)

def parse_ : Rule Str := choice parseWhitespace parseComment

def blanks : Rule Unit := do
  let _ ← star parse_
  return ()

def isIdStart (c : Char) : Bool :=
  ('a' ≤ c && c ≤ 'z') || ('A' ≤ c && c ≤ 'Z') || ('\u0200' ≤ c && c ≤ '\u0377') || c = '_'

def isIdRest (c : Char) : Bool := isIdStart c || c.isDigit

def parseName : Rule Str := do
  let fst ← sat isIdStart
  let rest ← star (sat isIdRest)
  return fst :: rest

def parseFraction : Rule Str := do
  let sign ← opt (word ['-'])
  let dot ← word ['.']
  let after ← plus (sat Char.isDigit)
  return sign.getD [] ++ dot ++ after

def parseNumber : Rule Str := do
  let sign ← opt (word ['-'])
  let before ← plus (sat Char.isDigit)
  let after ← opt (do
    let dot ← word ['.']
    let digits ← star (sat Char.isDigit)
    return dot ++ digits)
  return sign.getD [] ++ before ++ after.getD []

def parseQuotedChar : Rule Str :=
  choice
    (do
      let _ ← word ['\\', '"']
      return ['"'])
    (choice
      (do
        let _ ← word ['\\']
        let ch ← sat (fun c => c ≠ '"')
        return ['\\', ch])
      (do
        let ch ← sat (fun c => c ≠ '"')
        return [ch]))

def parseQuoted : Rule Str := do
  let _ ← word ['"']
  let id ← star parseQuotedChar
  let _ ← word ['"']
  return id.flatten

def parseId : Rule Str :=
  choice parseName (choice parseFraction (choice parseNumber parseQuoted))

/--
A keyword in any case. What follows it does not matter.
-/
def keyword (k : Str) : Rule Str := do
  let k ← wordBy Char.toLower k
  return k.map Char.toLower

def parseNode : Rule Str := keyword "node".toList

def parseEdge : Rule Str := keyword "edge".toList

def parseGraph : Rule Str := keyword "graph".toList

def parseDigraph : Rule Str := keyword "digraph".toList

def parseSubgraph : Rule Str := keyword "subgraph".toList

def parseStrict : Rule Str := keyword "strict".toList

def parseGraphType : Rule Str := choice parseGraph parseDigraph

def parseCompassPt : Rule Str :=
  choice (word ['n', 'e']) <| choice (word ['s', 'e']) <| choice (word ['s', 'w']) <|
  choice (word ['n', 'w']) <| choice (word ['n']) <| choice (word ['e']) <|
  choice (word ['s']) <| choice (word ['w']) <| choice (word ['c']) (word ['_'])

def parsePort : Rule Unit := do
  let _ ← word [':']
  blanks
  let _ ← parseId
  blanks
  let _ ← opt (do
    let _ ← word [':']
    blanks
    parseCompassPt)
  return ()

def parseNodeId : Rule Str := do
  let id ← parseId
  blanks
  let _ ← opt parsePort
  return id

def parseIdDef : Rule Attrs := do
  let k ← parseId
  let v ← opt (do
    blanks
    let _ ← word ['=']
    blanks
    parseId)
  return Attrs.set [] k v

def parseNextIdDef : Rule Attrs := do
  blanks
  let _ ← opt (word [','])
  blanks
  parseIdDef

def parseAList : Rule Attrs := do
  let first ← parseIdDef
  let rest ← star parseNextIdDef
  return rest.foldl Attrs.rightBiasedMerge first

def parseAttrListBlock : Rule Attrs := do
  let _ ← word ['[']
  blanks
  let aList ← opt parseAList
  blanks
  let _ ← word [']']
  return aList.getD []

def parseNextAttrListBlock : Rule Attrs := do
  blanks
  parseAttrListBlock

def parseAttrList : Rule Attrs := do
  let first ← parseAttrListBlock
  let rest ← star parseNextAttrListBlock
  return rest.foldl Attrs.rightBiasedMerge first

def parseAttrStmt : Rule Stmt := do
  let type ← choice parseGraph (choice parseNode parseEdge)
  blanks
  let attrs ← parseAttrList
  return .attr type attrs

def parseInlineAttrStmt : Rule Stmt := do
  let k ← parseId
  blanks
  let _ ← word ['=']
  blanks
  let v ← parseId
  return .inlineAttr (Attrs.set [] k (some v))

def parseNodeStmt : Rule Stmt := do
  let id ← parseNodeId
  blanks
  let attrs ← opt parseAttrList
  return .node id (attrs.getD [])

section

-- `parseStmtList` is the rule for the statements of a subgraph.
variable (directed : Bool) (parseStmtList : Rule (List Stmt))

def parseSubgraphStmt : Rule Stmt := do
  let id ← opt (do
    let _ ← parseSubgraph
    blanks
    opt (do
      let id ← parseId
      blanks
      return id))
  let _ ← word ['{']
  blanks
  let stmts ← opt parseStmtList
  blanks
  let _ ← word ['}']
  return .subgraph id.join stmts

def parseNodeIdOrSubgraph : Rule Stmt :=
  choice (parseSubgraphStmt parseStmtList) (do
    let id ← parseNodeId
    return .node id [])

def parseEdgeOp : Rule Unit :=
  choice
    (do
      let _ ← word ['-', '-']
      if directed then failure else pure ())
    (do
      let _ ← word ['-', '>']
      if directed then pure () else failure)

def edgeRHSWithin (fuel : Nat) : Rule (List Stmt) :=
  match fuel with
  | 0 => stuck
  | fuel + 1 => do
    parseEdgeOp directed
    blanks
    let rhs ← parseNodeIdOrSubgraph parseStmtList
    blanks
    let rest ← opt (edgeRHSWithin fuel)
    return rhs :: rest.getD []

def parseEdgeRHS : Rule (List Stmt) := ⟨fun s =>
  (edgeRHSWithin directed parseStmtList (s.length + 1)).run s⟩

def parseEdgeStmt : Rule Stmt := do
  let lhs ← parseNodeIdOrSubgraph parseStmtList
  blanks
  let rhs ← parseEdgeRHS directed parseStmtList
  blanks
  let attrs ← opt parseAttrList
  return .edge (lhs :: rhs) (attrs.getD [])

def parseStmt : Rule Stmt :=
  choice parseAttrStmt <|
  choice (parseEdgeStmt directed parseStmtList) <|
  choice (parseSubgraphStmt parseStmtList) <|
  choice parseInlineAttrStmt parseNodeStmt

def parseNextStmt : Rule Stmt := do
  blanks
  let stmt ← parseStmt directed parseStmtList
  blanks
  let _ ← opt (word [';'])
  return stmt

end

/--
The fuel bounds the depth to which subgraphs are nested.
-/
def parseStmtList (directed : Bool) (fuel : Nat) : Rule (List Stmt) :=
  match fuel with
  | 0 => stuck
  | fuel + 1 => do
    let first ← parseStmt directed (parseStmtList directed fuel)
    blanks
    let _ ← opt (word [';'])
    let rest ← star (parseNextStmt directed (parseStmtList directed fuel))
    return first :: rest

def parseGraphStmt (fuel : Nat) : Rule GraphStmt := do
  blanks
  let _ ← opt (do
    let _ ← parseStrict
    parse_)
  let type ← parseGraphType
  blanks
  let id ← opt parseId
  blanks
  let _ ← word ['{']
  blanks
  let stmts ← opt (parseStmtList (type = "digraph".toList) fuel)
  blanks
  let _ ← word ['}']
  blanks
  return { type := type, id := id.getD [], stmts := stmts }

/--
`dot_parser.parse(str, "graphStmt")`, where `none` stands for the exception. A subgraph takes two characters,
so that the input is longer than subgraphs are nested in it.
-/
def parse (str : Str) : Option GraphStmt :=
  match (parseGraphStmt (str.length + 1)).run str with
  | .ok tree [] => some tree
  | _ => none

end GraphlibDot
