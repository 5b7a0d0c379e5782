import GraphManipulator.GraphlibDot.Build
import Mathlib.Logic.Function.Basic

/-!
This module contains that default attributes are scoped lexically: a statement only depends on those that stand in
front of it in the subgraphs around it, so that the graph is what a plain sequence of commands draws.
-/

namespace GraphlibDot

mutual

def Stmt.Forall (P Q : Str → Prop) (stmt : Stmt) : Prop :=
  match stmt with
  | .node id _ => P id
  | .edge elems attrs => (∀ e ∈ CDigraph.edgeId attrs, Q e) ∧ ForallList P Q elems
  | .subgraph id stmts => (∀ u ∈ id, P u) ∧ ForallOption P Q stmts
  | .attr _ _ => True
  | .inlineAttr _ => True

def ForallList (P Q : Str → Prop) (stmts : List Stmt) : Prop :=
  match stmts with
  | [] => True
  | stmt :: tail => stmt.Forall P Q ∧ ForallList P Q tail

def ForallOption (P Q : Str → Prop) (stmts : Option (List Stmt)) : Prop :=
  match stmts with
  | none => True
  | some stmts => ForallList P Q stmts

end

def GraphStmt.Forall (P Q : Str → Prop) (tree : GraphStmt) : Prop := ForallList P Q (tree.stmts.getD [])

structure GraphStmt.IsPlain (tree : GraphStmt) : Prop where
  isDigraph : tree.type ≠ "graph".toList
  names : tree.Forall (· ∉ objectPrototype) (· ∉ objectPrototype)

abbrev Scope := Str → Option Attrs

def Scope.get (scope : Scope) (type : Str) (attrs : Attrs) : Attrs :=
  match scope type with
  | some default => mergeAttributes attrs (mergeAttributes default [])
  | none => attrs

def Stmt.scopeAfter (stmt : Stmt) (scope : Scope) : Scope :=
  match stmt with
  | .attr type attrs => Function.update scope type (some (scope.get type attrs))
  | _ => scope

/--
A step in which no defaults are looked up
-/
inductive Command where
  | node (defaults : Attrs) (id : Str) (attrs : Attrs)
  | edge (id : Option Str) (u v : Str) (value : Attrs)
  | enter (id : Option Str)
  | leave
  | inline (attrs : Attrs)
  | throw (e : Thrown)

def edgeCommands (scope : Scope) (attrs : Attrs) (prev : Option (List Str)) (curr : List Str) : List Command :=
  (prev.getD []).flatMap (fun p => curr.map (fun c =>
    .edge (CDigraph.edgeId attrs) p c (mergeAttributes (scope.get "edge".toList attrs) [])))

mutual

def Stmt.commands (stmt : Stmt) (scope : Scope) : List Command :=
  match stmt with
  | .node id attrs => [.node (scope.get "node".toList []) id attrs]
  | .edge elems attrs => elemCommands elems attrs none scope
  | .subgraph id stmts => .enter id :: (optionCommands stmts scope ++ [.leave])
  | .attr _ _ => []
  | .inlineAttr attrs => [.inline attrs]

def elemCommands (elems : List Stmt) (attrs : Attrs) (prev : Option (List Str)) (scope : Scope) : List Command :=
  match elems with
  | [] => []
  | elem :: tail =>
    elem.commands scope ++
      match elem.incident with
      | .error e => [.throw e]
      | .ok curr => edgeCommands scope attrs prev curr ++ elemCommands tail attrs (some curr) scope

def optionCommands (stmts : Option (List Stmt)) (scope : Scope) : List Command :=
  match stmts with
  | none => []
  | some stmts => listCommands stmts scope

def listCommands (stmts : List Stmt) (scope : Scope) : List Command :=
  match stmts with
  | [] => []
  | stmt :: tail => stmt.commands scope ++ listCommands tail (stmt.scopeAfter scope)

end

def GraphStmt.commands (tree : GraphStmt) : List Command := listCommands (tree.stmts.getD []) (fun _ => none)

structure Canvas where
  g : CDigraph := {}
  opened : List Str := []

def Command.run (command : Command) (s : Canvas) : Except Thrown Canvas :=
  match command with
  | .node defaults id attrs => do
    let g ← s.g.createNode defaults id attrs s.opened.head?
    return { s with g := g }
  | .edge id u v value => do
    let g ← s.g.addEdge id u v value
    return { s with g := g }
  | .enter id => do
    let (id, g) ← s.g.openSubgraph id s.opened.head?
    return { g := g, opened := id :: s.opened }
  | .leave =>
    match s.opened with
    | [] => .ok s
    | id :: opened => do
      let g ← s.g.closeSubgraph id
      return { g := g, opened := opened }
  | .inline attrs => do
    let g ← s.g.mergeInline attrs s.opened.head?
    return { s with g := g }
  | .throw e => .error e

def draw (commands : List Command) (s : Canvas) : Except Thrown Canvas :=
  commands.foldlM (fun s command => command.run s) s

theorem draw_cons (command : Command) (commands : List Command) (s : Canvas)
    : draw (command :: commands) s = command.run s >>= draw commands := by
  rw [draw, List.foldlM_cons]
  rfl

theorem draw_append (commands₁ commands₂ : List Command) (s : Canvas)
    : draw (commands₁ ++ commands₂) s = draw commands₁ s >>= draw commands₂ := by
  rw [draw, List.foldlM_append]
  rfl

theorem draw_singleton (command : Command) (s : Canvas) : draw [command] s = command.run s := by
  rw [draw_cons]
  cases command.run s with
  | error e => rfl
  | ok s' => rfl

section

def Defaults.Models (d : Defaults) (scope : Scope) : Prop := ∀ type, d.lookup type = scope type

def Stmt.defaultsAfter (stmt : Stmt) (d : Defaults) : Defaults :=
  match stmt with
  | .attr type attrs => d.set type attrs
  | _ => d

variable {d : Defaults} {scope : Scope}

theorem Defaults.Models.get (h : d.Models scope) (type : Str) (attrs : Attrs)
    : d.get type attrs = scope.get type attrs := by
  cases hscope : scope type with
  | none => simp only [Defaults.get, Scope.get, h type, hscope]
  | some default => simp only [Defaults.get, Scope.get, h type, hscope]

theorem Defaults.Models.enterSubDigraph (h : d.Models scope) : d.enterSubDigraph.Models scope := by
  intro type
  rw [← h type]
  rfl

theorem Defaults.Models.scopeAfter (h : d.Models scope) (stmt : Stmt)
    : (stmt.defaultsAfter d).Models (stmt.scopeAfter scope) := by
  cases stmt with
  | attr type attrs =>
    intro type'
    have hnone : d.lookup type' = (d.own.get? type').or (d.prototypes.findSome? (fun o => o.get? type')) := by
      rw [Defaults.lookup, List.findSome?_cons]
      cases d.own.get? type' <;> rfl
    have hset : (d.set type attrs).lookup type'
        = ((d.own.set type (d.get type attrs)).get? type').or
          (d.prototypes.findSome? (fun o => o.get? type')) := by
      rw [Defaults.lookup, Defaults.set, List.findSome?_cons]
      cases (d.own.set type (d.get type attrs)).get? type' <;> rfl
    rw [Stmt.defaultsAfter, Stmt.scopeAfter, hset, InsertionMap.get?_set, h.get]
    by_cases htype : type' = type
    . rw [if_pos htype, htype, Function.update_self]
      rfl
    . rw [if_neg htype, Function.update_of_ne htype, ← h type', hnone]
  | _ => exact h

theorem prototypes_defaultsAfter (stmt : Stmt) (d : Defaults)
    : (stmt.defaultsAfter d).prototypes = d.prototypes := by
  cases stmt <;> rfl

theorem prototypes_foldl (stmts : List Stmt) (d : Defaults)
    : (stmts.foldl (fun d stmt => stmt.defaultsAfter d) d).prototypes = d.prototypes := by
  induction stmts generalizing d with
  | nil => rfl
  | cons stmt stmts ih => rw [List.foldl_cons, ih, prototypes_defaultsAfter]

theorem exitSubDigraph_of_prototypes {d' : Defaults} (h : d'.prototypes = d.enterSubDigraph.prototypes)
    : d'.exitSubDigraph = d := by
  rw [Defaults.exitSubDigraph, h]
  rfl

theorem defaultsAfter_of_incident {elem : Stmt} {curr : List Str} (h : elem.incident = .ok curr)
    : elem.defaultsAfter d = d := by
  cases elem with
  | attr type attrs => cases h
  | _ => rfl

end

/--
`res` is the graph that was drawn, with the defaults `d`, while `opened` are the subgraphs that are not yet left.
-/
def Follows (res : Except Thrown Builder) (drawn : Except Thrown Canvas) (opened : List Str) (d : Defaults) : Prop :=
  match drawn with
  | .error e => res = .error e
  | .ok s => s.opened = opened ∧ res = .ok { g := s.g, defaultAttrs := d }

section

variable {opened opened' : List Str} {d d' : Defaults}

theorem Follows.bind {res : Except Thrown Builder} {drawn : Except Thrown Canvas}
    (hfollows : Follows res drawn opened d) {k : Builder → Except Thrown Builder}
    {k' : Canvas → Except Thrown Canvas}
    (hnext : ∀ g, Follows (k { g := g, defaultAttrs := d }) (k' { g := g, opened := opened }) opened' d')
    : Follows (res >>= k) (drawn >>= k') opened' d' := by
  cases drawn with
  | error e =>
    rw [show res = .error e from hfollows]
    exact rfl
  | ok s =>
    obtain ⟨rfl, rfl⟩ := hfollows
    exact hnext s.g

theorem follows_of_graph (res : Except Thrown CDigraph) (opened : List Str) (d : Defaults)
    : Follows (res >>= fun g => pure { g := g, defaultAttrs := d })
        (res >>= fun g => pure { g := g, opened := opened }) opened d := by
  cases res with
  | error e => exact rfl
  | ok g => exact ⟨rfl, rfl⟩

theorem createEdges_follows {scope : Scope} (hmodels : d.Models scope) (prev : Option (List Str)) (curr : List Str)
    (attrs : Attrs) (g : CDigraph) (opened : List Str)
    : Follows (({ g := g, defaultAttrs := d } : Builder).createEdges prev curr attrs)
        (draw (edgeCommands scope attrs prev curr) { g := g, opened := opened }) opened d := by
  have hrow : ∀ (p : Str) (curr : List Str) (g : CDigraph),
      Follows (curr.foldlM (fun b c => b.createEdge p c attrs) ({ g := g, defaultAttrs := d } : Builder))
        (draw (curr.map (fun c =>
            .edge (CDigraph.edgeId attrs) p c (mergeAttributes (scope.get "edge".toList attrs) [])))
          { g := g, opened := opened }) opened d := by
    intro p curr
    induction curr with
    | nil =>
      intro g
      exact ⟨rfl, rfl⟩
    | cons c curr ih =>
      intro g
      rw [List.foldlM_cons, List.map_cons, draw_cons]
      apply Follows.bind
      . rw [← hmodels.get]
        apply follows_of_graph
      . exact ih
  rw [Builder.createEdges, edgeCommands]
  generalize prev.getD [] = prev
  induction prev generalizing g with
  | nil => exact ⟨rfl, rfl⟩
  | cons p prev ih =>
    rw [List.foldlM_cons, List.flatMap_cons, draw_append]
    apply (hrow p curr g).bind
    exact ih

theorem Follows.subgraph {id : Option Str} {commands : List Command} {stmts : Option (List Stmt)} {g : CDigraph}
    (hstmts : ∀ (id : Str) (g : CDigraph), ∃ d' : Defaults, d'.prototypes = d.enterSubDigraph.prototypes
      ∧ Follows (handleOption stmts id { g := g, defaultAttrs := d.enterSubDigraph })
        (draw commands { g := g, opened := id :: opened }) (id :: opened) d')
    : Follows (handleStmt (.subgraph id stmts) opened.head? { g := g, defaultAttrs := d })
        (draw (.enter id :: (commands ++ [.leave])) { g := g, opened := opened }) opened d := by
  rw [handleStmt, draw_cons, Command.run]
  cases g.openSubgraph id opened.head? with
  | error e => exact rfl
  | ok res =>
    obtain ⟨id', g⟩ := res
    obtain ⟨d', hprototypes, hfollows⟩ := hstmts id' g
    change Follows
      (handleOption stmts id' { g := g, defaultAttrs := d.enterSubDigraph } >>= fun b => do
        let g ← b.g.closeSubgraph id'
        return { g := g, defaultAttrs := b.defaultAttrs.exitSubDigraph })
      (draw (commands ++ [.leave]) { g := g, opened := id' :: opened }) opened d
    rw [draw_append]
    apply hfollows.bind
    intro g
    dsimp only
    rw [draw_singleton, exitSubDigraph_of_prototypes hprototypes]
    apply follows_of_graph

mutual

theorem handleStmt_follows (stmt : Stmt) {scope : Scope} (g : CDigraph) (opened : List Str) {d : Defaults}
    (hmodels : d.Models scope)
    : Follows (handleStmt stmt opened.head? { g := g, defaultAttrs := d })
        (draw (stmt.commands scope) { g := g, opened := opened }) opened (stmt.defaultsAfter d) := by
  match stmt with
  | .node id attrs =>
    rw [handleStmt, Stmt.commands, draw_singleton, Builder.createNode, hmodels.get]
    apply follows_of_graph
  | .edge elems attrs =>
    rw [handleStmt, Stmt.commands]
    exact handleElems_follows elems attrs none g opened hmodels
  | .subgraph id stmts =>
    rw [Stmt.commands]
    apply Follows.subgraph
    intro id' g
    exact handleOption_follows stmts id' g opened hmodels.enterSubDigraph
  | .attr attrType attrs => exact ⟨rfl, rfl⟩
  | .inlineAttr attrs =>
    rw [handleStmt, Stmt.commands, draw_singleton]
    apply follows_of_graph

theorem handleElems_follows (elems : List Stmt) {scope : Scope} (attrs : Attrs) (prev : Option (List Str))
    (g : CDigraph) (opened : List Str) {d : Defaults} (hmodels : d.Models scope)
    : Follows (handleElems elems attrs prev opened.head? { g := g, defaultAttrs := d })
        (draw (elemCommands elems attrs prev scope) { g := g, opened := opened }) opened d := by
  match elems with
  | [] => exact ⟨rfl, rfl⟩
  | elem :: tail =>
    rw [handleElems, elemCommands, draw_append]
    apply (handleStmt_follows elem g opened hmodels).bind
    intro g
    cases hincident : elem.incident with
    | error e => exact rfl
    | ok curr =>
      rw [defaultsAfter_of_incident hincident]
      dsimp only
      rw [draw_append]
      apply (createEdges_follows hmodels prev curr attrs g opened).bind
      intro g
      exact handleElems_follows tail attrs (some curr) g opened hmodels

theorem handleOption_follows (stmts : Option (List Stmt)) {scope : Scope} (id : Str) (g : CDigraph)
    (opened : List Str) {d : Defaults} (hmodels : d.Models scope)
    : ∃ d' : Defaults, d'.prototypes = d.prototypes
        ∧ Follows (handleOption stmts id { g := g, defaultAttrs := d })
          (draw (optionCommands stmts scope) { g := g, opened := id :: opened }) (id :: opened) d' := by
  match stmts with
  | none => exact ⟨d, rfl, rfl, rfl⟩
  | some stmts => exact ⟨_, prototypes_foldl stmts d, handleStmts_follows stmts g (id :: opened) hmodels⟩

theorem handleStmts_follows (stmts : List Stmt) {scope : Scope} (g : CDigraph) (opened : List Str) {d : Defaults}
    (hmodels : d.Models scope)
    : Follows (handleStmts stmts opened.head? { g := g, defaultAttrs := d })
        (draw (listCommands stmts scope) { g := g, opened := opened }) opened
        (stmts.foldl (fun d stmt => stmt.defaultsAfter d) d) := by
  match stmts with
  | [] => exact ⟨rfl, rfl⟩
  | stmt :: tail =>
    rw [handleStmts, listCommands, List.foldl_cons, draw_append]
    apply (handleStmt_follows stmt g opened hmodels).bind
    intro g
    exact handleStmts_follows tail g opened (hmodels.scopeAfter stmt)

end

end

theorem follows_commands (tree : GraphStmt)
    : ∃ d, Follows (handleStmts (tree.stmts.getD []) none {}) (draw tree.commands {}) [] d := by
  have hmodels : ({} : Defaults).Models (fun _ => none) := fun _ => rfl
  exact ⟨_, handleStmts_follows (tree.stmts.getD []) {} [] hmodels⟩

section

variable {tree : GraphStmt}

theorem buildGraph_of_isDigraph (hdigraph : tree.type ≠ "graph".toList)
    : buildGraph tree = handleStmts (tree.stmts.getD []) none {} >>= fun b => pure b.g := by
  rw [buildGraph, if_neg hdigraph]

theorem buildGraph_of_draw (hdigraph : tree.type ≠ "graph".toList) {s : Canvas}
    (h : draw tree.commands {} = .ok s)
    : buildGraph tree = .ok s.g := by
  obtain ⟨d, hfollows⟩ := follows_commands tree
  rw [h] at hfollows
  rw [buildGraph_of_isDigraph hdigraph, hfollows.2]
  rfl

theorem buildGraph_of_draw_error (hdigraph : tree.type ≠ "graph".toList) {e : Thrown}
    (h : draw tree.commands {} = .error e)
    : buildGraph tree = .error e := by
  obtain ⟨d, hfollows⟩ := follows_commands tree
  rw [h] at hfollows
  rw [buildGraph_of_isDigraph hdigraph, show handleStmts (tree.stmts.getD []) none {} = .error e from hfollows]
  rfl

end

theorem buildGraph_eq_draw {tree : GraphStmt} (h : tree.IsPlain)
    : buildGraph tree = draw tree.commands {} >>= fun s => pure s.g := by
  cases hdraw : draw tree.commands {} with
  | error e => exact buildGraph_of_draw_error h.isDigraph hdraw
  | ok s => exact buildGraph_of_draw h.isDigraph hdraw

theorem buildGraph_eq_draw_subgraph
    : let shape : Attrs := [("shape".toList, some ['x'])]
      let tree : GraphStmt := {
        type := "digraph".toList
        id := "D".toList
        stmts := some [
          .subgraph (some ['S']) (some [.attr "node".toList shape, .node ['A'] []]),
          .node ['B'] []
        ]
      }
      buildGraph tree
        =
      draw [.enter (some ['S']), .node shape ['A'] [], .leave, .node [] ['B'] []] {} >>= fun s => pure s.g := by
  intro shape tree
  have hplain : tree.IsPlain := by
    refine ⟨by decide, ?_⟩
    simp only [tree, GraphStmt.Forall, Option.getD_some, ForallList, Stmt.Forall, ForallOption]
    decide +kernel
  have hcommands : tree.commands = [.enter (some ['S']), .node shape ['A'] [], .leave, .node [] ['B'] []] := by
    rfl
  rw [buildGraph_eq_draw hplain, hcommands]

end GraphlibDot
