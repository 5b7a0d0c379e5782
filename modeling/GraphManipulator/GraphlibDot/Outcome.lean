import GraphManipulator.GraphlibDot.Drawing

/-!
This module contains what the graph of a digraph shows in the end: the nodes in the order in which they are first
mentioned, each with the attributes of all its mentions, and the edges in the order of the statements.
-/

namespace GraphlibDot

namespace Command

def node? (command : Command) : Option Str :=
  match command with
  | .node _ id _ => some id
  | _ => none

def subgraph? (command : Command) : Option Str :=
  match command with
  | .enter id => id
  | _ => none

def edgeId? (command : Command) : Option Str :=
  match command with
  | .edge id _ _ _ => id
  | _ => none

def edge? (command : Command) : Option Edge :=
  match command with
  | .edge _ u v value => some ⟨u, v, value⟩
  | _ => none

def thrown? (command : Command) : Option Thrown :=
  match command with
  | .throw e => some e
  | _ => none

def valueAfter (command : Command) (u : Str) (value : Option Attrs) : Option Attrs :=
  match command with
  | .node defaults id attrs =>
    if id = u then some (mergeAttributes attrs (value.getD (labelled defaults u))) else value
  | _ => value

def rootAfter (command : Command) (root : Nat × Attrs) : Nat × Attrs :=
  match command with
  | .enter _ => (root.1 + 1, root.2)
  | .leave => (root.1 - 1, root.2)
  | .inline attrs => if root.1 = 0 then (0, mergeAttributes attrs root.2) else root
  | _ => root

end Command

def nodeNames (commands : List Command) : List Str := commands.filterMap Command.node?

def subgraphNames (commands : List Command) : List Str := commands.filterMap Command.subgraph?

def edgeNames (commands : List Command) : List Str := commands.filterMap Command.edgeId?

def nodeValue (commands : List Command) (u : Str) : Option Attrs :=
  commands.foldl (fun value command => command.valueAfter u value) none

def root (commands : List Command) : Nat × Attrs :=
  commands.foldl (fun root command => command.rootAfter root) (0, [])

structure IsFree (id : Str) : Prop where
  not_inherited : id ∉ objectPrototype
  not_generated : ∀ n, id ≠ generatedId n

structure WellNamed (commands : List Command) : Prop where
  nothing_thrown : ∀ command ∈ commands, command.thrown?.isNone
  nodes : ∀ u ∈ nodeNames commands, IsFree u ∧ u ≠ null ∧ u ∉ subgraphNames commands
  subgraphs : ∀ u ∈ subgraphNames commands, IsFree u ∧ u ≠ null
  edges : ∀ e ∈ edgeNames commands, IsFree e
  nodup_subgraphs : (subgraphNames commands).Nodup
  nodup_edges : (edgeNames commands).Nodup

def EndsNamed (names : List Str) (commands : List Command) : Prop :=
  match commands with
  | [] => True
  | command :: tail =>
    (∀ edge ∈ command.edge?, edge.u ∈ names ∧ edge.v ∈ names) ∧ EndsNamed (names ++ command.node?.toList) tail

section

variable {names names' : List Str} {commands commands' : List Command} {command : Command}

theorem endsNamed_append
    : EndsNamed names (commands ++ commands')
        ↔ EndsNamed names commands ∧ EndsNamed (names ++ nodeNames commands) commands' := by
  induction commands generalizing names with
  | nil => simp [EndsNamed, nodeNames]
  | cons command commands ih =>
    have hnames : nodeNames (command :: commands) = command.node?.toList ++ nodeNames commands := by
      rw [nodeNames, List.filterMap_cons]
      cases command.node? with
      | none => rfl
      | some u => rfl
    rw [List.cons_append, EndsNamed, EndsNamed, ih, hnames, List.append_assoc, and_assoc]

theorem endsNamed_cons (hcommand : command.edge? = none) (h : EndsNamed (names ++ command.node?.toList) commands)
    : EndsNamed names (command :: commands) := by
  refine ⟨?_, h⟩
  rw [hcommand]
  intro edge hedge
  cases hedge

theorem endsNamed_of_forall (h : ∀ command ∈ commands, ∀ edge ∈ command.edge?, edge.u ∈ names ∧ edge.v ∈ names)
    : EndsNamed names commands := by
  induction commands generalizing names with
  | nil => trivial
  | cons command commands ih =>
    rw [List.forall_mem_cons] at h
    refine ⟨h.1, ih ?_⟩
    intro command' hcommand' edge hedge
    have hends := h.2 command' hcommand' edge hedge
    exact ⟨List.mem_append_left _ hends.1, List.mem_append_left _ hends.2⟩

theorem nodeNames_append : nodeNames (commands ++ commands') = nodeNames commands ++ nodeNames commands' :=
  List.filterMap_append

theorem visitList_cons {stmt : Stmt} {stmts : List Stmt} (h : visitList (stmt :: stmts) = .ok names)
    : ∃ last first, visitList stmts = .ok last ∧ stmt.visit = .ok first ∧ names = last ++ first := by
  rw [visitList] at h
  obtain ⟨last, hlast, h⟩ := ok_of_bind h
  obtain ⟨first, hfirst, h⟩ := ok_of_bind h
  cases h
  exact ⟨last, first, hlast, hfirst, rfl⟩

theorem elemCommands_cons {elem : Stmt} {tail : List Stmt} {attrs : Attrs} {prev : Option (List Str)}
    {scope : Scope} (hthrow : ∀ e, Command.throw e ∉ elemCommands (elem :: tail) attrs prev scope)
    : ∃ curr, elem.incident = .ok curr
        ∧ elemCommands (elem :: tail) attrs prev scope
            = elem.commands scope
              ++ (edgeCommands scope attrs prev curr ++ elemCommands tail attrs (some curr) scope)
        ∧ (∀ e, Command.throw e ∉ elem.commands scope)
        ∧ ∀ e, Command.throw e ∉ elemCommands tail attrs (some curr) scope := by
  rw [elemCommands] at hthrow ⊢
  cases hincident : elem.incident with
  | error e =>
    rw [hincident] at hthrow
    exact absurd (List.mem_append_right _ (List.mem_singleton_self _)) (hthrow e)
  | ok curr =>
    rw [hincident] at hthrow
    refine ⟨curr, rfl, rfl, ?_, ?_⟩
    . exact fun e he => hthrow e (List.mem_append_left _ he)
    . exact fun e he => hthrow e (List.mem_append_right _ (List.mem_append_right _ he))

end

mutual

theorem subset_of_visit (stmt : Stmt) {scope : Scope} {names : List Str}
    (hthrow : ∀ e, Command.throw e ∉ stmt.commands scope) (hvisit : stmt.visit = .ok names)
    : names ⊆ nodeNames (stmt.commands scope) := by
  match stmt with
  | .node id attrs =>
    rw [Stmt.visit] at hvisit
    cases hvisit
    exact List.Subset.refl _
  | .edge elems attrs =>
    rw [Stmt.visit] at hvisit
    rw [Stmt.commands] at hthrow ⊢
    exact subset_of_visit_elems elems hthrow hvisit
  | .subgraph id stmts =>
    rw [Stmt.visit] at hvisit
    rw [Stmt.commands] at hthrow ⊢
    have hinner : ∀ e, Command.throw e ∉ optionCommands stmts scope :=
      fun e he => hthrow e (List.mem_cons_of_mem _ (List.mem_append_left _ he))
    have hsubset := subset_of_visitOption stmts hinner hvisit
    rw [nodeNames, List.filterMap_cons]
    change names ⊆ nodeNames (optionCommands stmts scope ++ [.leave])
    rw [nodeNames_append]
    exact List.subset_append_of_subset_left _ hsubset
  | .attr attrType attrs =>
    rw [Stmt.visit] at hvisit
    cases hvisit
    exact List.nil_subset _
  | .inlineAttr attrs =>
    rw [Stmt.visit] at hvisit
    cases hvisit
    exact List.nil_subset _

theorem subset_of_visit_elems (elems : List Stmt) {attrs : Attrs} {prev : Option (List Str)} {scope : Scope}
    {names : List Str} (hthrow : ∀ e, Command.throw e ∉ elemCommands elems attrs prev scope)
    (hvisit : visitList elems = .ok names)
    : names ⊆ nodeNames (elemCommands elems attrs prev scope) := by
  match elems with
  | [] =>
    rw [visitList] at hvisit
    cases hvisit
    exact List.nil_subset _
  | elem :: tail =>
    obtain ⟨curr, -, hcommands, hfirst, hlast⟩ := elemCommands_cons hthrow
    obtain ⟨last, first, hvisitLast, hvisitFirst, rfl⟩ := visitList_cons hvisit
    have hsubsetFirst := subset_of_visit elem hfirst hvisitFirst
    have hsubsetLast := subset_of_visit_elems tail hlast hvisitLast
    rw [hcommands, nodeNames_append, nodeNames_append]
    intro u hu
    rcases List.mem_append.mp hu with hu | hu
    . exact List.mem_append_right _ (List.mem_append_right _ (hsubsetLast hu))
    . exact List.mem_append_left _ (hsubsetFirst hu)

theorem subset_of_visitOption (stmts : Option (List Stmt)) {scope : Scope} {names : List Str}
    (hthrow : ∀ e, Command.throw e ∉ optionCommands stmts scope) (hvisit : visitOption stmts = .ok names)
    : names ⊆ nodeNames (optionCommands stmts scope) := by
  match stmts with
  | none =>
    rw [visitOption] at hvisit
    cases hvisit
  | some stmts =>
    rw [visitOption] at hvisit
    rw [optionCommands] at hthrow ⊢
    exact subset_of_visitList stmts hthrow hvisit

theorem subset_of_visitList (stmts : List Stmt) {scope : Scope} {names : List Str}
    (hthrow : ∀ e, Command.throw e ∉ listCommands stmts scope) (hvisit : visitList stmts = .ok names)
    : names ⊆ nodeNames (listCommands stmts scope) := by
  match stmts with
  | [] =>
    rw [visitList] at hvisit
    cases hvisit
    exact List.nil_subset _
  | stmt :: tail =>
    obtain ⟨last, first, hvisitLast, hvisitFirst, rfl⟩ := visitList_cons hvisit
    rw [listCommands] at hthrow ⊢
    have hsubsetFirst := subset_of_visit stmt (fun e he => hthrow e (List.mem_append_left _ he)) hvisitFirst
    have hsubsetLast := subset_of_visitList tail (fun e he => hthrow e (List.mem_append_right _ he)) hvisitLast
    rw [nodeNames_append]
    intro u hu
    rcases List.mem_append.mp hu with hu | hu
    . exact List.mem_append_right _ (hsubsetLast hu)
    . exact List.mem_append_left _ (hsubsetFirst hu)

end

theorem subset_of_incident {elem : Stmt} {scope : Scope} (hthrow : ∀ e, Command.throw e ∉ elem.commands scope)
    {curr : List Str} (h : elem.incident = .ok curr)
    : curr ⊆ nodeNames (elem.commands scope) := by
  cases elem with
  | node id attrs =>
    cases h
    exact List.Subset.refl _
  | subgraph id stmts =>
    obtain ⟨names, hvisit, hkeys⟩ := ok_of_bind (show Stmt.collectNodeIds _ = .ok curr from h)
    cases hkeys
    intro u hu
    exact subset_of_visit _ hthrow hvisit (mem_of_mem_objectKeys hu)
  | _ => cases h

theorem endsNamed_edgeCommands {scope : Scope} {attrs : Attrs} {prev : Option (List Str)} {names curr : List Str}
    (hprev : prev.getD [] ⊆ names) (hcurr : curr ⊆ names)
    : EndsNamed names (edgeCommands scope attrs prev curr) := by
  apply endsNamed_of_forall
  intro command hcommand edge hedge
  obtain ⟨p, hp, hcommand⟩ := List.mem_flatMap.mp hcommand
  obtain ⟨c, hc, rfl⟩ := List.mem_map.mp hcommand
  cases hedge
  exact ⟨hprev hp, hcurr hc⟩

mutual

theorem endsNamed_commands (stmt : Stmt) {scope : Scope} (names : List Str)
    (hthrow : ∀ e, Command.throw e ∉ stmt.commands scope)
    : EndsNamed names (stmt.commands scope) := by
  match stmt with
  | .node id attrs => exact endsNamed_cons rfl trivial
  | .edge elems attrs =>
    rw [Stmt.commands] at hthrow ⊢
    exact endsNamed_elemCommands elems names (List.nil_subset _) hthrow
  | .subgraph id stmts =>
    rw [Stmt.commands] at hthrow ⊢
    have hinner : ∀ e, Command.throw e ∉ optionCommands stmts scope :=
      fun e he => hthrow e (List.mem_cons_of_mem _ (List.mem_append_left _ he))
    apply endsNamed_cons rfl
    rw [endsNamed_append]
    exact ⟨endsNamed_optionCommands stmts _ hinner, endsNamed_cons rfl trivial⟩
  | .attr attrType attrs => exact trivial
  | .inlineAttr attrs => exact endsNamed_cons rfl trivial

theorem endsNamed_elemCommands (elems : List Stmt) {attrs : Attrs} {prev : Option (List Str)} {scope : Scope}
    (names : List Str) (hprev : prev.getD [] ⊆ names)
    (hthrow : ∀ e, Command.throw e ∉ elemCommands elems attrs prev scope)
    : EndsNamed names (elemCommands elems attrs prev scope) := by
  match elems with
  | [] => exact trivial
  | elem :: tail =>
    obtain ⟨curr, hincident, hcommands, hfirst, hlast⟩ := elemCommands_cons hthrow
    have hcurr := subset_of_incident hfirst hincident
    rw [hcommands, endsNamed_append, endsNamed_append]
    refine ⟨endsNamed_commands elem names hfirst, ?_, ?_⟩
    . exact endsNamed_edgeCommands (List.subset_append_of_subset_left _ hprev)
        (List.subset_append_of_subset_right _ hcurr)
    . apply endsNamed_elemCommands tail _ _ hlast
      exact List.subset_append_of_subset_left _ (List.subset_append_of_subset_right _ hcurr)

theorem endsNamed_optionCommands (stmts : Option (List Stmt)) {scope : Scope} (names : List Str)
    (hthrow : ∀ e, Command.throw e ∉ optionCommands stmts scope)
    : EndsNamed names (optionCommands stmts scope) := by
  match stmts with
  | none => exact trivial
  | some stmts =>
    rw [optionCommands] at hthrow ⊢
    exact endsNamed_listCommands stmts names hthrow

theorem endsNamed_listCommands (stmts : List Stmt) {scope : Scope} (names : List Str)
    (hthrow : ∀ e, Command.throw e ∉ listCommands stmts scope)
    : EndsNamed names (listCommands stmts scope) := by
  match stmts with
  | [] => exact trivial
  | stmt :: tail =>
    rw [listCommands] at hthrow ⊢
    rw [endsNamed_append]
    constructor
    . exact endsNamed_commands stmt names (fun e he => hthrow e (List.mem_append_left _ he))
    . exact endsNamed_listCommands tail _ (fun e he => hthrow e (List.mem_append_right _ he))

end

/--
What is there after the commands `pre`, where the nodes are called by one of the `names`
-/
structure Shows (names : List Str) (pre : List Command) (s : Canvas) : Prop where
  consistent : s.Consistent
  opened : ∀ u ∈ s.opened, u ∉ names
  depth : s.opened.length = (root pre).1
  value : s.g.value = (root pre).2
  nodes : ∀ u ∈ names, s.g.nodes.get? u = nodeValue pre u
  order : s.g.nodes.keys.filter (fun u => u ∈ names) = (KeySet.ofList (nodeNames pre)).keys
  unnamed : ∀ u ∈ s.g.nodes, u ∉ names
    → u ∈ subgraphNames pre ∨ Command.enter none ∈ pre ∧ ∃ n, u = generatedId n
  edges : s.g.edges.entries.map Prod.snd = pre.filterMap Command.edge?
  edgeIds : ∀ e ∈ s.g.edges, e ∈ edgeNames pre ∨ ∃ n, e = generatedId n

section

variable {names : List Str} {commands pre : List Command} {command : Command} {s s' : Canvas}

theorem nodeValue_concat (pre : List Command) (command : Command) (u : Str)
    : nodeValue (pre ++ [command]) u = command.valueAfter u (nodeValue pre u) := by
  rw [nodeValue, List.foldl_append]
  rfl

theorem root_concat (pre : List Command) (command : Command)
    : root (pre ++ [command]) = command.rootAfter (root pre) := by
  rw [root, List.foldl_append]
  rfl

theorem filterMap_concat {β : Type} (f : Command → Option β) (pre : List Command) (command : Command)
    : (pre ++ [command]).filterMap f = pre.filterMap f ++ (f command).toList := by
  rw [List.filterMap_append, List.filterMap_cons]
  cases f command with
  | none => rfl
  | some b => rfl

theorem filterMap_concat_none {β : Type} {f : Command → Option β} (hnone : f command = none) (pre : List Command)
    : (pre ++ [command]).filterMap f = pre.filterMap f := by
  rw [filterMap_concat, hnone]
  exact List.append_nil _

theorem unnamed_concat {u : Str} {generated : Prop}
    (h : u ∈ subgraphNames pre ∨ Command.enter none ∈ pre ∧ generated)
    : u ∈ subgraphNames (pre ++ [command]) ∨ Command.enter none ∈ pre ++ [command] ∧ generated := by
  rw [subgraphNames, filterMap_concat]
  exact h.imp (List.mem_append_left _) (And.imp_left (List.mem_append_left _))

theorem nodeNames_concat (pre : List Command) (command : Command)
    : nodeNames (pre ++ [command]) = nodeNames pre ++ command.node?.toList :=
  filterMap_concat Command.node? pre command

theorem exists_nodeValue {u : Str} (h : u ∈ nodeNames pre) : ∃ value, nodeValue pre u = some value := by
  induction pre using List.reverseRecOn with
  | nil => cases h
  | append_singleton pre command ih =>
    rw [nodeNames_concat, List.mem_append] at h
    rw [nodeValue_concat]
    cases command with
    | node defaults id attrs =>
      by_cases hid : id = u
      . exact ⟨_, if_pos hid⟩
      . have hmem : u ∈ nodeNames pre := h.resolve_right (fun hu => hid (List.mem_singleton.mp hu).symm)
        obtain ⟨value, hvalue⟩ := ih hmem
        refine ⟨value, ?_⟩
        rw [Command.valueAfter, if_neg hid, hvalue]
    | _ => exact ih (h.resolve_right List.not_mem_nil)

theorem nodeValue_eq_none {u : Str} (h : u ∉ nodeNames pre) : nodeValue pre u = none := by
  induction pre using List.reverseRecOn with
  | nil => rfl
  | append_singleton pre command ih =>
    rw [nodeNames_concat, List.mem_append, not_or] at h
    rw [nodeValue_concat, ih h.1]
    cases command with
    | node defaults id attrs =>
      rw [Command.valueAfter, if_neg]
      rintro rfl
      exact h.2 (List.mem_singleton_self id)
    | _ => rfl

theorem keys_ofList_concat (keys : List Str) (k : Str)
    : (KeySet.ofList (keys ++ [k])).keys
        = if k ∈ keys then (KeySet.ofList keys).keys else (KeySet.ofList keys).keys ++ [k] := by
  have hconcat : KeySet.ofList (keys ++ [k]) = (KeySet.ofList keys).set k () := List.foldl_append
  rw [hconcat]
  split
  . next hmem => exact InsertionMap.keys_set_of_mem (mem_keySet_ofList.mpr hmem)
  . next hnot => exact InsertionMap.keys_set_of_not_mem (fun hmem => hnot (mem_keySet_ofList.mp hmem))

theorem mem_of_prefix {α : Type} {pre l : List α} {x : α} (h : pre ++ [x] <+: l) : x ∈ l :=
  h.subset (List.mem_append_right _ (List.mem_singleton_self x))

theorem Shows.mem_nodes (h : Shows names pre s) {u : Str} (hu : u ∈ nodeNames pre) (hmem : u ∈ names)
    : u ∈ s.g.nodes := by
  obtain ⟨value, hvalue⟩ := exists_nodeValue hu
  rw [InsertionMap.mem_iff]
  exact ⟨value, (h.nodes u hmem).trans hvalue⟩

theorem Shows.mem_nodeNames_iff (h : Shows names pre s) {u : Str} (hmem : u ∈ names)
    : u ∈ s.g.nodes ↔ u ∈ nodeNames pre := by
  rw [← mem_keySet_ofList, ← h.order, List.mem_filter, InsertionMap.mem_def]
  simp [hmem]

theorem Shows.node (h : Shows names pre s) {defaults attrs : Attrs} {id : Str} (hid : id ∈ names)
    (hnull : id ≠ null) (hinherited : id ∉ objectPrototype)
    : ∃ s', (Command.node defaults id attrs).run s = .ok s'
        ∧ Shows names (pre ++ [.node defaults id attrs]) s' := by
  obtain ⟨g, hcreate, hg, hvalue, hnodes, hedges, -⟩ :=
    CDigraph.createNode_ok h.consistent.graph hnull hinherited h.consistent.around defaults attrs
  have hrun : (Command.node defaults id attrs).run s = .ok { s with g := g } := by
    rw [Command.run, hcreate]
    rfl
  refine ⟨{ s with g := g }, hrun, ?_⟩
  constructor
  . apply Command.run_consistent h.consistent _ hrun
    exact fun hmem => hnull (List.mem_singleton.mp hmem).symm
  . exact h.opened
  . rw [root_concat]
    exact h.depth
  . rw [root_concat]
    exact hvalue.trans h.value
  . intro u hu
    rw [hnodes, InsertionMap.get?_set, nodeValue_concat, Command.valueAfter, h.nodes u hu, h.nodes id hid]
    by_cases hsame : u = id
    . rw [if_pos hsame, if_pos hsame.symm, hsame]
    . rw [if_neg hsame, if_neg (Ne.symm hsame)]
  . change g.nodes.keys.filter _ = _
    rw [hnodes, nodeNames_concat]
    change _ = (KeySet.ofList (nodeNames pre ++ [id])).keys
    have hiff := h.mem_nodeNames_iff hid
    by_cases hmem : id ∈ s.g.nodes
    . rw [keys_ofList_concat, if_pos (hiff.mp hmem), InsertionMap.keys_set_of_mem hmem, h.order]
    . rw [keys_ofList_concat, if_neg (mt hiff.mpr hmem), InsertionMap.keys_set_of_not_mem hmem, List.filter_append,
        h.order]
      simp [hid]
  . intro u hu hunnamed
    rw [hnodes, InsertionMap.mem_set] at hu
    have hmem := hu.resolve_left (fun heq => hunnamed (heq ▸ hid))
    exact unnamed_concat (h.unnamed u hmem hunnamed)
  . rw [filterMap_concat_none rfl, hedges]
    exact h.edges
  . rw [edgeNames, filterMap_concat_none rfl, hedges]
    exact h.edgeIds

theorem Shows.edge (h : Shows names pre s) {id : Option Str} {u v : Str} {value : Attrs}
    (hu : u ∈ nodeNames pre) (hv : v ∈ nodeNames pre) (hnames : nodeNames pre ⊆ names)
    (hnew : ∀ e ∈ id, IsFree e ∧ e ∉ edgeNames pre)
    : ∃ s', (Command.edge id u v value).run s = .ok s' ∧ Shows names (pre ++ [.edge id u v value]) s' := by
  have hfresh : ∀ e ∈ id, s.g.hasEdge e = false := by
    intro e he
    obtain ⟨hfree, hnot⟩ := hnew e he
    rw [← Bool.not_eq_true, CDigraph.hasEdge_iff, not_or]
    refine ⟨?_, hfree.not_inherited⟩
    intro hmem
    rcases h.edgeIds e hmem with hmem | ⟨n, heq⟩
    . exact hnot hmem
    . exact hfree.not_generated n heq
  obtain ⟨g, n, hadd, hg, hunused, hvalue, hedges, hnodes, -⟩ :=
    CDigraph.addEdge_ok h.consistent.graph (h.mem_nodes hu (hnames hu)) (h.mem_nodes hv (hnames hv)) hfresh value
  have hrun : (Command.edge id u v value).run s = .ok { s with g := g } := by
    rw [Command.run, hadd]
    rfl
  refine ⟨{ s with g := g }, hrun, ?_⟩
  constructor
  . exact Command.run_consistent h.consistent List.not_mem_nil hrun
  . exact h.opened
  . rw [root_concat]
    exact h.depth
  . rw [root_concat]
    exact hvalue.trans h.value
  . intro u hu
    rw [nodeValue_concat, hnodes]
    exact h.nodes u hu
  . rw [nodeNames, filterMap_concat_none rfl, hnodes]
    exact h.order
  . intro u hu hunnamed
    rw [hnodes] at hu
    exact unnamed_concat (h.unnamed u hu hunnamed)
  . rw [hedges, InsertionMap.entries_set_of_not_mem hunused, List.map_append, h.edges, List.filterMap_append]
    rfl
  . intro e he
    rw [hedges, InsertionMap.mem_set] at he
    rw [edgeNames, List.filterMap_append, List.mem_append, or_assoc]
    rcases he with rfl | he
    . cases id with
      | none => exact Or.inr (Or.inr ⟨n, rfl⟩)
      | some e => exact Or.inr (Or.inl (List.mem_singleton_self e))
    . rcases h.edgeIds e he with hmem | hgenerated
      . exact Or.inl hmem
      . exact Or.inr (Or.inr hgenerated)

theorem Shows.enter (h : Shows names pre s) {id : Option Str}
    (hnew : ∀ u ∈ id, IsFree u ∧ u ≠ null ∧ u ∉ subgraphNames pre ∧ u ∉ names)
    (hgenerated : ∀ n, generatedId n ∉ names)
    : ∃ s', (Command.enter id).run s = .ok s' ∧ Shows names (pre ++ [.enter id]) s' := by
  have hfresh : ∀ u ∈ id, u ∉ s.g.nodes ∧ u ≠ null ∧ u ∉ objectPrototype := by
    intro u hu
    obtain ⟨hfree, hnull, hnot, hunnamed⟩ := hnew u hu
    refine ⟨?_, hnull, hfree.not_inherited⟩
    intro hmem
    rcases h.unnamed u hmem hunnamed with hmem | ⟨-, n, heq⟩
    . exact hnot hmem
    . exact hfree.not_generated n heq
  obtain ⟨g, n, hopen, hg, hunused, hvalue, hnodes, hedges, -⟩ :=
    CDigraph.openSubgraph_ok h.consistent.graph hfresh h.consistent.around
  have hrun : (Command.enter id).run s = .ok { g := g, opened := id.getD (generatedId n) :: s.opened } := by
    rw [Command.run, hopen]
    rfl
  have hunnamed : id.getD (generatedId n) ∉ names := by
    cases id with
    | none => exact hgenerated n
    | some u => exact (hnew u rfl).2.2.2
  refine ⟨_, hrun, ?_⟩
  constructor
  . apply Command.run_consistent h.consistent _ hrun
    intro hmem
    exact (hfresh null (Option.mem_toList.mp hmem)).2.1 rfl
  . exact List.forall_mem_cons.mpr ⟨hunnamed, h.opened⟩
  . rw [root_concat]
    exact congrArg Nat.succ h.depth
  . rw [root_concat]
    exact hvalue.trans h.value
  . intro u hu
    rw [nodeValue_concat, hnodes, InsertionMap.get?_set, if_neg]
    . exact h.nodes u hu
    . rintro rfl
      exact hunnamed hu
  . rw [nodeNames, filterMap_concat_none rfl, hnodes, InsertionMap.keys_set_of_not_mem hunused, List.filter_append,
      ← nodeNames]
    simpa [hunnamed] using h.order
  . intro u hu hnot
    rw [hnodes, InsertionMap.mem_set] at hu
    rw [subgraphNames, List.filterMap_append, List.mem_append, List.mem_append, or_assoc]
    rcases hu with rfl | hu
    . cases id with
      | none => exact Or.inr (Or.inr ⟨Or.inr (List.mem_singleton_self _), n, rfl⟩)
      | some u => exact Or.inr (Or.inl (List.mem_singleton_self u))
    . rcases h.unnamed u hu hnot with hmem | ⟨henter, heq⟩
      . exact Or.inl hmem
      . exact Or.inr (Or.inr ⟨Or.inl henter, heq⟩)
  . rw [filterMap_concat_none rfl, hedges]
    exact h.edges
  . rw [edgeNames, filterMap_concat_none rfl, hedges]
    exact h.edgeIds

/--
When a subgraph is removed, no edge goes with it.
-/
theorem Shows.closeSubgraph (h : Shows names pre s) {id : Str} (hid : id ∈ s.opened)
    (hends : ∀ edge ∈ pre.filterMap Command.edge?, edge.u ∈ names ∧ edge.v ∈ names)
    : ∃ g, s.g.closeSubgraph id = .ok g ∧ g.value = s.g.value ∧ g.edges = s.g.edges
        ∧ (∀ u ∈ g.nodes, u ∈ s.g.nodes) ∧ (∀ u ∈ names, g.nodes.get? u = s.g.nodes.get? u)
        ∧ g.nodes.keys.filter (fun u => u ∈ names) = s.g.nodes.keys.filter (fun u => u ∈ names) := by
  have hunnamed := h.opened id hid
  obtain ⟨g, hclose, -, rfl | ⟨-, hvalue, hnodes, hentries⟩⟩ :=
    CDigraph.closeSubgraph_ok h.consistent.graph (h.consistent.opened id hid)
  . exact ⟨_, hclose, rfl, rfl, fun u hu => hu, fun u _ => rfl, rfl⟩
  . refine ⟨g, hclose, hvalue, ?_, ?_, ?_, ?_⟩
    . apply InsertionMap.ext
      rw [hentries, List.filter_eq_self]
      intro entry hentry
      have hedge : entry.2 ∈ pre.filterMap Command.edge? := h.edges ▸ List.mem_map_of_mem hentry
      obtain ⟨hu, hv⟩ := hends entry.2 hedge
      rw [decide_eq_true_iff]
      constructor
      . exact fun heq => hunnamed (heq ▸ hu)
      . exact fun heq => hunnamed (heq ▸ hv)
    . intro u hu
      rw [hnodes, InsertionMap.mem_delete] at hu
      exact hu.2
    . intro u hu
      rw [hnodes, InsertionMap.get?_delete, if_neg]
      rintro rfl
      exact hunnamed hu
    . rw [hnodes, InsertionMap.keys_delete, List.filter_filter]
      apply List.filter_congr
      intro u _
      by_cases hu : u ∈ names
      . have hne : u ≠ id := by
          rintro rfl
          exact hunnamed hu
        simp [hu, hne]
      . simp [hu]

theorem Shows.leave (h : Shows names pre s)
    (hends : ∀ edge ∈ pre.filterMap Command.edge?, edge.u ∈ names ∧ edge.v ∈ names)
    : ∃ s', Command.leave.run s = .ok s' ∧ Shows names (pre ++ [.leave]) s' := by
  have hsame : ∀ s' : Canvas, Command.leave.run s = .ok s' → s'.opened = s.opened.tail → s'.g.value = s.g.value
      → s'.g.edges = s.g.edges → (∀ u ∈ s'.g.nodes, u ∈ s.g.nodes)
      → (∀ u ∈ names, s'.g.nodes.get? u = s.g.nodes.get? u)
      → s'.g.nodes.keys.filter (fun u => u ∈ names) = s.g.nodes.keys.filter (fun u => u ∈ names)
      → Shows names (pre ++ [.leave]) s' := by
    intro s' hrun hopened hvalue hedges hmem hnodes horder
    constructor
    . exact Command.run_consistent h.consistent List.not_mem_nil hrun
    . intro u hu
      rw [hopened] at hu
      exact h.opened u (List.mem_of_mem_tail hu)
    . rw [root_concat, hopened, List.length_tail, h.depth]
      rfl
    . rw [root_concat]
      exact hvalue.trans h.value
    . intro u hu
      rw [nodeValue_concat]
      exact (hnodes u hu).trans (h.nodes u hu)
    . rw [nodeNames, filterMap_concat_none rfl]
      exact horder.trans h.order
    . intro u hu hnot
      exact unnamed_concat (h.unnamed u (hmem u hu) hnot)
    . rw [filterMap_concat_none rfl, hedges]
      exact h.edges
    . rw [edgeNames, filterMap_concat_none rfl, hedges]
      exact h.edgeIds
  cases hopened : s.opened with
  | nil =>
    have hrun : Command.leave.run s = .ok s := by rw [Command.run, hopened]
    exact ⟨s, hrun, hsame s hrun (by rw [hopened]; rfl) rfl rfl (fun u hu => hu) (fun u _ => rfl) rfl⟩
  | cons id opened =>
    obtain ⟨g, hclose, hvalue, hedges, hmem, hnodes, horder⟩ :=
      h.closeSubgraph (hopened ▸ List.mem_cons_self : id ∈ s.opened) hends
    have hrun : Command.leave.run s = .ok { g := g, opened := opened } := by
      rw [Command.run, hopened]
      dsimp only
      rw [hclose]
      rfl
    exact ⟨_, hrun, hsame _ hrun (by rw [hopened]; rfl) hvalue hedges hmem hnodes horder⟩

theorem Shows.inline (h : Shows names pre s) (attrs : Attrs)
    : ∃ s', (Command.inline attrs).run s = .ok s' ∧ Shows names (pre ++ [.inline attrs]) s' := by
  obtain ⟨g, hmerge, hg, hedges, hvalue, hkeys, hnodes⟩ :=
    CDigraph.mergeInline_ok h.consistent.graph h.consistent.around attrs
  have hrun : (Command.inline attrs).run s = .ok { s with g := g } := by
    rw [Command.run, hmerge]
    rfl
  refine ⟨{ s with g := g }, hrun, ?_⟩
  constructor
  . exact Command.run_consistent h.consistent List.not_mem_nil hrun
  . exact h.opened
  . rw [root_concat, Command.rootAfter]
    split
    . next hdepth => exact h.depth.trans hdepth
    . exact h.depth
  . change g.value = _
    rw [root_concat, Command.rootAfter, hvalue, h.value, ← h.depth]
    cases s.opened with
    | nil => rfl
    | cons id opened => rfl
  . intro u hu
    rw [nodeValue_concat]
    refine (hnodes u ?_).trans (h.nodes u hu)
    intro hopened
    exact h.opened u (List.mem_of_mem_head? hopened) hu
  . rw [nodeNames, filterMap_concat_none rfl, hkeys]
    exact h.order
  . intro u hu hnot
    rw [CDigraph.mem_nodes_congr hkeys] at hu
    exact unnamed_concat (h.unnamed u hu hnot)
  . rw [filterMap_concat_none rfl, hedges]
    exact h.edges
  . rw [edgeNames, filterMap_concat_none rfl, hedges]
    exact h.edgeIds

theorem WellNamed.throw_not_mem (h : WellNamed commands) (e : Thrown) : Command.throw e ∉ commands := by
  intro hmem
  have hnone := h.nothing_thrown _ hmem
  cases hnone

theorem EndsNamed.mem_of_mem_edges (h : EndsNamed names commands) {edge : Edge}
    (hedge : edge ∈ commands.filterMap Command.edge?)
    : edge.u ∈ names ++ nodeNames commands ∧ edge.v ∈ names ++ nodeNames commands := by
  induction commands using List.reverseRecOn with
  | nil => cases hedge
  | append_singleton commands command ih =>
    rw [endsNamed_append] at h
    rw [filterMap_concat, List.mem_append] at hedge
    rw [nodeNames_append, ← List.append_assoc]
    rcases hedge with hedge | hedge
    . have hends := ih h.1 hedge
      exact ⟨List.mem_append_left _ hends.1, List.mem_append_left _ hends.2⟩
    . have hends := h.2.1 edge (Option.mem_toList.mp hedge)
      exact ⟨List.mem_append_left _ hends.1, List.mem_append_left _ hends.2⟩

theorem not_mem_of_nodup_prefix {f : Command → Option Str} (hnodup : (commands.filterMap f).Nodup)
    (hbegins : pre ++ [command] <+: commands) {id : Str} (hid : f command = some id)
    : id ∉ pre.filterMap f := by
  have hsub := ((hbegins.filterMap f).sublist).nodup hnodup
  rw [filterMap_concat, hid] at hsub
  intro hmem
  exact List.disjoint_of_nodup_append hsub hmem (List.mem_singleton_self id)

theorem Shows.run (hnamed : WellNamed commands) (hends : EndsNamed [] commands)
    (hbegins : pre ++ [command] <+: commands) (h : Shows (nodeNames commands) pre s)
    : ∃ s', command.run s = .ok s' ∧ Shows (nodeNames commands) (pre ++ [command]) s' := by
  have hmem := mem_of_prefix hbegins
  have hnames : nodeNames pre ⊆ nodeNames commands :=
    (((List.prefix_append pre [command]).trans hbegins).filterMap Command.node?).subset
  have hendsPre : EndsNamed [] pre ∧ EndsNamed (nodeNames pre) [command] := by
    obtain ⟨post, hpost⟩ := hbegins
    rw [← hpost, endsNamed_append, endsNamed_append] at hends
    exact hends.1
  cases command with
  | node defaults id attrs =>
    have hid : id ∈ nodeNames commands := List.mem_filterMap.mpr ⟨_, hmem, rfl⟩
    obtain ⟨hfree, hnull, -⟩ := hnamed.nodes id hid
    exact h.node hid hnull hfree.not_inherited
  | edge id u v value =>
    obtain ⟨hu, hv⟩ := hendsPre.2.1 ⟨u, v, value⟩ rfl
    refine h.edge hu hv hnames ?_
    rintro e rfl
    have he : e ∈ edgeNames commands := List.mem_filterMap.mpr ⟨_, hmem, rfl⟩
    exact ⟨hnamed.edges e he, not_mem_of_nodup_prefix hnamed.nodup_edges hbegins rfl⟩
  | enter id =>
    refine h.enter ?_ ?_
    . rintro u rfl
      have hu : u ∈ subgraphNames commands := List.mem_filterMap.mpr ⟨_, hmem, rfl⟩
      obtain ⟨hfree, hnull⟩ := hnamed.subgraphs u hu
      refine ⟨hfree, hnull, not_mem_of_nodup_prefix hnamed.nodup_subgraphs hbegins rfl, ?_⟩
      intro hnode
      exact (hnamed.nodes u hnode).2.2 hu
    . intro n hn
      exact (hnamed.nodes _ hn).1.not_generated n rfl
  | leave =>
    apply h.leave
    intro edge hedge
    have hendsEdge := hendsPre.1.mem_of_mem_edges hedge
    exact ⟨hnames hendsEdge.1, hnames hendsEdge.2⟩
  | inline attrs => exact h.inline attrs
  | throw e => exact absurd hmem (hnamed.throw_not_mem e)

theorem shows_nil (names : List Str) : Shows names [] {} := by
  constructor
  . exact Canvas.consistent_empty
  . exact fun _ hu => absurd hu List.not_mem_nil
  . rfl
  . rfl
  . exact fun _ _ => rfl
  . rfl
  . exact fun u hu => absurd hu (InsertionMap.not_mem_empty u)
  . rfl
  . exact fun e he => absurd he (InsertionMap.not_mem_empty e)

theorem draw_shows (hnamed : WellNamed commands) (hends : EndsNamed [] commands)
    : ∃ s, draw commands {} = .ok s ∧ Shows (nodeNames commands) commands s := by
  apply Loop.foldlM_prefix_ok (Shows (nodeNames commands)) (shows_nil _)
  intro pre command s hbegins h
  exact h.run hnamed hends hbegins

end

theorem isFree_of_head? {id : Str} (h : id.head? ≠ some '_') (hinherited : id ∉ objectPrototype) : IsFree id := by
  refine ⟨hinherited, ?_⟩
  rintro n rfl
  exact h rfl

/--
The graph of a digraph whose names do not get into each other's way, and whose edges lead to nodes and to subgraphs
that have statements
-/
theorem buildGraph_of_wellNamed {tree : GraphStmt} (hdigraph : tree.type ≠ "graph".toList)
    (hnamed : WellNamed tree.commands)
    : ∃ g, buildGraph tree = .ok g ∧ g.Consistent
        ∧ g.value = (root tree.commands).2
        ∧ g.edges.entries.map Prod.snd = tree.commands.filterMap Command.edge?
        ∧ g.nodes.keys.filter (fun u => u ∈ nodeNames tree.commands) = (KeySet.ofList (nodeNames tree.commands)).keys
        ∧ (∀ u ∈ nodeNames tree.commands, g.nodes.get? u = nodeValue tree.commands u)
        ∧ ∀ u ∈ g.nodes, u ∉ nodeNames tree.commands
          → u ∈ subgraphNames tree.commands ∨ Command.enter none ∈ tree.commands ∧ ∃ n, u = generatedId n := by
  have hends : EndsNamed [] tree.commands := endsNamed_listCommands _ [] hnamed.throw_not_mem
  obtain ⟨s, hdraw, hshows⟩ := draw_shows hnamed hends
  exact ⟨s.g, buildGraph_of_draw hdigraph hdraw, hshows.consistent.graph, hshows.value, hshows.edges, hshows.order,
    hshows.nodes, hshows.unnamed⟩

theorem buildGraph_of_wellNamed_mentioned
    : let shape : Str → Attrs := fun value => [("shape".toList, some value)]
      let tree : GraphStmt := {
        type := "digraph".toList
        id := "D".toList
        stmts := some [
          .attr "node".toList (shape ['o']),
          .subgraph (some ['S']) (some [
            .attr "node".toList (shape ['x']),
            .edge [.node ['A'] [], .node ['B'] []] []
          ]),
          .edge [.node ['B'] (shape ['y']), .node ['C'] []] [("id".toList, some ['E'])]
        ]
      }
      ∃ g, buildGraph tree = .ok g ∧ g.Consistent
        ∧ g.edges.entries.map Prod.snd = [⟨['A'], ['B'], []⟩, ⟨['B'], ['C'], [("id".toList, some ['E'])]⟩]
        ∧ g.nodes.get? ['A'] = some (shape ['x'] ++ [("label".toList, some ['A'])])
        ∧ g.nodes.get? ['B'] = some (shape ['y'] ++ [("label".toList, some ['B'])])
        ∧ g.nodes.get? ['C'] = some (shape ['o'] ++ [("label".toList, some ['C'])]) := by
  intro shape tree
  have hnames : nodeNames tree.commands = [['A'], ['B'], ['B'], ['C']] := by decide +kernel
  have hsubgraphs : subgraphNames tree.commands = [['S']] := by decide +kernel
  have hedges : edgeNames tree.commands = [['E']] := by decide +kernel
  have hfree : ∀ id ∈ [['A'], ['B'], ['C'], ['S'], ['E']], IsFree id := by
    have hnot : ∀ id ∈ [['A'], ['B'], ['C'], ['S'], ['E']], id.head? ≠ some '_' ∧ id ∉ objectPrototype := by
      decide +kernel
    exact fun id hid => isFree_of_head? (hnot id hid).1 (hnot id hid).2
  have hnamed : WellNamed tree.commands := by
    constructor
    . decide +kernel
    . rw [hnames, hsubgraphs]
      simp [hfree, null]
    . rw [hsubgraphs]
      simp [hfree, null]
    . rw [hedges]
      simp [hfree]
    . rw [hsubgraphs]
      exact List.nodup_singleton _
    . rw [hedges]
      exact List.nodup_singleton _
  obtain ⟨g, hbuild, hconsistent, -, hshown, -, hnodes, -⟩ := buildGraph_of_wellNamed (by decide) hnamed
  rw [hnames] at hnodes
  refine ⟨g, hbuild, hconsistent, hshown.trans (by decide +kernel), ?_, ?_, ?_⟩
  . exact (hnodes ['A'] (by simp)).trans (by decide +kernel)
  . exact (hnodes ['B'] (by simp)).trans (by decide +kernel)
  . exact (hnodes ['C'] (by simp)).trans (by decide +kernel)

end GraphlibDot
