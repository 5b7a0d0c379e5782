import GraphManipulator.GraphlibDot.GraphLemmas
import GraphManipulator.GraphlibDot.Scoping
import GraphManipulator.Lib.Loop

/-!
This module contains what each command makes of a graph, and what every graph that is built keeps.
-/

namespace GraphlibDot

theorem getElem?_generatedId (n : Nat) : ((generatedId n)[1]?).any Char.isDigit = true := by
  cases hdigits : Nat.toDigits 10 n with
  | nil => exact absurd hdigits Nat.toDigits_ne_nil
  | cons c digits =>
    have hdigit : c.isDigit = true := by
      apply isDigit_of_mem_toDigits
      rw [hdigits]
      exact List.mem_cons_self
    rw [generatedId, hdigits]
    exact hdigit

theorem generatedId_not_inherited (n : Nat) : generatedId n ∉ objectPrototype := by
  have hsecond : ∀ name ∈ objectPrototype, (name[1]?).any Char.isDigit = false := by decide
  intro hmem
  have hdigit := hsecond _ hmem
  rw [getElem?_generatedId] at hdigit
  cases hdigit

theorem generatedId_ne_null (n : Nat) : generatedId n ≠ null := by
  intro h
  have hdigit := getElem?_generatedId n
  rw [h] at hdigit
  exact absurd hdigit (by decide)

namespace CDigraph

section

variable {g : CDigraph} {id : Str} {sg : Option Str}

theorem hasNode_iff : g.hasNode id = true ↔ id ∈ g.nodes ∨ id ∈ objectPrototype := by
  rw [hasNode, Bool.or_eq_true, decide_eq_true_iff, decide_eq_true_iff]

theorem hasEdge_iff : g.hasEdge id = true ↔ id ∈ g.edges ∨ id ∈ objectPrototype := by
  rw [hasEdge, Bool.or_eq_true, decide_eq_true_iff, decide_eq_true_iff]

theorem putInto_ok (h : g.Consistent) (hroot : g.parents.get? id = some none)
    (hprecedes : ∀ p ∈ sg, [p, id].Sublist g.nodes.keys)
    : ∃ g', g.putInto id sg = .ok g' ∧ g'.Consistent ∧ g'.value = g.value ∧ g'.nodes = g.nodes ∧ g'.edges = g.edges
        ∧ ∀ u, g'.parents.get? u = if u = id then some sg else g.parents.get? u := by
  cases sg with
  | none =>
    refine ⟨g, rfl, h, rfl, rfl, rfl, ?_⟩
    intro u
    split
    . next hu => rw [hu, hroot]
    . rfl
  | some p =>
    obtain ⟨g', hset, hconsistent, hvalue, hnodes, hedges, hparents⟩ := setParent_ok h hroot (hprecedes p rfl)
    refine ⟨g', hset, hconsistent, hvalue, hnodes, hedges, ?_⟩
    intro u
    rw [hparents, InsertionMap.get?_set]

theorem insertInto_ok (h : g.Consistent) (hnew : id ∉ g.nodes) (hnull : id ≠ null)
    (hinherited : id ∉ objectPrototype) (hsg : ∀ p ∈ sg, p ∈ g.nodes) (value : Attrs)
    : ∃ g₁ g₂, g.insertNode id value = .ok g₁ ∧ g₁.putInto id sg = .ok g₂
        ∧ g₂.Consistent ∧ g₂.value = g.value ∧ g₂.nodes = g.nodes.set id value ∧ g₂.edges = g.edges
        ∧ ∀ u, g₂.parents.get? u = if u = id then some sg else g.parents.get? u := by
  obtain ⟨g₁, hinsert, hconsistent, hvalue, hnodes, hedges, hparents⟩ :=
    insertNode_ok h hnew hnull hinherited value
  have hroot : g₁.parents.get? id = some none := by rw [hparents, InsertionMap.get?_set, if_pos rfl]
  have hprecedes : ∀ p ∈ sg, [p, id].Sublist g₁.nodes.keys := by
    intro p hp
    rw [hnodes, InsertionMap.keys_set_of_not_mem hnew]
    exact (List.singleton_sublist.mpr (hsg p hp)).append_right [id]
  obtain ⟨g₂, hput, hconsistent', hvalue', hnodes', hedges', hparents'⟩ :=
    putInto_ok hconsistent hroot hprecedes
  refine ⟨g₁, g₂, hinsert, hput, hconsistent', hvalue'.trans hvalue, hnodes'.trans hnodes,
    hedges'.trans hedges, ?_⟩
  intro u
  rw [hparents', hparents, InsertionMap.get?_set]
  split
  . rfl
  . rfl

theorem createNode_ok (h : g.Consistent) (hnull : id ≠ null) (hinherited : id ∉ objectPrototype)
    (hsg : ∀ p ∈ sg, p ∈ g.nodes) (defaults attrs : Attrs)
    : ∃ g', g.createNode defaults id attrs sg = .ok g' ∧ g'.Consistent ∧ g'.value = g.value
        ∧ g'.nodes = g.nodes.set id (mergeAttributes attrs ((g.nodes.get? id).getD (labelled defaults id)))
        ∧ g'.edges = g.edges
        ∧ ∀ u, g'.parents.get? u = if u = id ∧ id ∉ g.nodes then some sg else g.parents.get? u := by
  by_cases hmem : id ∈ g.nodes
  . obtain ⟨value, hvalue⟩ := InsertionMap.mem_iff.mp hmem
    refine ⟨{ g with nodes := g.nodes.set id (mergeAttributes attrs value) }, ?_, h.setNode hmem _, rfl, ?_,
      rfl, ?_⟩
    . rw [createNode, if_pos (hasNode_iff.mpr (Or.inl hmem)), ok_bind]
      dsimp only
      rw [strictGetNode_of_get? hvalue]
      rfl
    . rw [hvalue, Option.getD_some]
    . intro u
      simp [hmem]
  . have hnot : ¬ g.hasNode id = true := by
      rw [hasNode_iff]
      tauto
    obtain ⟨g₁, g₂, hinsert, hput, hconsistent, hkept, hnodes, hedges, hparents⟩ :=
      insertInto_ok h hmem hnull hinherited hsg (labelled defaults id)
    have hvalue : g₂.nodes.get? id = some (labelled defaults id) := by
      rw [hnodes, InsertionMap.get?_set, if_pos rfl]
    have hmem₂ : id ∈ g₂.nodes := InsertionMap.mem_iff.mpr ⟨_, hvalue⟩
    refine ⟨{ g₂ with nodes := g₂.nodes.set id (mergeAttributes attrs (labelled defaults id)) }, ?_,
      hconsistent.setNode hmem₂ _, hkept, ?_, hedges, ?_⟩
    . have hadd : g.addNode (some id) (labelled defaults id) = .ok (id, g₁) := by
        simp only [addNode, if_neg hnot, hinsert]
        rfl
      rw [createNode, if_neg hnot, hadd, ok_bind]
      dsimp only
      rw [hput, ok_bind, strictGetNode_of_get? hvalue]
      rfl
    . rw [InsertionMap.get?_eq_none_iff.mpr hmem, Option.getD_none]
      simp only [hnodes, InsertionMap.set_set]
    . intro u
      rw [hparents]
      simp [hmem]

theorem consistent_setNextId (h : g.Consistent) (n : Nat) : ({ g with nextId := n } : CDigraph).Consistent :=
  ⟨h.indexed.congr rfl rfl rfl rfl, h.nested.congr rfl rfl rfl⟩

theorem openSubgraph_ok (h : g.Consistent) {id : Option Str}
    (hnew : ∀ u ∈ id, u ∉ g.nodes ∧ u ≠ null ∧ u ∉ objectPrototype) (hsg : ∀ p ∈ sg, p ∈ g.nodes)
    : ∃ g' n, g.openSubgraph id sg = .ok (id.getD (generatedId n), g') ∧ g'.Consistent
        ∧ id.getD (generatedId n) ∉ g.nodes ∧ g'.value = g.value
        ∧ g'.nodes = g.nodes.set (id.getD (generatedId n)) [] ∧ g'.edges = g.edges
        ∧ ∀ u, g'.parents.get? u = if u = id.getD (generatedId n) then some sg else g.parents.get? u := by
  cases id with
  | none =>
    let n := uniqueId g.nodes.keys g.nodes.keys.length g.nextId
    have hfresh : generatedId n ∉ g.nodes := uniqueId_not_mem g.nodes.keys g.nextId
    obtain ⟨g₁, g₂, hinsert, hput, hkeeps⟩ := insertInto_ok (consistent_setNextId h n) hfresh
      (generatedId_ne_null n) (generatedId_not_inherited n) hsg []
    refine ⟨g₂, n, ?_, hkeeps.1, hfresh, hkeeps.2⟩
    have hadd : g.addNode none [] = .ok (generatedId n, g₁) := by
      rw [addNode, hinsert]
      rfl
    rw [openSubgraph, hadd, ok_bind]
    dsimp only
    rw [hput]
    rfl
  | some u =>
    obtain ⟨hfresh, hnull, hinherited⟩ := hnew u rfl
    obtain ⟨g₁, g₂, hinsert, hput, hkeeps⟩ := insertInto_ok h hfresh hnull hinherited hsg []
    refine ⟨g₂, 0, ?_, hkeeps.1, hfresh, hkeeps.2⟩
    have hnot : ¬ g.hasNode u = true := by
      rw [hasNode_iff]
      tauto
    have hadd : g.addNode (some u) [] = .ok (u, g₁) := by
      simp only [addNode, if_neg hnot, hinsert]
      rfl
    rw [openSubgraph, hadd, ok_bind]
    dsimp only
    rw [hput]
    rfl

theorem childrenOf_ok (h : g.Consistent) (hmem : id ∈ g.nodes) : ∃ children, g.childrenOf id = .ok children := by
  obtain ⟨value, hvalue⟩ := strictGetNode_ok hmem
  obtain ⟨children, hchildren⟩ := InsertionMap.mem_iff.mp ((h.nested.mem_children id).mpr (Or.inr hmem))
  refine ⟨children.keys, ?_⟩
  rw [childrenOf, hvalue, ok_bind, hchildren]

theorem closeSubgraph_ok (h : g.Consistent) (hmem : id ∈ g.nodes)
    : ∃ g', g.closeSubgraph id = .ok g' ∧ g'.Consistent
        ∧ (g' = g
          ∨ (∀ u, g.parents.get? u ≠ some (some id)) ∧ g'.value = g.value ∧ g'.nodes = g.nodes.delete id
            ∧ g'.edges.entries = g.edges.entries.filter (fun entry => entry.2.u ≠ id ∧ entry.2.v ≠ id)) := by
  obtain ⟨children, hchildren⟩ := childrenOf_ok h hmem
  rw [closeSubgraph, hchildren, ok_bind]
  by_cases hempty : children = []
  . rw [hempty] at hchildren
    obtain ⟨g', hdel, hconsistent, hvalue, hnodes, -, hedges⟩ := delNode_ok h hmem hchildren
    refine ⟨g', ?_, hconsistent, Or.inr ⟨h.nested.childless hmem hchildren, hvalue, hnodes, hedges⟩⟩
    rw [if_pos hempty, hdel]
  . refine ⟨g, ?_, h, Or.inl rfl⟩
    rw [if_neg hempty]

theorem mergeInline_ok (h : g.Consistent) (hsg : ∀ p ∈ sg, p ∈ g.nodes) (attrs : Attrs)
    : ∃ g', g.mergeInline attrs sg = .ok g' ∧ g'.Consistent ∧ g'.edges = g.edges
        ∧ g'.value = sg.elim (mergeAttributes attrs g.value) (fun _ => g.value)
        ∧ g'.nodes.keys = g.nodes.keys ∧ ∀ u, u ∉ sg → g'.nodes.get? u = g.nodes.get? u := by
  cases sg with
  | none =>
    refine ⟨{ g with value := mergeAttributes attrs g.value }, rfl, ⟨?_, ?_⟩, rfl, rfl, rfl, fun u _ => rfl⟩
    . exact h.indexed.congr rfl rfl rfl rfl
    . exact h.nested.congr rfl rfl rfl
  | some p =>
    obtain ⟨value, hvalue⟩ := strictGetNode_ok (hsg p rfl)
    refine ⟨{ g with nodes := g.nodes.set p (mergeAttributes attrs value) }, ?_, h.setNode (hsg p rfl) _, rfl, rfl,
      InsertionMap.keys_set_of_mem (hsg p rfl), ?_⟩
    . rw [mergeInline, hvalue]
      rfl
    . intro u hu
      rw [InsertionMap.get?_set, if_neg]
      rintro rfl
      exact hu rfl

theorem not_inherited_of_createNode {defaults attrs : Attrs} {g' : CDigraph}
    (h : g.createNode defaults id attrs sg = .ok g')
    : id ∈ g.nodes ∨ id ∉ objectPrototype := by
  by_contra hnot
  rw [not_or, not_not] at hnot
  have hthrown : g.strictGetNode id = .error (.inherited id) := by
    rw [strictGetNode, lookup, InsertionMap.get?_eq_none_iff.mpr hnot.1]
    dsimp only
    rw [if_pos hnot.2]
    rfl
  rw [createNode, if_pos (hasNode_iff.mpr (Or.inr hnot.2)), ok_bind] at h
  dsimp only at h
  rw [hthrown] at h
  cases h

theorem new_of_openSubgraph {u : Str} {res : Str × CDigraph} (h : g.openSubgraph (some u) sg = .ok res)
    : u ∉ g.nodes ∧ u ∉ objectPrototype := by
  rw [← not_or, ← hasNode_iff]
  intro hmem
  obtain ⟨res', hadd, -⟩ := ok_of_bind h
  rw [addNode, if_pos hmem] at hadd
  cases hadd

theorem mem_of_strictGetNode {value : Attrs} (h : g.strictGetNode id = .ok value) : id ∈ g.nodes :=
  InsertionMap.mem_iff.mpr ⟨value, get?_of_strictGetNode h⟩

theorem mem_of_addEdge {e : Option Str} {u v : Str} {value : Attrs} {g' : CDigraph}
    (h : g.addEdge e u v value = .ok g')
    : u ∈ g.nodes ∧ v ∈ g.nodes ∧ ∀ id ∈ e, g.hasEdge id = false := by
  obtain ⟨value', hu, h⟩ := ok_of_bind h
  obtain ⟨value'', hv, h⟩ := ok_of_bind h
  refine ⟨mem_of_strictGetNode hu, mem_of_strictGetNode hv, ?_⟩
  rintro id rfl
  cases hid : g.hasEdge id with
  | false => rfl
  | true =>
    simp only [hid, if_true] at h
    cases h

theorem not_isLeftOpen_of_strictGetNode (hinherited : id ∉ objectPrototype) {thrown : Thrown}
    (h : g.strictGetNode id = .error thrown)
    : thrown.isLeftOpen = false := by
  cases hget : g.nodes.get? id with
  | some value =>
    rw [strictGetNode_of_get? hget] at h
    cases h
  | none =>
    rw [strictGetNode, lookup, hget] at h
    dsimp only at h
    rw [if_neg hinherited] at h
    cases h
    rfl

theorem not_isLeftOpen_of_insertEdge {e u v : Str} {value : Attrs} {thrown : Thrown}
    (h : g.insertEdge e u v value = .error thrown)
    : thrown.isLeftOpen = false := by
  have hadd : ∀ {maps : Obj (Obj KeySet)} {u v : Str}, addEdgeToMap maps u v e = .error thrown →
      thrown.isLeftOpen = false := by
    intro maps u v hmap
    rw [addEdgeToMap] at hmap
    split at hmap
    . cases hmap
      rfl
    . cases hmap
  obtain hins | ⟨inEdges, -, h⟩ := error_of_bind h
  . exact hadd hins
  obtain houts | ⟨outEdges, -, h⟩ := error_of_bind h
  . exact hadd houts
  . cases h

theorem not_isLeftOpen_of_addEdge {e : Option Str} {u v : Str} (hu : u ∉ objectPrototype)
    (hv : v ∉ objectPrototype) {value : Attrs} {thrown : Thrown} (h : g.addEdge e u v value = .error thrown)
    : thrown.isLeftOpen = false := by
  obtain hsource | ⟨value', -, h⟩ := error_of_bind h
  . exact not_isLeftOpen_of_strictGetNode hu hsource
  obtain htarget | ⟨value'', -, h⟩ := error_of_bind h
  . exact not_isLeftOpen_of_strictGetNode hv htarget
  cases e with
  | none => exact not_isLeftOpen_of_insertEdge h
  | some e =>
    dsimp only at h
    split at h
    . cases h
      rfl
    . exact not_isLeftOpen_of_insertEdge h

theorem not_isLeftOpen_of_openSubgraph (h : g.Consistent) {id : Option Str}
    (hid : ∀ u ∈ id, u ≠ null ∧ u ∉ objectPrototype) (hsg : ∀ p ∈ sg, p ∈ g.nodes) {thrown : Thrown}
    (hopen : g.openSubgraph id sg = .error thrown)
    : thrown.isLeftOpen = false := by
  by_cases hnew : ∀ u ∈ id, u ∉ g.nodes
  . obtain ⟨g', n, hok, -⟩ := openSubgraph_ok h (fun u hu => ⟨hnew u hu, hid u hu⟩) hsg
    rw [hok] at hopen
    cases hopen
  . simp only [not_forall, not_not] at hnew
    obtain ⟨u, rfl, hmem⟩ := hnew
    rw [openSubgraph, addNode, if_pos (hasNode_iff.mpr (Or.inl hmem))] at hopen
    cases hopen
    rfl

end

end CDigraph

def Command.names (command : Command) : List Str :=
  match command with
  | .node _ id _ => [id]
  | .enter id => id.toList
  | _ => []

structure Canvas.Consistent (s : Canvas) : Prop where
  graph : s.g.Consistent
  opened : ∀ id ∈ s.opened, id ∈ s.g.nodes
  nodup : s.opened.Nodup

section

variable {s s' : Canvas}

theorem Canvas.Consistent.around (h : s.Consistent) : ∀ p ∈ s.opened.head?, p ∈ s.g.nodes := by
  intro p hp
  exact h.opened p (List.mem_of_mem_head? hp)

theorem Canvas.Consistent.setGraph (h : s.Consistent) {g : CDigraph} (hg : g.Consistent)
    (hkept : ∀ u ∈ s.g.nodes, u ∈ g.nodes)
    : ({ s with g := g } : Canvas).Consistent :=
  ⟨hg, fun id hid => hkept id (h.opened id hid), h.nodup⟩

theorem Canvas.consistent_empty : ({} : Canvas).Consistent :=
  ⟨⟨CDigraph.indexed_empty, CDigraph.nested_empty⟩, fun _ hid => absurd hid List.not_mem_nil, List.nodup_nil⟩

theorem Canvas.Consistent.closeSubgraph {id : Str} {opened : List Str} (h : s.Consistent)
    (hopened : s.opened = id :: opened) {g : CDigraph} (hg : g.Consistent)
    (hnodes : g = s.g ∨ g.nodes = s.g.nodes.delete id)
    : ({ g := g, opened := opened } : Canvas).Consistent := by
  obtain ⟨hgraph, hmem, hnodup⟩ := h
  rw [hopened, List.nodup_cons] at hnodup
  rw [hopened, List.forall_mem_cons] at hmem
  refine ⟨hg, ?_, hnodup.2⟩
  intro u hu
  rcases hnodes with rfl | hnodes
  . exact hmem.2 u hu
  . rw [hnodes, InsertionMap.mem_delete]
    refine ⟨?_, hmem.2 u hu⟩
    rintro rfl
    exact hnodup.1 hu

theorem Command.run_consistent {command : Command} (h : s.Consistent) (hnull : null ∉ command.names)
    (hrun : command.run s = .ok s')
    : s'.Consistent := by
  cases command with
  | node defaults id attrs =>
    obtain ⟨g', hcreate, hs'⟩ := ok_of_bind hrun
    cases hs'
    have hne : id ≠ null := fun heq => hnull (heq ▸ List.mem_singleton_self id)
    have hinherited : id ∉ objectPrototype :=
      (CDigraph.not_inherited_of_createNode hcreate).elim (fun hmem => (h.graph.nested.named id hmem).2)
        (fun hnot => hnot)
    obtain ⟨g, hok, hg, -, hnodes, -⟩ := CDigraph.createNode_ok h.graph hne hinherited h.around defaults attrs
    rw [hcreate] at hok
    cases hok
    apply h.setGraph hg
    intro u hu
    rw [hnodes, InsertionMap.mem_set]
    exact Or.inr hu
  | edge id u v value =>
    obtain ⟨g', hadd, hs'⟩ := ok_of_bind hrun
    cases hs'
    obtain ⟨hu, hv, hnew⟩ := CDigraph.mem_of_addEdge hadd
    obtain ⟨g, n, hok, hg, -, -, -, hnodes, -⟩ := CDigraph.addEdge_ok h.graph hu hv hnew value
    rw [hadd] at hok
    cases hok
    apply h.setGraph hg
    intro u hu
    rwa [hnodes]
  | enter id =>
    obtain ⟨⟨id', g'⟩, hopen, hs'⟩ := ok_of_bind hrun
    cases hs'
    have hnew : ∀ u ∈ id, u ∉ s.g.nodes ∧ u ≠ null ∧ u ∉ objectPrototype := by
      rintro u rfl
      have hfree := CDigraph.new_of_openSubgraph hopen
      exact ⟨hfree.1, fun heq => hnull (heq ▸ List.mem_singleton_self u), hfree.2⟩
    obtain ⟨g, n, hok, hg, hfresh, -, hnodes, -⟩ := CDigraph.openSubgraph_ok h.graph hnew h.around
    rw [hopen] at hok
    cases hok
    refine ⟨hg, ?_, List.nodup_cons.mpr ⟨fun hmem => hfresh (h.opened _ hmem), h.nodup⟩⟩
    intro u hu
    rw [hnodes, InsertionMap.mem_set]
    exact (List.mem_cons.mp hu).imp_right (h.opened u)
  | leave =>
    rw [Command.run] at hrun
    cases hopened : s.opened with
    | nil =>
      rw [hopened] at hrun
      cases hrun
      exact h
    | cons id opened =>
      rw [hopened] at hrun
      obtain ⟨g', hclose, hs'⟩ := ok_of_bind hrun
      cases hs'
      have hmem : id ∈ s.g.nodes := h.opened id (hopened ▸ List.mem_cons_self)
      obtain ⟨g, hok, hg, hcases⟩ := CDigraph.closeSubgraph_ok h.graph hmem
      rw [hclose] at hok
      cases hok
      exact h.closeSubgraph hopened hg (hcases.imp_right (fun hdel => hdel.2.2.1))
  | inline attrs =>
    obtain ⟨g', hmerge, hs'⟩ := ok_of_bind hrun
    cases hs'
    obtain ⟨g, hok, hg, -, -, hkeys, -⟩ := CDigraph.mergeInline_ok h.graph h.around attrs
    rw [hmerge] at hok
    cases hok
    apply h.setGraph hg
    intro u hu
    rwa [CDigraph.mem_nodes_congr hkeys]
  | throw e => cases hrun

end

theorem mem_of_mem_objectKeys {names : List Str} {k : Str} (h : k ∈ objectKeys names) : k ∈ names := by
  rw [objectKeys, List.mem_append, List.mem_map] at h
  rw [← mem_keySet_ofList]
  rcases h with ⟨n, hn, rfl⟩ | h
  . rw [List.mem_insertionSort, List.mem_filterMap] at hn
    obtain ⟨k, hk, hindex⟩ := hn
    rw [arrayIndex?] at hindex
    split at hindex
    . next hdigits =>
      cases hindex
      rwa [← hdigits.1]
    . cases hindex
  . exact (List.mem_filter.mp h).1

def Command.Forall (P Q : Str → Prop) (command : Command) : Prop :=
  match command with
  | .node _ id _ => P id
  | .edge id u v _ => P u ∧ P v ∧ ∀ e ∈ id, Q e
  | .enter id => ∀ u ∈ id, P u
  | .throw e => e.isLeftOpen = false
  | _ => True

def ForallNames (P : Str → Prop) (res : Except Thrown (List Str)) : Prop :=
  match res with
  | .ok names => ∀ u ∈ names, P u
  | .error e => e.isLeftOpen = false

section

variable {P Q : Str → Prop}

theorem ForallNames.append {last first : Except Thrown (List Str)} (hlast : ForallNames P last)
    (hfirst : ForallNames P first)
    : ForallNames P (do
        let last ← last
        let first ← first
        return last ++ first) := by
  cases last with
  | error e => exact hlast
  | ok last =>
    cases first with
    | error e => exact hfirst
    | ok first => exact List.forall_mem_append.mpr ⟨hlast, hfirst⟩

mutual

theorem forallNames_visit (stmt : Stmt) (h : stmt.Forall P Q) : ForallNames P stmt.visit := by
  match stmt with
  | .node id attrs =>
    rw [Stmt.visit]
    exact List.forall_mem_singleton.mpr h
  | .edge elems attrs =>
    rw [Stmt.visit]
    exact forallNames_visitList elems h.2
  | .subgraph id stmts =>
    rw [Stmt.visit]
    exact forallNames_visitOption stmts h.2
  | .attr attrType attrs =>
    rw [Stmt.visit]
    exact List.forall_mem_nil P
  | .inlineAttr attrs =>
    rw [Stmt.visit]
    exact List.forall_mem_nil P

theorem forallNames_visitList (stmts : List Stmt) (h : ForallList P Q stmts) : ForallNames P (visitList stmts) := by
  match stmts with
  | [] =>
    rw [visitList]
    exact List.forall_mem_nil P
  | stmt :: tail =>
    rw [visitList]
    exact (forallNames_visitList tail h.2).append (forallNames_visit stmt h.1)

theorem forallNames_visitOption (stmts : Option (List Stmt)) (h : ForallOption P Q stmts)
    : ForallNames P (visitOption stmts) := by
  match stmts with
  | none =>
    rw [visitOption]
    exact rfl
  | some stmts =>
    rw [visitOption]
    exact forallNames_visitList stmts h

end

theorem forallNames_incident {elem : Stmt} (h : elem.Forall P Q) : ForallNames P elem.incident := by
  cases elem with
  | node id attrs => exact List.forall_mem_singleton.mpr h
  | subgraph id stmts =>
    have hvisit := forallNames_visit _ h
    rw [Stmt.incident, Stmt.collectNodeIds]
    cases hnames : (Stmt.subgraph id stmts).visit with
    | error e =>
      rw [hnames] at hvisit
      exact hvisit
    | ok names =>
      rw [hnames] at hvisit
      intro u hu
      exact hvisit u (mem_of_mem_objectKeys hu)
  | _ => exact rfl

theorem forall_edgeCommands {scope : Scope} {attrs : Attrs} {prev : Option (List Str)} {curr : List Str}
    (hid : ∀ e ∈ CDigraph.edgeId attrs, Q e) (hprev : ∀ u ∈ prev.getD [], P u) (hcurr : ∀ u ∈ curr, P u)
    : ∀ command ∈ edgeCommands scope attrs prev curr, command.Forall P Q := by
  intro command hcommand
  obtain ⟨p, hp, hcommand⟩ := List.mem_flatMap.mp hcommand
  obtain ⟨c, hc, rfl⟩ := List.mem_map.mp hcommand
  exact ⟨hprev p hp, hcurr c hc, hid⟩

mutual

theorem forall_commands (stmt : Stmt) {scope : Scope} (h : stmt.Forall P Q)
    : ∀ command ∈ stmt.commands scope, command.Forall P Q := by
  match stmt with
  | .node id attrs =>
    rw [Stmt.commands]
    exact List.forall_mem_singleton.mpr h
  | .edge elems attrs =>
    rw [Stmt.commands]
    exact forall_elemCommands elems h.1 (List.forall_mem_nil P) h.2
  | .subgraph id stmts =>
    rw [Stmt.commands, List.forall_mem_cons, List.forall_mem_append, List.forall_mem_singleton]
    exact ⟨h.1, forall_optionCommands stmts h.2, trivial⟩
  | .attr attrType attrs => exact List.forall_mem_nil _
  | .inlineAttr attrs =>
    rw [Stmt.commands]
    exact List.forall_mem_singleton.mpr trivial

theorem forall_elemCommands (elems : List Stmt) {attrs : Attrs} {prev : Option (List Str)} {scope : Scope}
    (hid : ∀ e ∈ CDigraph.edgeId attrs, Q e) (hprev : ∀ u ∈ prev.getD [], P u) (h : ForallList P Q elems)
    : ∀ command ∈ elemCommands elems attrs prev scope, command.Forall P Q := by
  match elems with
  | [] => exact List.forall_mem_nil _
  | elem :: tail =>
    have hnames := forallNames_incident h.1
    rw [elemCommands, List.forall_mem_append]
    refine ⟨forall_commands elem h.1, ?_⟩
    cases hincident : elem.incident with
    | error e =>
      rw [hincident] at hnames
      exact List.forall_mem_singleton.mpr hnames
    | ok curr =>
      rw [hincident] at hnames
      dsimp only
      rw [List.forall_mem_append]
      exact ⟨forall_edgeCommands hid hprev hnames, forall_elemCommands tail hid hnames h.2⟩

theorem forall_optionCommands (stmts : Option (List Stmt)) {scope : Scope} (h : ForallOption P Q stmts)
    : ∀ command ∈ optionCommands stmts scope, command.Forall P Q := by
  match stmts with
  | none => exact List.forall_mem_nil _
  | some stmts =>
    rw [optionCommands]
    exact forall_listCommands stmts h

theorem forall_listCommands (stmts : List Stmt) {scope : Scope} (h : ForallList P Q stmts)
    : ∀ command ∈ listCommands stmts scope, command.Forall P Q := by
  match stmts with
  | [] => exact List.forall_mem_nil _
  | stmt :: tail =>
    rw [listCommands, List.forall_mem_append]
    exact ⟨forall_commands stmt h.1, forall_listCommands tail h.2⟩

end

end

theorem Command.Forall.null_not_mem_names {Q : Str → Prop} {command : Command} (h : command.Forall (· ≠ null) Q)
    : null ∉ command.names := by
  cases command with
  | node defaults id attrs => exact fun hmem => h (List.mem_singleton.mp hmem).symm
  | enter id => exact fun hmem => h null (Option.mem_toList.mp hmem) rfl
  | _ => exact List.not_mem_nil

theorem Command.not_isLeftOpen_of_run {command : Command} {s : Canvas} (h : s.Consistent)
    {Q : Str → Prop} (hnull : command.Forall (· ≠ null) Q)
    (hown : command.Forall (· ∉ objectPrototype) (· ∉ objectPrototype)) {e : Thrown}
    (hrun : command.run s = .error e)
    : e.isLeftOpen = false := by
  cases command with
  | node defaults id attrs =>
    obtain ⟨g, hok, -⟩ := CDigraph.createNode_ok h.graph hnull hown h.around defaults attrs
    rw [Command.run, hok] at hrun
    cases hrun
  | edge id u v value =>
    obtain hadd | ⟨g, -, hrun⟩ := error_of_bind hrun
    . exact CDigraph.not_isLeftOpen_of_addEdge hown.1 hown.2.1 hadd
    . cases hrun
  | enter id =>
    obtain hopen | ⟨res, -, hrun⟩ := error_of_bind hrun
    . exact CDigraph.not_isLeftOpen_of_openSubgraph h.graph (fun u hu => ⟨hnull u hu, hown u hu⟩) h.around hopen
    . cases hrun
  | leave =>
    rw [Command.run] at hrun
    cases hopened : s.opened with
    | nil =>
      rw [hopened] at hrun
      cases hrun
    | cons id opened =>
      obtain ⟨g, hok, -⟩ := CDigraph.closeSubgraph_ok h.graph (h.opened id (hopened ▸ List.mem_cons_self))
      rw [hopened] at hrun
      dsimp only at hrun
      rw [hok] at hrun
      cases hrun
  | inline attrs =>
    obtain ⟨g, hok, -⟩ := CDigraph.mergeInline_ok h.graph h.around attrs
    rw [Command.run, hok] at hrun
    cases hrun
  | throw e' =>
    cases hrun
    exact hown

/--
A node `null` would take the place of the graph itself, whose children are kept under this key.
-/
theorem consistent_of_buildGraph {tree : GraphStmt} (h : tree.IsPlain)
    (hnull : tree.Forall (· ≠ null) (fun _ => True))
    : (∃ g, buildGraph tree = .ok g ∧ g.Consistent) ∨ ∃ e, buildGraph tree = .error e ∧ e.isLeftOpen = false := by
  have hnames : ∀ command ∈ tree.commands, command.Forall (· ≠ null) (fun _ => True) :=
    forall_listCommands _ hnull
  have hown : ∀ command ∈ tree.commands, command.Forall (· ∉ objectPrototype) (· ∉ objectPrototype) :=
    forall_listCommands _ h.names
  have hstep : ∀ command ∈ tree.commands, ∀ s s', s.Consistent → command.run s = .ok s' → s'.Consistent :=
    fun command hcommand s s' hs hrun => Command.run_consistent hs (hnames command hcommand).null_not_mem_names hrun
  cases hdraw : draw tree.commands {} with
  | ok s =>
    refine Or.inl ⟨s.g, buildGraph_of_draw h.isDigraph hdraw, ?_⟩
    exact (Loop.invariant_of_foldlM Canvas.Consistent Canvas.consistent_empty hstep hdraw).graph
  | error e =>
    refine Or.inr ⟨e, buildGraph_of_draw_error h.isDigraph hdraw, ?_⟩
    apply Loop.error_of_foldlM Canvas.Consistent Canvas.consistent_empty hstep ?_ hdraw
    intro command hcommand s e hs hrun
    exact Command.not_isLeftOpen_of_run hs (hnames command hcommand) (hown command hcommand) hrun

theorem consistent_of_buildGraph_subgraph
    : let tree : GraphStmt := {
        type := "digraph".toList
        id := "D".toList
        stmts := some [
          .edge [.node ['A'] [], .subgraph (some ['S']) (some [.node ['B'] [], .node ['C'] []])] [],
          .subgraph none (some [])
        ]
      }
      ∃ g, buildGraph tree = .ok g ∧ g.nodes.keys = [['A'], ['S'], ['B'], ['C']] ∧ g.Consistent := by
  intro tree
  have hkeys : (buildGraph tree).toOption.map (fun g => g.nodes.keys) = some [['A'], ['S'], ['B'], ['C']] := by
    decide +kernel
  have hplain : tree.IsPlain := by
    refine ⟨by decide, ?_⟩
    simp only [tree, GraphStmt.Forall, Option.getD_some, ForallList, Stmt.Forall, ForallOption]
    decide +kernel
  have hnull : tree.Forall (· ≠ null) (fun _ => True) := by
    simp only [tree, GraphStmt.Forall, Option.getD_some, ForallList, Stmt.Forall, ForallOption]
    decide +kernel
  obtain ⟨g, hbuild, hconsistent⟩ | ⟨e, hbuild, -⟩ := consistent_of_buildGraph hplain hnull
  . rw [hbuild] at hkeys
    exact ⟨g, hbuild, Option.some.inj hkeys, hconsistent⟩
  . rw [hbuild] at hkeys
    cases hkeys

end GraphlibDot
