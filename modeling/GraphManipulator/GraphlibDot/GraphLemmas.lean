import GraphManipulator.GraphlibDot.Graph

/-!
This module contains what the operations of a graph keep: its maps agree on the nodes, on the edges at each node
and on what contains what.
-/

namespace GraphlibDot

theorem ok_bind {α β : Type} (a : α) (f : α → Except Thrown β) : Except.ok a >>= f = f a := rfl

theorem ok_of_bind {α β : Type} {x : Except Thrown α} {f : α → Except Thrown β} {b : β} (h : x >>= f = .ok b)
    : ∃ a, x = .ok a ∧ f a = .ok b := by
  cases x with
  | error e => cases h
  | ok a => exact ⟨a, rfl, h⟩

theorem error_of_bind {α β : Type} {x : Except Thrown α} {f : α → Except Thrown β} {e : Thrown}
    (h : x >>= f = .error e)
    : x = .error e ∨ ∃ a, x = .ok a ∧ f a = .error e := by
  cases x with
  | error e' =>
    cases h
    exact .inl rfl
  | ok a => exact .inr ⟨a, rfl, h⟩

theorem mem_keySet_foldl (keys : List Str) (s : KeySet) (k : Str)
    : k ∈ keys.foldl (fun s k => s.set k ()) s ↔ k ∈ s ∨ k ∈ keys := by
  induction keys generalizing s with
  | nil => simp
  | cons k' keys ih =>
    rw [List.foldl_cons, ih, InsertionMap.mem_set, List.mem_cons]
    tauto

theorem mem_keySet_ofList {keys : List Str} {k : Str} : k ∈ (KeySet.ofList keys).keys ↔ k ∈ keys := by
  rw [← InsertionMap.mem_def, KeySet.ofList, mem_keySet_foldl]
  simp

theorem nodup_keySet_ofList (keys : List Str) : (KeySet.ofList keys).keys.Nodup := (KeySet.ofList keys).nodup

theorem generatedId_injective {m n : Nat} (h : generatedId m = generatedId n) : m = n := by
  have hdigits := (List.cons.inj h).2
  rw [← Nat.ofDigitChars_ten_toDigits (n := m), hdigits, Nat.ofDigitChars_ten_toDigits]

theorem mem_of_uniqueId_mem {used : List Str} {fuel nextId : Nat}
    (h : generatedId (uniqueId used fuel nextId) ∈ used)
    : ∀ i < fuel + 1, generatedId (nextId + 1 + i) ∈ used := by
  induction fuel generalizing nextId with
  | zero =>
    intro i hi
    rw [Nat.lt_one_iff.mp hi]
    exact h
  | succ fuel ih =>
    rw [uniqueId] at h
    split at h
    . next hused =>
      intro i hi
      cases i with
      | zero => exact hused
      | succ i =>
        have := ih h i (Nat.lt_of_succ_lt_succ hi)
        rwa [Nat.add_right_comm (nextId + 1), Nat.add_assoc] at this
    . next hfree => exact absurd h hfree

theorem uniqueId_not_mem (used : List Str) (nextId : Nat)
    : generatedId (uniqueId used used.length nextId) ∉ used := by
  intro h
  have hused := mem_of_uniqueId_mem h
  have hnodup : ((List.range (used.length + 1)).map (fun i => generatedId (nextId + 1 + i))).Nodup := by
    apply List.nodup_range.map
    intro i j hij
    exact Nat.add_left_cancel (generatedId_injective hij)
  have hsubset : (List.range (used.length + 1)).map (fun i => generatedId (nextId + 1 + i)) ⊆ used := by
    intro id hid
    obtain ⟨i, hi, rfl⟩ := List.mem_map.mp hid
    exact hused i (List.mem_range.mp hi)
  have hle := (List.subperm_of_subset hnodup hsubset).length_le
  rw [List.length_map, List.length_range] at hle
  omega

section

def entryAt (maps : Obj (Obj KeySet)) (u v : Str) : KeySet :=
  ((maps.get? u).bind (fun map => map.get? v)).getD ∅

variable {maps : Obj (Obj KeySet)} {u v e : Str}

theorem entryAt_set (map : Obj KeySet) (u' v' : Str)
    : entryAt (maps.set u map) u' v' = if u' = u then (map.get? v').getD ∅ else entryAt maps u' v' := by
  rw [entryAt, InsertionMap.get?_set]
  split
  . rfl
  . rfl

theorem entryAt_of_get? {map : Obj KeySet} (hmap : maps.get? u = some map) (v : Str)
    : entryAt maps u v = (map.get? v).getD ∅ := by
  rw [entryAt, hmap]
  rfl

theorem mem_set_iff_of_mem {map : Obj KeySet} (hu : u ∈ maps) (u' : Str) : u' ∈ maps.set u map ↔ u' ∈ maps := by
  rw [InsertionMap.mem_set, or_iff_right_iff_imp]
  rintro rfl
  exact hu

theorem addEdgeToMap_ok (hu : u ∈ maps) (v e : Str)
    : ∃ maps', addEdgeToMap maps u v e = .ok maps' ∧ (∀ u', u' ∈ maps' ↔ u' ∈ maps)
        ∧ ∀ u' v' e', e' ∈ entryAt maps' u' v' ↔ e' ∈ entryAt maps u' v' ∨ (u' = u ∧ v' = v ∧ e' = e) := by
  obtain ⟨map, hmap⟩ := InsertionMap.mem_iff.mp hu
  refine ⟨_, by rw [addEdgeToMap, hmap], mem_set_iff_of_mem hu, ?_⟩
  intro u' v' e'
  rw [entryAt_set]
  by_cases hu' : u' = u
  . subst hu'
    rw [if_pos rfl, InsertionMap.get?_set, entryAt_of_get? hmap]
    by_cases hv' : v' = v
    . subst hv'
      simp only [if_pos, Option.getD_some, InsertionMap.mem_set, true_and]
      apply or_comm
    . simp [hv']
  . simp [hu']

theorem delEdgeFromMap_ok (he : e ∈ entryAt maps u v)
    : ∃ maps', delEdgeFromMap maps u v e = .ok maps' ∧ (∀ u', u' ∈ maps' ↔ u' ∈ maps)
        ∧ ∀ u' v' e', e' ∈ entryAt maps' u' v' ↔ e' ∈ entryAt maps u' v' ∧ ¬ (u' = u ∧ v' = v ∧ e' = e) := by
  cases hmap : maps.get? u with
  | none =>
    rw [entryAt, hmap] at he
    exact absurd he (InsertionMap.not_mem_empty e)
  | some map =>
    rw [entryAt_of_get? hmap] at he
    cases hentry : map.get? v with
    | none =>
      rw [hentry] at he
      exact absurd he (InsertionMap.not_mem_empty e)
    | some entry =>
      have hu : u ∈ maps := InsertionMap.mem_iff.mpr ⟨map, hmap⟩
      have hleft : ∀ v',
          ((if (entry.delete e).keys = [] then map.delete v else map.set v (entry.delete e)).get? v').getD ∅
          = if v' = v then (if (entry.delete e).keys = [] then ∅ else entry.delete e)
            else (map.get? v').getD ∅ := by
        intro v'
        split
        . rw [InsertionMap.get?_delete]
          split <;> rfl
        . rw [InsertionMap.get?_set]
          split <;> rfl
      refine ⟨_, by rw [delEdgeFromMap, hmap]; dsimp only; rw [hentry], mem_set_iff_of_mem hu, ?_⟩
      intro u' v' e'
      rw [entryAt_set]
      by_cases hu' : u' = u
      . subst hu'
        rw [if_pos rfl, hleft, entryAt_of_get? hmap]
        by_cases hv' : v' = v
        . subst hv'
          have hdelete : e' ∈ (if (entry.delete e).keys = [] then ∅ else entry.delete e)
              ↔ e' ∈ entry.delete e := by
            split
            . next hempty => simp [InsertionMap.mem_def, hempty]
            . rfl
          rw [if_pos rfl, hdelete, InsertionMap.mem_delete, hentry]
          simp [and_comm]
        . simp [hv']
      . simp [hu']

theorem mem_edgesAt {g : CDigraph} {value : Attrs} (hu : g.strictGetNode u = .ok value) {map : Obj KeySet}
    (hmap : maps.get? u = some map)
    : ∃ es, g.edgesAt maps u = .ok es ∧ ∀ e, e ∈ es ↔ ∃ v, e ∈ entryAt maps u v := by
  refine ⟨_, by rw [CDigraph.edgesAt, hu, hmap]; rfl, ?_⟩
  intro e
  simp only [mem_keySet_ofList, List.mem_flatMap, entryAt_of_get? hmap]
  constructor
  . rintro ⟨⟨v, entry⟩, hentry, he⟩
    refine ⟨v, ?_⟩
    rw [InsertionMap.get?_eq_some_iff.mpr hentry]
    exact he
  . rintro ⟨v, he⟩
    cases hentry : map.get? v with
    | none =>
      rw [hentry] at he
      exact absurd he (InsertionMap.not_mem_empty e)
    | some entry =>
      rw [hentry] at he
      exact ⟨(v, entry), InsertionMap.get?_eq_some_iff.mp hentry, he⟩

end

namespace CDigraph

structure Indexed (g : CDigraph) : Prop where
  mem_inEdges : ∀ u, u ∈ g.inEdges ↔ u ∈ g.nodes
  mem_outEdges : ∀ u, u ∈ g.outEdges ↔ u ∈ g.nodes
  ends : ∀ {e edge}, g.edges.get? e = some edge → edge.u ∈ g.nodes ∧ edge.v ∈ g.nodes
  ins : ∀ u v e, e ∈ entryAt g.inEdges v u ↔ ∃ value, g.edges.get? e = some ⟨u, v, value⟩
  outs : ∀ u v e, e ∈ entryAt g.outEdges u v ↔ ∃ value, g.edges.get? e = some ⟨u, v, value⟩

def childSet (g : CDigraph) (parent : Option Str) : KeySet := (g.children.get? (parentKey (some parent))).getD ∅

/--
The nodes contain those of which they are the parents. A parent stands in front of its children, so that there is
no cycle.
-/
structure Nested (g : CDigraph) : Prop where
  named : ∀ u ∈ g.nodes, u ≠ null ∧ u ∉ objectPrototype
  mem_parents : ∀ u, u ∈ g.parents ↔ u ∈ g.nodes
  mem_children : ∀ u, u ∈ g.children ↔ u = null ∨ u ∈ g.nodes
  contains : ∀ parent, parent ≠ some null → ∀ u, u ∈ g.childSet parent ↔ g.parents.get? u = some parent
  precedes : ∀ {u p}, g.parents.get? u = some (some p) → [p, u].Sublist g.nodes.keys

structure Consistent (g : CDigraph) : Prop where
  indexed : g.Indexed
  nested : g.Nested

section

variable {g g' : CDigraph} {u p e : Str} {value : Attrs}

theorem strictGetNode_of_get? (h : g.nodes.get? u = some value) : g.strictGetNode u = .ok value := by
  rw [strictGetNode, lookup, h]
  rfl

theorem get?_of_strictGetNode (h : g.strictGetNode u = .ok value) : g.nodes.get? u = some value := by
  rw [strictGetNode, lookup] at h
  cases hget : g.nodes.get? u with
  | some value' =>
    rw [hget] at h
    cases h
    rfl
  | none =>
    rw [hget] at h
    by_cases hinherited : u ∈ objectPrototype
    . simp only [if_pos hinherited] at h
      cases h
    . simp only [if_neg hinherited] at h
      cases h

theorem strictGetNode_ok (h : u ∈ g.nodes) : ∃ value, g.strictGetNode u = .ok value := by
  obtain ⟨value, hvalue⟩ := InsertionMap.mem_iff.mp h
  exact ⟨value, strictGetNode_of_get? hvalue⟩

theorem mem_of_sublist_pair (h : [p, u].Sublist g.nodes.keys) : p ∈ g.nodes ∧ u ∈ g.nodes := by
  have hsubset := h.subset
  exact ⟨hsubset (by simp), hsubset (by simp)⟩

theorem mem_nodes_congr (hkeys : g'.nodes.keys = g.nodes.keys) (u : Str) : u ∈ g'.nodes ↔ u ∈ g.nodes := by
  rw [InsertionMap.mem_def, hkeys, InsertionMap.mem_def]

theorem Indexed.congr (h : g.Indexed) (hkeys : g'.nodes.keys = g.nodes.keys) (hedges : g'.edges = g.edges)
    (hins : g'.inEdges = g.inEdges) (houts : g'.outEdges = g.outEdges)
    : g'.Indexed := by
  have hmem := mem_nodes_congr hkeys
  constructor
  . simpa only [hmem, hins] using h.mem_inEdges
  . simpa only [hmem, houts] using h.mem_outEdges
  . intro e edge hedge
    rw [hedges] at hedge
    simpa only [hmem] using h.ends hedge
  . simpa only [hins, hedges] using h.ins
  . simpa only [houts, hedges] using h.outs

theorem Nested.congr (h : g.Nested) (hkeys : g'.nodes.keys = g.nodes.keys) (hparents : g'.parents = g.parents)
    (hchildren : g'.children = g.children)
    : g'.Nested := by
  have hmem := mem_nodes_congr hkeys
  constructor
  . simpa only [hmem] using h.named
  . simpa only [hmem, hparents] using h.mem_parents
  . simpa only [hmem, hchildren] using h.mem_children
  . simpa only [childSet, hchildren, hparents] using h.contains
  . intro u p hparent
    rw [hparents] at hparent
    simpa only [hkeys] using h.precedes hparent

theorem Consistent.setNode (h : g.Consistent) (hu : u ∈ g.nodes) (value : Attrs)
    : ({ g with nodes := g.nodes.set u value } : CDigraph).Consistent :=
  ⟨h.indexed.congr (InsertionMap.keys_set_of_mem hu) rfl rfl rfl,
    h.nested.congr (InsertionMap.keys_set_of_mem hu) rfl rfl⟩

theorem indexed_empty : ({} : CDigraph).Indexed := by
  have hnone : ∀ u v u' v' e, e ∈ entryAt ∅ u v ↔ ∃ value, (∅ : Obj Edge).get? e = some ⟨u', v', value⟩ := by
    intro u v u' v' e
    constructor
    . intro he
      exact absurd he (InsertionMap.not_mem_empty e)
    . rintro ⟨value, hedge⟩
      cases hedge
  constructor
  . exact fun u => Iff.rfl
  . exact fun u => Iff.rfl
  . intro e edge hedge
    cases hedge
  . exact fun u v => hnone v u u v
  . exact fun u v => hnone u v u v

theorem nested_empty : ({} : CDigraph).Nested := by
  constructor
  . intro u hu
    exact absurd hu (InsertionMap.not_mem_empty u)
  . exact fun u => Iff.rfl
  . exact fun u => InsertionMap.mem_set
  . intro parent hparent u
    rw [childSet, InsertionMap.get?_set]
    constructor
    . intro hu
      split at hu
      . exact absurd hu (InsertionMap.not_mem_empty u)
      . exact absurd hu (InsertionMap.not_mem_empty u)
    . intro hu
      cases hu
  . intro u p hparent
    cases hparent

theorem mem_entryAt_insertNode {maps : Obj (Obj KeySet)} (hu : u ∉ maps) (u' v e : Str)
    : e ∈ entryAt (maps.set u ∅) u' v ↔ e ∈ entryAt maps u' v := by
  rw [entryAt_set]
  split
  . next hu' =>
    rw [hu', entryAt, InsertionMap.get?_eq_none_iff.mpr hu]
    rfl
  . rfl

theorem Indexed.insertNode (h : g.Indexed) (hnew : u ∉ g.nodes) (value : Attrs)
    (hnodes : g'.nodes = g.nodes.set u value) (hedges : g'.edges = g.edges) (hins : g'.inEdges = g.inEdges.set u ∅)
    (houts : g'.outEdges = g.outEdges.set u ∅)
    : g'.Indexed := by
  constructor
  . intro u'
    rw [hins, hnodes, InsertionMap.mem_set, InsertionMap.mem_set, h.mem_inEdges]
  . intro u'
    rw [houts, hnodes, InsertionMap.mem_set, InsertionMap.mem_set, h.mem_outEdges]
  . intro e edge hedge
    rw [hedges] at hedge
    have hends := h.ends hedge
    rw [hnodes, InsertionMap.mem_set, InsertionMap.mem_set]
    exact ⟨Or.inr hends.1, Or.inr hends.2⟩
  . intro u' v e
    rw [hins, hedges, mem_entryAt_insertNode (fun hu => hnew ((h.mem_inEdges u).mp hu))]
    exact h.ins u' v e
  . intro u' v e
    rw [houts, hedges, mem_entryAt_insertNode (fun hu => hnew ((h.mem_outEdges u).mp hu))]
    exact h.outs u' v e

theorem Nested.get?_parents_of_not_mem (h : g.Nested) (hu : u ∉ g.nodes) : g.parents.get? u = none := by
  rw [InsertionMap.get?_eq_none_iff, h.mem_parents]
  exact hu

theorem Nested.get?_root (h : g.Nested) : ∃ root, g.children.get? null = some root :=
  InsertionMap.mem_iff.mp ((h.mem_children _).mpr (Or.inl rfl))

theorem Nested.insertNode (h : g.Nested) (hnew : u ∉ g.nodes) (hnull : u ≠ null)
    (hinherited : u ∉ objectPrototype) (value : Attrs) {root : KeySet}
    (hroot : g.children.get? null = some root)
    (hnodes : g'.nodes = g.nodes.set u value) (hparents : g'.parents = g.parents.set u none)
    (hchildren : g'.children = (g.children.set u ∅).set null (root.set u ()))
    : g'.Nested := by
  have hfresh := h.get?_parents_of_not_mem hnew
  constructor
  . intro u' hu'
    rw [hnodes, InsertionMap.mem_set] at hu'
    obtain rfl | hu' := hu'
    . exact ⟨hnull, hinherited⟩
    . exact h.named u' hu'
  . intro u'
    rw [hparents, hnodes, InsertionMap.mem_set, InsertionMap.mem_set, h.mem_parents]
  . intro u'
    rw [hchildren, hnodes, InsertionMap.mem_set, InsertionMap.mem_set, InsertionMap.mem_set, h.mem_children]
    tauto
  . intro parent hparent u'
    have hcontains := h.contains parent hparent u'
    rw [childSet] at hcontains ⊢
    rw [hchildren, hparents, InsertionMap.get?_set, InsertionMap.get?_set, InsertionMap.get?_set]
    cases parent with
    | none =>
      rw [parentKey, hroot, Option.getD_some] at hcontains
      rw [parentKey, if_pos rfl, Option.getD_some, InsertionMap.mem_set, hcontains]
      split
      . next hu => simp [hu]
      . next hu => simp [hu]
    | some q =>
      have hq : q ≠ null := fun hq => hparent (congrArg some hq)
      rw [parentKey] at hcontains ⊢
      rw [if_neg hq]
      by_cases hqu : q = u
      . rw [if_pos hqu, hqu]
        constructor
        . intro hu'
          exact absurd hu' (InsertionMap.not_mem_empty u')
        . intro hu'
          split at hu'
          . cases hu'
          . exact absurd (mem_of_sublist_pair (h.precedes hu')).1 hnew
      . rw [if_neg hqu, hcontains]
        split
        . next hu =>
          rw [hu, hfresh]
          simp
        . rfl
  . intro u' p hparent
    rw [hparents, InsertionMap.get?_set] at hparent
    rw [hnodes, InsertionMap.keys_set_of_not_mem hnew]
    split at hparent
    . cases hparent
    . exact (h.precedes hparent).trans (List.sublist_append_left _ _)

theorem insertNode_ok (h : g.Consistent) (hnew : u ∉ g.nodes) (hnull : u ≠ null)
    (hinherited : u ∉ objectPrototype) (value : Attrs)
    : ∃ g', g.insertNode u value = .ok g' ∧ g'.Consistent ∧ g'.value = g.value ∧ g'.nodes = g.nodes.set u value
        ∧ g'.edges = g.edges ∧ g'.parents = g.parents.set u none := by
  obtain ⟨root, hroot⟩ := h.nested.get?_root
  refine ⟨{
    g with
    nodes := g.nodes.set u value
    inEdges := g.inEdges.set u ∅
    outEdges := g.outEdges.set u ∅
    parents := g.parents.set u none
    children := (g.children.set u ∅).set null (root.set u ())
  }, ?_, ⟨?_, ?_⟩, rfl, rfl, rfl, rfl⟩
  . rw [CDigraph.insertNode, InsertionMap.get?_set, if_neg hnull.symm, hroot]
  . exact h.indexed.insertNode hnew value rfl rfl rfl rfl
  . exact h.nested.insertNode hnew hnull hinherited value hroot rfl rfl rfl

theorem ne_of_precedes (h : [p, u].Sublist g.nodes.keys) : p ≠ u := by
  have hnodup := h.nodup g.nodes.nodup
  rw [List.nodup_cons] at hnodup
  simpa using hnodup.1

theorem Nested.setParent (h : g.Nested) (hparent : g.parents.get? u = some none)
    (hprecedes : [p, u].Sublist g.nodes.keys) {root siblings : KeySet} (hroot : g.children.get? null = some root)
    (hsiblings : g.children.get? p = some siblings) (hnodes : g'.nodes = g.nodes)
    (hparents : g'.parents = g.parents.set u (some p))
    (hchildren : g'.children = (g.children.set null (root.delete u)).set p (siblings.set u ()))
    : g'.Nested := by
  obtain ⟨hp, hu⟩ := mem_of_sublist_pair hprecedes
  have hpnull := (h.named p hp).1
  constructor
  . rw [hnodes]
    exact h.named
  . intro u'
    rw [hparents, hnodes, InsertionMap.mem_set, h.mem_parents, or_iff_right_iff_imp]
    rintro rfl
    exact hu
  . intro u'
    rw [hchildren, hnodes, InsertionMap.mem_set, InsertionMap.mem_set, h.mem_children]
    constructor
    . rintro (rfl | rfl | hu')
      . exact Or.inr hp
      . exact Or.inl rfl
      . exact hu'
    . tauto
  . intro parent hnotNull u'
    have hcontains := h.contains parent hnotNull u'
    rw [childSet] at hcontains ⊢
    rw [hchildren, hparents, InsertionMap.get?_set, InsertionMap.get?_set, InsertionMap.get?_set]
    cases parent with
    | none =>
      rw [parentKey, hroot, Option.getD_some] at hcontains
      rw [parentKey, if_neg hpnull.symm, if_pos rfl, Option.getD_some, InsertionMap.mem_delete, hcontains]
      split
      . next hu => simp [hu]
      . next hu => simp [hu]
    | some q =>
      have hq : q ≠ null := fun hq => hnotNull (congrArg some hq)
      rw [parentKey] at hcontains ⊢
      by_cases hqp : q = p
      . rw [hqp, hsiblings, Option.getD_some] at hcontains
        rw [if_pos hqp, Option.getD_some, InsertionMap.mem_set, hcontains, hqp]
        split
        . next hu => simp [hu]
        . next hu => simp [hu]
      . rw [if_neg hqp, if_neg hq, hcontains]
        split
        . next hu =>
          rw [hu, hparent]
          simp [Ne.symm hqp]
        . rfl
  . intro u' q hq
    rw [hparents, InsertionMap.get?_set] at hq
    rw [hnodes]
    split at hq
    . next hu' =>
      cases hq
      rw [hu']
      exact hprecedes
    . exact h.precedes hq

theorem setParent_ok (h : g.Consistent) (hparent : g.parents.get? u = some none)
    (hprecedes : [p, u].Sublist g.nodes.keys)
    : ∃ g', g.setParent u (some p) = .ok g' ∧ g'.Consistent ∧ g'.value = g.value ∧ g'.nodes = g.nodes
        ∧ g'.edges = g.edges ∧ g'.parents = g.parents.set u (some p) := by
  obtain ⟨hp, hu⟩ := mem_of_sublist_pair hprecedes
  obtain ⟨root, hroot⟩ := h.nested.get?_root
  obtain ⟨siblings, hsiblings⟩ := InsertionMap.mem_iff.mp ((h.nested.mem_children p).mpr (Or.inr hp))
  obtain ⟨value, hvalue⟩ := strictGetNode_ok hu
  obtain ⟨value', hvalue'⟩ := strictGetNode_ok hp
  have hpnull := (h.nested.named p hp).1
  have hne : ¬ some u = some p := fun heq => ne_of_precedes hprecedes (Option.some.inj heq).symm
  refine ⟨{
    g with
    parents := g.parents.set u (some p)
    children := (g.children.set null (root.delete u)).set p (siblings.set u ())
  }, ?_, ⟨?_, ?_⟩, rfl, rfl, rfl, rfl⟩
  . simp only [CDigraph.setParent, hvalue, hvalue', hparent, parentKey, hroot, InsertionMap.get?_set, if_neg hne,
      if_neg hpnull, hsiblings]
    rfl
  . exact h.indexed.congr rfl rfl rfl rfl
  . exact h.nested.setParent hparent hprecedes hroot hsiblings rfl rfl rfl

theorem Indexed.insertEdge (h : g.Indexed) {u v : Str} (hu : u ∈ g.nodes) (hv : v ∈ g.nodes) (hnew : e ∉ g.edges)
    (value : Attrs)
    : ∃ g', g.insertEdge e u v value = .ok g' ∧ g'.Indexed ∧ g'.value = g.value
        ∧ g'.edges = g.edges.set e ⟨u, v, value⟩ ∧ g'.nodes = g.nodes ∧ g'.parents = g.parents
        ∧ g'.children = g.children := by
  obtain ⟨ins, hins, hmemIns, hentryIns⟩ := addEdgeToMap_ok ((h.mem_inEdges v).mpr hv) u e
  obtain ⟨outs, houts, hmemOuts, hentryOuts⟩ := addEdgeToMap_ok ((h.mem_outEdges u).mpr hu) v e
  have hfresh := InsertionMap.get?_eq_none_iff.mpr hnew
  have hlisted : ∀ {u' v' e'}, ((∃ value, g.edges.get? e' = some ⟨u', v', value⟩) ∨ u' = u ∧ v' = v ∧ e' = e)
      ↔ ∃ value', (g.edges.set e ⟨u, v, value⟩).get? e' = some ⟨u', v', value'⟩ := by
    intro u' v' e'
    rw [InsertionMap.get?_set]
    split
    . next he =>
      rw [he, hfresh]
      simp [eq_comm]
    . next he => simp [he]
  refine ⟨{ g with edges := g.edges.set e ⟨u, v, value⟩, inEdges := ins, outEdges := outs }, ?_, ?_, rfl, rfl, rfl,
    rfl, rfl⟩
  . rw [CDigraph.insertEdge, hins, houts]
    rfl
  . constructor
    . intro u'
      rw [hmemIns, h.mem_inEdges]
    . intro u'
      rw [hmemOuts, h.mem_outEdges]
    . intro e' edge hedge
      rw [InsertionMap.get?_set] at hedge
      split at hedge
      . cases hedge
        exact ⟨hu, hv⟩
      . exact h.ends hedge
    . intro u' v' e'
      rw [hentryIns, h.ins, ← hlisted, and_left_comm]
    . intro u' v' e'
      rw [hentryOuts, h.outs, ← hlisted]

theorem strictGetEdge_of_get? {edge : Edge} (h : g.edges.get? e = some edge) : g.strictGetEdge e = .ok edge := by
  rw [strictGetEdge, lookup, h]
  rfl

theorem addEdge_ok (h : g.Consistent) {u v : Str} (hu : u ∈ g.nodes) (hv : v ∈ g.nodes) {e : Option Str}
    (hnew : ∀ id ∈ e, g.hasEdge id = false) (value : Attrs)
    : ∃ g' n, g.addEdge e u v value = .ok g' ∧ g'.Consistent ∧ e.getD (generatedId n) ∉ g.edges
        ∧ g'.value = g.value ∧ g'.edges = g.edges.set (e.getD (generatedId n)) ⟨u, v, value⟩
        ∧ g'.nodes = g.nodes ∧ g'.parents = g.parents := by
  obtain ⟨value', hvalue'⟩ := strictGetNode_ok hu
  obtain ⟨value'', hvalue''⟩ := strictGetNode_ok hv
  cases e with
  | none =>
    let n := uniqueId g.edges.keys g.edges.keys.length g.nextId
    have hfresh : generatedId n ∉ g.edges := uniqueId_not_mem g.edges.keys g.nextId
    have hnext : ({ g with nextId := n } : CDigraph).Indexed := h.indexed.congr rfl rfl rfl rfl
    obtain ⟨g', hinsert, hindexed, hvalue, hedges, hnodes, hparents, hchildren⟩ :=
      hnext.insertEdge hu hv hfresh value
    refine ⟨g', n, ?_, ⟨hindexed, ?_⟩, hfresh, hvalue, hedges, hnodes, hparents⟩
    . rw [CDigraph.addEdge, hvalue', hvalue'']
      exact hinsert
    . exact h.nested.congr (congrArg InsertionMap.keys hnodes) hparents hchildren
  | some id =>
    have hnot := hnew id rfl
    have hfresh : id ∉ g.edges := by
      intro hmem
      rw [hasEdge, decide_eq_true hmem] at hnot
      cases hnot
    obtain ⟨g', hinsert, hindexed, hvalue, hedges, hnodes, hparents, hchildren⟩ :=
      h.indexed.insertEdge hu hv hfresh value
    refine ⟨g', 0, ?_, ⟨hindexed, ?_⟩, hfresh, hvalue, hedges, hnodes, hparents⟩
    . rw [CDigraph.addEdge, hvalue', ok_bind, hvalue'', ok_bind]
      simp only [hnot, Bool.false_eq_true, if_false, hinsert]
    . exact h.nested.congr (congrArg InsertionMap.keys hnodes) hparents hchildren

theorem Indexed.delEdge (h : g.Indexed) {edge : Edge} (hedge : g.edges.get? e = some edge)
    : ∃ g', g.delEdge e = .ok g' ∧ g'.Indexed ∧ g'.value = g.value ∧ g'.edges = g.edges.delete e
        ∧ g'.nodes = g.nodes ∧ g'.parents = g.parents ∧ g'.children = g.children := by
  obtain ⟨ins, hins, hmemIns, hentryIns⟩ := delEdgeFromMap_ok ((h.ins edge.u edge.v e).mpr ⟨edge.value, hedge⟩)
  obtain ⟨outs, houts, hmemOuts, hentryOuts⟩ :=
    delEdgeFromMap_ok ((h.outs edge.u edge.v e).mpr ⟨edge.value, hedge⟩)
  have hlisted : ∀ {u v e'},
      (∃ value, g.edges.get? e' = some ⟨u, v, value⟩) ∧ ¬ (u = edge.u ∧ v = edge.v ∧ e' = e)
      ↔ ∃ value, (g.edges.delete e).get? e' = some ⟨u, v, value⟩ := by
    intro u v e'
    rw [InsertionMap.get?_delete]
    by_cases he : e' = e
    . subst he
      rw [if_pos rfl, hedge]
      constructor
      . rintro ⟨⟨value, heq⟩, hne⟩
        cases heq
        exact absurd ⟨rfl, rfl, rfl⟩ hne
      . rintro ⟨value, hnone⟩
        cases hnone
    . simp [he]
  refine ⟨{ g with edges := g.edges.delete e, inEdges := ins, outEdges := outs }, ?_, ?_, rfl, rfl, rfl, rfl, rfl⟩
  . rw [CDigraph.delEdge, strictGetEdge_of_get? hedge, ok_bind, hins, ok_bind, houts, ok_bind]
    rfl
  . constructor
    . intro u
      rw [hmemIns, h.mem_inEdges]
    . intro u
      rw [hmemOuts, h.mem_outEdges]
    . intro e' edge' hedge'
      rw [InsertionMap.get?_delete] at hedge'
      split at hedge'
      . cases hedge'
      . exact h.ends hedge'
    . intro u v e'
      rw [hentryIns, h.ins, ← hlisted, and_left_comm (a := v = edge.v)]
    . intro u v e'
      rw [hentryOuts, h.outs, ← hlisted]

theorem Indexed.delEdges (h : g.Indexed) {es : List Str} (hnodup : es.Nodup) (hes : ∀ e ∈ es, e ∈ g.edges)
    : ∃ g', es.foldlM (fun g e => g.delEdge e) g = .ok g' ∧ g'.Indexed ∧ g'.value = g.value
        ∧ g'.edges.entries = g.edges.entries.filter (fun entry => entry.1 ∉ es) ∧ g'.nodes = g.nodes
        ∧ g'.parents = g.parents ∧ g'.children = g.children := by
  induction es generalizing g with
  | nil => exact ⟨g, rfl, h, rfl, by simp, rfl, rfl, rfl⟩
  | cons e es ih =>
    rw [List.nodup_cons] at hnodup
    rw [List.forall_mem_cons] at hes
    obtain ⟨edge, hedge⟩ := InsertionMap.mem_iff.mp hes.1
    obtain ⟨g₁, hdel, hindexed, hvalue, hedges, hnodes, hparents, hchildren⟩ := h.delEdge hedge
    have hrest : ∀ e' ∈ es, e' ∈ g₁.edges := by
      intro e' he'
      rw [hedges, InsertionMap.mem_delete]
      refine ⟨?_, hes.2 e' he'⟩
      rintro rfl
      exact hnodup.1 he'
    obtain ⟨g', hfold, hindexed', hvalue', hedges', hnodes', hparents', hchildren'⟩ := ih hindexed hnodup.2 hrest
    refine ⟨g', ?_, hindexed', hvalue'.trans hvalue, ?_, hnodes'.trans hnodes, hparents'.trans hparents,
      hchildren'.trans hchildren⟩
    . rw [List.foldlM_cons, hdel]
      exact hfold
    . rw [hedges', hedges, InsertionMap.delete, List.filter_filter]
      congr 1
      funext entry
      simp [Bool.and_comm]

theorem mem_incidentEdges (h : g.Indexed) (hu : u ∈ g.nodes)
    : ∃ es, g.incidentEdges u = .ok es ∧ es.Nodup
        ∧ ∀ e, e ∈ es ↔ ∃ edge, g.edges.get? e = some edge ∧ (edge.u = u ∨ edge.v = u) := by
  obtain ⟨value, hvalue⟩ := strictGetNode_ok hu
  obtain ⟨ins, hins⟩ := InsertionMap.mem_iff.mp ((h.mem_inEdges u).mpr hu)
  obtain ⟨outs, houts⟩ := InsertionMap.mem_iff.mp ((h.mem_outEdges u).mpr hu)
  obtain ⟨es, hes, hmem⟩ := mem_edgesAt hvalue hins
  obtain ⟨es', hes', hmem'⟩ := mem_edgesAt hvalue houts
  refine ⟨(KeySet.ofList (es ++ es')).keys, ?_, nodup_keySet_ofList _, ?_⟩
  . rw [incidentEdges, hes, ok_bind, hes', ok_bind]
    rfl
  . intro e
    rw [mem_keySet_ofList, List.mem_append, hmem, hmem']
    simp only [h.ins, h.outs]
    constructor
    . rintro (⟨v, value, hedge⟩ | ⟨v, value, hedge⟩)
      . exact ⟨_, hedge, Or.inr rfl⟩
      . exact ⟨_, hedge, Or.inl rfl⟩
    . rintro ⟨⟨u', v', value⟩, hedge, rfl | rfl⟩
      . exact Or.inr ⟨v', value, hedge⟩
      . exact Or.inl ⟨u', value, hedge⟩

theorem Indexed.deleteNode (h : g.Indexed)
    (hends : ∀ {e edge}, g.edges.get? e = some edge → edge.u ≠ u ∧ edge.v ≠ u)
    (hnodes : g'.nodes = g.nodes.delete u) (hedges : g'.edges = g.edges) (hins : g'.inEdges = g.inEdges.delete u)
    (houts : g'.outEdges = g.outEdges.delete u)
    : g'.Indexed := by
  have hentry : ∀ (maps : Obj (Obj KeySet)) (u' v e : Str),
      e ∈ entryAt (maps.delete u) u' v ↔ u' ≠ u ∧ e ∈ entryAt maps u' v := by
    intro maps u' v e
    rw [entryAt, InsertionMap.get?_delete]
    split
    . next hu' =>
      constructor
      . intro he
        exact absurd he (InsertionMap.not_mem_empty e)
      . rintro ⟨hne, -⟩
        exact absurd hu' hne
    . next hu' => simp [hu', entryAt]
  constructor
  . intro u'
    rw [hins, hnodes, InsertionMap.mem_delete, InsertionMap.mem_delete, h.mem_inEdges]
  . intro u'
    rw [houts, hnodes, InsertionMap.mem_delete, InsertionMap.mem_delete, h.mem_outEdges]
  . intro e edge hedge
    rw [hedges] at hedge
    rw [hnodes, InsertionMap.mem_delete, InsertionMap.mem_delete]
    exact ⟨⟨(hends hedge).1, (h.ends hedge).1⟩, (hends hedge).2, (h.ends hedge).2⟩
  . intro u' v e
    rw [hins, hedges, hentry, h.ins, and_iff_right_iff_imp]
    rintro ⟨value, hedge⟩
    exact (hends hedge).2
  . intro u' v e
    rw [houts, hedges, hentry, h.outs, and_iff_right_iff_imp]
    rintro ⟨value, hedge⟩
    exact (hends hedge).1

theorem parentKey_injective {parent parent' : Option Str} (h : parent ≠ some null) (h' : parent' ≠ some null)
    (heq : parentKey (some parent) = parentKey (some parent'))
    : parent = parent' := by
  cases parent with
  | none =>
    cases parent' with
    | none => rfl
    | some q => exact absurd (congrArg some heq.symm) h'
  | some p =>
    cases parent' with
    | none => exact absurd (congrArg some heq) h
    | some q => exact congrArg some heq

theorem Nested.deleteNode (h : g.Nested) {parent : Option Str} (hparent : g.parents.get? u = some parent)
    (hchildless : ∀ u', g.parents.get? u' ≠ some (some u)) {siblings : KeySet}
    (hsiblings : g.children.get? (parentKey (some parent)) = some siblings) (hnodes : g'.nodes = g.nodes.delete u)
    (hparents : g'.parents = g.parents.delete u)
    (hchildren : g'.children = (g.children.set (parentKey (some parent)) (siblings.delete u)).delete u)
    : g'.Nested := by
  have hu : u ∈ g.nodes := (h.mem_parents u).mp (InsertionMap.mem_iff.mpr ⟨parent, hparent⟩)
  have hunull := (h.named u hu).1
  have hparentNull : parent ≠ some null := by
    rintro rfl
    exact (h.named null (mem_of_sublist_pair (h.precedes hparent)).1).1 rfl
  have hmemParent : parentKey (some parent) = null ∨ parentKey (some parent) ∈ g.nodes :=
    (h.mem_children _).mp (InsertionMap.mem_iff.mpr ⟨siblings, hsiblings⟩)
  constructor
  . intro u' hu'
    rw [hnodes, InsertionMap.mem_delete] at hu'
    exact h.named u' hu'.2
  . intro u'
    rw [hparents, hnodes, InsertionMap.mem_delete, InsertionMap.mem_delete, h.mem_parents]
  . intro u'
    rw [hchildren, hnodes, InsertionMap.mem_delete, InsertionMap.mem_delete, InsertionMap.mem_set, h.mem_children]
    constructor
    . rintro ⟨hne, rfl | hu'⟩
      . exact hmemParent.imp_right (fun hmem => ⟨hne, hmem⟩)
      . exact hu'.imp_right (fun hmem => ⟨hne, hmem⟩)
    . rintro (rfl | ⟨hne, hu'⟩)
      . exact ⟨hunull.symm, Or.inr (Or.inl rfl)⟩
      . exact ⟨hne, Or.inr (Or.inr hu')⟩
  . intro parent' hnotNull u'
    have hcontains := h.contains parent' hnotNull u'
    rw [childSet] at hcontains ⊢
    rw [hchildren, hparents, InsertionMap.get?_delete, InsertionMap.get?_delete, InsertionMap.get?_set]
    by_cases hself : parent' = some u
    . rw [hself, parentKey, if_pos rfl]
      constructor
      . intro hu'
        exact absurd hu' (InsertionMap.not_mem_empty u')
      . intro hu'
        split at hu'
        . cases hu'
        . exact absurd hu' (hchildless u')
    . have hkey : ¬ parentKey (some parent') = u := by
        cases parent' with
        | none => exact hunull.symm
        | some q => exact fun hq => hself (congrArg some hq)
      rw [if_neg hkey]
      by_cases hsame : parent' = parent
      . rw [hsame, hsiblings, Option.getD_some] at hcontains
        rw [hsame, if_pos rfl, Option.getD_some, InsertionMap.mem_delete, hcontains]
        split
        . next hu' => simp [hu']
        . next hu' => simp [hu']
      . rw [if_neg (fun heq => hsame (parentKey_injective hnotNull hparentNull heq)), hcontains]
        split
        . next hu' =>
          rw [hu', hparent]
          simp [Ne.symm hsame]
        . rfl
  . intro u' p hprecedes
    rw [hparents, InsertionMap.get?_delete] at hprecedes
    rw [hnodes, InsertionMap.keys_delete]
    split at hprecedes
    . cases hprecedes
    . next hu' =>
      have hp : p ≠ u := by
        rintro rfl
        exact hchildless u' hprecedes
      have hpair : [p, u'] = [p, u'].filter (fun k => k ≠ u) := by simp [hp, hu']
      rw [hpair]
      exact (h.precedes hprecedes).filter _

theorem Nested.childless (h : g.Nested) (hu : u ∈ g.nodes) (hchildren : g.childrenOf u = .ok [])
    : ∀ u', g.parents.get? u' ≠ some (some u) := by
  intro u' hu'
  have hnull : some u ≠ some null := fun heq => (h.named u hu).1 (Option.some.inj heq)
  obtain ⟨value, hvalue⟩ := strictGetNode_ok hu
  rw [← h.contains (some u) hnull u', childSet, parentKey] at hu'
  rw [childrenOf, hvalue, ok_bind] at hchildren
  cases hget : g.children.get? u with
  | none =>
    rw [hget] at hu'
    exact absurd hu' (InsertionMap.not_mem_empty u')
  | some children =>
    rw [hget] at hu' hchildren
    have hempty : children.keys = [] := Except.ok.inj hchildren
    rw [Option.getD_some, InsertionMap.mem_def, hempty] at hu'
    cases hu'

theorem Nested.get?_siblings (h : g.Nested) {parent : Option Str} (hparent : g.parents.get? u = some parent)
    : ∃ siblings, g.children.get? (parentKey (some parent)) = some siblings := by
  apply InsertionMap.mem_iff.mp
  rw [h.mem_children]
  cases parent with
  | none => exact Or.inl rfl
  | some p => exact Or.inr (mem_of_sublist_pair (h.precedes hparent)).1

theorem delNode_ok (h : g.Consistent) (hu : u ∈ g.nodes) (hchildren : g.childrenOf u = .ok [])
    : ∃ g', g.delNode u = .ok g' ∧ g'.Consistent ∧ g'.value = g.value ∧ g'.nodes = g.nodes.delete u
        ∧ g'.parents = g.parents.delete u
        ∧ g'.edges.entries = g.edges.entries.filter (fun entry => entry.2.u ≠ u ∧ entry.2.v ≠ u) := by
  obtain ⟨value, hvalue⟩ := strictGetNode_ok hu
  obtain ⟨parent, hparent⟩ := InsertionMap.mem_iff.mp ((h.nested.mem_parents u).mpr hu)
  have hchildless := h.nested.childless hu hchildren
  obtain ⟨siblings, hsiblings⟩ := h.nested.get?_siblings hparent
  let g₁ : CDigraph := {
    g with
    children := (g.children.set (parentKey (some parent)) (siblings.delete u)).delete u
    parents := g.parents.delete u
  }
  have hindexed₁ : g₁.Indexed := h.indexed.congr rfl rfl rfl rfl
  obtain ⟨es, hes, hnodup, hmem⟩ := mem_incidentEdges hindexed₁ hu
  have hedges : ∀ e ∈ es, e ∈ g₁.edges := by
    intro e he
    obtain ⟨edge, hedge, -⟩ := (hmem e).mp he
    exact InsertionMap.mem_iff.mpr ⟨edge, hedge⟩
  obtain ⟨g₂, hfold, hindexed₂, hvalue₂, hentries, hnodes₂, hparents₂, hchildren₂⟩ :=
    hindexed₁.delEdges hnodup hedges
  have hfilter : g₂.edges.entries = g.edges.entries.filter (fun entry => entry.2.u ≠ u ∧ entry.2.v ≠ u) := by
    rw [hentries]
    apply List.filter_congr
    rintro ⟨e, edge⟩ hentry
    have hget : g.edges.get? e = some edge := InsertionMap.get?_eq_some_iff.mpr hentry
    have hincident : e ∈ es ↔ edge.u = u ∨ edge.v = u := by
      rw [hmem]
      constructor
      . rintro ⟨edge', hedge', hends⟩
        rw [show g.edges.get? e = some edge' from hedge', Option.some.injEq] at hget
        rwa [← hget]
      . intro hends
        exact ⟨edge, hget, hends⟩
    simp [hincident]
  refine ⟨{
    g₂ with
    nodes := g₂.nodes.delete u
    inEdges := g₂.inEdges.delete u
    outEdges := g₂.outEdges.delete u
  }, ?_, ⟨?_, ?_⟩, hvalue₂, congrArg (fun nodes => InsertionMap.delete nodes u) hnodes₂, hparents₂, hfilter⟩
  . rw [delNode, hvalue, ok_bind, hchildren, ok_bind, hparent, List.foldlM_nil]
    rw [show (pure g : Except Thrown CDigraph) = .ok g from rfl, ok_bind]
    simp only [hsiblings]
    change (g₁.incidentEdges u >>= _) = _
    rw [hes, ok_bind, hfold]
    rfl
  . have hends : ∀ {e edge}, g₂.edges.get? e = some edge → edge.u ≠ u ∧ edge.v ≠ u := by
      intro e edge hedge
      rw [InsertionMap.get?_eq_some_iff, hfilter, List.mem_filter] at hedge
      simpa using hedge.2
    exact hindexed₂.deleteNode hends rfl rfl rfl rfl
  . exact h.nested.deleteNode hparent hchildless hsiblings
      (congrArg (fun nodes => InsertionMap.delete nodes u) hnodes₂) hparents₂ hchildren₂

end

end CDigraph

end GraphlibDot
