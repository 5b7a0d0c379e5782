import GraphManipulator.GraphMapper.Representation
import GraphManipulator.GraphlibDot.RoundTrip

/-!
This module contains when the text that the mapper writes lists the entries of the table: a name must not be
overwritten by another one after its vertex was added.
-/

open GraphlibDot

theorem intText_injective {m n : Int} (h : intText m = intText n) : m = n := by
  have hdigits : ∀ a b, Nat.toDigits 10 a = Nat.toDigits 10 b → a = b := by
    intro a b hab
    rw [← Nat.ofDigitChars_ten_toDigits (n := a), hab, Nat.ofDigitChars_ten_toDigits]
  have hminus : ∀ a b, Nat.toDigits 10 a ≠ '-' :: Nat.toDigits 10 b := by
    intro a b hab
    have hmem : '-' ∈ Nat.toDigits 10 a := by simp [hab]
    exact absurd (isDigit_of_mem_toDigits hmem) (by decide)
  cases m with
  | ofNat m =>
    cases n with
    | ofNat n => rw [hdigits m n h]
    | negSucc n => exact absurd h (hminus _ _)
  | negSucc m =>
    cases n with
    | ofNat n => exact absurd h.symm (hminus _ _)
    | negSucc n =>
      have := hdigits _ _ (List.cons.inj h).2
      rw [Nat.succ.inj this]

theorem colorName_injective {c d : Color} (h : c.name = d.name) : c = d := by
  cases c <;> cases d <;> first | rfl | exact absurd h (by decide)

theorem edgeStmt_injective {e e' : EdgeStatement} (h : edgeStmt e = edgeStmt e') : e = e' := by
  obtain ⟨source, target, label, color⟩ := e
  obtain ⟨source', target', label', color'⟩ := e'
  simp only [edgeStmt, Stmt.edge.injEq, List.cons.injEq, Stmt.node.injEq, Prod.mk.injEq, Option.some.injEq,
    and_true, true_and] at h
  obtain ⟨⟨rfl, rfl⟩, hlabel, hcolor⟩ := h
  rw [intText_injective hlabel, colorName_injective hcolor]

theorem dotText_injective {es es' : List EdgeStatement} (hes : ∀ e ∈ es, HasNames e)
    (hes' : ∀ e ∈ es', HasNames e) (h : dotText es = dotText es')
    : es = es' := by
  have hparse := parse_dotText_eq hes
  rw [h, parse_dotText_eq hes'] at hparse
  simp only [Option.some.injEq, GraphStmt.mk.injEq, true_and, List.append_cancel_left_eq] at hparse
  exact (List.map_injective_iff.mpr (fun _ _ => edgeStmt_injective) hparse).symm

def PrintsEntries (table : GraphPayload) (text : Str) : Prop :=
  ∃ es, text = dotText es ∧ es.map (fun e => (e.label, (e.source, e.target))) = tableEntries table

/--
Where a name is written over the vertex that was added for another name, for the last time, the two names are
the same. The vertices for the names of the pairs begin behind the `2 * K + 1` for the `K` keys.
-/
def KeepsNames (table : GraphPayload) : Prop :=
  ∀ w x, w < (tableServers table).length →
    CyclicWrites.lastWrite counterValues (tableServers table).length (2 * table.toList.length + 1 + w) = some x →
    (tableServers table)[x]? = (tableServers table)[w]?

theorem getElem?_pairs {α β : Type} (ps : List α) (f g : α → β) (j : Nat)
    : (ps.flatMap (fun e => [f e, g e]))[2 * j]? = ps[j]?.map f
      ∧ (ps.flatMap (fun e => [f e, g e]))[2 * j + 1]? = ps[j]?.map g := by
  induction ps generalizing j with
  | nil => simp
  | cons e ps ih =>
    cases j with
    | zero => simp
    | succ j => simpa [Nat.mul_succ] using ih j

theorem getElem?_pairs_eq_some_iff {α β : Type} {ps : List α} {f g : α → β} {x : Nat} {b : β}
    : (ps.flatMap (fun e => [f e, g e]))[x]? = some b
        ↔ ∃ (j : Nat) (e : α), ps[j]? = some e ∧ (f e = b ∧ 2 * j = x ∨ g e = b ∧ 2 * j + 1 = x) := by
  constructor
  . intro hx
    rcases Nat.even_or_odd' x with ⟨j, rfl | rfl⟩
    . rw [(getElem?_pairs ps f g j).1] at hx
      obtain ⟨e, he, hb⟩ := Option.map_eq_some_iff.mp hx
      exact ⟨j, e, he, Or.inl ⟨hb, rfl⟩⟩
    . rw [(getElem?_pairs ps f g j).2] at hx
      obtain ⟨e, he, hb⟩ := Option.map_eq_some_iff.mp hx
      exact ⟨j, e, he, Or.inr ⟨hb, rfl⟩⟩
  . rintro ⟨j, e, he, ⟨rfl, rfl⟩ | ⟨rfl, rfl⟩⟩
    . rw [(getElem?_pairs ps f g j).1, he, Option.map_some]
    . rw [(getElem?_pairs ps f g j).2, he, Option.map_some]

theorem getElem?_tableServers (table : GraphPayload) (j : Nat)
    : (tableServers table)[2 * j]? = (tableEntries table)[j]?.map (fun e => e.2.1)
      ∧ (tableServers table)[2 * j + 1]? = (tableEntries table)[j]?.map (fun e => e.2.2) :=
  getElem?_pairs (tableEntries table) (fun e => e.2.1) (fun e => e.2.2) j

theorem keepsNames_of_length_le {table : GraphPayload}
    (h : (tableEntries table).length ≤ table.toList.length)
    : KeepsNames table := by
  intro w x hw hx
  have hlt := CyclicWrites.lastWrite_lt hx
  have hmod := CyclicWrites.lastWrite_mod hx
  have hle := Nat.mod_le x counterValues
  rw [length_tableServers] at hlt
  omega

namespace GraphMapper

theorem finalName_eq {table : GraphPayload} {w : Nat} (hw : w < (tableServers table).length)
    : some ((ofServersData table).finalName (2 * table.toList.length + 1 + w))
      = match CyclicWrites.lastWrite counterValues (tableServers table).length
            (2 * table.toList.length + 1 + w) with
        | some x => (tableServers table)[x]?
        | none => (tableServers table)[w]? := by
  have hlength : (serversOf (tableEntries table)).length = (tableServers table).length := by
    rw [length_serversOf, length_tableServers]
  have hname : ∀ x, x < (tableServers table).length →
      some ((serversOf (tableEntries table))[x]?.getD {}).serverName = (tableServers table)[x]? := by
    intro x hx
    rw [← serverNames_serversOf, List.getElem?_map, List.getElem?_eq_getElem (by rwa [hlength])]
    rfl
  simp only [finalName, ofServersData, CyclicWrites.contents, hlength]
  cases hx : CyclicWrites.lastWrite counterValues (tableServers table).length
      (2 * table.toList.length + 1 + w) with
  | some x => exact hname x (CyclicWrites.lastWrite_lt hx)
  | none =>
    dsimp only
    rw [List.getElem?_append_right (by simp), List.length_replicate, Nat.add_sub_cancel_left]
    exact hname w hw

theorem isName_finalName {table : GraphPayload} (hnames : ∀ name ∈ tableServers table, IsName name) {w : Nat}
    (hw : w < (tableServers table).length)
    : IsName ((ofServersData table).finalName (2 * table.toList.length + 1 + w)) := by
  have heq := finalName_eq hw
  split at heq
  . exact hnames _ (List.mem_of_getElem? heq.symm)
  . exact hnames _ (List.mem_of_getElem? heq.symm)

theorem keepsNames_iff {table : GraphPayload}
    : KeepsNames table ↔ ∀ w, w < (tableServers table).length →
        some ((ofServersData table).finalName (2 * table.toList.length + 1 + w)) = (tableServers table)[w]? := by
  constructor
  . intro h w hw
    rw [finalName_eq hw]
    split
    . next x hx => exact h w x hw hx
    . rfl
  . intro h w x hw hx
    have heq := finalName_eq hw
    rw [h w hw, hx] at heq
    exact heq.symm

theorem printed_eq (table : GraphPayload)
    : (ofServersData table).printed.map (fun e => (e.label, (e.source, e.target)))
      = (tableEntries table).zipIdx.map (fun e => (e.1.1,
          ((ofServersData table).finalName (2 * table.toList.length + 1 + 2 * e.2),
            (ofServersData table).finalName (2 * table.toList.length + 1 + 2 * e.2 + 1)))) := by
  simp [printed, edgesFrom, printedEdge, ofServersData]

theorem printed_eq_tableEntries_iff {table : GraphPayload}
    : (ofServersData table).printed.map (fun e => (e.label, (e.source, e.target))) = tableEntries table
      ↔ KeepsNames table := by
  rw [printed_eq, keepsNames_iff]
  have hsource : ∀ j, (tableServers table)[2 * j]? = _ := fun j => (getElem?_tableServers table j).1
  have htarget : ∀ j, (tableServers table)[2 * j + 1]? = _ := fun j => (getElem?_tableServers table j).2
  constructor
  . intro h w hw
    rw [length_tableServers] at hw
    have hlt : w / 2 < (tableEntries table).length := by omega
    have hget := congrArg (fun l => l[w / 2]?) h
    simp only [List.getElem?_map, List.getElem?_zipIdx, List.getElem?_eq_getElem hlt, Option.map_some,
      Nat.zero_add, Option.some.injEq] at hget
    rcases Nat.mod_two_eq_zero_or_one w with hmod | hmod
    . have heq : w = 2 * (w / 2) := by omega
      rw [heq, hsource, List.getElem?_eq_getElem hlt, Option.map_some, ← hget]
    . have heq : w = 2 * (w / 2) + 1 := by omega
      rw [heq, htarget, List.getElem?_eq_getElem hlt, Option.map_some, ← hget]
      rfl
  . intro h
    apply List.ext_getElem?
    intro j
    by_cases hj : j < (tableEntries table).length
    . have hfirst := h (2 * j) (by rw [length_tableServers]; omega)
      have hsecond := h (2 * j + 1) (by rw [length_tableServers]; omega)
      rw [hsource, List.getElem?_eq_getElem hj, Option.map_some, Option.some.injEq] at hfirst
      rw [htarget, List.getElem?_eq_getElem hj, Option.map_some, Option.some.injEq, ← Nat.add_assoc] at hsecond
      simp only [List.getElem?_map, List.getElem?_zipIdx, List.getElem?_eq_getElem hj, Option.map_some,
        Nat.zero_add, hfirst, hsecond]
    . simp [Nat.le_of_not_lt hj]

theorem hasNames_printed {table : GraphPayload} (hnames : ∀ name ∈ tableServers table, IsName name)
    : ∀ e ∈ (ofServersData table).printed, HasNames e := by
  intro e he
  obtain ⟨edge, hedge, rfl⟩ := List.mem_map.mp he
  obtain ⟨hbase, hsource, htarget, hlt⟩ := mem_edgesFrom hedge
  have hfinal : ∀ v, 2 * table.toList.length + 1 ≤ v →
      v < 2 * table.toList.length + 1 + 2 * (tableEntries table).length →
      IsName ((ofServersData table).finalName v) := by
    intro v hle hv
    obtain ⟨w, rfl⟩ := Nat.exists_eq_add_of_le hle
    exact isName_finalName hnames (by rw [length_tableServers]; omega)
  have hle : 2 * table.toList.length + 1 ≤ edge.source := hbase
  exact ⟨hfinal edge.source hle hsource, hfinal edge.target (by omega) hlt⟩

theorem isName_of_generateData {g : AdjacencyObjectsGenerator} {d : Draws} {table : GraphPayload}
    (htable : g.generateData d = .ok table)
    : ∀ name ∈ tableServers table, IsName name := by
  intro name hname
  obtain ⟨entry, hentry, hname⟩ := List.mem_flatMap.mp hname
  obtain ⟨pathNode, hpathNode, hentry⟩ := List.mem_flatMap.mp hentry
  obtain ⟨sNode, hsNode, rfl⟩ := List.mem_map.mp hentry
  have hnames := (g.isEntry_of_generateData htable pathNode hpathNode).2 sNode hsNode
  simp only [List.mem_cons, List.not_mem_nil, or_false] at hname
  rcases hname with rfl | rfl
  . exact hnames.1
  . exact hnames.2

theorem hasNames_of_map_eq {table : GraphPayload} (hnames : ∀ name ∈ tableServers table, IsName name)
    {es : List EdgeStatement} (hes : es.map (fun e => (e.label, (e.source, e.target))) = tableEntries table)
    : ∀ e ∈ es, HasNames e := by
  intro e he
  have hentry : (e.label, (e.source, e.target)) ∈ tableEntries table := by
    rw [← hes]
    exact List.mem_map.mpr ⟨e, he, rfl⟩
  have hmem : ∀ name ∈ [e.source, e.target], IsName name :=
    fun name hname => hnames name (List.mem_flatMap.mpr ⟨_, hentry, hname⟩)
  exact ⟨hmem e.source (by simp), hmem e.target (by simp)⟩

theorem getShortestPath_printsEntries_iff {g : AdjacencyObjectsGenerator} {d : Draws} {table : GraphPayload}
    (htable : g.generateData d = .ok table) (env : MapperEnv)
    : ∃ m, (ofServersData table).getShortestPath env = .ok m
        ∧ (PrintsEntries table m.getGraph ↔ KeepsNames table) := by
  obtain ⟨G, -, -, -, hpath⟩ := getShortestPath_eq_ok (ofServersData table) env
  have hnames := isName_of_generateData htable
  refine ⟨_, hpath, ?_⟩
  rw [← printed_eq_tableEntries_iff]
  constructor
  . rintro ⟨es, htext, hes⟩
    have heq := dotText_injective (hasNames_printed hnames) (hasNames_of_map_eq hnames hes) htext
    rw [heq, hes]
  . intro h
    exact ⟨_, rfl, h⟩

theorem getShortestPath_printsEntries_draw
    : let table : GraphPayload := (OrdMap.empty.alter 5 (fun _ => [(['A'], ['B'])])).alter 6
        (fun _ => [(['B'], ['A'])])
      ∃ m, (ofServersData table).getShortestPath isolatedStart = .ok m
        ∧ (PrintsEntries table m.getGraph ↔ KeepsNames table) := by
  intro table
  have htable : (AdjacencyObjectsGenerator.ofDims 2 1 1).generateData
      ⟨fun n _ => n, fun _ _ => 1, fun n _ => n + 4⟩ = .ok table := rfl
  exact getShortestPath_printsEntries_iff htable isolatedStart

theorem not_printsEntries_draw
    : let g : AdjacencyObjectsGenerator := .ofDims 3 1 1
      let d : Draws := ⟨fun n _ => n, fun i _ => if i = 0 then 1 else 0, fun _ _ => 4⟩
      let table : GraphPayload := OrdMap.empty.alter 5 (fun _ => [(['A'], ['B']), (['A'], ['C'])])
      let text : Str := dotText [⟨['C'], ['B'], 5, .blue⟩, ⟨['A'], ['C'], 5, .blue⟩]
      g.generateData d = .ok table
        ∧ (ofServersData table).getShortestPath isolatedStart = .ok { ofServersData table with graphData := text }
        ∧ ¬ PrintsEntries table text := by
  intro g d table text
  obtain ⟨G, -, -, -, hpath⟩ := getShortestPath_eq_ok (ofServersData table) isolatedStart
  have hnames : ∀ name ∈ tableServers table, IsName name := by unfold IsName; decide
  refine ⟨rfl, hpath, ?_⟩
  rintro ⟨es, htext, hes⟩
  have heq := dotText_injective (by unfold HasNames IsName; decide) (hasNames_of_map_eq hnames hes) htext
  rw [← heq] at hes
  exact absurd hes (by decide)

end GraphMapper
