import GraphManipulator.AdjacencyObjectsGenerator.Positions
import GraphManipulator.GraphMapper.BuiltGraph

/-!
This module contains which names the text of the mapper mentions: those of the pairs that are not written over,
in terms of the draws for the table.
-/

namespace GraphlibDot

mutual

def Stmt.nodeIds (stmt : Stmt) : List Str :=
  match stmt with
  | .attr _ _ => []
  | .inlineAttr _ => []
  | .node id _ => [id]
  | .edge elems _ => nodeIdsOfList elems
  | .subgraph _ stmts => nodeIdsOfOption stmts

def nodeIdsOfList (stmts : List Stmt) : List Str :=
  match stmts with
  | [] => []
  | stmt :: tail => stmt.nodeIds ++ nodeIdsOfList tail

def nodeIdsOfOption (stmts : Option (List Stmt)) : List Str :=
  match stmts with
  | none => []
  | some stmts => nodeIdsOfList stmts

end

def GraphStmt.nodeIds (tree : GraphStmt) : List Str := nodeIdsOfOption tree.stmts

theorem mem_nodeIdsOfList {stmts : List Stmt} {id : Str}
    : id ∈ nodeIdsOfList stmts ↔ ∃ stmt ∈ stmts, id ∈ stmt.nodeIds := by
  induction stmts with
  | nil => simp [nodeIdsOfList]
  | cons stmt stmts ih => simp [nodeIdsOfList, ih]

theorem mem_nodeIds_headerStmts {stmt : Stmt} (h : stmt ∈ headerStmts) (id : Str) : id ∉ stmt.nodeIds := by
  simp only [headerStmts, List.mem_cons, List.not_mem_nil, or_false] at h
  rcases h with rfl | rfl | rfl | rfl | rfl <;> simp [Stmt.nodeIds]

theorem mem_nodeIds_dotText {es : List EdgeStatement} (hes : ∀ e ∈ es, HasNames e)
    : ∃ tree, parse (dotText es) = some tree
        ∧ ∀ id, id ∈ tree.nodeIds ↔ ∃ e ∈ es, e.source = id ∨ e.target = id := by
  refine ⟨_, parse_dotText_eq hes, ?_⟩
  intro id
  rw [GraphStmt.nodeIds, nodeIdsOfOption, mem_nodeIdsOfList]
  constructor
  . rintro ⟨stmt, hstmt, hid⟩
    rcases List.mem_append.mp hstmt with hheader | hedge
    . exact absurd hid (mem_nodeIds_headerStmts hheader id)
    . obtain ⟨e, he, rfl⟩ := List.mem_map.mp hedge
      refine ⟨e, he, ?_⟩
      simpa [edgeStmt, Stmt.nodeIds, nodeIdsOfList, eq_comm] using hid
  . rintro ⟨e, he, hid⟩
    refine ⟨edgeStmt e, List.mem_append.mpr (Or.inr (List.mem_map_of_mem he)), ?_⟩
    simpa [edgeStmt, Stmt.nodeIds, nodeIdsOfList, eq_comm] using hid

end GraphlibDot

theorem map_snd_tableEntries (table : GraphPayload)
    : (tableEntries table).map Prod.snd = AdjacencyObjectsGenerator.allPairs table := by
  simp [tableEntries, AdjacencyObjectsGenerator.allPairs, List.map_flatMap, Function.comp_def]

theorem tableServers_eq (table : GraphPayload)
    : tableServers table = (AdjacencyObjectsGenerator.allPairs table).flatMap (fun p => [p.1, p.2]) := by
  rw [← map_snd_tableEntries, List.flatMap_map]
  rfl

namespace GraphMapper

theorem exists_mem_printed_iff {table : GraphPayload} {name : Str}
    : (∃ e ∈ (ofServersData table).printed, e.source = name ∨ e.target = name)
        ↔ ∃ w < (tableServers table).length,
            (ofServersData table).finalName (2 * table.toList.length + 1 + w) = name := by
  rw [length_tableServers]
  constructor
  . rintro ⟨e, he, hname⟩
    obtain ⟨edge, hedge, rfl⟩ := List.mem_map.mp he
    obtain ⟨hbase, hsource, htarget, hlt⟩ := mem_edgesFrom hedge
    dsimp only [ofServersData] at hbase hsource hlt
    have hvertex : ∀ v, 2 * table.toList.length + 1 ≤ v →
        v < 2 * table.toList.length + 1 + 2 * (tableEntries table).length →
        (ofServersData table).finalName v = name →
        ∃ w < 2 * (tableEntries table).length,
          (ofServersData table).finalName (2 * table.toList.length + 1 + w) = name := by
      intro v hle hv hfinal
      obtain ⟨w, rfl⟩ := Nat.exists_eq_add_of_le hle
      exact ⟨w, by omega, hfinal⟩
    rcases hname with hname | hname
    . exact hvertex edge.source hbase hsource hname
    . exact hvertex edge.target (by omega) hlt hname
  . rintro ⟨w, hw, hname⟩
    have hprinted : ∀ j, j < (tableEntries table).length → ∃ e ∈ (ofServersData table).printed,
        e.source = (ofServersData table).finalName (2 * table.toList.length + 1 + 2 * j)
          ∧ e.target = (ofServersData table).finalName (2 * table.toList.length + 1 + 2 * j + 1) := by
      intro j hj
      have hget := getElem?_edgesFrom (2 * table.toList.length + 1) (tableEntries table) j
      rw [List.getElem?_eq_getElem hj, Option.map_some] at hget
      exact ⟨_, List.mem_map_of_mem (List.mem_of_getElem? hget), rfl, rfl⟩
    rcases Nat.even_or_odd' w with ⟨j, rfl | rfl⟩
    . obtain ⟨e, he, hsource, -⟩ := hprinted j (by omega)
      exact ⟨e, he, Or.inl (hsource.trans hname)⟩
    . obtain ⟨e, he, -, htarget⟩ := hprinted j (by omega)
      exact ⟨e, he, Or.inr (htarget.trans hname)⟩

theorem finalName_eq_contents {table : GraphPayload} {w : Nat} (hw : w < (tableServers table).length)
    : some ((ofServersData table).finalName (2 * table.toList.length + 1 + w))
        =
      CyclicWrites.contents counterValues (List.replicate (2 * table.toList.length + 1) [])
        (tableServers table) (2 * table.toList.length + 1 + w) := by
  rw [finalName_eq hw, CyclicWrites.contents]
  congr 1
  rw [List.getElem?_append_right (by simp), List.length_replicate, Nat.add_sub_cancel_left]

theorem mentions_iff {table : GraphPayload} {name : Str}
    : (∃ e ∈ (ofServersData table).printed, e.source = name ∨ e.target = name)
        ↔ ∃ x, (tableServers table)[x]? = some name
            ∧ CyclicWrites.Remains counterValues (2 * table.toList.length + 1) (tableServers table).length x := by
  have hcontents := CyclicWrites.exists_contents_iff (m := counterValues) (by decide)
    (List.replicate (2 * table.toList.length + 1) []) (tableServers table) (a := name)
  rw [List.length_replicate] at hcontents
  rw [exists_mem_printed_iff, ← hcontents]
  constructor
  . rintro ⟨w, hw, rfl⟩
    exact ⟨w, hw, (finalName_eq_contents hw).symm⟩
  . rintro ⟨w, hw, hname⟩
    rw [← finalName_eq_contents hw] at hname
    exact ⟨w, hw, Option.some.inj hname⟩

end GraphMapper

theorem length_tableEntries {g : AdjacencyObjectsGenerator} {d : Draws} {table : GraphPayload}
    (h : g.generateData d = .ok table)
    : (tableEntries table).length = (g.selectedNames d).card := by
  obtain ⟨ps, hps⟩ := AdjacencyObjectsGenerator.isTable_of_generateData h
  rw [← hps.length_eq, ← hps.perm.length_eq, ← map_snd_tableEntries, List.length_map]

namespace AdjacencyObjectsGenerator

/--
The name at place `x` among the names of the pairs, in the order of the table, is not lost to a later name. There
are two vertices for each key and one more before those for the pairs.
-/
def IsKept (g : AdjacencyObjectsGenerator) (d : Draws) (x : Nat) : Prop :=
  CyclicWrites.Remains counterValues (2 * (g.drawnKeys d).card + 1) (2 * (g.selectedNames d).card) x

instance (g : AdjacencyObjectsGenerator) (d : Draws) (x : Nat) : Decidable (g.IsKept d x) :=
  inferInstanceAs (Decidable (CyclicWrites.Remains _ _ _ _))

theorem isKept_iff {g : AdjacencyObjectsGenerator} {d : Draws} {x : Nat}
    (hle : 2 * (g.selectedNames d).card ≤ counterValues) (hx : x < 2 * (g.selectedNames d).card)
    : g.IsKept d x
        ↔ 2 * (g.drawnKeys d).card + 1 ≤ x
          ∨ 2 * (g.selectedNames d).card ≤ 2 * (g.drawnKeys d).card + 1 + x :=
  CyclicWrites.remains_iff_of_le hle hx

def Mentions (g : AdjacencyObjectsGenerator) (d : Draws) (name : Str) : Prop :=
  ∃ p ∈ g.selectedNames d,
    p.1 = name ∧ g.IsKept d (2 * g.position d p) ∨ p.2 = name ∧ g.IsKept d (2 * g.position d p + 1)

instance (g : AdjacencyObjectsGenerator) (d : Draws) (name : Str) : Decidable (g.Mentions d name) :=
  inferInstanceAs (Decidable (∃ _ ∈ _, _))

theorem mentions_iff_of_card_le {g : AdjacencyObjectsGenerator} {d : Draws}
    (h : (g.selectedNames d).card ≤ (g.drawnKeys d).card) {name : Str}
    : g.Mentions d name ↔ ∃ p ∈ g.selectedNames d, p.1 = name ∨ p.2 = name := by
  have hkept : ∀ x, g.IsKept d x := fun x => CyclicWrites.remains_of_le (by omega) x
  simp only [Mentions, hkept, and_true]

theorem IsTable.getElem?_tableServers_iff {g : AdjacencyObjectsGenerator} {d : Draws} {ps : List (Str × Str)}
    {table : GraphPayload} (h : g.IsTable d ps table) {x : Nat} {name : Str}
    : (tableServers table)[x]? = some name
        ↔ ∃ p ∈ g.selectedNames d,
            p.1 = name ∧ 2 * g.position d p = x ∨ p.2 = name ∧ 2 * g.position d p + 1 = x := by
  simp only [tableServers_eq, getElem?_pairs_eq_some_iff, h.getElem?_allPairs_iff]
  constructor
  . rintro ⟨j, p, ⟨hp, rfl⟩, hname⟩
    exact ⟨p, hp, hname⟩
  . rintro ⟨p, hp, hname⟩
    exact ⟨_, p, ⟨hp, rfl⟩, hname⟩

theorem mentions_iff_exists_printed {g : AdjacencyObjectsGenerator} {d : Draws} {table : GraphPayload}
    (h : g.generateData d = .ok table) {name : Str}
    : g.Mentions d name
        ↔ ∃ e ∈ (GraphMapper.ofServersData table).printed, e.source = name ∨ e.target = name := by
  obtain ⟨ps, hps⟩ := isTable_of_generateData h
  have hkept : ∀ x, g.IsKept d x ↔ CyclicWrites.Remains counterValues (2 * table.toList.length + 1)
      (tableServers table).length x := by
    intro x
    rw [IsKept, length_tableServers, length_tableEntries h, hps.length_toList]
  simp only [GraphMapper.mentions_iff, ← hkept, hps.getElem?_tableServers_iff, Mentions]
  constructor
  . rintro ⟨p, hp, ⟨hname, hx⟩ | ⟨hname, hx⟩⟩
    . exact ⟨_, ⟨p, hp, Or.inl ⟨hname, rfl⟩⟩, hx⟩
    . exact ⟨_, ⟨p, hp, Or.inr ⟨hname, rfl⟩⟩, hx⟩
  . rintro ⟨x, ⟨p, hp, ⟨hname, rfl⟩ | ⟨hname, rfl⟩⟩, hx⟩
    . exact ⟨p, hp, Or.inl ⟨hname, hx⟩⟩
    . exact ⟨p, hp, Or.inr ⟨hname, hx⟩⟩

end AdjacencyObjectsGenerator
