import GraphManipulator.Client.Page
import GraphManipulator.GraphMapper.Representation
import GraphManipulator.GraphlibDot.RoundTrip
import Mathlib.Data.List.Chain

/-!
This module contains what the page does with the text of a graph: it contains no `error`, so that it is
parsed, and the tree has the edges that the server wrote.
-/

namespace Client

open GraphlibDot

theorem indexOf_eq_neg_one {s w : Str} (hw : w ≠ []) (h : ¬ w <:+: s) : indexOf s w = -1 := by
  induction s with
  | nil => simp [indexOf, hw]
  | cons c s ih =>
    have hprefix : ¬ w.isPrefixOf (c :: s) = true := by
      intro hp
      exact h (List.isPrefixOf_iff_prefix.mp hp).isInfix
    have hinfix : ¬ w <:+: s := by
      intro hi
      exact h (hi.trans (List.suffix_cons c s).isInfix)
    rw [indexOf, if_neg hprefix, ih hinfix]
    rfl

abbrev NoDoubleR (s : List Char) : Prop := s.IsChain (fun a b => a = 'r' → b ≠ 'r')

theorem noDoubleR_of_forall {s : List Char} (h : ∀ c ∈ s, c ≠ 'r') : NoDoubleR s := by
  induction s with
  | nil => exact .nil
  | cons c s ih =>
    rw [List.forall_mem_cons] at h
    rw [NoDoubleR, List.isChain_cons]
    exact ⟨fun _ _ hc => absurd hc h.1, ih h.2⟩

theorem NoDoubleR.append {s t : List Char} (hs : NoDoubleR s) (ht : NoDoubleR t) (hhead : t.head? ≠ some 'r')
    : NoDoubleR (s ++ t) := by
  rw [NoDoubleR, List.isChain_append]
  refine ⟨hs, ht, ?_⟩
  rintro a - b hb - rfl
  exact hhead hb

theorem not_infix_error {s : List Char} (h : NoDoubleR s) : ¬ "error".toList <:+: s := by
  intro hinfix
  have hchain : NoDoubleR "error".toList := h.infix hinfix
  exact absurd hchain (by decide)

theorem NoDoubleR.append_of_forall {s t : List Char} (hs : NoDoubleR s) (ht : ∀ c ∈ t, c ≠ 'r')
    : NoDoubleR (s ++ t) := by
  apply hs.append (noDoubleR_of_forall ht)
  intro hhead
  exact ht 'r' (List.mem_of_mem_head? hhead) rfl

theorem ne_r_of_isName {u : Str} (hu : IsName u) : ∀ c ∈ u, c ≠ 'r' := by
  rintro c hc rfl
  exact absurd (hu.2 'r' hc) (by decide)

theorem ne_r_of_mem_intText (n : Int) : ∀ c ∈ intText n, c ≠ 'r' := by
  have hdigits : ∀ n, 'r' ∉ Nat.toDigits 10 n := fun n h => absurd (isDigit_of_mem_toDigits h) (by decide)
  rintro c hc rfl
  cases n with
  | ofNat n => exact hdigits n hc
  | negSucc n =>
    rcases List.mem_cons.mp hc with heq | hc
    . exact absurd heq (by decide)
    . exact hdigits _ hc

theorem ne_r_of_mem_name (c : Color) : ∀ d ∈ c.name, d ≠ 'r' := by
  cases c <;> decide

theorem noDoubleR_text {e : EdgeStatement} (he : HasNames e) : NoDoubleR e.text := by
  have hnames : NoDoubleR (e.source ++ " -> ".toList ++ e.target) :=
    ((noDoubleR_of_forall (ne_r_of_isName he.1)).append_of_forall (by decide)).append_of_forall
      (ne_r_of_isName he.2)
  have hlabel : NoDoubleR (e.source ++ " -> ".toList ++ e.target ++ "[label=\"".toList ++ intText e.label
      ++ "\"".toList) :=
    ((hnames.append_of_forall (by decide)).append_of_forall (ne_r_of_mem_intText _)).append_of_forall
      (by decide)
  have hcolor : NoDoubleR (e.source ++ " -> ".toList ++ e.target ++ "[label=\"".toList ++ intText e.label
      ++ "\"".toList ++ ", color=\"".toList) :=
    hlabel.append (by decide) (by decide)
  exact ((hcolor.append_of_forall (ne_r_of_mem_name _)).append_of_forall (by decide)).append_of_forall
    (by decide)

theorem noDoubleR_edgesText {es : List EdgeStatement} (hes : ∀ e ∈ es, HasNames e)
    : NoDoubleR (edgesText es) := by
  induction es with
  | nil => exact noDoubleR_of_forall (by decide)
  | cons e es ih =>
    rw [List.forall_mem_cons] at hes
    rw [edgesText, List.flatMap_cons, List.append_assoc]
    exact (noDoubleR_text hes.1).append (ih hes.2) (head?_edgesText_ne hes.2 (by decide) (by decide))

theorem noDoubleR_dotText {es : List EdgeStatement} (hes : ∀ e ∈ es, HasNames e)
    : NoDoubleR (dotText es) := by
  have hheader : NoDoubleR GraphMapper.header := by decide +kernel
  rw [dotText, List.append_assoc]
  exact hheader.append (noDoubleR_edgesText hes) (head?_edgesText_ne hes (by decide) (by decide))

/--
What the mapper writes for a graph with these statements is parsed, and the tree has them in order. The loop over
the edges writes them for any parents, so that the statements might be black as well.
-/
theorem onmessage_dotText {es : List EdgeStatement} (hes : ∀ e ∈ es, HasNames e)
    : (∀ (m : GraphMapper) env G, m.buildGraph = .ok G → GraphMapper.edgeStatements G = .ok es →
        ∃ m', m.getShortestPath env = .ok m' ∧ m'.getGraph = dotText es)
      ∧ (∀ (G : ServersGraph) p, G.edges.mapM (GraphMapper.edgeStatement G p) = .ok es →
        ∃ state, G.edges.foldlM (GraphMapper.printEdge G p) { graphStream := GraphMapper.header } = .ok state
          ∧ state.graphStream ++ "\x7d".toList = dotText es)
      ∧ onmessage (dotText es) = .render (some {
          type := "digraph".toList
          id := "D".toList
          stmts := some (headerStmts ++ es.map edgeStmt)
        }) := by
  refine ⟨?_, ?_, ?_⟩
  . intro m env G hbuild hstatements
    exact GraphMapper.getGraph_of_edgeStatements env hbuild hstatements
  . intro G p hstatements
    obtain ⟨state, hprint, hstream⟩ :=
      GraphMapper.printEdges_eq_ok hstatements { graphStream := GraphMapper.header }
    exact ⟨state, hprint, by rw [hstream]; rfl⟩
  . have hindex : indexOf (dotText es) "error".toList = -1 :=
      indexOf_eq_neg_one (by decide) (not_infix_error (noDoubleR_dotText hes))
    rw [onmessage, hindex, if_neg (by decide), parse_dotText_eq hes]

def keywordsTable : GraphPayload :=
  (OrdMap.empty.insert 0 [("EDGES".toList, "GRAPH".toList)]).insert 17 [("NODE".toList, "SUBGRAPH".toList)]

def keywordsStatements : List EdgeStatement := [
  ⟨"EDGES".toList, "GRAPH".toList, 0, .blue⟩,
  ⟨"NODE".toList, "SUBGRAPH".toList, 17, .blue⟩
]

theorem edgeStatements_keywords
    : ∃ G, (GraphMapper.ofServersData keywordsTable).buildGraph = .ok G
        ∧ GraphMapper.edgeStatements G = .ok keywordsStatements := by
  refine ⟨_, rfl, ?_⟩
  decide +kernel

theorem onmessage_dotText_keywords
    : ∃ m', (GraphMapper.ofServersData keywordsTable).getShortestPath GraphMapper.isolatedStart = .ok m'
        ∧ onmessage m'.getGraph = .render (some {
            type := "digraph".toList
            id := "D".toList
            stmts := some (headerStmts ++ keywordsStatements.map edgeStmt)
          }) := by
  obtain ⟨G, hbuild, hstatements⟩ := edgeStatements_keywords
  have hes : ∀ e ∈ keywordsStatements, HasNames e := by
    unfold HasNames IsName
    decide
  obtain ⟨hprinted, -, hparsed⟩ := onmessage_dotText hes
  obtain ⟨m', hpath, hgraph⟩ := hprinted _ GraphMapper.isolatedStart G hbuild hstatements
  exact ⟨m', hpath, hgraph ▸ hparsed⟩

end Client
