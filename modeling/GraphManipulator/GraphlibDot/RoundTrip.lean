import GraphManipulator.GraphlibDot.DotText

/-!
This module contains the round trip from the server to the client: the grammar reads the text that the mapper
writes as the graph with exactly the edges that were written.
-/

namespace GraphlibDot

open Peg

theorem isIdent_size : IsIdent "size".toList := ⟨'s', "ize".toList, rfl, by decide, by decide⟩

theorem isIdent_ratio : IsIdent "ratio".toList := ⟨'r', "atio".toList, rfl, by decide, by decide⟩

theorem isIdent_edge : IsIdent "edge".toList := ⟨'e', "dge".toList, rfl, by decide, by decide⟩

theorem isIdent_node : IsIdent "node".toList := ⟨'n', "ode".toList, rfl, by decide, by decide⟩

theorem isPlainText_size : IsPlainText "4,3".toList := by
  unfold IsPlainText
  decide

theorem isPlainText_ratio : IsPlainText "fill".toList := by
  unfold IsPlainText
  decide

theorem parseStmtList_headerText {es : List EdgeStatement} (hes : ∀ e ∈ es, HasNames e) (fuel : Nat)
    : (parseStmtList true (fuel + 1)).run (headerText (edgesText es))
        = .ok (headerStmts ++ es.map edgeStmt) ['}'] := by
  let sl := parseStmtList true fuel
  have hnode := star_cons
    (parseNextStmt_block sl isIdent_node nodeKeyword isAttr_shape (by decide : ∀ c ∈ ['\n'], _)
      (beginsStmt_edgesText hes))
    (length_lt_blockText _ _ _ _) (star_parseNextStmt sl hes)
  have hedge := star_cons
    (parseNextStmt_block sl isIdent_edge edgeKeyword isAttr_style (by decide : ∀ c ∈ indentation, _)
      (beginsStmt_blockText isIdent_node _ _ _))
    (length_lt_blockText _ _ _ _) hnode
  have hratio := star_cons
    (parseNextStmt_quoted sl isIdent_ratio keyword_ratio isPlainText_ratio
      (beginsStmt_blockText isIdent_edge _ _ _))
    (length_lt_quotedText _ _ _) hedge
  have hsize := star_cons
    (parseNextStmt_quoted sl isIdent_size keyword_size isPlainText_size
      (beginsStmt_quotedText isIdent_ratio _ _))
    (length_lt_quotedText _ _ _) hratio
  have hbegins := beginsStmt_quotedText isIdent_size "4,3".toList
    (quotedText "ratio".toList "fill".toList
      (blockText "edge".toList ("style".toList, "bold".toList) indentation
        (blockText "node".toList ("shape".toList, "circle".toList) ['\n'] (edgesText es))))
  unfold parseStmtList headerText
  rw [bind_ok (parseStmt_rankdir sl _), bind_ok (blanks_append (by decide) hbegins.ends.1),
    bind_ok (opt_fail (word_fail hbegins.noSemicolon)), bind_ok hsize]
  rfl

theorem parseGraphType_digraph (s : List Char)
    : parseGraphType.run ("digraph".toList ++ s) = .ok "digraph".toList s := by
  have hgraph : parseGraph.run ("digraph".toList ++ s) = .fail := keyword_fail (by simp)
  have hdigraph : parseDigraph.run ("digraph".toList ++ s) = .ok "digraph".toList s := keyword_ok (by decide)
  unfold parseGraphType
  rw [choice_fail hgraph, hdigraph]

theorem parse_dotText_eq {es : List EdgeStatement} (hes : ∀ e ∈ es, HasNames e)
    : parse (dotText es) = some {
        type := "digraph".toList
        id := "D".toList
        stmts := some (headerStmts ++ es.map edgeStmt)
      } := by
  have hdigraph : IsIdent "digraph".toList := ⟨'d', "igraph".toList, rfl, by decide, by decide⟩
  have hrankdir : NoBlank (headerText (edgesText es)) :=
    noBlank_of_isIdent ⟨'r', "ankdir".toList, rfl, by decide, by decide⟩ _
  have hstrict : ∀ s, parseStrict.run ("digraph".toList ++ s) = .fail := fun s => keyword_fail (by simp)
  have hD : ∀ s, blanks.run (' ' :: 'D' :: s) = .ok () ('D' :: s) := fun s =>
    blanks_append (w := [' ']) (by decide) (noBlank_cons _ (by decide) (by decide))
  have hid : ∀ s, parseId.run ('D' :: ' ' :: s) = .ok ['D'] (' ' :: s) := fun s =>
    parseId_ident (u := ['D']) ⟨'D', [], rfl, by decide, by decide⟩ (ends_cons _ (by decide))
  have hopen : ∀ s, blanks.run (' ' :: '{' :: s) = .ok () ('{' :: s) := fun s =>
    blanks_append (w := [' ']) (by decide) (noBlank_cons _ (by decide) (by decide))
  have hdirected : decide ("digraph".toList = "digraph".toList) = true := decide_eq_true rfl
  have hclose : blanks.run ['}'] = .ok () ['}'] := blanks_nil (noBlank_cons _ (by decide) (by decide))
  have hend : blanks.run [] = .ok () [] := rfl
  have hgraphStmt : (parseGraphStmt ((dotText es).length + 1)).run (dotText es) = .ok {
      type := "digraph".toList
      id := "D".toList
      stmts := some (headerStmts ++ es.map edgeStmt)
    } [] := by
    rw [dotText_eq]
    unfold parseGraphStmt
    rw [bind_ok (blanks_nil (noBlank_of_isIdent hdigraph _)), bind_ok (opt_fail (bind_fail (hstrict _))),
      bind_ok (parseGraphType_digraph _), bind_ok (hD _), bind_ok (opt_ok (hid _)), bind_ok (hopen _),
      bind_ok (word_singleton_ok '{'), bind_ok (blanks_append (by decide) hrankdir), hdirected,
      bind_ok (opt_ok (parseStmtList_headerText hes _)), bind_ok hclose, bind_ok (word_singleton_ok '}'),
      bind_ok hend]
    rfl
  simp only [parse, hgraphStmt]

end GraphlibDot
