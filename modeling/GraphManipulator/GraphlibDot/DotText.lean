import GraphManipulator.AdjacencyObjectsGenerator.Lemmas
import GraphManipulator.GraphMapper.PrintLemmas
import GraphManipulator.GraphlibDot.StmtLemmas

/-!
This module contains the round trip from the server to the client: the grammar reads the text that the mapper
writes as the graph with exactly the edges that were written.
-/

namespace GraphlibDot

open Peg

def headerStmts : List Stmt := [
  .inlineAttr [("rankdir".toList, some "LR".toList)],
  .inlineAttr [("size".toList, some "4,3".toList)],
  .inlineAttr [("ratio".toList, some "fill".toList)],
  .attr "edge".toList [("style".toList, some "bold".toList)],
  .attr "node".toList [("shape".toList, some "circle".toList)]
]

def edgeStmt (e : EdgeStatement) : Stmt :=
  .edge [.node e.source [], .node e.target []]
    [("label".toList, some (intText e.label)), ("color".toList, some e.color.name)]

def HasNames (e : EdgeStatement) : Prop := IsName e.source ∧ IsName e.target

def edgesText (es : List EdgeStatement) : List Char := es.flatMap EdgeStatement.text ++ ['}']

theorem isPlainText_intText (n : Int) : IsPlainText (intText n) := by
  have hdigits : ∀ n, IsPlainText (Nat.toDigits 10 n) := by
    intro n c hc
    have hdigit := isDigit_of_mem_toDigits hc
    constructor <;> (rintro rfl; exact absurd hdigit (by decide))
  cases n with
  | ofNat n => exact hdigits n
  | negSucc n =>
    intro c hc
    rcases List.mem_cons.mp hc with rfl | hc
    . decide
    . exact hdigits _ c hc

theorem isPlainText_name (c : Color) : IsPlainText c.name := by
  cases c <;> (unfold IsPlainText; decide)

theorem isIdent_label : IsIdent "label".toList := ⟨'l', "abel".toList, rfl, by decide, by decide⟩

theorem isIdent_color : IsIdent "color".toList := ⟨'c', "olor".toList, rfl, by decide, by decide⟩

theorem text_append (e : EdgeStatement) (s : List Char)
    : e.text ++ s = e.source ++ ' ' :: '-' :: '>' :: ' ' :: (e.target ++ '[' ::
        attrText ("label".toList, intText e.label) (nextAttrsText [("color".toList, e.color.name)] s)) := by
  simp [EdgeStatement.text, attrText, nextAttrsText]

theorem head?_edgesText {es : List EdgeStatement} (hes : ∀ e ∈ es, HasNames e)
    : ∃ c, (edgesText es).head? = some c ∧ (c.isUpper = true ∨ c = '}') := by
  cases es with
  | nil => exact ⟨'}', rfl, Or.inr rfl⟩
  | cons e es =>
    obtain ⟨hne, hupper⟩ := (hes e (by simp)).1
    obtain ⟨c, w, hw⟩ := List.exists_cons_of_ne_nil hne
    rw [hw, List.forall_mem_cons] at hupper
    refine ⟨c, ?_, Or.inl hupper.1⟩
    rw [edgesText, List.flatMap_cons, List.append_assoc, text_append, hw]
    rfl

theorem head?_edgesText_ne {es : List EdgeStatement} (hes : ∀ e ∈ es, HasNames e) {d : Char}
    (hd : d.isUpper = false) (hbrace : d ≠ '}')
    : (edgesText es).head? ≠ some d := by
  obtain ⟨c, hhead, hc⟩ := head?_edgesText hes
  rw [hhead, ne_eq, Option.some.injEq]
  rintro rfl
  rcases hc with hc | hc
  . rw [hd] at hc
    contradiction
  . exact hbrace hc

theorem head?_ne_of_isIdent {k : Str} (hk : IsIdent k) (s : List Char) {d : Char} (hd : isIdStart d = false)
    : (k ++ s).head? ≠ some d := by
  obtain ⟨c, w, rfl, hc, -⟩ := hk
  simp only [List.cons_append, List.head?_cons, ne_eq, Option.some.injEq]
  rintro rfl
  rw [hd] at hc
  contradiction

structure BeginsStmt (s : List Char) : Prop where
  ends : EndsAttrs s
  noSemicolon : s.head? ≠ some ';'

theorem beginsStmt_of_isIdent {k : Str} (hk : IsIdent k) (s : List Char) : BeginsStmt (k ++ s) :=
  ⟨⟨noBlank_of_isIdent hk s, head?_ne_of_isIdent hk s (by decide)⟩, head?_ne_of_isIdent hk s (by decide)⟩

theorem noBlank_edgesText {es : List EdgeStatement} (hes : ∀ e ∈ es, HasNames e)
    : NoBlank (edgesText es) := by
  refine ⟨?_, head?_edgesText_ne hes (by decide) (by decide)⟩
  intro c hc
  simp only [isWhitespace, Bool.or_eq_false_iff, decide_eq_false_iff_not]
  refine ⟨⟨⟨?_, ?_⟩, ?_⟩, ?_⟩ <;>
    (rintro rfl; exact absurd hc (head?_edgesText_ne hes (by decide) (by decide)))

theorem beginsStmt_edgesText {es : List EdgeStatement} (hes : ∀ e ∈ es, HasNames e)
    : BeginsStmt (edgesText es) :=
  ⟨⟨noBlank_edgesText hes, head?_edgesText_ne hes (by decide) (by decide)⟩,
    head?_edgesText_ne hes (by decide) (by decide)⟩

theorem keyword_fail {k s : List Char} (h : (s.take k.length).map Char.toLower ≠ k)
    : (keyword k).run s = .fail :=
  bind_fail (by simp only [wordBy, if_neg h])

section

variable (sl : Rule (List Stmt))

theorem parseNextStmt_ok {s w t : List Char} {stmt : Stmt} (hs : NoBlank s)
    (hstmt : (parseStmt true sl).run s = .ok stmt (w ++ t)) (hw : ∀ c ∈ w, isWhitespace c = true)
    (ht : BeginsStmt t)
    : (parseNextStmt true sl).run s = .ok stmt t := by
  unfold parseNextStmt
  rw [bind_ok (blanks_nil hs), bind_ok hstmt, bind_ok (blanks_append hw ht.ends.1),
    bind_ok (opt_fail (word_fail ht.noSemicolon)), pure_apply]

theorem parseNextStmt_edge {e : EdgeStatement} {es : List EdgeStatement} (he : HasNames e)
    (hes : ∀ e ∈ es, HasNames e)
    : (parseNextStmt true sl).run (e.text ++ edgesText es) = .ok (edgeStmt e) (edgesText es) := by
  obtain ⟨⟨hune, hu⟩, ⟨hvne, hv⟩⟩ := he
  have hattr : IsAttr ("label".toList, intText e.label) := ⟨isIdent_label, isPlainText_intText _⟩
  have hattrs : ∀ a ∈ [("color".toList, e.color.name)], IsAttr a := by
    intro a ha
    rw [List.mem_singleton.mp ha]
    exact ⟨isIdent_color, isPlainText_name _⟩
  have hnext := beginsStmt_edgesText hes
  rw [text_append]
  apply parseNextStmt_ok sl (w := [])
  . exact noBlank_of_isIdent (isIdent_of_isUpper hune hu) _
  . exact parseStmt_edge sl hune hu hvne hv hattr hattrs hnext.ends
  . simp
  . exact hnext

theorem parseNextStmt_brace : (parseNextStmt true sl).run ['}'] = .fail := by
  have hid : parseId.run ['}'] = .fail := parseId_fail [] (by decide)
  have hnodeId : parseNodeId.run ['}'] = .fail := bind_fail hid
  have hgraph : parseGraph.run ['}'] = .fail := keyword_fail (by decide)
  have hnode : parseNode.run ['}'] = .fail := keyword_fail (by decide)
  have hedge : parseEdge.run ['}'] = .fail := keyword_fail (by decide)
  have hkeyword : parseSubgraph.run ['}'] = .fail := keyword_fail (by decide)
  have hattrStmt : parseAttrStmt.run ['}'] = .fail := by
    apply bind_fail
    rw [choice_fail hgraph, choice_fail hnode, hedge]
  have hsubgraphStmt : (parseSubgraphStmt sl).run ['}'] = .fail := by
    unfold parseSubgraphStmt
    rw [bind_ok (opt_fail (bind_fail hkeyword))]
    exact bind_fail (word_fail (by decide))
  have hedgeStmt : (parseEdgeStmt true sl).run ['}'] = .fail := by
    apply bind_fail
    unfold parseNodeIdOrSubgraph
    rw [choice_fail hsubgraphStmt, bind_fail hnodeId]
  have hinlineAttrStmt : parseInlineAttrStmt.run ['}'] = .fail := bind_fail hid
  have hnodeStmt : parseNodeStmt.run ['}'] = .fail := bind_fail hnodeId
  unfold parseNextStmt
  rw [bind_ok (blanks_nil (noBlank_cons _ (by decide) (by decide)))]
  apply bind_fail
  unfold parseStmt
  rw [choice_fail hattrStmt, choice_fail hedgeStmt, choice_fail hsubgraphStmt,
    choice_fail hinlineAttrStmt, hnodeStmt]

theorem star_parseNextStmt {es : List EdgeStatement} (hes : ∀ e ∈ es, HasNames e)
    : (star (parseNextStmt true sl)).run (edgesText es) = .ok (es.map edgeStmt) ['}'] := by
  induction es with
  | nil => exact star_nil (parseNextStmt_brace sl)
  | cons e es ih =>
    rw [List.forall_mem_cons] at hes
    have heq : edgesText (e :: es) = e.text ++ edgesText es := by simp [edgesText]
    rw [heq]
    refine star_cons (parseNextStmt_edge sl hes.1 hes.2) ?_ (ih hes.2)
    have hpos : 0 < e.text.length := by simp [EdgeStatement.text]
    rw [List.length_append]
    omega

structure NotKeyword (k : Str) : Prop where
  graph : ∀ s, parseGraph.run (k ++ '=' :: s) = .fail
  node : ∀ s, parseNode.run (k ++ '=' :: s) = .fail
  edge : ∀ s, parseEdge.run (k ++ '=' :: s) = .fail
  subgraph : ∀ s, parseSubgraph.run (k ++ '=' :: s) = .fail

theorem parseStmt_inlineAttr {k s t v : List Char} (hk : IsIdent k) (hkeyword : NotKeyword k)
    (hs : NoBlank s) (hv : parseId.run s = .ok v t)
    : (parseStmt true sl).run (k ++ '=' :: s) = .ok (.inlineAttr (Attrs.set [] k (some v))) t := by
  have hattrStmt : parseAttrStmt.run (k ++ '=' :: s) = .fail := by
    apply bind_fail
    rw [choice_fail (hkeyword.graph s), choice_fail (hkeyword.node s), hkeyword.edge s]
  have hid : parseId.run (k ++ '=' :: s) = .ok k ('=' :: s) := parseId_ident hk (ends_cons _ (by decide))
  have hequals : blanks.run ('=' :: s) = .ok () ('=' :: s) :=
    blanks_nil (noBlank_cons s (by decide) (by decide))
  have hbrace : (k ++ '=' :: s).head? ≠ some '{' := by
    obtain ⟨c, w, rfl, hc, -⟩ := hk
    simp only [List.cons_append, List.head?_cons, ne_eq, Option.some.injEq]
    rintro rfl
    exact absurd hc (by decide)
  have hsubgraphStmt : (parseSubgraphStmt sl).run (k ++ '=' :: s) = .fail := by
    unfold parseSubgraphStmt
    rw [bind_ok (opt_fail (bind_fail (hkeyword.subgraph s)))]
    exact bind_fail (word_fail hbrace)
  have hnodeId : parseNodeId.run (k ++ '=' :: s) = .ok k ('=' :: s) := by
    have hport : parsePort.run ('=' :: s) = .fail := bind_fail (word_fail (by simp))
    unfold parseNodeId
    rw [bind_ok hid, bind_ok hequals, bind_ok (opt_fail hport), pure_apply]
  have hedgeStmt : (parseEdgeStmt true sl).run (k ++ '=' :: s) = .fail := by
    have hrhs : (parseEdgeRHS true sl).run ('=' :: s) = .fail := parseEdgeRHS_fail sl (by simp)
    unfold parseEdgeStmt parseNodeIdOrSubgraph
    rw [bind_ok (by rw [choice_fail hsubgraphStmt, bind_ok hnodeId, pure_apply]), bind_ok hequals,
      bind_fail hrhs]
  unfold parseStmt
  rw [choice_fail hattrStmt, choice_fail hedgeStmt, choice_fail hsubgraphStmt]
  apply choice_ok
  unfold parseInlineAttrStmt
  rw [bind_ok hid, bind_ok hequals, bind_ok (word_singleton_ok '='), bind_ok (blanks_nil hs), bind_ok hv,
    pure_apply]

theorem parseStmt_attr {k w s : List Char} {a : Str × Str}
    (hkeyword : ∀ t, (choice parseGraph (choice parseNode parseEdge)).run (k ++ '[' :: t) = .ok k ('[' :: t))
    (ha : IsAttr a) (hw : ∀ c ∈ w, isWhitespace c = true) (hs : EndsAttrs s)
    : (parseStmt true sl).run (k ++ '[' :: attrText a (nextAttrsText [] (w ++ s)))
        = .ok (.attr k (attrOf a)) (w ++ s) := by
  unfold parseStmt parseAttrStmt
  apply choice_ok
  rw [bind_ok (hkeyword _), bind_ok (blanks_nil (noBlank_cons _ (by decide) (by decide))),
    bind_ok (parseAttrList_attrs ha (by simp) hw hs)]
  rfl

theorem keyword_ok {k s : List Char} (hk : k.map Char.toLower = k) : (keyword k).run (k ++ s) = .ok k s := by
  have hword : (wordBy Char.toLower k).run (k ++ s) = .ok k s := by simp [wordBy, hk]
  unfold keyword
  rw [bind_ok hword, pure_apply, hk]

theorem edgeKeyword (s : List Char)
    : (choice parseGraph (choice parseNode parseEdge)).run ("edge".toList ++ '[' :: s)
        = .ok "edge".toList ('[' :: s) := by
  have hgraph : parseGraph.run ("edge".toList ++ '[' :: s) = .fail := keyword_fail (by simp)
  have hnode : parseNode.run ("edge".toList ++ '[' :: s) = .fail := keyword_fail (by simp)
  have hedge : parseEdge.run ("edge".toList ++ '[' :: s) = .ok "edge".toList ('[' :: s) :=
    keyword_ok (by decide)
  rw [choice_fail hgraph, choice_fail hnode, hedge]

theorem nodeKeyword (s : List Char)
    : (choice parseGraph (choice parseNode parseEdge)).run ("node".toList ++ '[' :: s)
        = .ok "node".toList ('[' :: s) := by
  have hgraph : parseGraph.run ("node".toList ++ '[' :: s) = .fail := keyword_fail (by simp)
  have hnode : parseNode.run ("node".toList ++ '[' :: s) = .ok "node".toList ('[' :: s) :=
    keyword_ok (by decide)
  rw [choice_fail hgraph, choice_ok hnode]

theorem keyword_rankdir : NotKeyword "rankdir".toList := by
  constructor <;> (intro s; exact keyword_fail (by simp))

theorem keyword_size : NotKeyword "size".toList := by
  constructor <;> (intro s; exact keyword_fail (by simp))

theorem keyword_ratio : NotKeyword "ratio".toList := by
  constructor <;> (intro s; exact keyword_fail (by simp))

def indentation : List Char := ['\n', ' ', ' ']

def inlineAttrText (k v s : List Char) : List Char := k ++ '=' :: (v ++ (indentation ++ s))

def quotedText (k w s : List Char) : List Char := k ++ '=' :: '"' :: (w ++ '"' :: (indentation ++ s))

def blockText (k : Str) (a : Str × Str) (space s : List Char) : List Char :=
  k ++ '[' :: attrText a (nextAttrsText [] (space ++ s))

theorem inlineAttrText_append (k v s t : List Char)
    : inlineAttrText k v s ++ t = inlineAttrText k v (s ++ t) := by
  simp [inlineAttrText]

theorem quotedText_append (k w s t : List Char) : quotedText k w s ++ t = quotedText k w (s ++ t) := by
  simp [quotedText]

theorem blockText_append (k : Str) (a : Str × Str) (space s t : List Char)
    : blockText k a space s ++ t = blockText k a space (s ++ t) := by
  simp [blockText, attrText, nextAttrsText]

theorem length_lt_quotedText (k w s : List Char) : s.length < (quotedText k w s).length := by
  simp only [quotedText, List.length_append, List.length_cons]
  omega

theorem length_lt_blockText (k : Str) (a : Str × Str) (space s : List Char)
    : s.length < (blockText k a space s).length := by
  simp only [blockText, attrText, nextAttrsText, List.length_append, List.length_cons, List.foldr_nil]
  omega

theorem beginsStmt_quotedText {k : Str} (hk : IsIdent k) (w s : List Char) : BeginsStmt (quotedText k w s) :=
  beginsStmt_of_isIdent hk _

theorem beginsStmt_blockText {k : Str} (hk : IsIdent k) (a : Str × Str) (space s : List Char)
    : BeginsStmt (blockText k a space s) :=
  beginsStmt_of_isIdent hk _

def headerText (s : List Char) : List Char :=
  inlineAttrText "rankdir".toList "LR".toList <|
  quotedText "size".toList "4,3".toList <|
  quotedText "ratio".toList "fill".toList <|
  blockText "edge".toList ("style".toList, "bold".toList) indentation <|
  blockText "node".toList ("shape".toList, "circle".toList) ['\n'] s

theorem header_eq : GraphMapper.header
    = "digraph".toList ++ ' ' :: 'D' :: ' ' :: '{' :: (indentation ++ headerText []) := by
  decide

theorem headerText_append (s : List Char) : headerText [] ++ s = headerText s := by
  simp only [headerText, inlineAttrText_append, quotedText_append, blockText_append, List.nil_append]

theorem dotText_eq (es : List EdgeStatement)
    : dotText es
        = "digraph".toList ++ ' ' :: 'D' :: ' ' :: '{' :: (indentation ++ headerText (edgesText es)) := by
  rw [← headerText_append]
  simp only [dotText, header_eq, edgesText, List.append_assoc, List.cons_append]
  rfl

theorem parseStmt_rankdir (s : List Char)
    : (parseStmt true sl).run (inlineAttrText "rankdir".toList "LR".toList s)
        = .ok (.inlineAttr [("rankdir".toList, some "LR".toList)]) (indentation ++ s) := by
  have hLR : IsIdent "LR".toList := ⟨'L', ['R'], rfl, by decide, by decide⟩
  exact parseStmt_inlineAttr sl ⟨'r', "ankdir".toList, rfl, by decide, by decide⟩ keyword_rankdir
    (noBlank_of_isIdent hLR _) (parseId_ident hLR (ends_cons _ (by decide)))

theorem parseNextStmt_quoted {k w s : List Char} (hk : IsIdent k) (hkeyword : NotKeyword k)
    (hw : IsPlainText w) (hs : BeginsStmt s)
    : (parseNextStmt true sl).run (quotedText k w s) = .ok (.inlineAttr (Attrs.set [] k (some w))) s := by
  have hquote : ∀ t, NoBlank ('"' :: t) := fun t => noBlank_cons t (by decide) (by decide)
  exact parseNextStmt_ok sl (noBlank_of_isIdent hk _)
    (parseStmt_inlineAttr sl hk hkeyword (hquote _) (parseId_quoted hw _)) (by decide) hs

theorem parseNextStmt_block {k space s : List Char} {a : Str × Str} (hk : IsIdent k)
    (hkeyword : ∀ t, (choice parseGraph (choice parseNode parseEdge)).run (k ++ '[' :: t) = .ok k ('[' :: t))
    (ha : IsAttr a) (hspace : ∀ c ∈ space, isWhitespace c = true) (hs : BeginsStmt s)
    : (parseNextStmt true sl).run (blockText k a space s) = .ok (.attr k (attrOf a)) s :=
  parseNextStmt_ok sl (noBlank_of_isIdent hk _) (parseStmt_attr sl hkeyword ha hspace hs.ends) hspace hs

end

theorem isAttr_style : IsAttr ("style".toList, "bold".toList) :=
  ⟨⟨'s', "tyle".toList, rfl, by decide, by decide⟩, by unfold IsPlainText; decide⟩

theorem isAttr_shape : IsAttr ("shape".toList, "circle".toList) :=
  ⟨⟨'s', "hape".toList, rfl, by decide, by decide⟩, by unfold IsPlainText; decide⟩

end GraphlibDot
