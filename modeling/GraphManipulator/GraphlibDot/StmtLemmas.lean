import GraphManipulator.GraphlibDot.Lemmas

/-!
This module contains what the rules for statements do on the text of an edge between two names. The names
might begin with keywords: each alternative that a keyword leads into fails later.
-/

namespace GraphlibDot

open Peg

/--
`r` ends a name. Behind its blanks it goes on with `d`, with which neither an identifier begins nor a
subgraph or a port.
-/
structure Stops (r : List Char) (d : Char) (t : List Char) : Prop where
  ends : Ends isIdRest r
  notLower : ∀ c ∈ r.head?, c.toLower.isLower = false
  blanks : blanks.run r = .ok () (d :: t)
  noId : parseId.run (d :: t) = .fail
  noBrace : d ≠ '{'
  noPort : d ≠ ':'

theorem isIdStart_of_isUpper {c : Char} (h : c.isUpper = true) : isIdStart c = true := by
  have hrange : 'A' ≤ c ∧ c ≤ 'Z' := of_decide_eq_true h
  simp only [isIdStart, Bool.or_eq_true, Bool.and_eq_true, decide_eq_true_eq]
  exact Or.inl (Or.inl (Or.inr hrange))

theorem isIdent_of_isUpper {u : Str} (hne : u ≠ []) (hu : ∀ c ∈ u, c.isUpper = true) : IsIdent u := by
  cases u with
  | nil => exact absurd rfl hne
  | cons c w =>
    rw [List.forall_mem_cons] at hu
    refine ⟨c, w, rfl, isIdStart_of_isUpper hu.1, ?_⟩
    intro c hc
    simp [isIdRest, isIdStart_of_isUpper (hu.2 c hc)]

theorem noBlank_of_isUpper {c : Char} (s : List Char) (h : c.isUpper = true) : NoBlank (c :: s) := by
  apply noBlank_cons
  . simp only [isWhitespace, Bool.or_eq_false_iff, decide_eq_false_iff_not]
    refine ⟨⟨⟨?_, ?_⟩, ?_⟩, ?_⟩ <;> (rintro rfl; exact absurd h (by decide))
  . rintro rfl
    exact absurd h (by decide)

def WithinName (u r : List Char) (p : Rule Str) : Prop :=
  p.run (u ++ r) = .fail ∨ ∃ k u', u' <:+ u ∧ p.run (u ++ r) = .ok k (u' ++ r)

theorem WithinName.choice {u r : List Char} {p q : Rule Str} (hp : WithinName u r p)
    (hq : WithinName u r q)
    : WithinName u r (choice p q) := by
  unfold WithinName
  rcases hp with hp | ⟨k, u', hsuffix, hp⟩
  . rw [choice_fail hp]
    exact hq
  . rw [choice_ok hp]
    exact Or.inr ⟨k, u', hsuffix, rfl⟩

theorem withinName_keyword {k u r : List Char} (hk : ∀ c ∈ k, c.isLower = true)
    (hr : ∀ c ∈ r.head?, c.toLower.isLower = false)
    : WithinName u r (keyword k) := by
  by_cases h : ((u ++ r).take k.length).map Char.toLower = k
  . right
    have hle : k.length ≤ u.length := by
      by_contra hlt
      have hget : (((u ++ r).take k.length).map Char.toLower)[u.length]? = k[u.length]? := by rw [h]
      rw [List.getElem?_map, List.getElem?_take_of_lt (by omega), List.getElem?_append_right (by omega),
        Nat.sub_self, ← List.head?_eq_getElem?, List.getElem?_eq_getElem (by omega)] at hget
      obtain ⟨c, hc, heq⟩ := Option.map_eq_some_iff.mp hget
      have hlower := hk _ (List.getElem_mem (by omega : u.length < k.length))
      rw [← heq, hr c hc] at hlower
      contradiction
    have hword : (wordBy Char.toLower k).run (u ++ r)
        = .ok ((u ++ r).take k.length) (u.drop k.length ++ r) := by
      simp only [wordBy, if_pos h, List.drop_append_of_le_length hle]
    refine ⟨k, u.drop k.length, List.drop_suffix _ _, ?_⟩
    unfold keyword
    rw [bind_ok hword, pure_apply, h]
  . left
    exact bind_fail (by simp only [wordBy, if_neg h])

theorem parseAttrList_fail {s : List Char} (h : s.head? ≠ some '[') : parseAttrList.run s = .fail :=
  bind_fail (bind_fail (word_fail h))

section

variable {u r t : List Char} {d : Char}

theorem parseSubgraphStmt_fail (sl : Rule (List Stmt)) (hne : u ≠ []) (hu : ∀ c ∈ u, c.isUpper = true)
    (hr : Stops r d t)
    : (parseSubgraphStmt sl).run (u ++ r) = .fail := by
  have hkeyword : WithinName u r parseSubgraph := withinName_keyword (by decide) hr.notLower
  unfold parseSubgraphStmt
  rcases hkeyword with h | ⟨k, u', hsuffix, h⟩
  . rw [bind_ok (opt_fail (bind_fail h))]
    apply bind_fail
    apply word_fail
    cases u with
    | nil => exact absurd rfl hne
    | cons c w =>
      rw [List.forall_mem_cons] at hu
      simp only [List.cons_append, List.head?_cons, ne_eq, Option.some.injEq]
      rintro rfl
      exact absurd hu.1 (by decide)
  . by_cases hnil : u' = []
    . rw [hnil, List.nil_append] at h
      rw [bind_ok (opt_ok (by rw [bind_ok h, bind_ok hr.blanks, opt_fail (bind_fail hr.noId)]))]
      exact bind_fail (word_fail (by simpa using hr.noBrace))
    . have hu' : ∀ c ∈ u', c.isUpper = true := fun c hc => hu c (hsuffix.subset hc)
      have hblanks : blanks.run (u' ++ r) = .ok () (u' ++ r) := by
        obtain ⟨c, w, rfl⟩ := List.exists_cons_of_ne_nil hnil
        exact blanks_nil (noBlank_of_isUpper _ (hu' c (by simp)))
      have hid := parseId_ident (isIdent_of_isUpper hnil hu') hr.ends
      rw [bind_ok (opt_ok (by rw [bind_ok h, bind_ok hblanks, opt_ok (by
        rw [bind_ok hid, bind_ok hr.blanks, pure_apply])]))]
      exact bind_fail (word_fail (by simpa using hr.noBrace))

theorem parseNodeId_name (hu : IsIdent u) (hr : Stops r d t)
    : parseNodeId.run (u ++ r) = .ok u (d :: t) := by
  have hport : parsePort.run (d :: t) = .fail := bind_fail (word_fail (by simpa using hr.noPort))
  unfold parseNodeId
  rw [bind_ok (parseId_ident hu hr.ends), bind_ok hr.blanks, bind_ok (opt_fail hport), pure_apply]

theorem parseNodeIdOrSubgraph_name (sl : Rule (List Stmt)) (hne : u ≠ [])
    (hu : ∀ c ∈ u, c.isUpper = true) (hr : Stops r d t)
    : (parseNodeIdOrSubgraph sl).run (u ++ r) = .ok (.node u []) (d :: t) := by
  unfold parseNodeIdOrSubgraph
  rw [choice_fail (parseSubgraphStmt_fail sl hne hu hr),
    bind_ok (parseNodeId_name (isIdent_of_isUpper hne hu) hr), pure_apply]

theorem parseAttrStmt_fail (hu : ∀ c ∈ u, c.isUpper = true) (hr : Stops r d t) (hd : d ≠ '[')
    : parseAttrStmt.run (u ++ r) = .fail := by
  have hgraph : WithinName u r parseGraph := withinName_keyword (by decide) hr.notLower
  have hnode : WithinName u r parseNode := withinName_keyword (by decide) hr.notLower
  have hedge : WithinName u r parseEdge := withinName_keyword (by decide) hr.notLower
  unfold parseAttrStmt
  rcases hgraph.choice (hnode.choice hedge) with h | ⟨k, u', hsuffix, h⟩
  . exact bind_fail h
  . rw [bind_ok h]
    have hu' : ∀ c ∈ u', c.isUpper = true := fun c hc => hu c (hsuffix.subset hc)
    cases u' with
    | nil =>
      rw [List.nil_append, bind_ok hr.blanks]
      exact bind_fail (parseAttrList_fail (by simpa using hd))
    | cons c w =>
      rw [List.forall_mem_cons] at hu'
      rw [List.cons_append, bind_ok (blanks_nil (noBlank_of_isUpper _ hu'.1))]
      apply bind_fail
      apply parseAttrList_fail
      simp only [List.head?_cons, ne_eq, Option.some.injEq]
      rintro rfl
      exact absurd hu'.1 (by decide)

end

def IsPlainText (w : Str) : Prop := ∀ c ∈ w, c ≠ '"' ∧ c ≠ '\\'

theorem parseIdDef_quoted {k w : Str} (s : List Char) (hk : IsIdent k) (hw : IsPlainText w)
    : parseIdDef.run (k ++ '=' :: '"' :: (w ++ '"' :: s)) = .ok (Attrs.set [] k (some w)) s := by
  have hequals : ∀ t, NoBlank ('=' :: t) := fun t => noBlank_cons t (by decide) (by decide)
  have hquote : ∀ t, NoBlank ('"' :: t) := fun t => noBlank_cons t (by decide) (by decide)
  unfold parseIdDef
  rw [bind_ok (parseId_ident hk (ends_cons _ (by decide))),
    bind_ok (opt_ok (by
      rw [bind_ok (blanks_nil (hequals _)), bind_ok (word_singleton_ok '='), bind_ok (blanks_nil (hquote _)),
        parseId_quoted hw])),
    pure_apply]

theorem parseIdDef_fail {c : Char} (s : List Char) (hc : NoId c) : parseIdDef.run (c :: s) = .fail :=
  bind_fail (parseId_fail s hc)

theorem noBlank_of_isIdent {k : Str} (hk : IsIdent k) (s : List Char) : NoBlank (k ++ s) := by
  obtain ⟨c, w, rfl, hc, -⟩ := hk
  apply noBlank_cons
  . simp only [isWhitespace, Bool.or_eq_false_iff, decide_eq_false_iff_not]
    refine ⟨⟨⟨?_, ?_⟩, ?_⟩, ?_⟩ <;> (rintro rfl; exact absurd hc (by decide))
  . rintro rfl
    exact absurd hc (by decide)

def attrText (a : Str × Str) (s : List Char) : List Char := a.1 ++ '=' :: '"' :: (a.2 ++ '"' :: s)

def IsAttr (a : Str × Str) : Prop := IsIdent a.1 ∧ IsPlainText a.2

def attrOf (a : Str × Str) : Attrs := Attrs.set [] a.1 (some a.2)

def nextAttrsText (as : List (Str × Str)) (s : List Char) : List Char :=
  as.foldr (fun a s => ',' :: ' ' :: attrText a s) (']' :: s)

theorem blanks_attrText {a : Str × Str} (ha : IsAttr a) (s : List Char)
    : blanks.run (attrText a s) = .ok () (attrText a s) :=
  blanks_nil (noBlank_of_isIdent ha.1 _)

theorem parseNextIdDef_attr {a : Str × Str} (ha : IsAttr a) (s : List Char)
    : parseNextIdDef.run (',' :: ' ' :: attrText a s) = .ok (attrOf a) s := by
  have hspace : blanks.run (' ' :: attrText a s) = .ok () (attrText a s) :=
    blanks_append (w := [' ']) (by decide) (noBlank_of_isIdent ha.1 _)
  unfold parseNextIdDef
  rw [bind_ok (blanks_nil (noBlank_cons _ (by decide) (by decide))), bind_ok (opt_ok (word_singleton_ok ',')),
    bind_ok hspace, attrText, parseIdDef_quoted s ha.1 ha.2, attrOf]

theorem parseNextIdDef_fail (s : List Char) : parseNextIdDef.run (']' :: s) = .fail := by
  have hblanks : blanks.run (']' :: s) = .ok () (']' :: s) :=
    blanks_nil (noBlank_cons _ (by decide) (by decide))
  unfold parseNextIdDef
  rw [bind_ok hblanks, bind_ok (opt_fail (word_fail (by simp))), bind_ok hblanks,
    parseIdDef_fail s (by decide)]

theorem star_parseNextIdDef {as : List (Str × Str)} (has : ∀ a ∈ as, IsAttr a) (s : List Char)
    : (star parseNextIdDef).run (nextAttrsText as s) = .ok (as.map attrOf) (']' :: s) := by
  induction as with
  | nil => exact star_nil (parseNextIdDef_fail s)
  | cons a as ih =>
    rw [List.forall_mem_cons] at has
    refine star_cons (parseNextIdDef_attr has.1 _) ?_ (ih has.2)
    simp only [nextAttrsText, attrText, List.foldr_cons, List.length_cons, List.length_append]
    omega

theorem parseAttrListBlock_attrs {a : Str × Str} {as : List (Str × Str)} (ha : IsAttr a)
    (has : ∀ a ∈ as, IsAttr a) (s : List Char)
    : parseAttrListBlock.run ('[' :: attrText a (nextAttrsText as s))
        = .ok ((as.map attrOf).foldl Attrs.rightBiasedMerge (attrOf a)) s := by
  have haList : parseAList.run (attrText a (nextAttrsText as s))
      = .ok ((as.map attrOf).foldl Attrs.rightBiasedMerge (attrOf a)) (']' :: s) := by
    unfold parseAList
    rw [attrText, bind_ok (parseIdDef_quoted _ ha.1 ha.2), bind_ok (star_parseNextIdDef has s), pure_apply,
      attrOf]
  unfold parseAttrListBlock
  rw [bind_ok (word_singleton_ok '['), bind_ok (blanks_attrText ha _),
    bind_ok (opt_ok haList), bind_ok (blanks_nil (noBlank_cons _ (by decide) (by decide))),
    bind_ok (word_singleton_ok ']'), pure_apply, Option.getD_some]

def EndsAttrs (s : List Char) : Prop := NoBlank s ∧ s.head? ≠ some '['

theorem parseAttrList_attrs {a : Str × Str} {as : List (Str × Str)} (ha : IsAttr a)
    (has : ∀ a ∈ as, IsAttr a) {w s : List Char} (hw : ∀ c ∈ w, isWhitespace c = true) (hs : EndsAttrs s)
    : parseAttrList.run ('[' :: attrText a (nextAttrsText as (w ++ s)))
        = .ok ((as.map attrOf).foldl Attrs.rightBiasedMerge (attrOf a)) (w ++ s) := by
  have hblock : parseAttrListBlock.run s = .fail := bind_fail (word_fail hs.2)
  have hnext : parseNextAttrListBlock.run (w ++ s) = .fail := by
    unfold parseNextAttrListBlock
    rw [bind_ok (blanks_append hw hs.1), hblock]
  unfold parseAttrList
  rw [bind_ok (parseAttrListBlock_attrs ha has _), bind_ok (star_nil hnext), pure_apply, List.foldl_nil]

section

variable (sl : Rule (List Stmt))

theorem edgeRHSWithin_fail {s : List Char} (fuel : Nat) (h : s.head? ≠ some '-')
    : (edgeRHSWithin true sl (fuel + 1)).run s = .fail := by
  have hop : (parseEdgeOp true).run s = .fail := by
    unfold parseEdgeOp
    rw [choice_fail (bind_fail (word_fail h)), bind_fail (word_fail h)]
  exact bind_fail hop

theorem parseEdgeRHS_fail {s : List Char} (h : s.head? ≠ some '-')
    : (parseEdgeRHS true sl).run s = .fail :=
  edgeRHSWithin_fail sl s.length h

theorem parseEdgeRHS_name {v : Str} (hne : v ≠ []) (hv : ∀ c ∈ v, c.isUpper = true) (s : List Char)
    : (parseEdgeRHS true sl).run ('-' :: '>' :: ' ' :: (v ++ '[' :: s)) = .ok [.node v []] ('[' :: s) := by
  have hnext : NoBlank ('[' :: s) := noBlank_cons s (by decide) (by decide)
  have hstops : Stops ('[' :: s) '[' s :=
    ⟨ends_cons s (by decide), by simp, blanks_nil hnext, parseId_fail s (by decide), by decide, by decide⟩
  have hop : (parseEdgeOp true).run ('-' :: '>' :: ' ' :: (v ++ '[' :: s))
      = .ok () (' ' :: (v ++ '[' :: s)) := by
    have harrow : (word ['-', '>']).run ('-' :: '>' :: ' ' :: (v ++ '[' :: s))
        = .ok ['-', '>'] (' ' :: (v ++ '[' :: s)) := word_ok ['-', '>']
    have hline : (word ['-', '-']).run ('-' :: '>' :: ' ' :: (v ++ '[' :: s)) = .fail := rfl
    unfold parseEdgeOp
    rw [choice_fail (bind_fail hline), bind_ok harrow]
    rfl
  have hspace : blanks.run (' ' :: (v ++ '[' :: s)) = .ok () (v ++ '[' :: s) :=
    blanks_append (w := [' ']) (by decide) (noBlank_of_isIdent (isIdent_of_isUpper hne hv) _)
  have hrest : ∀ fuel, (edgeRHSWithin true sl (fuel + 1)).run ('[' :: s) = .fail :=
    fun fuel => edgeRHSWithin_fail sl fuel (by simp)
  simp only [parseEdgeRHS, List.length_cons]
  unfold edgeRHSWithin
  rw [bind_ok hop, bind_ok hspace, bind_ok (parseNodeIdOrSubgraph_name sl hne hv hstops),
    bind_ok (blanks_nil hnext), bind_ok (opt_fail (hrest _))]
  rfl

theorem parseStmt_edge {u v : Str} {a : Str × Str} {as : List (Str × Str)}
    (hune : u ≠ []) (hu : ∀ c ∈ u, c.isUpper = true) (hvne : v ≠ []) (hv : ∀ c ∈ v, c.isUpper = true)
    (ha : IsAttr a) (has : ∀ a ∈ as, IsAttr a) {s : List Char} (hs : EndsAttrs s)
    : (parseStmt true sl).run
        (u ++ ' ' :: '-' :: '>' :: ' ' :: (v ++ '[' :: attrText a (nextAttrsText as s)))
        = .ok (.edge [.node u [], .node v []]
            ((as.map attrOf).foldl Attrs.rightBiasedMerge (attrOf a))) s := by
  have harrow : ∀ t, NoBlank ('-' :: t) := fun t => noBlank_cons t (by decide) (by decide)
  have hstops : ∀ t, Stops (' ' :: '-' :: '>' :: t) '-' ('>' :: t) := fun t =>
    ⟨ends_cons _ (by decide), by simp, blanks_append (w := [' ']) (by decide) (harrow _), parseId_arrow t,
      by decide, by decide⟩
  have hblock : blanks.run ('[' :: attrText a (nextAttrsText as s))
      = .ok () ('[' :: attrText a (nextAttrsText as s)) :=
    blanks_nil (noBlank_cons _ (by decide) (by decide))
  have hattrs : parseAttrList.run ('[' :: attrText a (nextAttrsText as s)) = .ok _ s :=
    parseAttrList_attrs (w := []) ha has (by simp) hs
  unfold parseStmt
  rw [choice_fail (parseAttrStmt_fail hu (hstops _) (by decide))]
  apply choice_ok
  unfold parseEdgeStmt
  rw [bind_ok (parseNodeIdOrSubgraph_name sl hune hu (hstops _)), bind_ok (blanks_nil (harrow _)),
    bind_ok (parseEdgeRHS_name sl hvne hv _), bind_ok hblock, bind_ok (opt_ok hattrs)]
  rfl

end

end GraphlibDot
