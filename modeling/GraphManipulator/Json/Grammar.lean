import GraphManipulator.Json.ParserLemmas

/-!
This module contains the grammar of JSON over tokens: the parser accepts what is derived in it, with the value
that it is derived with, and nothing else.
-/

def Token.IsProper {D : Type} (token : Token D) : Prop := token ≠ .endOfInput ∧ ∀ e, token ≠ .parseError e

namespace Parser

open Lexer

variable {D : Type}

def separated (blocks : List (List (Token D))) : List (Token D) :=
  match blocks with
  | [] => []
  | [block] => block
  | block :: blocks => block ++ .valueSeparator :: separated blocks

def memberTokens (m : Str × List (Token D) × Json D) : List (Token D) :=
  .valueString m.1 :: .nameSeparator :: m.2.1

/--
The texts of a value. Of the members with one name the first one is kept.
-/
inductive IsText (fl : FloatOps D) : List (Token D) → Json D → Prop
  | literalNull : IsText fl [.literalNull] .null
  | literalTrue : IsText fl [.literalTrue] (.boolean true)
  | literalFalse : IsText fl [.literalFalse] (.boolean false)
  | string (yytext : Str) : IsText fl [.valueString yytext] (.string yytext)
  | unsigned (n : Nat) : IsText fl [.valueUnsigned n] (.numberUnsigned n)
  | integer (n : Int) : IsText fl [.valueInteger n] (.numberInteger n)
  | float (d : D) (hfinite : fl.isFinite d = true) : IsText fl [.valueFloat d] (.numberFloat d)
  | array (es : List (List (Token D) × Json D)) (hes : ∀ e ∈ es, IsText fl e.1 e.2)
    : IsText fl (.beginArray :: (separated (es.map Prod.fst) ++ [.endArray])) (.array (es.map Prod.snd))
  | object (ms : List (Str × List (Token D) × Json D)) (hms : ∀ m ∈ ms, IsText fl m.2.1 m.2.2)
    : IsText fl (.beginObject :: (separated (ms.map memberTokens) ++ [.endObject]))
        (.object (OrdMap.ofList (ms.map (fun m => (m.1, m.2.2)))))

/--
The lexer takes the tokens from `s` one after the other, which leaves `s'`.
-/
inductive Lexes (fl : FloatOps D) : List Char → List (Token D) → List Char → Prop
  | nil {s : List Char} : Lexes fl s [] s
  | cons {s s₁ s' : List Char} {token : Token D} {tokens : List (Token D)} (hscan : scan fl s = (token, s₁))
    (htail : Lexes fl s₁ tokens s') : Lexes fl s (token :: tokens) s'

section

variable {fl : FloatOps D} {s s₁ s' : List Char} {token : Token D} {tokens tokens₁ tokens₂ : List (Token D)}

theorem lexes_nil_iff : Lexes fl s [] s' ↔ s = s' := by
  constructor
  . intro h
    cases h
    rfl
  . rintro rfl
    exact .nil

theorem lexes_cons_iff
    : Lexes fl s (token :: tokens) s' ↔ ∃ s₁, scan fl s = (token, s₁) ∧ Lexes fl s₁ tokens s' := by
  constructor
  . intro h
    cases h with
    | cons hscan htail => exact ⟨_, hscan, htail⟩
  . rintro ⟨s₁, hscan, htail⟩
    exact .cons hscan htail

theorem lexes_singleton_iff : Lexes fl s [token] s' ↔ scan fl s = (token, s') := by
  simp only [lexes_cons_iff, lexes_nil_iff, exists_eq_right]

theorem lexes_append_iff
    : Lexes fl s (tokens₁ ++ tokens₂) s' ↔ ∃ s₁, Lexes fl s tokens₁ s₁ ∧ Lexes fl s₁ tokens₂ s' := by
  induction tokens₁ generalizing s with
  | nil => simp only [List.nil_append, lexes_nil_iff, exists_eq_left']
  | cons token tokens ih =>
    simp only [List.cons_append, lexes_cons_iff, ih]
    constructor
    . rintro ⟨s₂, hscan, s₁, hfirst, hsecond⟩
      exact ⟨s₁, ⟨s₂, hscan, hfirst⟩, hsecond⟩
    . rintro ⟨s₁, ⟨s₂, hscan, hfirst⟩, hsecond⟩
      exact ⟨s₂, hscan, s₁, hfirst, hsecond⟩

theorem Lexes.length_le (h : Lexes fl s tokens s') (hends : .endOfInput ∉ tokens)
    : tokens.length + s'.length ≤ s.length := by
  induction h with
  | nil => simp
  | cons hscan _ ih =>
    rw [List.mem_cons, not_or] at hends
    have hlt := scan_eq_length_lt hscan (Ne.symm hends.1)
    have hle := ih hends.2
    rw [List.length_cons]
    omega

theorem separated_cons (block next : List (Token D)) (blocks : List (List (Token D)))
    : separated (block :: next :: blocks) = block ++ .valueSeparator :: separated (next :: blocks) := rfl

theorem mem_separated {blocks : List (List (Token D))} (h : token ∈ separated blocks)
    : token = .valueSeparator ∨ ∃ block ∈ blocks, token ∈ block := by
  induction blocks with
  | nil => cases h
  | cons block blocks ih =>
    cases blocks with
    | nil => exact .inr ⟨block, List.mem_singleton_self block, h⟩
    | cons next blocks =>
      rw [separated_cons, List.mem_append, List.mem_cons] at h
      obtain hmem | heq | hmem := h
      . exact .inr ⟨block, List.mem_cons_self, hmem⟩
      . exact .inl heq
      . exact (ih hmem).imp_right (fun ⟨b, hb, htoken⟩ => ⟨b, List.mem_cons_of_mem block hb, htoken⟩)

theorem forall_mem_separated {P : Token D → Prop} {blocks : List (List (Token D))} {first last : Token D}
    (hfirst : P first) (hcomma : P .valueSeparator) (hlast : P last)
    (hblocks : ∀ block ∈ blocks, ∀ token ∈ block, P token)
    : ∀ token ∈ first :: (separated blocks ++ [last]), P token := by
  intro token hmem
  rw [List.mem_cons, List.mem_append, List.mem_singleton] at hmem
  obtain rfl | hmem | rfl := hmem
  . exact hfirst
  . obtain rfl | ⟨block, hblock, hmem⟩ := mem_separated hmem
    . exact hcomma
    . exact hblocks block hblock token hmem
  . exact hlast

theorem IsText.forall_isProper {j : Json D} (h : IsText fl tokens j) : ∀ token ∈ tokens, token.IsProper := by
  induction h with
  | literalNull | literalTrue | literalFalse | string | unsigned | integer | float => simp [Token.IsProper]
  | array es hes ih =>
    apply forall_mem_separated (P := Token.IsProper) (by simp [Token.IsProper]) (by simp [Token.IsProper])
      (by simp [Token.IsProper])
    rw [List.forall_mem_map]
    exact ih
  | object ms hms ih =>
    apply forall_mem_separated (P := Token.IsProper) (by simp [Token.IsProper]) (by simp [Token.IsProper])
      (by simp [Token.IsProper])
    rw [List.forall_mem_map]
    intro m hm
    rw [memberTokens, List.forall_mem_cons, List.forall_mem_cons]
    exact ⟨by simp [Token.IsProper], by simp [Token.IsProper], ih m hm⟩

theorem IsText.head {j : Json D} (h : IsText fl tokens j)
    : ∃ token tail, tokens = token :: tail ∧ token ≠ .endArray := by
  cases h <;> exact ⟨_, _, rfl, by simp⟩

end

structure Sound (fl : FloatOps D) (fuel : Nat) : Prop where
  internal : ∀ {s s' : List Char} {j : Json D},
    parseInternal fl fuel (scan fl s).1 (scan fl s).2 = .ok (j, s')
      → ∃ tokens, Lexes fl s tokens s' ∧ IsText fl tokens j
  members : ∀ {members : List (Str × Json D)} {s s' : List Char} {j : Json D},
    parseMembers fl fuel members (scan fl s).1 (scan fl s).2 = .ok (j, s')
      → ∃ ms : List (Str × List (Token D) × Json D), ms ≠ [] ∧ (∀ m ∈ ms, IsText fl m.2.1 m.2.2)
        ∧ Lexes fl s (separated (ms.map memberTokens) ++ [.endObject]) s'
        ∧ j = .object (ms.foldl (fun members m => OrdMap.emplace m.1 m.2.2 members) members)
  elements : ∀ {elements : List (Json D)} {s s' : List Char} {j : Json D},
    parseElements fl fuel elements (scan fl s).1 (scan fl s).2 = .ok (j, s')
      → ∃ es : List (List (Token D) × Json D), es ≠ [] ∧ (∀ e ∈ es, IsText fl e.1 e.2)
        ∧ Lexes fl s (separated (es.map Prod.fst) ++ [.endArray]) s'
        ∧ j = .array (elements ++ es.map Prod.snd)

section

variable {fl : FloatOps D} {s s' : List Char} {j : Json D} {fuel : Nat}

theorem lexes_separated {blocks : List (List (Token D))} {first : List (Token D)} {last : Token D}
    {s₁ s₂ : List Char} (hne : blocks ≠ []) (hfirst : Lexes fl s first s₁)
    (hcomma : scan fl s₁ = (.valueSeparator, s₂)) (hrest : Lexes fl s₂ (separated blocks ++ [last]) s')
    : Lexes fl s (separated (first :: blocks) ++ [last]) s' := by
  cases blocks with
  | nil => exact absurd rfl hne
  | cons block blocks =>
    rw [separated_cons, List.append_assoc, lexes_append_iff]
    exact ⟨s₁, hfirst, .cons hcomma hrest⟩

theorem lexes_last {first : List (Token D)} {last : Token D} {s₁ : List Char} (hfirst : Lexes fl s first s₁)
    (hlast : scan fl s₁ = (last, s'))
    : Lexes fl s (separated [first] ++ [last]) s' := by
  rw [separated, lexes_append_iff]
  exact ⟨s₁, hfirst, lexes_singleton_iff.mpr hlast⟩

theorem parseElements_sound (ih : Sound fl fuel) {elements : List (Json D)}
    (h : parseElements fl (fuel + 1) elements (scan fl s).1 (scan fl s).2 = .ok (j, s'))
    : ∃ es : List (List (Token D) × Json D), es ≠ [] ∧ (∀ e ∈ es, IsText fl e.1 e.2)
        ∧ Lexes fl s (separated (es.map Prod.fst) ++ [.endArray]) s'
        ∧ j = .array (elements ++ es.map Prod.snd) := by
  rw [parseElements] at h
  split at h
  . next value s₁ hvalue =>
    obtain ⟨tokens, hlexes, htext⟩ := ih.internal hvalue
    split at h
    . next s₂ hcomma =>
      obtain ⟨es, hne, hes, hrest, rfl⟩ := ih.elements h
      refine ⟨(tokens, value) :: es, List.cons_ne_nil _ _, List.forall_mem_cons.mpr ⟨htext, hes⟩, ?_, ?_⟩
      . exact lexes_separated (by simpa using hne) hlexes hcomma hrest
      . rw [List.map_cons, List.append_assoc, List.singleton_append]
    . next s₂ hend =>
      cases h
      exact ⟨[(tokens, value)], List.cons_ne_nil _ _, List.forall_mem_singleton.mpr htext,
        lexes_last hlexes hend, rfl⟩
    . cases h
  . cases h

theorem parseMembers_sound (ih : Sound fl fuel) {members : List (Str × Json D)}
    (h : parseMembers fl (fuel + 1) members (scan fl s).1 (scan fl s).2 = .ok (j, s'))
    : ∃ ms : List (Str × List (Token D) × Json D), ms ≠ [] ∧ (∀ m ∈ ms, IsText fl m.2.1 m.2.2)
        ∧ Lexes fl s (separated (ms.map memberTokens) ++ [.endObject]) s'
        ∧ j = .object (ms.foldl (fun members m => OrdMap.emplace m.1 m.2.2 members) members) := by
  rw [parseMembers.eq_def] at h
  dsimp only at h
  split at h
  . next key hkey =>
    split at h
    . next s₁ hcolon =>
      split at h
      . next value s₂ hvalue =>
        obtain ⟨tokens, hlexes, htext⟩ := ih.internal hvalue
        have hmember : Lexes fl s (memberTokens (key, tokens, value)) s₂ :=
          .cons (Prod.ext hkey rfl) (.cons hcolon hlexes)
        split at h
        . next s₃ hcomma =>
          obtain ⟨ms, hne, hms, hrest, rfl⟩ := ih.members h
          refine ⟨(key, tokens, value) :: ms, List.cons_ne_nil _ _, List.forall_mem_cons.mpr ⟨htext, hms⟩,
            ?_, rfl⟩
          exact lexes_separated (by simpa using hne) hmember hcomma hrest
        . next s₃ hend =>
          cases h
          exact ⟨[(key, tokens, value)], List.cons_ne_nil _ _, List.forall_mem_singleton.mpr htext,
            lexes_last hmember hend, rfl⟩
        . cases h
      . cases h
    . cases h
  . cases h

theorem parseInternal_sound (ih : Sound fl fuel)
    (h : parseInternal fl (fuel + 1) (scan fl s).1 (scan fl s).2 = .ok (j, s'))
    : ∃ tokens, Lexes fl s tokens s' ∧ IsText fl tokens j := by
  rcases hscan : scan fl s with ⟨token, s₁⟩
  rw [hscan] at h
  cases token with
  | literalNull =>
    cases h
    exact ⟨_, lexes_singleton_iff.mpr hscan, .literalNull⟩
  | literalTrue =>
    cases h
    exact ⟨_, lexes_singleton_iff.mpr hscan, .literalTrue⟩
  | literalFalse =>
    cases h
    exact ⟨_, lexes_singleton_iff.mpr hscan, .literalFalse⟩
  | valueString yytext =>
    cases h
    exact ⟨_, lexes_singleton_iff.mpr hscan, .string yytext⟩
  | valueUnsigned n =>
    cases h
    exact ⟨_, lexes_singleton_iff.mpr hscan, .unsigned n⟩
  | valueInteger n =>
    cases h
    exact ⟨_, lexes_singleton_iff.mpr hscan, .integer n⟩
  | valueFloat d =>
    simp only [parseInternal] at h
    split at h
    . next hfinite =>
      cases h
      exact ⟨_, lexes_singleton_iff.mpr hscan, .float d hfinite⟩
    . cases h
  | beginArray =>
    simp only [parseInternal] at h
    split at h
    . next s₂ hend =>
      cases h
      exact ⟨_, .cons hscan (lexes_singleton_iff.mpr hend), .array [] (by simp)⟩
    . next token s₂ _ hfirst =>
      have helements : parseElements fl fuel [] (scan fl s₁).1 (scan fl s₁).2 = .ok (j, s') := by rwa [hfirst]
      obtain ⟨es, -, hes, hlexes, rfl⟩ := ih.elements helements
      exact ⟨_, .cons hscan hlexes, .array es hes⟩
  | beginObject =>
    simp only [parseInternal] at h
    split at h
    . next s₂ hend =>
      cases h
      exact ⟨_, .cons hscan (lexes_singleton_iff.mpr hend), .object [] (by simp)⟩
    . next token s₂ _ hfirst =>
      have hmembers : parseMembers fl fuel [] (scan fl s₁).1 (scan fl s₁).2 = .ok (j, s') := by rwa [hfirst]
      obtain ⟨ms, -, hms, hlexes, rfl⟩ := ih.members hmembers
      rw [← List.foldl_map (f := fun m : Str × List (Token D) × Json D => (m.1, m.2.2))
        (g := fun members (m : Str × Json D) => OrdMap.emplace m.1 m.2 members)]
      exact ⟨_, .cons hscan hlexes, .object ms hms⟩
  | endArray | endObject | nameSeparator | valueSeparator | parseError | endOfInput => cases h

theorem sound (fl : FloatOps D) (fuel : Nat) : Sound fl fuel := by
  induction fuel with
  | zero =>
    constructor
    . intro s s' j h
      cases h
    . intro members s s' j h
      cases h
    . intro elements s s' j h
      cases h
  | succ fuel ih => exact ⟨parseInternal_sound ih, parseMembers_sound ih, parseElements_sound ih⟩

def Reads (fl : FloatOps D) (tokens : List (Token D)) (j : Json D) : Prop :=
  ∀ {s s' : List Char} {fuel : Nat}, Lexes fl s tokens s' → tokens.length ≤ fuel
    → parseInternal fl fuel (scan fl s).1 (scan fl s).2 = .ok (j, s')

theorem parseElements_complete {es : List (List (Token D) × Json D)} (hne : es ≠ [])
    (hes : ∀ e ∈ es, Reads fl e.1 e.2) (elements : List (Json D))
    (hlexes : Lexes fl s (separated (es.map Prod.fst) ++ [.endArray]) s')
    (hfuel : (separated (es.map Prod.fst)).length < fuel)
    : parseElements fl fuel elements (scan fl s).1 (scan fl s).2
        =
      .ok (.array (elements ++ es.map Prod.snd), s') := by
  induction es generalizing elements s fuel with
  | nil => exact absurd rfl hne
  | cons e es ih =>
    rw [List.forall_mem_cons] at hes
    obtain ⟨fuel, rfl⟩ := Nat.exists_eq_succ_of_ne_zero (Nat.ne_zero_of_lt hfuel)
    cases es with
    | nil =>
      rw [List.map_cons, List.map_nil, separated] at hlexes hfuel
      obtain ⟨s₁, hfirst, hend⟩ := lexes_append_iff.mp hlexes
      rw [lexes_singleton_iff] at hend
      rw [parseElements, hes.1 hfirst (Nat.le_of_lt_succ hfuel)]
      simp only [hend]
      rfl
    | cons next es =>
      rw [List.map_cons, List.map_cons, separated_cons, List.append_assoc, lexes_append_iff] at hlexes
      rw [List.map_cons, List.map_cons, separated_cons, List.length_append, List.length_cons] at hfuel
      obtain ⟨s₁, hfirst, hrest⟩ := hlexes
      obtain ⟨s₂, hcomma, hrest⟩ := lexes_cons_iff.mp hrest
      rw [parseElements, hes.1 hfirst (by omega)]
      simp only [hcomma]
      have hall := ih (List.cons_ne_nil next es) hes.2 (elements ++ [e.2]) hrest
        (show (separated ((next :: es).map Prod.fst)).length < fuel by rw [List.map_cons]; omega)
      rw [hall, List.append_assoc]
      rfl

theorem parseMembers_complete {ms : List (Str × List (Token D) × Json D)} (hne : ms ≠ [])
    (hms : ∀ m ∈ ms, Reads fl m.2.1 m.2.2) (members : List (Str × Json D))
    (hlexes : Lexes fl s (separated (ms.map memberTokens) ++ [.endObject]) s')
    (hfuel : (separated (ms.map memberTokens)).length < fuel)
    : parseMembers fl fuel members (scan fl s).1 (scan fl s).2
        =
      .ok (.object (ms.foldl (fun members m => OrdMap.emplace m.1 m.2.2 members) members), s') := by
  induction ms generalizing members s fuel with
  | nil => exact absurd rfl hne
  | cons m ms ih =>
    rw [List.forall_mem_cons] at hms
    obtain ⟨fuel, rfl⟩ := Nat.exists_eq_succ_of_ne_zero (Nat.ne_zero_of_lt hfuel)
    cases ms with
    | nil =>
      rw [List.map_cons, List.map_nil, separated, memberTokens] at hlexes hfuel
      obtain ⟨s₁, hmember, hend⟩ := lexes_append_iff.mp hlexes
      rw [lexes_singleton_iff] at hend
      obtain ⟨s₂, hkey, hmember⟩ := lexes_cons_iff.mp hmember
      obtain ⟨s₃, hcolon, hvalue⟩ := lexes_cons_iff.mp hmember
      rw [List.length_cons, List.length_cons] at hfuel
      have hparse : parseInternal fl fuel (scan fl s₃).1 (scan fl s₃).2 = .ok (m.2.2, s₁) :=
        hms.1 hvalue (by omega)
      simp only [parseMembers, hkey, hcolon, hparse, hend]
      rfl
    | cons next ms =>
      rw [List.map_cons, List.map_cons, separated_cons, List.append_assoc, lexes_append_iff] at hlexes
      rw [List.map_cons, List.map_cons, separated_cons, List.length_append, List.length_cons, memberTokens,
        List.length_cons, List.length_cons] at hfuel
      obtain ⟨s₁, hmember, hrest⟩ := hlexes
      obtain ⟨s₂, hkey, hmember⟩ := lexes_cons_iff.mp hmember
      obtain ⟨s₃, hcolon, hvalue⟩ := lexes_cons_iff.mp hmember
      obtain ⟨s₄, hcomma, hrest⟩ := lexes_cons_iff.mp hrest
      have hparse : parseInternal fl fuel (scan fl s₃).1 (scan fl s₃).2 = .ok (m.2.2, s₁) :=
        hms.1 hvalue (by omega)
      simp only [parseMembers, hkey, hcolon, hparse, hcomma]
      apply ih (List.cons_ne_nil next ms) hms.2 _ hrest
      rw [List.map_cons]
      omega

theorem exists_scan_separated {token last : Token D} {tail : List (Token D)} {blocks : List (List (Token D))}
    (h : Lexes fl s (separated ((token :: tail) :: blocks) ++ [last]) s')
    : ∃ s₁, scan fl s = (token, s₁) := by
  cases blocks with
  | nil =>
    obtain ⟨s₁, hscan, -⟩ := lexes_cons_iff.mp h
    exact ⟨s₁, hscan⟩
  | cons block blocks =>
    obtain ⟨s₁, hscan, -⟩ := lexes_cons_iff.mp h
    exact ⟨s₁, hscan⟩

theorem parseInternal_beginArray {token : Token D} {s₁ : List Char} (hscan : scan fl s = (token, s₁))
    (hne : token ≠ .endArray)
    : parseInternal fl (fuel + 1) .beginArray s = parseElements fl fuel [] (scan fl s).1 (scan fl s).2 := by
  simp only [parseInternal]
  split
  . next hend =>
    rw [hend] at hscan
    cases hscan
    exact absurd rfl hne
  . next heq => rw [heq]

theorem parseInternal_beginObject {token : Token D} {s₁ : List Char} (hscan : scan fl s = (token, s₁))
    (hne : token ≠ .endObject)
    : parseInternal fl (fuel + 1) .beginObject s = parseMembers fl fuel [] (scan fl s).1 (scan fl s).2 := by
  simp only [parseInternal]
  split
  . next hend =>
    rw [hend] at hscan
    cases hscan
    exact absurd rfl hne
  . next heq => rw [heq]

theorem reads_of_isText {tokens : List (Token D)} (h : IsText fl tokens j) : Reads fl tokens j := by
  induction h with
  | literalNull | literalTrue | literalFalse | string | unsigned | integer =>
    intro s s' fuel hlexes hfuel
    obtain ⟨fuel, rfl⟩ := Nat.exists_eq_succ_of_ne_zero (Nat.ne_zero_of_lt hfuel)
    rw [lexes_singleton_iff.mp hlexes]
    rfl
  | float d hfinite =>
    intro s s' fuel hlexes hfuel
    obtain ⟨fuel, rfl⟩ := Nat.exists_eq_succ_of_ne_zero (Nat.ne_zero_of_lt hfuel)
    rw [lexes_singleton_iff.mp hlexes]
    simp only [parseInternal, if_pos hfinite]
  | array es hes ih =>
    intro s s' fuel hlexes hfuel
    obtain ⟨fuel, rfl⟩ := Nat.exists_eq_succ_of_ne_zero (Nat.ne_zero_of_lt hfuel)
    obtain ⟨s₁, hbegin, hlexes⟩ := lexes_cons_iff.mp hlexes
    rw [List.length_cons, List.length_append, List.length_singleton] at hfuel
    rw [hbegin]
    cases es with
    | nil =>
      rw [List.map_nil, separated, List.nil_append, lexes_singleton_iff] at hlexes
      simp only [parseInternal, hlexes]
      rfl
    | cons e es =>
      obtain ⟨token, tail, hhead, hne⟩ := (hes e List.mem_cons_self).head
      rw [List.map_cons, hhead] at hlexes
      obtain ⟨s₂, hscan⟩ := exists_scan_separated hlexes
      rw [← hhead, ← List.map_cons] at hlexes
      rw [parseInternal_beginArray hscan hne,
        parseElements_complete (List.cons_ne_nil e es) ih [] hlexes (by omega), List.nil_append]
  | object ms hms ih =>
    intro s s' fuel hlexes hfuel
    obtain ⟨fuel, rfl⟩ := Nat.exists_eq_succ_of_ne_zero (Nat.ne_zero_of_lt hfuel)
    obtain ⟨s₁, hbegin, hlexes⟩ := lexes_cons_iff.mp hlexes
    rw [List.length_cons, List.length_append, List.length_singleton] at hfuel
    rw [hbegin]
    cases ms with
    | nil =>
      rw [List.map_nil, separated, List.nil_append, lexes_singleton_iff] at hlexes
      simp only [parseInternal, hlexes]
      rfl
    | cons m ms =>
      obtain ⟨s₂, hscan⟩ := exists_scan_separated hlexes
      rw [parseInternal_beginObject hscan (by simp),
        parseMembers_complete (List.cons_ne_nil m ms) ih [] hlexes (by omega), OrdMap.ofList, List.foldl_map]

theorem derived_of_parse {bytes : List UInt8} (h : parse fl bytes = .ok j)
    : ∃ tokens s, Lexes fl ((skipByteOrderMark bytes).map byteChar) tokens s ∧ IsText fl tokens j
        ∧ (scan fl s).1 = .endOfInput := by
  rw [parse, parseChars] at h
  split at h
  . next j' s' hparse =>
    split at h
    . next s'' hend =>
      cases h
      obtain ⟨tokens, hlexes, htext⟩ := (sound fl _).internal hparse
      exact ⟨tokens, s', hlexes, htext, congrArg Prod.fst hend⟩
    . cases h
  . cases h

theorem parse_eq_ok_iff (fl : FloatOps D) (bytes : List UInt8) (j : Json D)
    : parse fl bytes = .ok j
        ↔
      ∃ tokens s, Lexes fl ((skipByteOrderMark bytes).map byteChar) tokens s ∧ IsText fl tokens j
        ∧ (scan fl s).1 = .endOfInput := by
  constructor
  . exact derived_of_parse
  . rintro ⟨tokens, s', hlexes, htext, hend⟩
    have hlength := hlexes.length_le (fun hmem => (htext.forall_isProper _ hmem).1 rfl)
    rw [parse, parseChars, reads_of_isText htext hlexes (by omega)]
    rcases hscan : scan fl s' with ⟨token, s''⟩
    rw [hscan] at hend
    cases hend
    simp only [hscan]

end

end Parser
