import GraphManipulator.Json.Grammar
import GraphManipulator.Json.NumberText
import GraphManipulator.Json.StringText

/-!
This module contains what the parser accepts, down to its characters: values in the grammar of JSON with blanks
between their tokens, of which the strings are UTF-8.
-/

namespace Lexer

inductive IsLexeme {D : Type} (fl : FloatOps D) : Str → Token D → Prop
  | structural {c : Char} {token : Token D} (h : structuralToken? c = some token) : IsLexeme fl [c] token
  | literalTrue : IsLexeme fl "true".toList .literalTrue
  | literalFalse : IsLexeme fl "false".toList .literalFalse
  | literalNull : IsLexeme fl "null".toList .literalNull
  | string {text yytext : Str} (h : Spells text yytext)
    : IsLexeme fl ('"' :: (text ++ ['"'])) (.valueString yytext)
  | number {ty : NumberType} {text : Str} (h : IsNumber ty text) : IsLexeme fl text (numberToken fl ty text)

section

variable {D : Type} {fl : FloatOps D}

theorem numberToken_ne {token : Token D} (hunsigned : ∀ n, Token.valueUnsigned n ≠ token)
    (hinteger : ∀ n, Token.valueInteger n ≠ token) (hfloat : ∀ d, Token.valueFloat d ≠ token) (ty : NumberType)
    (number : Str)
    : numberToken fl ty number ≠ token := by
  unfold numberToken
  cases ty with
  | unsigned =>
    dsimp only
    split
    . exact hunsigned _
    . exact hfloat _
  | integer =>
    dsimp only
    split
    . exact hinteger _
    . exact hfloat _
  | float => exact hfloat _

theorem IsLexeme.isEncoded {text yytext : Str} (h : IsLexeme fl text (.valueString yytext))
    : IsEncoded yytext := by
  generalize htoken : Token.valueString yytext = token at h
  cases h with
  | structural hstructural =>
    cases htoken
    unfold structuralToken? at hstructural
    split at hstructural <;> cases hstructural
  | literalTrue | literalFalse | literalNull => cases htoken
  | string hspells =>
    cases htoken
    exact hspells.isEncoded
  | number => exact absurd htoken.symm (numberToken_ne (by simp) (by simp) (by simp) _ _)

theorem scanLiteral_cases {literalText : Str} {token token' : Token D} {s s' : List Char}
    (h : scanLiteral literalText token s = (token', s')) (hproper : token'.IsProper)
    : token' = token ∧ s = literalText ++ s' := by
  unfold scanLiteral at h
  split at h
  . next hbegins =>
    cases h
    exact ⟨rfl, (List.prefix_iff_eq_append.mp (List.isPrefixOf_iff_prefix.mp hbegins)).symm⟩
  . cases h
    exact absurd rfl (hproper.2 _)

theorem scan_isLexeme {s s' : List Char} {token : Token D} (h : scan fl s = (token, s'))
    (hproper : token.IsProper)
    : ∃ text, s.dropWhile isWhitespace = text ++ s' ∧ IsLexeme fl text token := by
  unfold scan at h
  split at h
  . cases h
    exact absurd rfl hproper.1
  . next c tail hdrop =>
    rw [hdrop]
    split at h
    . next token hstructural =>
      cases h
      exact ⟨[c], rfl, .structural hstructural⟩
    . split at h
      . obtain ⟨rfl, rfl⟩ := scanLiteral_cases h hproper
        exact ⟨_, rfl, .literalTrue⟩
      . obtain ⟨rfl, rfl⟩ := scanLiteral_cases h hproper
        exact ⟨_, rfl, .literalFalse⟩
      . obtain ⟨rfl, rfl⟩ := scanLiteral_cases h hproper
        exact ⟨_, rfl, .literalNull⟩
      . split at h
        . next hstring =>
          cases h
          obtain ⟨text, rfl, hspells⟩ := spells_scanString hstring
          exact ⟨'"' :: (text ++ ['"']), by simp, .string hspells⟩
        . cases h
          exact absurd rfl (hproper.2 _)
      . cases h
        exact absurd rfl hproper.1
      . split at h
        . next hc =>
          unfold scanNumber at h
          dsimp only at h
          split at h
          . next hscan =>
            cases h
            obtain ⟨htext, hnumber⟩ := isNumber_scanNumberFrom hc hscan
            exact ⟨_, htext, .number hnumber⟩
          . cases h
            exact absurd rfl (hproper.2 _)
        . cases h
          exact absurd rfl (hproper.2 _)

/--
The end of the input might be a null character with whatever stands behind it.
-/
theorem scan_endOfInput {s : List Char} (h : (scan fl s).1 = .endOfInput)
    : ∀ c ∈ (s.dropWhile isWhitespace).head?, c = '\x00' := by
  have hliteral : ∀ {text : Str} {token : Token D} {s : List Char}, token ≠ .endOfInput
      → (scanLiteral text token s).1 ≠ .endOfInput := by
    intro text token s hne
    unfold scanLiteral
    split
    . exact hne
    . exact fun heq => by cases heq
  unfold scan at h
  split at h
  . next hdrop =>
    rw [hdrop]
    intro c hc
    cases hc
  . next c tail hdrop =>
    split at h
    . next token hstructural =>
      cases h
      unfold structuralToken? at hstructural
      split at hstructural <;> cases hstructural
    . split at h
      . exact absurd h (hliteral (by simp))
      . exact absurd h (hliteral (by simp))
      . exact absurd h (hliteral (by simp))
      . split at h <;> cases h
      . rw [hdrop]
        intro c hc
        exact (Option.some.inj hc).symm
      . split at h
        . unfold scanNumber at h
          dsimp only at h
          split at h
          . exact absurd h (numberToken_ne (by simp) (by simp) (by simp) _ _)
          . cases h
        . cases h

end

end Lexer

inductive Json.AllStrings {D : Type} (P : Str → Prop) : Json D → Prop
  | null : AllStrings P .null
  | boolean (b : Bool) : AllStrings P (.boolean b)
  | numberInteger (n : Int) : AllStrings P (.numberInteger n)
  | numberUnsigned (n : Nat) : AllStrings P (.numberUnsigned n)
  | numberFloat (d : D) : AllStrings P (.numberFloat d)
  | string {s : Str} (h : P s) : AllStrings P (.string s)
  | array {elements : List (Json D)} (h : ∀ element ∈ elements, AllStrings P element)
    : AllStrings P (.array elements)
  | object {members : List (Str × Json D)} (hnames : ∀ m ∈ members, P m.1)
    (hvalues : ∀ m ∈ members, AllStrings P m.2) : AllStrings P (.object members)

namespace Parser

open Lexer

section

variable {D : Type} {fl : FloatOps D}

theorem mem_separated_of_mem {token : Token D} {block : List (Token D)} {blocks : List (List (Token D))}
    (hblock : block ∈ blocks) (htoken : token ∈ block)
    : token ∈ separated blocks := by
  induction blocks with
  | nil => cases hblock
  | cons first blocks ih =>
    cases blocks with
    | nil => rwa [separated, ← List.mem_singleton.mp hblock]
    | cons next blocks =>
      rw [separated_cons, List.mem_append, List.mem_cons]
      obtain rfl | hblock := List.mem_cons.mp hblock
      . exact Or.inl htoken
      . exact Or.inr (Or.inr (ih hblock))

theorem IsText.allStrings {P : Str → Prop} {tokens : List (Token D)} {j : Json D} (h : IsText fl tokens j)
    (htokens : ∀ yytext, .valueString yytext ∈ tokens → P yytext)
    : j.AllStrings P := by
  induction h with
  | literalNull => exact .null
  | literalTrue => exact .boolean true
  | literalFalse => exact .boolean false
  | string yytext => exact .string (htokens yytext List.mem_cons_self)
  | unsigned n => exact .numberUnsigned n
  | integer n => exact .numberInteger n
  | float d => exact .numberFloat d
  | array es hes ih =>
    apply Json.AllStrings.array
    rw [List.forall_mem_map]
    intro e he
    apply ih e he
    intro yytext hmem
    apply htokens
    exact List.mem_cons_of_mem _ (List.mem_append_left _ (mem_separated_of_mem (List.mem_map_of_mem he) hmem))
  | object ms hms ih =>
    have hmembers : ∀ m ∈ ms, ∀ yytext, .valueString yytext ∈ memberTokens m → P yytext := by
      intro m hm yytext hmem
      apply htokens
      exact List.mem_cons_of_mem _ (List.mem_append_left _ (mem_separated_of_mem (List.mem_map_of_mem hm) hmem))
    have hentries : ∀ entry ∈ OrdMap.ofList (ms.map (fun m => (m.1, m.2.2))),
        P entry.1 ∧ Json.AllStrings P entry.2 := by
      intro entry hentry
      obtain ⟨m, hm, rfl⟩ := List.mem_map.mp (OrdMap.mem_of_mem_ofList hentry)
      refine ⟨hmembers m hm m.1 List.mem_cons_self, ih m hm ?_⟩
      intro yytext hmem
      exact hmembers m hm yytext (List.mem_cons_of_mem _ (List.mem_cons_of_mem _ hmem))
    apply Json.AllStrings.object
    . exact fun entry hentry => (hentries entry hentry).1
    . exact fun entry hentry => (hentries entry hentry).2

theorem isEncoded_of_lexes {s s' : List Char} {tokens : List (Token D)} (h : Lexes fl s tokens s')
    : ∀ yytext, .valueString yytext ∈ tokens → IsEncoded yytext := by
  induction h with
  | nil =>
    intro yytext hmem
    cases hmem
  | cons hscan _ ih =>
    intro yytext hmem
    obtain rfl | hmem := List.mem_cons.mp hmem
    . obtain ⟨text, -, hlexeme⟩ := scan_isLexeme hscan ⟨by simp, by simp⟩
      exact hlexeme.isEncoded
    . exact ih yytext hmem

theorem parse_allStrings {bytes : List UInt8} {j : Json D} (h : parse fl bytes = .ok j)
    : j.AllStrings IsEncoded := by
  obtain ⟨tokens, s, hlexes, htext, -⟩ := derived_of_parse h
  exact htext.allStrings (isEncoded_of_lexes hlexes)

set_option maxRecDepth 20000 in
theorem parse_allStrings_escape
    : parse FloatOps.none [34, 92, 117, 48, 48, 101, 57, 34] = .ok (.string [Char.ofNat 0xC3, Char.ofNat 0xA9])
        ∧ Json.AllStrings (D := Unit) IsEncoded (.string [Char.ofNat 0xC3, Char.ofNat 0xA9]) := by
  have hparse : parse FloatOps.none [34, 92, 117, 48, 48, 101, 57, 34]
      = .ok (.string [Char.ofNat 0xC3, Char.ofNat 0xA9]) := rfl
  exact ⟨hparse, parse_allStrings hparse⟩

/--
The tokens are written in `s` one after the other with blanks between them, and `s'` is behind them.
-/
inductive Spelled (fl : FloatOps D) : List Char → List (Token D) → List Char → Prop
  | nil {s : List Char} : Spelled fl s [] s
  | cons {blank text s s' : List Char} {token : Token D} {tokens : List (Token D)}
    (hblank : ∀ c ∈ blank, isWhitespace c = true) (hlexeme : IsLexeme fl text token)
    (hrest : Spelled fl s tokens s') : Spelled fl (blank ++ (text ++ s)) (token :: tokens) s'

theorem spelled_of_lexes {s s' : List Char} {tokens : List (Token D)} (h : Lexes fl s tokens s')
    (hproper : ∀ token ∈ tokens, token.IsProper)
    : Spelled fl s tokens s' := by
  induction h with
  | nil => exact .nil
  | @cons s s₁ s' token tokens hscan _ ih =>
    rw [List.forall_mem_cons] at hproper
    obtain ⟨text, hdrop, hlexeme⟩ := scan_isLexeme hscan hproper.1
    have hs : s = s.takeWhile isWhitespace ++ (text ++ s₁) := by rw [← hdrop, List.takeWhile_append_dropWhile]
    rw [hs]
    exact .cons (fun c hc => List.mem_takeWhile_imp hc) hlexeme (ih hproper.2)

theorem parse_spelled {bytes : List UInt8} {j : Json D} (h : parse fl bytes = .ok j)
    : ∃ tokens s, Spelled fl ((skipByteOrderMark bytes).map byteChar) tokens s ∧ IsText fl tokens j
        ∧ ∀ c ∈ (s.dropWhile isWhitespace).head?, c = '\x00' := by
  obtain ⟨tokens, s, hlexes, htext, hend⟩ := derived_of_parse h
  exact ⟨tokens, s, spelled_of_lexes hlexes htext.forall_isProper, htext, scan_endOfInput hend⟩

theorem parse_spelled_null
    : parse FloatOps.none [91, 93, 0, 93] = .ok (.array [])
        ∧ ∃ tokens s, Spelled FloatOps.none ([91, 93, 0, 93].map byteChar) tokens s
          ∧ IsText FloatOps.none tokens (.array [])
          ∧ ∀ c ∈ (s.dropWhile isWhitespace).head?, c = '\x00' := by
  have hparse : parse FloatOps.none [91, 93, 0, 93] = .ok (.array []) := rfl
  exact ⟨hparse, parse_spelled hparse⟩

end

end Parser
