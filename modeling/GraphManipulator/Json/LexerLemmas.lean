import GraphManipulator.Json.Lexer

/-!
This module contains what the lexer makes of the texts that the client sends: keys between quotes and
integers. It also contains the bounds on what is left of the input behind a token.
-/

namespace Lexer

variable {D : Type}

theorem getCodepoint_length_le {s r : List Char} {n : Nat} (h : getCodepoint s = .ok (n, r))
    : r.length ≤ s.length := by
  unfold getCodepoint at h
  split at h
  . split at h
    . injection h with h
      injection h with h₁ h₂
      subst h₂
      simp only [List.length_cons]
      omega
    . contradiction
  . contradiction

theorem scanUnicodeEscape_length_le {s r bytes : List Char} (h : scanUnicodeEscape s = .ok (bytes, r))
    : r.length ≤ s.length := by
  unfold scanUnicodeEscape at h
  cases h₁ : getCodepoint s with
  | error => simp [h₁, Bind.bind, Except.bind] at h
  | ok res =>
    obtain ⟨codepoint1, s₁⟩ := res
    have hle := getCodepoint_length_le h₁
    simp only [h₁, Bind.bind, Except.bind] at h
    split at h
    . split at h
      . next tail =>
        cases h₂ : getCodepoint tail with
        | error => simp [h₂] at h
        | ok res =>
          obtain ⟨codepoint2, s₂⟩ := res
          have hle₂ := getCodepoint_length_le h₂
          simp only [List.length_cons] at hle
          simp only [h₂] at h
          split at h
          . injection h with h
            injection h with _ h
            subst h
            omega
          . contradiction
      . contradiction
    . split at h
      . contradiction
      . injection h with h
        injection h with _ h
        subst h
        omega

theorem scanEscape_length_le {s r bytes : List Char} (h : scanEscape s = .ok (bytes, r))
    : r.length ≤ s.length := by
  unfold scanEscape at h
  split at h
  case h_9 =>
    have := scanUnicodeEscape_length_le h
    simp only [List.length_cons]
    omega
  case h_10 => contradiction
  all_goals
    injection h with h
    injection h with _ h
    simp [← h]

theorem nextByteInRange_length_le {ranges : List (Nat × Nat)} {s r bytes : List Char}
    (h : nextByteInRange ranges s = .ok (bytes, r))
    : r.length ≤ s.length := by
  induction ranges generalizing s r bytes with
  | nil =>
    injection h with h
    injection h with _ h
    simp [← h]
  | cons range ranges ih =>
    cases s with
    | nil => simp [nextByteInRange] at h
    | cons c tail =>
      simp only [nextByteInRange] at h
      split at h
      . cases hrec : nextByteInRange ranges tail with
        | error => simp [hrec, Bind.bind, Except.bind] at h
        | ok res =>
          simp only [hrec, Bind.bind, Except.bind] at h
          injection h with h
          injection h with _ h
          have := ih hrec
          subst h
          simp only [List.length_cons]
          omega
      . contradiction

theorem scanStringChar_length_le {c : Char} {s r bytes : List Char}
    (h : scanStringChar c s = .ok (bytes, r))
    : r.length ≤ s.length := by
  unfold scanStringChar at h
  split at h
  . exact scanEscape_length_le h
  . split at h
    . contradiction
    . split at h
      . injection h with h
        injection h with _ h
        simp [← h]
      . split at h
        . next ranges _ =>
          cases hrec : nextByteInRange ranges s with
          | error => simp [hrec, Bind.bind, Except.bind] at h
          | ok res =>
            simp only [hrec, Bind.bind, Except.bind] at h
            injection h with h
            injection h with _ h
            have := nextByteInRange_length_le hrec
            subst h
            omega
        . contradiction

theorem scanString.go_length_le {rounds : Nat} {yytext s r bytes : List Char}
    (h : go rounds yytext s = .ok (bytes, r))
    : r.length ≤ s.length := by
  induction rounds generalizing yytext s r bytes with
  | zero => simp [go] at h
  | succ rounds ih =>
    cases s with
    | nil => simp [go] at h
    | cons c tail =>
      simp only [go] at h
      split at h
      . injection h with h
        injection h with _ h
        simp [← h]
      . cases hrec : scanStringChar c tail with
        | error => simp [hrec, Bind.bind, Except.bind] at h
        | ok res =>
          simp only [hrec, Bind.bind, Except.bind] at h
          have := scanStringChar_length_le hrec
          have := ih h
          simp only [List.length_cons]
          omega

theorem scanNumberFrom_length_le {st : NumberState} {ty ty' : NumberType} {yytext yytext' s r : List Char}
    (h : scanNumberFrom st ty yytext s = .ok ((ty', yytext'), r))
    : r.length ≤ s.length := by
  induction s generalizing st ty yytext with
  | nil =>
    simp only [scanNumberFrom] at h
    split at h
    . contradiction
    . injection h with h
      injection h with _ h
      simp [← h]
  | cons c tail ih =>
    simp only [scanNumberFrom] at h
    split at h
    . have := ih h
      simp only [List.length_cons]
      omega
    . injection h with h
      injection h with _ h
      simp [← h]
    . contradiction

theorem scanNumber_length_le (fl : FloatOps D) (c : Char) (s : List Char)
    : (scanNumber fl c s).2.length ≤ s.length := by
  unfold scanNumber
  dsimp only
  split
  . next hscan => exact scanNumberFrom_length_le hscan
  . simp

theorem scanLiteral_length_le (literalText : Str) (token : Token D) (s : List Char)
    : (scanLiteral literalText token s).2.length ≤ s.length := by
  unfold scanLiteral
  split
  . simp
  . simp

theorem scan_length_lt (fl : FloatOps D) (s : List Char)
    : (scan fl s).2.length < s.length ∨ (scan fl s).1 = .endOfInput ∧ (scan fl s).2.length ≤ s.length := by
  unfold scan
  have hdrop := (List.dropWhile_suffix isWhitespace (l := s)).length_le
  cases hs : s.dropWhile isWhitespace with
  | nil => simp
  | cons c tail =>
    left
    rw [hs, List.length_cons] at hdrop
    dsimp only
    split
    . dsimp only
      omega
    . split
      . have := scanLiteral_length_le "rue".toList (Token.literalTrue (D := D)) tail
        omega
      . have := scanLiteral_length_le "alse".toList (Token.literalFalse (D := D)) tail
        omega
      . have := scanLiteral_length_le "ull".toList (Token.literalNull (D := D)) tail
        omega
      . split
        . next hscan =>
          have := scanString.go_length_le hscan
          dsimp only
          omega
        . dsimp only
          omega
      . dsimp only
        omega
      . split
        . have := scanNumber_length_le fl c tail
          omega
        . dsimp only
          omega

theorem scan_length_le (fl : FloatOps D) (s : List Char) : (scan fl s).2.length ≤ s.length := by
  cases scan_length_lt fl s with
  | inl h => omega
  | inr h => exact h.2

theorem scan_colon (fl : FloatOps D) (s : List Char) : scan fl (':' :: s) = (.nameSeparator, s) := rfl

theorem scan_comma (fl : FloatOps D) (s : List Char) : scan fl (',' :: s) = (.valueSeparator, s) := rfl

theorem scan_brace (fl : FloatOps D) (s : List Char) : scan fl ('{' :: s) = (.beginObject, s) := rfl

theorem scan_space (fl : FloatOps D) (s : List Char) : scan fl (' ' :: s) = scan fl s := by
  unfold scan
  rw [List.dropWhile_cons_of_pos (by decide)]

def IsPlain (c : Char) : Prop := c ≠ '"' ∧ c ≠ '\\' ∧ 0x1f < c.toNat ∧ c.toNat ≤ 0x7f

instance (c : Char) : Decidable (IsPlain c) := inferInstanceAs (Decidable (_ ∧ _))

theorem scanStringChar_plain {c : Char} (h : IsPlain c) (s : List Char)
    : scanStringChar c s = .ok ([c], s) := by
  obtain ⟨hquote, hbackslash, hlo, hhi⟩ := h
  unfold scanStringChar
  rw [if_neg hbackslash, if_neg (by omega), if_pos hhi]

theorem scanString.go_plain {key : Str} (hkey : ∀ c ∈ key, IsPlain c) (yytext s : List Char) (rounds : Nat)
    (hrounds : key.length < rounds)
    : go rounds yytext (key ++ '"' :: s) = .ok (yytext ++ key, s) := by
  induction key generalizing yytext rounds with
  | nil =>
    cases rounds with
    | zero => contradiction
    | succ rounds => simp [go]
  | cons c key ih =>
    cases rounds with
    | zero => contradiction
    | succ rounds =>
      have hc := hkey c (by simp)
      simp only [List.cons_append, go]
      rw [if_neg hc.1, scanStringChar_plain hc]
      simp only [Bind.bind, Except.bind]
      rw [ih (fun c hc => hkey c (List.mem_cons_of_mem _ hc))]
      . simp
      . simpa using hrounds

theorem scanString_plain {key : Str} (hkey : ∀ c ∈ key, IsPlain c) (s : List Char)
    : scanString (key ++ '"' :: s) = .ok (key, s) := by
  unfold scanString
  rw [scanString.go_plain hkey]
  . simp
  . simp only [List.length_append, List.length_cons]
    omega

theorem scan_key (fl : FloatOps D) {key : Str} (hkey : ∀ c ∈ key, IsPlain c) (s : List Char)
    : scan fl ('"' :: (key ++ '"' :: s)) = (.valueString key, s) := by
  unfold scan
  rw [List.dropWhile_cons_of_neg (by decide)]
  simp [structuralToken?, scanString_plain hkey]

def EndsNumber (c : Char) : Prop := c.isDigit = false ∧ c ≠ '.' ∧ c ≠ 'e' ∧ c ≠ 'E'

instance (c : Char) : Decidable (EndsNumber c) := inferInstanceAs (Decidable (_ ∧ _))

theorem scanNumberFrom_any1 {digits : Str} (hdigits : ∀ c ∈ digits, c.isDigit = true) (ty : NumberType)
    (yytext s : List Char) {c : Char} (hc : EndsNumber c)
    : scanNumberFrom .any1 ty yytext (digits ++ c :: s) = .ok ((ty, yytext ++ digits), c :: s) := by
  induction digits generalizing yytext with
  | nil =>
    obtain ⟨hdigit, hdot, he, hE⟩ := hc
    simp [scanNumberFrom, NumberState.next, NumberState.numberType, hdigit, hdot, he, hE]
  | cons d digits ih =>
    have hd := hdigits d (by simp)
    simp only [List.cons_append, scanNumberFrom, NumberState.next, NumberState.numberType, hd, ↓reduceIte]
    rw [ih (fun c hc => hdigits c (List.mem_cons_of_mem _ hc))]
    simp

theorem scanNumberFrom_zero (ty : NumberType) (yytext s : List Char) {c : Char} (hc : EndsNumber c)
    : scanNumberFrom .zero ty yytext (c :: s) = .ok ((ty, yytext), c :: s) := by
  obtain ⟨hdigit, hdot, he, hE⟩ := hc
  simp [scanNumberFrom, NumberState.next, NumberState.numberType, hdot, he, hE]

theorem toDigits_cases (n : Nat)
    : n = 0 ∨ ∃ d digits, Nat.toDigits 10 n = d :: digits ∧ d ≠ '0' := by
  induction n using Nat.strongRecOn with
  | ind n ih =>
    by_cases hn : n < 10
    . rw [Nat.toDigits_of_lt_base hn]
      interval_cases n <;> simp [Nat.digitChar]
    . right
      rw [Nat.toDigits_of_base_le (by decide) (by omega)]
      cases ih (n / 10) (by omega) with
      | inl h => omega
      | inr h =>
        obtain ⟨d, digits, heq, hd⟩ := h
        exact ⟨d, digits ++ [(n % 10).digitChar], by rw [heq]; simp, hd⟩

theorem scanNumberFrom_toDigits (n : Nat) (ty : NumberType) (yytext s : List Char) {c : Char}
    (hc : EndsNumber c)
    : ∃ d digits, Nat.toDigits 10 n = d :: digits
        ∧ d.isDigit = true
        ∧ scanNumberFrom (if d = '0' then .zero else .any1) ty yytext (digits ++ c :: s)
            =
          .ok ((ty, yytext ++ digits), c :: s) := by
  cases toDigits_cases n with
  | inl h =>
    subst h
    refine ⟨'0', [], rfl, by decide, ?_⟩
    simpa using scanNumberFrom_zero ty yytext s hc
  | inr h =>
    obtain ⟨d, digits, heq, hd⟩ := h
    have hall : ∀ c ∈ d :: digits, c.isDigit = true := by
      intro c hmem
      rw [← heq] at hmem
      exact isDigit_of_mem_toDigits hmem
    refine ⟨d, digits, heq, hall d (by simp), ?_⟩
    rw [if_neg hd]
    exact scanNumberFrom_any1 (fun c hc => hall c (List.mem_cons_of_mem _ hc)) ty yytext s hc

theorem scan_digit (fl : FloatOps D) {d : Char} (hd : d = '-' ∨ d.isDigit = true) (s : List Char)
    : scan fl (d :: s) = scanNumber fl d s := by
  have hne : ∀ c : Char, c ≠ '-' → c.isDigit = false → d ≠ c := by
    rintro c h₁ h₂ rfl
    simp_all
  have hspace : isWhitespace d = false := by
    simp only [isWhitespace, Bool.or_eq_false_iff, decide_eq_false_iff_not]
    refine ⟨⟨⟨?_, ?_⟩, ?_⟩, ?_⟩
    all_goals exact hne _ (by decide) (by decide)
  have hstructural : structuralToken? (D := D) d = none := by
    unfold structuralToken?
    split
    case h_7 => rfl
    all_goals exact absurd rfl (hne _ (by decide) (by decide))
  unfold scan
  rw [List.dropWhile_cons_of_neg (by simp [hspace])]
  dsimp only
  rw [hstructural]
  dsimp only
  split
  case h_6 => rw [if_pos hd]
  all_goals exact absurd rfl (hne _ (by decide) (by decide))

def intToken (n : Int) : Token D :=
  if 0 ≤ n then .valueUnsigned n.toNat else .valueInteger n

theorem numberToken_unsigned (fl : FloatOps D) {n : Nat} (h : n ≤ 18446744073709551615)
    : numberToken fl .unsigned (Nat.toDigits 10 n) = .valueUnsigned n := by
  have hvalue : integerValue (Nat.toDigits 10 n) = n := by
    unfold integerValue
    split
    . next heq =>
      have := isDigit_of_mem_toDigits (c := '-') (n := n) (by simp [heq])
      exact absurd this (by decide)
    . simp
  simp only [numberToken, hvalue, Int.toNat_natCast]
  rw [if_pos]
  omega

theorem numberToken_integer (fl : FloatOps D) {n : Nat} (h : n ≤ 9223372036854775808)
    : numberToken fl .integer ('-' :: Nat.toDigits 10 n) = .valueInteger (-n) := by
  have hvalue : integerValue ('-' :: Nat.toDigits 10 n) = -n := by simp [integerValue]
  simp only [numberToken, hvalue]
  rw [if_pos]
  omega

def IsStored (n : Int) : Prop := -9223372036854775808 ≤ n ∧ n ≤ 18446744073709551615

instance (n : Int) : Decidable (IsStored n) := inferInstanceAs (Decidable (_ ∧ _))

theorem isStored_of_isInt {n : Int} (h : IsInt n) : IsStored n := by
  unfold IsInt intMin intMax at h
  unfold IsStored
  omega

theorem scan_intText (fl : FloatOps D) {n : Int} (hn : IsStored n) (s : List Char) {c : Char}
    (hc : EndsNumber c)
    : scan fl (intText n ++ c :: s) = (intToken n, c :: s) := by
  unfold IsStored at hn
  cases n with
  | ofNat n =>
    obtain ⟨d, digits, heq, hd, hscan⟩ := scanNumberFrom_toDigits n .unsigned
      [(Nat.toDigits 10 n).headD '0'] s hc
    rw [heq, List.headD_cons] at hscan
    have hne : d ≠ '-' := by
      rintro rfl
      exact absurd hd (by decide)
    simp only [intText, heq, List.cons_append]
    rw [scan_digit fl (Or.inr hd)]
    simp only [scanNumber, if_neg hne, hscan, List.singleton_append, ← heq]
    rw [numberToken_unsigned]
    . simp [intToken]
    . simp only [Int.ofNat_eq_natCast] at hn
      omega
  | negSucc n =>
    obtain ⟨d, digits, heq, hd, hscan⟩ := scanNumberFrom_toDigits (n + 1) .integer
      ['-', (Nat.toDigits 10 (n + 1)).headD '0'] s hc
    rw [heq, List.headD_cons] at hscan
    simp only [intText, List.cons_append]
    rw [scan_digit fl (Or.inl rfl)]
    have hminus : scanNumberFrom .minus .unsigned ['-'] (digits ++ c :: s |>.cons d)
        = .ok ((.integer, '-' :: d :: digits), c :: s) := by
      simp only [scanNumberFrom, NumberState.next, NumberState.numberType, hd, ↓reduceIte]
      split at hscan
      . next hzero =>
        subst hzero
        simpa using hscan
      . next hzero =>
        simpa [hzero] using hscan
    simp only [scanNumber, ↓reduceIte, heq, List.cons_append, hminus]
    rw [← heq, numberToken_integer]
    . simp only [intToken]
      rw [if_neg (by simp)]
      rfl
    . omega

end Lexer
