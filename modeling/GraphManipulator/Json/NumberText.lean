import GraphManipulator.Json.Lexer

/-!
This module contains how numbers are written: where the automaton of the lexer ends, it has taken a number in
the grammar of JSON.
-/

namespace Lexer

def IsDigits (s : Str) : Prop := ∀ c ∈ s, c.isDigit = true

def IsFraction (s : Str) : Prop := s = [] ∨ ∃ digits, s = '.' :: digits ∧ digits ≠ [] ∧ IsDigits digits

def IsExponent (s : Str) : Prop :=
  s = [] ∨ ∃ e sign digits, s = e :: (sign ++ digits) ∧ (e = 'e' ∨ e = 'E')
    ∧ (sign = [] ∨ sign = ['+'] ∨ sign = ['-']) ∧ digits ≠ [] ∧ IsDigits digits

def IsWhole (s : Str) : Prop := s = ['0'] ∨ ∃ c digits, s = c :: digits ∧ c ≠ '0' ∧ IsDigits (c :: digits)

def typeOf (ty : NumberType) (fraction exponent : Str) : NumberType :=
  if fraction = [] ∧ exponent = [] then ty else .float

structure IsNumber (ty : NumberType) (text : Str) : Prop where
  spelled : ∃ sign whole fraction exponent, text = sign ++ whole ++ fraction ++ exponent
    ∧ (sign = [] ∨ sign = ['-']) ∧ IsWhole whole ∧ IsFraction fraction ∧ IsExponent exponent
    ∧ ty = typeOf (if sign = [] then .unsigned else .integer) fraction exponent

section

variable {st : NumberState} {ty ty' : NumberType} {yytext text s s' : Str}

theorem isDigits_nil : IsDigits [] := fun _ hc => absurd hc List.not_mem_nil

theorem isDigits_cons {c : Char} (hc : c.isDigit = true) (hs : IsDigits s) : IsDigits (c :: s) :=
  List.forall_mem_cons.mpr ⟨hc, hs⟩

def NumberState.IsFinal (st : NumberState) : Prop := st = .zero ∨ st = .any1 ∨ st = .decimal2 ∨ st = .any2

theorem NumberState.isFinal_of_next {c : Char} (h : ∀ e, st.next c ≠ .error e)
    (hgoto : ∀ st', st.next c ≠ .goto st')
    : st.IsFinal := by
  cases st with
  | zero => exact .inl rfl
  | any1 => exact .inr (.inl rfl)
  | decimal2 => exact .inr (.inr (.inl rfl))
  | any2 => exact .inr (.inr (.inr rfl))
  | minus =>
    by_cases hzero : c = '0'
    . exact absurd (if_pos hzero) (hgoto .zero)
    . by_cases hdigit : c.isDigit = true
      . exact absurd ((if_neg hzero).trans (if_pos hdigit)) (hgoto .any1)
      . exact absurd ((if_neg hzero).trans (if_neg hdigit)) (h _)
  | decimal1 =>
    by_cases hdigit : c.isDigit = true
    . exact absurd (if_pos hdigit) (hgoto .decimal2)
    . exact absurd (if_neg hdigit) (h _)
  | exponent =>
    by_cases hsign : c = '+' ∨ c = '-'
    . exact absurd (if_pos hsign) (hgoto .sign)
    . by_cases hdigit : c.isDigit = true
      . exact absurd ((if_neg hsign).trans (if_pos hdigit)) (hgoto .any2)
      . exact absurd ((if_neg hsign).trans (if_neg hdigit)) (h _)
  | sign =>
    by_cases hdigit : c.isDigit = true
    . exact absurd (if_pos hdigit) (hgoto .any2)
    . exact absurd (if_neg hdigit) (h _)

theorem scanNumberFrom_cases (h : scanNumberFrom st ty yytext s = .ok ((ty', text), s'))
    : (s = s' ∧ text = yytext ∧ ty' = st.numberType ty ∧ st.IsFinal)
        ∨ ∃ c tail st', s = c :: tail ∧ st.next c = .goto st'
          ∧ scanNumberFrom st' (st.numberType ty) (yytext ++ [c]) tail = .ok ((ty', text), s') := by
  cases s with
  | nil =>
    left
    simp only [scanNumberFrom] at h
    split at h
    . cases h
    . next hnext =>
      cases h
      refine ⟨rfl, rfl, rfl, ?_⟩
      apply NumberState.isFinal_of_next (c := '\x00') hnext
      intro st'
      cases st <;> simp [NumberState.next]
  | cons c tail =>
    simp only [scanNumberFrom] at h
    split at h
    . next st' hnext => exact .inr ⟨c, tail, st', rfl, hnext, h⟩
    . next hnext =>
      cases h
      refine .inl ⟨rfl, rfl, rfl, ?_⟩
      apply NumberState.isFinal_of_next (c := c)
      . intro e
        rw [hnext]
        simp
      . intro st'
        rw [hnext]
        simp
    . cases h

theorem scanNumberFrom_any2 (h : scanNumberFrom .any2 ty yytext s = .ok ((ty', text), s'))
    : ∃ digits, s = digits ++ s' ∧ text = yytext ++ digits ∧ IsDigits digits ∧ ty' = ty := by
  induction s generalizing yytext with
  | nil =>
    obtain ⟨rfl, rfl, rfl, -⟩ | ⟨c, tail, st', hs, -⟩ := scanNumberFrom_cases h
    . exact ⟨[], rfl, (List.append_nil _).symm, isDigits_nil, rfl⟩
    . cases hs
  | cons c tail ih =>
    obtain ⟨rfl, rfl, rfl, -⟩ | ⟨c, tail, st', hs, hnext, hrest⟩ := scanNumberFrom_cases h
    . exact ⟨[], rfl, (List.append_nil _).symm, isDigits_nil, rfl⟩
    . cases hs
      simp only [NumberState.next] at hnext
      split at hnext
      . next hdigit =>
        cases hnext
        obtain ⟨digits, rfl, rfl, hdigits, rfl⟩ := ih hrest
        exact ⟨c :: digits, rfl, by simp, isDigits_cons hdigit hdigits, rfl⟩
      . cases hnext

theorem scanNumberFrom_sign (h : scanNumberFrom .sign ty yytext s = .ok ((ty', text), s'))
    : ∃ digits, s = digits ++ s' ∧ text = yytext ++ digits ∧ digits ≠ [] ∧ IsDigits digits ∧ ty' = ty := by
  obtain ⟨-, -, -, hfinal⟩ | ⟨c, tail, st', rfl, hnext, hrest⟩ := scanNumberFrom_cases h
  . simp [NumberState.IsFinal] at hfinal
  . simp only [NumberState.next] at hnext
    split at hnext
    . next hdigit =>
      cases hnext
      obtain ⟨digits, rfl, rfl, hdigits, rfl⟩ := scanNumberFrom_any2 hrest
      exact ⟨c :: digits, rfl, by simp, List.cons_ne_nil _ _, isDigits_cons hdigit hdigits, rfl⟩
    . cases hnext

theorem scanNumberFrom_exponent (h : scanNumberFrom .exponent ty yytext s = .ok ((ty', text), s'))
    : ∃ sign digits, s = sign ++ digits ++ s' ∧ text = yytext ++ (sign ++ digits)
        ∧ (sign = [] ∨ sign = ['+'] ∨ sign = ['-']) ∧ digits ≠ [] ∧ IsDigits digits ∧ ty' = .float := by
  obtain ⟨-, -, -, hfinal⟩ | ⟨c, tail, st', rfl, hnext, hrest⟩ := scanNumberFrom_cases h
  . simp [NumberState.IsFinal] at hfinal
  . simp only [NumberState.next] at hnext
    split at hnext
    . next hsign =>
      cases hnext
      obtain ⟨digits, rfl, rfl, hne, hdigits, rfl⟩ := scanNumberFrom_sign hrest
      refine ⟨[c], digits, rfl, by simp, Or.inr ?_, hne, hdigits, rfl⟩
      exact hsign.imp (fun heq => congrArg (fun c => [c]) heq) (fun heq => congrArg (fun c => [c]) heq)
    . split at hnext
      . next hdigit =>
        cases hnext
        obtain ⟨digits, rfl, rfl, hdigits, rfl⟩ := scanNumberFrom_any2 hrest
        exact ⟨[], c :: digits, rfl, by simp, .inl rfl, List.cons_ne_nil _ _, isDigits_cons hdigit hdigits, rfl⟩
      . cases hnext

theorem isExponent_of_scan {c : Char} (hc : c = 'e' ∨ c = 'E')
    (h : scanNumberFrom .exponent ty (yytext ++ [c]) s = .ok ((ty', text), s'))
    : ∃ exponent, c :: s = exponent ++ s' ∧ text = yytext ++ exponent ∧ IsExponent exponent ∧ exponent ≠ []
        ∧ ty' = .float := by
  obtain ⟨sign, digits, rfl, rfl, hsign, hne, hdigits, rfl⟩ := scanNumberFrom_exponent h
  exact ⟨c :: (sign ++ digits), rfl, by simp, .inr ⟨c, sign, digits, rfl, hc, hsign, hne, hdigits⟩,
    List.cons_ne_nil _ _, rfl⟩

theorem scanNumberFrom_decimal2 (h : scanNumberFrom .decimal2 .float yytext s = .ok ((ty', text), s'))
    : ∃ digits exponent, s = digits ++ exponent ++ s' ∧ text = yytext ++ (digits ++ exponent) ∧ IsDigits digits
        ∧ IsExponent exponent ∧ ty' = .float := by
  induction s generalizing yytext with
  | nil =>
    obtain ⟨rfl, rfl, rfl, -⟩ | ⟨c, tail, st', hs, -⟩ := scanNumberFrom_cases h
    . exact ⟨[], [], rfl, by simp, isDigits_nil, .inl rfl, rfl⟩
    . cases hs
  | cons c tail ih =>
    obtain ⟨rfl, rfl, rfl, -⟩ | ⟨c, tail, st', hs, hnext, hrest⟩ := scanNumberFrom_cases h
    . exact ⟨[], [], rfl, by simp, isDigits_nil, .inl rfl, rfl⟩
    . cases hs
      simp only [NumberState.next] at hnext
      split at hnext
      . next hdigit =>
        cases hnext
        obtain ⟨digits, exponent, rfl, rfl, hdigits, hexponent, rfl⟩ := ih hrest
        exact ⟨c :: digits, exponent, rfl, by simp, isDigits_cons hdigit hdigits, hexponent, rfl⟩
      . split at hnext
        . next hc =>
          cases hnext
          obtain ⟨exponent, hs, rfl, hexponent, -, rfl⟩ := isExponent_of_scan hc hrest
          exact ⟨[], exponent, hs, rfl, isDigits_nil, hexponent, rfl⟩
        . cases hnext

theorem isFraction_of_scan (h : scanNumberFrom .decimal1 ty (yytext ++ ['.']) s = .ok ((ty', text), s'))
    : ∃ fraction exponent, '.' :: s = fraction ++ exponent ++ s' ∧ text = yytext ++ (fraction ++ exponent)
        ∧ IsFraction fraction ∧ fraction ≠ [] ∧ IsExponent exponent ∧ ty' = .float := by
  obtain ⟨-, -, -, hfinal⟩ | ⟨c, tail, st', rfl, hnext, hrest⟩ := scanNumberFrom_cases h
  . simp [NumberState.IsFinal] at hfinal
  . simp only [NumberState.next] at hnext
    split at hnext
    . next hdigit =>
      cases hnext
      obtain ⟨digits, exponent, rfl, rfl, hdigits, hexponent, rfl⟩ := scanNumberFrom_decimal2 hrest
      exact ⟨'.' :: c :: digits, exponent, rfl, by simp,
        .inr ⟨c :: digits, rfl, List.cons_ne_nil _ _, isDigits_cons hdigit hdigits⟩, List.cons_ne_nil _ _,
        hexponent, rfl⟩
    . cases hnext

theorem scanNumberFrom_zero_rest (h : scanNumberFrom .zero ty yytext s = .ok ((ty', text), s'))
    : ∃ fraction exponent, s = fraction ++ exponent ++ s' ∧ text = yytext ++ (fraction ++ exponent)
        ∧ IsFraction fraction ∧ IsExponent exponent ∧ ty' = typeOf ty fraction exponent := by
  obtain ⟨rfl, rfl, rfl, -⟩ | ⟨c, tail, st', rfl, hnext, hrest⟩ := scanNumberFrom_cases h
  . exact ⟨[], [], rfl, by simp, .inl rfl, .inl rfl, rfl⟩
  . simp only [NumberState.next] at hnext
    split at hnext
    . next hdot =>
      cases hnext
      rw [hdot] at hrest ⊢
      obtain ⟨fraction, exponent, hs, rfl, hfraction, hne, hexponent, rfl⟩ := isFraction_of_scan hrest
      exact ⟨fraction, exponent, hs, rfl, hfraction, hexponent, (if_neg (fun hboth => hne hboth.1)).symm⟩
    . split at hnext
      . next hc =>
        cases hnext
        obtain ⟨exponent, hs, rfl, hexponent, hne, rfl⟩ := isExponent_of_scan hc hrest
        exact ⟨[], exponent, hs, rfl, .inl rfl, hexponent, (if_neg (fun hboth => hne hboth.2)).symm⟩
      . cases hnext

theorem scanNumberFrom_any1_eq (h : ∀ c ∈ s.head?, c.isDigit = false)
    : scanNumberFrom .any1 ty yytext s = scanNumberFrom .zero ty yytext s := by
  cases s with
  | nil => rfl
  | cons c tail =>
    have hdigit : c.isDigit = false := h c rfl
    simp only [scanNumberFrom, NumberState.next, NumberState.numberType, hdigit, Bool.false_eq_true, if_false]

theorem scanNumberFrom_any1_rest (h : scanNumberFrom .any1 ty yytext s = .ok ((ty', text), s'))
    : ∃ digits fraction exponent, s = digits ++ (fraction ++ exponent) ++ s'
        ∧ text = yytext ++ (digits ++ (fraction ++ exponent)) ∧ IsDigits digits ∧ IsFraction fraction
        ∧ IsExponent exponent ∧ ty' = typeOf ty fraction exponent := by
  induction s generalizing yytext with
  | nil =>
    rw [scanNumberFrom_any1_eq (fun c hc => by cases hc)] at h
    obtain ⟨fraction, exponent, hs, htext, hfraction, hexponent, hty⟩ := scanNumberFrom_zero_rest h
    exact ⟨[], fraction, exponent, hs, htext, isDigits_nil, hfraction, hexponent, hty⟩
  | cons c tail ih =>
    cases hdigit : c.isDigit with
    | true =>
      have hnext : scanNumberFrom .any1 ty yytext (c :: tail)
          = scanNumberFrom .any1 ty (yytext ++ [c]) tail := by
        simp only [scanNumberFrom, NumberState.next, NumberState.numberType, if_pos hdigit]
      rw [hnext] at h
      obtain ⟨digits, fraction, exponent, rfl, rfl, hdigits, hfraction, hexponent, rfl⟩ := ih h
      exact ⟨c :: digits, fraction, exponent, rfl, by simp, isDigits_cons hdigit hdigits, hfraction,
        hexponent, rfl⟩
    | false =>
      have hhead : ∀ c' ∈ (c :: tail).head?, c'.isDigit = false := by
        rintro c' ⟨⟩
        exact hdigit
      rw [scanNumberFrom_any1_eq hhead] at h
      obtain ⟨fraction, exponent, hs, htext, hfraction, hexponent, hty⟩ := scanNumberFrom_zero_rest h
      exact ⟨[], fraction, exponent, hs, htext, isDigits_nil, hfraction, hexponent, hty⟩

theorem isWhole_of_scan {c : Char} (hdigit : c.isDigit = true)
    (h : scanNumberFrom (if c = '0' then .zero else .any1) ty (yytext ++ [c]) s = .ok ((ty', text), s'))
    : ∃ whole fraction exponent, c :: s = whole ++ (fraction ++ exponent) ++ s'
        ∧ text = yytext ++ (whole ++ (fraction ++ exponent)) ∧ IsWhole whole ∧ IsFraction fraction
        ∧ IsExponent exponent ∧ ty' = typeOf ty fraction exponent := by
  by_cases hzero : c = '0'
  . rw [if_pos hzero] at h
    obtain ⟨fraction, exponent, rfl, rfl, hfraction, hexponent, rfl⟩ := scanNumberFrom_zero_rest h
    exact ⟨[c], fraction, exponent, rfl, by simp, .inl (by rw [hzero]), hfraction, hexponent, rfl⟩
  . rw [if_neg hzero] at h
    obtain ⟨digits, fraction, exponent, rfl, rfl, hdigits, hfraction, hexponent, rfl⟩ :=
      scanNumberFrom_any1_rest h
    exact ⟨c :: digits, fraction, exponent, rfl, by simp,
      .inr ⟨c, digits, rfl, hzero, isDigits_cons hdigit hdigits⟩, hfraction, hexponent, rfl⟩

theorem isNumber_scanNumberFrom {c : Char} (hc : c = '-' ∨ c.isDigit = true)
    (h : scanNumberFrom (if c = '-' then .minus else if c = '0' then .zero else .any1) .unsigned [c] s
      = .ok ((ty, text), s'))
    : c :: s = text ++ s' ∧ IsNumber ty text := by
  by_cases hminus : c = '-'
  . rw [if_pos hminus] at h
    obtain ⟨-, -, -, hfinal⟩ | ⟨d, tail, st', rfl, hnext, hrest⟩ := scanNumberFrom_cases h
    . simp [NumberState.IsFinal] at hfinal
    . have hdigit : d.isDigit = true ∧ st' = if d = '0' then .zero else .any1 := by
        simp only [NumberState.next] at hnext
        split at hnext
        . next hzero =>
          cases hnext
          rw [if_pos hzero, hzero]
          exact ⟨rfl, rfl⟩
        . next hzero =>
          split at hnext
          . next hdigit =>
            cases hnext
            rw [if_neg hzero]
            exact ⟨hdigit, rfl⟩
          . cases hnext
      rw [hdigit.2] at hrest
      obtain ⟨whole, fraction, exponent, hs, rfl, hwhole, hfraction, hexponent, rfl⟩ :=
        isWhole_of_scan hdigit.1 hrest
      refine ⟨?_, ⟨['-'], whole, fraction, exponent, ?_, .inr rfl, hwhole, hfraction, hexponent, rfl⟩⟩
      . rw [hs]
        simp
      . rw [hminus, List.append_assoc, List.append_assoc]
  . rw [if_neg hminus] at h
    have hscan : scanNumberFrom (if c = '0' then .zero else .any1) .unsigned ([] ++ [c]) s
        = .ok ((ty, text), s') := h
    obtain ⟨whole, fraction, exponent, hs, rfl, hwhole, hfraction, hexponent, rfl⟩ :=
      isWhole_of_scan (hc.resolve_left hminus) hscan
    refine ⟨hs, ⟨[], whole, fraction, exponent, ?_, .inl rfl, hwhole, hfraction, hexponent, rfl⟩⟩
    rw [List.nil_append, List.nil_append, List.append_assoc]

end

end Lexer
