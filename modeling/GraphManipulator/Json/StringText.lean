import GraphManipulator.Json.Parser
import GraphManipulator.Lib.Utf8

/-!
This module contains how strings are written: what the lexer takes for a string is one in the grammar of JSON, and
the bytes that it is read as are UTF-8, also where they were written with escapes.
-/

namespace Lexer

open Parser (byteChar)

def IsEncoded (s : Str) : Prop := ∃ bytes, Utf8.IsUtf8 bytes ∧ s = bytes.map byteChar

theorem isEncoded_nil : IsEncoded [] := ⟨[], Utf8.isUtf8_nil, rfl⟩

theorem isEncoded_append {s t : Str} (hs : IsEncoded s) (ht : IsEncoded t) : IsEncoded (s ++ t) := by
  obtain ⟨bytes, ⟨cs, rfl⟩, rfl⟩ := hs
  obtain ⟨bytes', ⟨cs', rfl⟩, rfl⟩ := ht
  refine ⟨_, ⟨cs ++ cs', rfl⟩, ?_⟩
  rw [List.flatMap_append, List.map_append]

theorem isEncoded_of_isChar {bytes : List UInt8} (h : Utf8.IsChar bytes) : IsEncoded (bytes.map byteChar) := by
  obtain ⟨c, rfl⟩ := Utf8.exists_of_isChar h
  exact ⟨_, ⟨[c], (List.flatMap_singleton _ c).symm⟩, rfl⟩

theorem byteChar_ofNat {n : Nat} (h : n < 256) : byteChar (UInt8.ofNat n) = Char.ofNat n := by
  rw [byteChar, UInt8.toNat_ofNat', Nat.mod_eq_of_lt h]

theorem byteChar_toNat {c : Char} (h : c.toNat < 256) : byteChar (UInt8.ofNat c.toNat) = c := by
  rw [byteChar_ofNat h, Char.ofNat_toNat]

theorem codepointBytes_eq (c : Char) : codepointBytes c.toNat = (String.utf8EncodeChar c).map byteChar := by
  have hvalid : c.toNat < 0xd800 ∨ (0xdfff < c.toNat ∧ c.toNat < 0x110000) := c.valid
  have hand : ∀ n : Nat, n &&& 0x3F = n % 64 := fun n => Nat.and_two_pow_sub_one_eq_mod n 6
  have hshift6 : ∀ n : Nat, n >>> 6 = n / 64 := fun n => Nat.shiftRight_eq_div_pow n 6
  have hshift12 : ∀ n : Nat, n >>> 12 = n / 4096 := fun n => Nat.shiftRight_eq_div_pow n 12
  have hshift18 : ∀ n : Nat, n >>> 18 = n / 262144 := fun n => Nat.shiftRight_eq_div_pow n 18
  have hnext : ∀ n : Nat, 0x80 ||| n % 64 = n % 64 + 0x80 := by
    intro n
    have hor := Nat.two_pow_add_eq_or_of_lt (i := 6) (Nat.mod_lt n (by decide)) 2
    rw [Nat.add_comm]
    exact hor.symm
  have htwo : ∀ n : Nat, n < 32 → 0xC0 ||| n = n + 0xC0 := by
    intro n hn
    have hor := Nat.two_pow_add_eq_or_of_lt (i := 5) hn 6
    rw [Nat.add_comm]
    exact hor.symm
  have hthree : ∀ n : Nat, n < 16 → 0xE0 ||| n = n + 0xE0 := by
    intro n hn
    have hor := Nat.two_pow_add_eq_or_of_lt (i := 4) hn 14
    rw [Nat.add_comm]
    exact hor.symm
  have hfour : ∀ n : Nat, n < 8 → 0xF0 ||| n = n + 0xF0 := by
    intro n hn
    have hor := Nat.two_pow_add_eq_or_of_lt (i := 3) hn 30
    rw [Nat.add_comm]
    exact hor.symm
  have hval : c.val.toNat = c.toNat := rfl
  unfold String.utf8EncodeChar codepointBytes
  simp only [hand, hshift6, hshift12, hshift18, hnext, hval]
  generalize c.toNat = v at hvalid
  by_cases h1 : v < 128
  . rw [if_pos h1, if_pos (show v ≤ 127 by omega), List.map_singleton, byteChar_ofNat (by omega)]
  . rw [if_neg h1, if_neg (show ¬ v ≤ 127 by omega)]
    by_cases h2 : v ≤ 0x7ff
    . rw [if_pos h2, if_pos h2, htwo _ (by omega)]
      simp only [List.map_cons, List.map_nil]
      rw [byteChar_ofNat (by omega), byteChar_ofNat (by omega), Nat.mod_eq_of_lt (a := v / 64) (by omega)]
    . rw [if_neg h2, if_neg h2]
      by_cases h3 : v ≤ 0xffff
      . rw [if_pos h3, if_pos h3, hthree _ (by omega)]
        simp only [List.map_cons, List.map_nil]
        rw [byteChar_ofNat (by omega), byteChar_ofNat (by omega), byteChar_ofNat (by omega),
          Nat.mod_eq_of_lt (a := v / 4096) (by omega)]
      . rw [if_neg h3, if_neg h3, hfour _ (by omega)]
        simp only [List.map_cons, List.map_nil]
        rw [byteChar_ofNat (by omega), byteChar_ofNat (by omega), byteChar_ofNat (by omega),
          byteChar_ofNat (by omega), Nat.mod_eq_of_lt (a := v / 262144) (by omega)]

theorem isEncoded_singleton {c : Char} (h : c.toNat < 128) : IsEncoded [c] := by
  have hbyte : (UInt8.ofNat c.toNat).toNat = c.toNat := by
    rw [UInt8.toNat_ofNat', Nat.mod_eq_of_lt (by omega)]
  have hencoded := isEncoded_of_isChar (@Utf8.IsChar.one (UInt8.ofNat c.toNat) (by omega))
  rwa [List.map_singleton, byteChar_toNat (by omega)] at hencoded

theorem hexDigit_lt {c : Char} {d : Nat} (h : hexDigit? c = some d) : d < 16 := by
  unfold hexDigit? at h
  split at h
  . next hrange =>
    have hle : c.toNat ≤ 0x39 := hrange.2
    cases h
    omega
  . split at h
    . next hrange =>
      have hle : c.toNat ≤ 0x46 := hrange.2
      cases h
      omega
    . split at h
      . next hrange =>
        have hle : c.toNat ≤ 0x66 := hrange.2
        cases h
        omega
      . cases h

structure IsHex (digits : Str) (n : Nat) : Prop where
  spelled : ∃ c1 c2 c3 c4 d1 d2 d3 d4, digits = [c1, c2, c3, c4]
    ∧ hexDigit? c1 = some d1 ∧ hexDigit? c2 = some d2 ∧ hexDigit? c3 = some d3 ∧ hexDigit? c4 = some d4 ∧ n = d1 * 0x1000 + d2 * 0x0100 + d3 * 0x0010 + d4

theorem IsHex.lt {digits : Str} {n : Nat} (h : IsHex digits n) : n < 0x10000 := by
  obtain ⟨c1, c2, c3, c4, d1, d2, d3, d4, -, h1, h2, h3, h4, rfl⟩ := h.spelled
  have hd1 := hexDigit_lt h1
  have hd2 := hexDigit_lt h2
  have hd3 := hexDigit_lt h3
  have hd4 := hexDigit_lt h4
  omega

def escapes : List (Char × Char) := [
  ('"', '"'), ('\\', '\\'), ('/', '/'), ('b', '\x08'), ('f', '\x0c'), ('n', '\n'), ('r', '\r'), ('t', '\t')]

def IsMultibyte (s : Str) : Prop := ∃ bytes, Utf8.IsChar bytes ∧ 2 ≤ bytes.length ∧ s = bytes.map byteChar

inductive SpellsChar : Str → Str → Prop
  | ascii {c : Char} (h : c ≠ '"' ∧ c ≠ '\\' ∧ 0x1f < c.toNat ∧ c.toNat < 128) : SpellsChar [c] [c]
  | multibyte {s : Str} (h : IsMultibyte s) : SpellsChar s s
  | escape {c d : Char} (h : (c, d) ∈ escapes) : SpellsChar ['\\', c] [d]
  | unicode {digits : Str} {c : Char} (h : IsHex digits c.toNat)
    : SpellsChar ('\\' :: 'u' :: digits) ((String.utf8EncodeChar c).map byteChar)
  | surrogates {first second : Str} {high low : Nat} {c : Char} (hfirst : IsHex first high)
    (hsecond : IsHex second low) (hhigh : 0xD800 ≤ high ∧ high ≤ 0xDBFF) (hlow : 0xDC00 ≤ low ∧ low ≤ 0xDFFF)
    (hc : c.toNat = 0x10000 + (high - 0xD800) * 0x400 + (low - 0xDC00))
    : SpellsChar ('\\' :: 'u' :: (first ++ '\\' :: 'u' :: second)) ((String.utf8EncodeChar c).map byteChar)

inductive Spells : Str → Str → Prop
  | nil : Spells [] []
  | cons {text bytes text' bytes' : Str} (hchar : SpellsChar text bytes) (hrest : Spells text' bytes')
    : Spells (text ++ text') (bytes ++ bytes')

theorem SpellsChar.isEncoded {text bytes : Str} (h : SpellsChar text bytes) : IsEncoded bytes := by
  have hencoded : ∀ c : Char, IsEncoded ((String.utf8EncodeChar c).map byteChar) := fun c =>
    ⟨_, ⟨[c], (List.flatMap_singleton _ c).symm⟩, rfl⟩
  cases h with
  | ascii h => exact isEncoded_singleton h.2.2.2
  | multibyte h =>
    obtain ⟨bytes, hchar, -, rfl⟩ := h
    exact isEncoded_of_isChar hchar
  | @escape c d h =>
    have hall : ∀ entry ∈ escapes, entry.2.toNat < 128 := by decide
    exact isEncoded_singleton (hall (c, d) h)
  | unicode => exact hencoded _
  | surrogates => exact hencoded _

theorem Spells.isEncoded {text bytes : Str} (h : Spells text bytes) : IsEncoded bytes := by
  induction h with
  | nil => exact isEncoded_nil
  | cons hchar _ ih => exact isEncoded_append hchar.isEncoded ih

theorem isHex_getCodepoint {s s' : List Char} {n : Nat} (h : getCodepoint s = .ok (n, s'))
    : ∃ digits, s = digits ++ s' ∧ IsHex digits n := by
  unfold getCodepoint at h
  split at h
  . next c1 c2 c3 c4 tail =>
    split at h
    . next h1 h2 h3 h4 =>
      cases h
      exact ⟨[c1, c2, c3, c4], rfl, ⟨c1, c2, c3, c4, _, _, _, _, rfl, h1, h2, h3, h4, rfl⟩⟩
    . cases h
  . cases h

theorem spellsChar_scanUnicodeEscape {s s' : List Char} {bytes : Str}
    (h : scanUnicodeEscape s = .ok (bytes, s'))
    : ∃ text, '\\' :: 'u' :: s = text ++ s' ∧ SpellsChar text bytes := by
  unfold scanUnicodeEscape at h
  cases h₁ : getCodepoint s with
  | error => simp [h₁, Bind.bind, Except.bind] at h
  | ok res =>
    obtain ⟨codepoint1, s₁⟩ := res
    obtain ⟨first, rfl, hfirst⟩ := isHex_getCodepoint h₁
    have hlt1 := hfirst.lt
    simp only [h₁, Bind.bind, Except.bind] at h
    split at h
    . next hhigh =>
      split at h
      . next s₂ =>
        cases h₂ : getCodepoint s₂ with
        | error => simp [h₂] at h
        | ok res =>
          obtain ⟨codepoint2, s₃⟩ := res
          obtain ⟨second, rfl, hsecond⟩ := isHex_getCodepoint h₂
          simp only [h₂] at h
          split at h
          . next hlow =>
            rw [Except.ok.injEq, Prod.mk.injEq] at h
            obtain ⟨c, hc⟩ := Utf8.exists_char (v := codepoint1 * 0x400 + codepoint2 - 0x35FDC00) (by omega)
            have hvalue : c.toNat = codepoint1 * 0x400 + codepoint2 - 0x35FDC00 := hc
            rw [← hvalue, codepointBytes_eq] at h
            rw [← h.1, ← h.2]
            exact ⟨'\\' :: 'u' :: (first ++ '\\' :: 'u' :: second), by simp,
              .surrogates hfirst hsecond hhigh hlow (by omega)⟩
          . cases h
      . cases h
    . next hhigh =>
      split at h
      . cases h
      . next hlow =>
        obtain ⟨c, hc⟩ := Utf8.exists_char (v := codepoint1) (by omega)
        obtain rfl : c.toNat = codepoint1 := hc
        rw [codepointBytes_eq] at h
        cases h
        exact ⟨'\\' :: 'u' :: first, rfl, .unicode hfirst⟩

theorem spellsChar_scanEscape {s s' : List Char} {bytes : Str} (h : scanEscape s = .ok (bytes, s'))
    : ∃ text, '\\' :: s = text ++ s' ∧ SpellsChar text bytes := by
  have hescape : ∀ {c d : Char}, (c, d) ∈ escapes
      → ∃ text, '\\' :: c :: s' = text ++ s' ∧ SpellsChar text [d] := fun hmem => ⟨_, rfl, .escape hmem⟩
  unfold scanEscape at h
  split at h
  case h_9 => exact spellsChar_scanUnicodeEscape h
  case h_10 => cases h
  all_goals
    cases h
    exact hescape (by decide)

theorem nextByteInRange_cons {lo hi : Nat} {ranges : List (Nat × Nat)} {s s' : List Char} {bytes : Str}
    (h : nextByteInRange ((lo, hi) :: ranges) s = .ok (bytes, s'))
    : ∃ c tail bytes', s = c :: tail ∧ (lo ≤ c.toNat ∧ c.toNat ≤ hi) ∧ bytes = c :: bytes'
        ∧ nextByteInRange ranges tail = .ok (bytes', s') := by
  rw [nextByteInRange.eq_def] at h
  dsimp only at h
  split at h
  . next c tail =>
    split at h
    . next hrange =>
      cases hrest : nextByteInRange ranges tail with
      | error => simp [hrest, Bind.bind, Except.bind] at h
      | ok res =>
        simp only [hrest, Bind.bind, Except.bind] at h
        cases h
        exact ⟨c, tail, res.1, rfl, hrange, rfl, hrest⟩
    . cases h
  . cases h

theorem nextByteInRange_nil {s s' : List Char} {bytes : Str} (h : nextByteInRange [] s = .ok (bytes, s'))
    : bytes = [] := by
  cases h
  rfl

theorem isMultibyte_of_forall_lt {s : Str} (hlt : ∀ c ∈ s, c.toNat < 256) (hlength : 2 ≤ s.length)
    (h : Utf8.IsChar (s.map (fun c => UInt8.ofNat c.toNat)))
    : IsMultibyte s := by
  have hsame : s.map (byteChar ∘ fun c => UInt8.ofNat c.toNat) = s :=
    (List.map_congr_left (fun c hc => byteChar_toNat (hlt c hc))).trans (List.map_id s)
  refine ⟨_, h, ?_, ?_⟩
  . rwa [List.length_map]
  . rw [List.map_map, hsame]

theorem isMultibyte_two {c0 c1 : Char} (h0 : 194 ≤ c0.toNat ∧ c0.toNat < 224)
    (h1 : 128 ≤ c1.toNat ∧ c1.toNat < 192)
    : IsMultibyte [c0, c1] := by
  apply isMultibyte_of_forall_lt
  . rw [List.forall_mem_cons, List.forall_mem_singleton]
    omega
  . exact Nat.le_refl 2
  . apply Utf8.IsChar.two <;> simp only [Utf8.IsContinuation, UInt8.toNat_ofNat'] <;> omega

theorem isMultibyte_three {c0 c1 c2 : Char} (h0 : 224 ≤ c0.toNat ∧ c0.toNat < 240)
    (h1 : 128 ≤ c1.toNat ∧ c1.toNat < 192) (h2 : 128 ≤ c2.toNat ∧ c2.toNat < 192)
    (hsecond : (c0.toNat = 224 → 160 ≤ c1.toNat) ∧ (c0.toNat = 237 → c1.toNat < 160))
    : IsMultibyte [c0, c1, c2] := by
  apply isMultibyte_of_forall_lt
  . rw [List.forall_mem_cons, List.forall_mem_cons, List.forall_mem_singleton]
    omega
  . exact Nat.le_succ 2
  . apply Utf8.IsChar.three
      <;> simp only [Utf8.IsContinuation, Utf8.IsSecondOfThree, UInt8.toNat_ofNat']
      <;> omega

theorem isMultibyte_four {c0 c1 c2 c3 : Char} (h0 : 240 ≤ c0.toNat ∧ c0.toNat < 245)
    (h1 : 128 ≤ c1.toNat ∧ c1.toNat < 192) (h2 : 128 ≤ c2.toNat ∧ c2.toNat < 192)
    (h3 : 128 ≤ c3.toNat ∧ c3.toNat < 192)
    (hsecond : (c0.toNat = 240 → 144 ≤ c1.toNat) ∧ (c0.toNat = 244 → c1.toNat < 144))
    : IsMultibyte [c0, c1, c2, c3] := by
  apply isMultibyte_of_forall_lt
  . rw [List.forall_mem_cons, List.forall_mem_cons, List.forall_mem_cons, List.forall_mem_singleton]
    omega
  . exact Nat.le_add_left 2 2
  . apply Utf8.IsChar.four
      <;> simp only [Utf8.IsContinuation, Utf8.IsSecondOfFour, UInt8.toNat_ofNat']
      <;> omega

theorem nextByteInRange_two {first second : Nat × Nat} {s s' : List Char} {bytes : Str}
    (h : nextByteInRange [first, second] s = .ok (bytes, s'))
    : ∃ c1 c2, bytes = [c1, c2] ∧ (first.1 ≤ c1.toNat ∧ c1.toNat ≤ first.2)
        ∧ (second.1 ≤ c2.toNat ∧ c2.toNat ≤ second.2) := by
  obtain ⟨c1, s₁, bytes₁, -, h1, rfl, hrest⟩ := nextByteInRange_cons h
  obtain ⟨c2, s₂, bytes₂, -, h2, rfl, hnil⟩ := nextByteInRange_cons hrest
  rw [nextByteInRange_nil hnil]
  exact ⟨c1, c2, rfl, h1, h2⟩

theorem nextByteInRange_three {first second third : Nat × Nat} {s s' : List Char} {bytes : Str}
    (h : nextByteInRange [first, second, third] s = .ok (bytes, s'))
    : ∃ c1 c2 c3, bytes = [c1, c2, c3] ∧ (first.1 ≤ c1.toNat ∧ c1.toNat ≤ first.2)
        ∧ (second.1 ≤ c2.toNat ∧ c2.toNat ≤ second.2) ∧ (third.1 ≤ c3.toNat ∧ c3.toNat ≤ third.2) := by
  obtain ⟨c1, s₁, bytes₁, -, h1, rfl, hrest⟩ := nextByteInRange_cons h
  obtain ⟨c2, c3, rfl, h2, h3⟩ := nextByteInRange_two hrest
  exact ⟨c1, c2, c3, rfl, h1, h2, h3⟩

theorem isMultibyte_nextByteInRange {c : Char} {ranges : List (Nat × Nat)}
    (hranges : continuationRanges c.toNat = some ranges) {s s' : List Char} {bytes : Str}
    (h : nextByteInRange ranges s = .ok (bytes, s'))
    : IsMultibyte (c :: bytes) := by
  unfold continuationRanges at hranges
  split at hranges
  . cases hranges
    obtain ⟨c1, s₁, bytes₁, -, h1, rfl, hnil⟩ := nextByteInRange_cons h
    rw [nextByteInRange_nil hnil]
    apply isMultibyte_two <;> omega
  . split at hranges
    . cases hranges
      obtain ⟨c1, c2, rfl, h1, h2⟩ := nextByteInRange_two h
      apply isMultibyte_three <;> omega
    . split at hranges
      . cases hranges
        obtain ⟨c1, c2, rfl, h1, h2⟩ := nextByteInRange_two h
        apply isMultibyte_three <;> omega
      . split at hranges
        . cases hranges
          obtain ⟨c1, c2, rfl, h1, h2⟩ := nextByteInRange_two h
          apply isMultibyte_three <;> omega
        . split at hranges
          . cases hranges
            obtain ⟨c1, c2, c3, rfl, h1, h2, h3⟩ := nextByteInRange_three h
            apply isMultibyte_four <;> omega
          . split at hranges
            . cases hranges
              obtain ⟨c1, c2, c3, rfl, h1, h2, h3⟩ := nextByteInRange_three h
              apply isMultibyte_four <;> omega
            . split at hranges
              . cases hranges
                obtain ⟨c1, c2, c3, rfl, h1, h2, h3⟩ := nextByteInRange_three h
                apply isMultibyte_four <;> omega
              . cases hranges

theorem nextByteInRange_append {ranges : List (Nat × Nat)} {s s' : List Char} {bytes : Str}
    (h : nextByteInRange ranges s = .ok (bytes, s'))
    : s = bytes ++ s' := by
  induction ranges generalizing s bytes with
  | nil =>
    cases h
    rfl
  | cons range ranges ih =>
    obtain ⟨c, tail, bytes', rfl, -, rfl, hrest⟩ := nextByteInRange_cons h
    rw [ih hrest]
    rfl

theorem spellsChar_scanStringChar {c : Char} (hquote : c ≠ '"') {s s' : List Char} {bytes : Str}
    (h : scanStringChar c s = .ok (bytes, s'))
    : ∃ text, c :: s = text ++ s' ∧ SpellsChar text bytes := by
  unfold scanStringChar at h
  split at h
  . next hbackslash =>
    rw [hbackslash]
    exact spellsChar_scanEscape h
  . next hbackslash =>
    split at h
    . cases h
    . next hcontrol =>
      split at h
      . next hascii =>
        cases h
        exact ⟨[c], rfl, .ascii ⟨hquote, hbackslash, by omega, by omega⟩⟩
      . split at h
        . next ranges hranges =>
          cases hnext : nextByteInRange ranges s with
          | error => simp [hnext, Bind.bind, Except.bind] at h
          | ok res =>
            obtain ⟨bytes', s₁⟩ := res
            simp only [hnext, Bind.bind, Except.bind] at h
            cases h
            rw [nextByteInRange_append hnext]
            exact ⟨c :: bytes', rfl, .multibyte (isMultibyte_nextByteInRange hranges hnext)⟩
        . cases h

theorem scanString.go_spells {rounds : Nat} {yytext s s' bytes : List Char}
    (h : go rounds yytext s = .ok (bytes, s'))
    : ∃ text bytes', s = text ++ '"' :: s' ∧ bytes = yytext ++ bytes' ∧ Spells text bytes' := by
  induction rounds generalizing yytext s with
  | zero => cases h
  | succ rounds ih =>
    unfold go at h
    split at h
    . cases h
    . next c tail =>
      split at h
      . next hquote =>
        cases h
        exact ⟨[], [], by rw [hquote, List.nil_append], (List.append_nil _).symm, .nil⟩
      . next hquote =>
        cases hchar : scanStringChar c tail with
        | error => simp [hchar, Bind.bind, Except.bind] at h
        | ok res =>
          obtain ⟨bytes₁, s₁⟩ := res
          simp only [hchar, Bind.bind, Except.bind] at h
          obtain ⟨text₁, htext₁, hspells₁⟩ := spellsChar_scanStringChar hquote hchar
          obtain ⟨text, bytes', rfl, rfl, hspells⟩ := ih h
          refine ⟨text₁ ++ text, bytes₁ ++ bytes', ?_, List.append_assoc _ _ _, .cons hspells₁ hspells⟩
          rw [htext₁, List.append_assoc]

theorem spells_scanString {s s' : List Char} {yytext : Str} (h : scanString s = .ok (yytext, s'))
    : ∃ text, s = text ++ '"' :: s' ∧ Spells text yytext := by
  obtain ⟨text, bytes', htext, rfl, hspells⟩ := scanString.go_spells h
  exact ⟨text, htext, hspells⟩

end Lexer
