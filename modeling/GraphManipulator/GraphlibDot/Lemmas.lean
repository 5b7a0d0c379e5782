import GraphManipulator.GraphlibDot.Impl
import Mathlib.Data.Char

/-!
This module contains what the rules of the grammar do on names, quoted strings, lists of attributes and on
the statements of edges. The names might be keywords.
-/

namespace GraphlibDot

open Peg

theorem ends_cons {P : Char → Bool} {c : Char} (s : List Char) (h : P c = false) : Ends P (c :: s) := by
  intro d hd
  simp only [List.head?_cons, Option.mem_def, Option.some.injEq] at hd
  rwa [← hd]

def NoBlank (s : List Char) : Prop := Ends isWhitespace s ∧ s.head? ≠ some '/'

theorem noBlank_cons {c : Char} (s : List Char) (h : isWhitespace c = false) (hc : c ≠ '/')
    : NoBlank (c :: s) := by
  constructor
  . intro d hd
    simp only [List.head?_cons, Option.mem_def, Option.some.injEq] at hd
    rwa [← hd]
  . simpa using hc

theorem run_parse_of_noBlank {s : List Char} (h : NoBlank s) : parse_.run s = .fail := by
  unfold parse_ parseWhitespace
  rw [choice_fail (plus_sat_fail h.1)]
  unfold parseComment
  rw [choice_fail (bind_fail (word_fail h.2)), bind_fail (word_fail h.2)]

theorem blanks_nil {s : List Char} (h : NoBlank s) : blanks.run s = .ok () s := by
  unfold blanks
  rw [bind_ok (star_nil (run_parse_of_noBlank h))]
  rfl

theorem blanks_append {w s : List Char} (hw : ∀ c ∈ w, isWhitespace c = true) (h : NoBlank s)
    : blanks.run (w ++ s) = .ok () s := by
  by_cases hne : w = []
  . rw [hne]
    exact blanks_nil h
  . have hspace : parse_.run (w ++ s) = .ok w s := by
      unfold parse_ parseWhitespace
      exact choice_ok (plus_sat hne hw h.1)
    have hlt : s.length < (w ++ s).length := by
      have := List.length_pos_iff.mpr hne
      rw [List.length_append]
      omega
    unfold blanks
    rw [bind_ok (star_cons hspace hlt (star_nil (run_parse_of_noBlank h)))]
    rfl

def IsIdent (u : Str) : Prop := ∃ c w, u = c :: w ∧ isIdStart c = true ∧ ∀ c ∈ w, isIdRest c = true

theorem parseId_ident {u r : List Char} (hu : IsIdent u) (hr : Ends isIdRest r)
    : parseId.run (u ++ r) = .ok u r := by
  obtain ⟨c, w, rfl, hc, hw⟩ := hu
  unfold parseId parseName
  apply choice_ok
  rw [List.cons_append, bind_ok (sat_ok hc), bind_ok (star_sat hw hr)]
  rfl

theorem parseQuotedChar_ok {c : Char} (s : List Char) (hc : c ≠ '"' ∧ c ≠ '\\')
    : parseQuotedChar.run (c :: s) = .ok [c] s := by
  have hword : ∀ w, (word ('\\' :: w)).run (c :: s) = .fail := by
    intro w
    apply word_fail
    simpa using hc.2
  unfold parseQuotedChar
  rw [choice_fail (bind_fail (hword _)), choice_fail (bind_fail (hword _)), bind_ok (sat_ok (by simpa using hc.1))]
  rfl

theorem parseQuotedChar_fail (s : List Char) : parseQuotedChar.run ('"' :: s) = .fail := by
  have hword : ∀ w, (word ('\\' :: w)).run ('"' :: s) = .fail := fun w => word_fail (by simp)
  unfold parseQuotedChar
  rw [choice_fail (bind_fail (hword _)), choice_fail (bind_fail (hword _)), bind_fail]
  rfl

theorem star_parseQuotedChar {w : List Char} (hw : ∀ c ∈ w, c ≠ '"' ∧ c ≠ '\\') (s : List Char)
    : (Peg.star parseQuotedChar).run (w ++ '"' :: s) = .ok (w.map (fun c => [c])) ('"' :: s) := by
  induction w with
  | nil => exact star_nil (parseQuotedChar_fail s)
  | cons c w ih =>
    rw [List.forall_mem_cons] at hw
    exact star_cons (parseQuotedChar_ok _ hw.1) (by simp) (ih hw.2)

theorem parseId_quoted {w : List Char} (hw : ∀ c ∈ w, c ≠ '"' ∧ c ≠ '\\') (s : List Char)
    : parseId.run ('"' :: (w ++ '"' :: s)) = .ok w s := by
  have hname : parseName.run ('"' :: (w ++ '"' :: s)) = .fail := bind_fail rfl
  have hminus : (opt (word ['-'])).run ('"' :: (w ++ '"' :: s)) = .ok none ('"' :: (w ++ '"' :: s)) :=
    opt_fail (word_fail (by simp))
  have hfraction : parseFraction.run ('"' :: (w ++ '"' :: s)) = .fail := by
    unfold parseFraction
    rw [bind_ok hminus, bind_fail (word_fail (by simp))]
  have hnumber : parseNumber.run ('"' :: (w ++ '"' :: s)) = .fail := by
    unfold parseNumber
    rw [bind_ok hminus, bind_fail (plus_sat_fail (ends_cons _ rfl))]
  unfold parseId
  rw [choice_fail hname, choice_fail hfraction, choice_fail hnumber]
  unfold parseQuoted
  rw [bind_ok (word_singleton_ok '"'), bind_ok (star_parseQuotedChar hw s),
    bind_ok (word_singleton_ok '"'), pure_apply, ← List.flatMap_def, List.flatMap_singleton']

def NoId (c : Char) : Prop := isIdRest c = false ∧ c ≠ '-' ∧ c ≠ '.' ∧ c ≠ '"'

instance (c : Char) : Decidable (NoId c) := inferInstanceAs (Decidable (_ ∧ _))

theorem isIdStart_of_noId {c : Char} (h : isIdRest c = false) : isIdStart c = false ∧ c.isDigit = false := by
  simpa [isIdRest] using h

theorem parseId_eq_fail {s : List Char} (hname : Ends isIdStart s)
    (hfraction : parseFraction.run s = .fail) (hnumber : parseNumber.run s = .fail)
    (hquoted : s.head? ≠ some '"')
    : parseId.run s = .fail := by
  have hname : parseName.run s = .fail := bind_fail (sat_fail hname)
  have hquoted : parseQuoted.run s = .fail := bind_fail (word_fail hquoted)
  unfold parseId
  rw [choice_fail hname, choice_fail hfraction, choice_fail hnumber, hquoted]

theorem parseId_fail {c : Char} (s : List Char) (hc : NoId c) : parseId.run (c :: s) = .fail := by
  obtain ⟨hrest, hminus, hdot, hquote⟩ := hc
  obtain ⟨hstart, hdigit⟩ := isIdStart_of_noId hrest
  have hsign : (opt (word ['-'])).run (c :: s) = .ok none (c :: s) :=
    opt_fail (word_fail (by simpa using hminus))
  apply parseId_eq_fail (ends_cons s hstart)
  . unfold parseFraction
    rw [bind_ok hsign, bind_fail (word_fail (by simpa using hdot))]
  . unfold parseNumber
    rw [bind_ok hsign, bind_fail (plus_sat_fail (ends_cons s hdigit))]
  . simpa using hquote

theorem parseId_arrow (s : List Char) : parseId.run ('-' :: '>' :: s) = .fail := by
  have hsign : (opt (word ['-'])).run ('-' :: '>' :: s) = .ok (some ['-']) ('>' :: s) :=
    opt_ok (word_singleton_ok '-')
  apply parseId_eq_fail (ends_cons _ rfl)
  . unfold parseFraction
    rw [bind_ok hsign, bind_fail (word_fail (by simp))]
  . unfold parseNumber
    rw [bind_ok hsign, bind_fail (plus_sat_fail (ends_cons s rfl))]
  . simp

end GraphlibDot
