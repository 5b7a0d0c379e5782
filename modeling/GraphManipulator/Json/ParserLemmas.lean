import GraphManipulator.Json.LexerLemmas
import GraphManipulator.Json.Parser

/-!
This module contains what the later modules use of the parser: it always ends with a value or an exception, the
members of an object are in ascending order, and the text of an object with integer members is read as the map
of these members.
-/

namespace Parser

open Lexer

variable {D : Type}

def Ends (s : List Char) (r : Except Fault (Json D × List Char)) : Prop :=
  match r with
  | .ok (_, s') => s'.length ≤ s.length
  | .error e => e.isException = true

theorem syntaxError_isException (token : Token D) (expected : Option String)
    : (syntaxError token expected).isException = true := by
  unfold syntaxError
  cases expected <;> rfl

theorem scan_eq_length_lt {fl : FloatOps D} {s s' : List Char} {token : Token D}
    (h : scan fl s = (token, s')) (hne : token ≠ .endOfInput)
    : s'.length < s.length := by
  cases scan_length_lt fl s with
  | inl hlt => rwa [h] at hlt
  | inr heq =>
    rw [h] at heq
    exact absurd heq.1 hne

theorem scan_eq_length_le {fl : FloatOps D} {s s' : List Char} {token : Token D}
    (h : scan fl s = (token, s'))
    : s'.length ≤ s.length := by
  have := scan_length_le fl s
  rwa [h] at this

theorem Ends.mono {s s' : List Char} {r : Except Fault (Json D × List Char)} (h : Ends s r)
    (hle : s.length ≤ s'.length)
    : Ends s' r := by
  cases r with
  | ok res => exact Nat.le_trans h hle
  | error => exact h

theorem ends_syntaxError (s : List Char) (token : Token D) (expected : Option String)
    : Ends (D := D) s (.error (syntaxError token expected)) :=
  syntaxError_isException token expected

/--
With fuel for the characters of the input no call runs out of it: a round of a loop and a nested call take
a token first. An array whose first token is the end of the input is the one case where no character is
taken.
-/
structure FuelSuffices (fl : FloatOps D) (fuel : Nat) : Prop where
  internal : ∀ token s, 2 * s.length + 3 ≤ fuel → Ends s (parseInternal fl fuel token s)
  members : ∀ ms token s, 2 * s.length + 2 ≤ fuel → Ends s (parseMembers fl fuel ms token s)
  elements : ∀ es token s, 2 * s.length + 4 ≤ fuel ∨ token = .endOfInput ∧ 2 ≤ fuel →
    Ends s (parseElements fl fuel es token s)

theorem parseInternal_ends {fl : FloatOps D} {fuel : Nat} (ih : FuelSuffices fl fuel)
    (token : Token D) (s : List Char) (h : 2 * s.length + 3 ≤ fuel + 1)
    : Ends s (parseInternal fl (fuel + 1) token s) := by
  cases token with
  | beginObject =>
    simp only [parseInternal]
    split
    . next hscan => exact scan_eq_length_le hscan
    . next token s' _ hscan =>
      have hle := scan_eq_length_le hscan
      exact (ih.members [] token s' (by omega)).mono hle
  | beginArray =>
    simp only [parseInternal]
    split
    . next hscan => exact scan_eq_length_le hscan
    . next token s' _ hscan =>
      have hle := scan_eq_length_le hscan
      refine (ih.elements [] token s' ?_).mono hle
      cases scan_length_lt fl s with
      | inl hlt =>
        rw [hscan] at hlt
        left
        dsimp only at hlt
        omega
      | inr heq =>
        rw [hscan] at heq
        exact Or.inr ⟨heq.1, by omega⟩
  | valueFloat d =>
    simp only [parseInternal]
    split
    . exact Nat.le_refl _
    . rfl
  | literalTrue | literalFalse | literalNull | valueString | valueUnsigned | valueInteger =>
    exact Nat.le_refl _
  | endArray | endObject | nameSeparator | valueSeparator | parseError | endOfInput =>
    exact ends_syntaxError _ _ _

theorem parseMembers_ends {fl : FloatOps D} {fuel : Nat} (ih : FuelSuffices fl fuel)
    (ms : List (Str × Json D)) (token : Token D) (s : List Char) (h : 2 * s.length + 2 ≤ fuel + 1)
    : Ends s (parseMembers fl (fuel + 1) ms token s) := by
  cases token with
  | valueString key =>
    simp only [parseMembers]
    split
    . next s₁ hcolon =>
      have hlt := scan_eq_length_lt hcolon (by simp)
      have hle := scan_length_le fl s₁
      have hvalue := ih.internal (scan fl s₁).1 (scan fl s₁).2 (by omega)
      split
      . next value s₂ hparse =>
        rw [hparse] at hvalue
        simp only [Ends] at hvalue
        split
        . next s₃ hcomma =>
          have hlt₃ := scan_eq_length_lt hcomma (by simp)
          have hle₃ := scan_length_le fl s₃
          refine (ih.members _ (scan fl s₃).1 (scan fl s₃).2 (by omega)).mono (by omega)
        . next s₃ hend =>
          have hle₃ := scan_eq_length_le hend
          simp only [Ends]
          omega
        . exact ends_syntaxError _ _ _
      . next e hparse =>
        rw [hparse] at hvalue
        exact hvalue
    . exact ends_syntaxError _ _ _
  | literalTrue | literalFalse | literalNull | valueFloat | valueUnsigned | valueInteger | beginArray
  | beginObject | endArray | endObject | nameSeparator | valueSeparator | parseError | endOfInput =>
    exact ends_syntaxError _ _ _

theorem parseElements_ends {fl : FloatOps D} {fuel : Nat} (ih : FuelSuffices fl fuel)
    (es : List (Json D)) (token : Token D) (s : List Char)
    (h : 2 * s.length + 4 ≤ fuel + 1 ∨ token = .endOfInput ∧ 2 ≤ fuel + 1)
    : Ends s (parseElements fl (fuel + 1) es token s) := by
  cases h with
  | inl h =>
    have hvalue := ih.internal token s (by omega)
    simp only [parseElements]
    split
    . next value s₁ hparse =>
      rw [hparse] at hvalue
      simp only [Ends] at hvalue
      split
      . next s₂ hcomma =>
        have hlt := scan_eq_length_lt hcomma (by simp)
        refine (ih.elements _ (scan fl s₂).1 (scan fl s₂).2 ?_).mono ?_
        . have := scan_length_le fl s₂
          omega
        . have := scan_length_le fl s₂
          omega
      . next s₂ hend =>
        have hle := scan_eq_length_le hend
        simp only [Ends]
        omega
      . exact ends_syntaxError _ _ _
    . next e hparse =>
      rw [hparse] at hvalue
      exact hvalue
  | inr h =>
    obtain ⟨rfl, hfuel⟩ := h
    cases fuel with
    | zero => omega
    | succ fuel =>
      simp only [parseElements, parseInternal]
      exact ends_syntaxError _ _ _

theorem fuelSuffices (fl : FloatOps D) (fuel : Nat) : FuelSuffices fl fuel := by
  induction fuel with
  | zero =>
    constructor
    . intro token s h
      omega
    . intro ms token s h
      omega
    . intro es token s h
      omega
  | succ fuel ih =>
    constructor
    . exact parseInternal_ends ih
    . exact parseMembers_ends ih
    . exact parseElements_ends ih

theorem parseChars_isException {fl : FloatOps D} {s : List Char} {e : Fault}
    (h : parseChars fl s = .error e)
    : e.isException = true := by
  have hle := scan_length_le fl s
  have hends := (fuelSuffices fl (2 * s.length + 3)).internal (scan fl s).1 (scan fl s).2 (by omega)
  unfold parseChars at h
  split at h
  . split at h
    . contradiction
    . injection h with h
      rw [← h]
      apply syntaxError_isException
  . next e' hparse =>
    rw [hparse] at hends
    injection h with h
    rw [← h]
    exact hends

theorem parse_isException {fl : FloatOps D} {bytes : List UInt8} {e : Fault} (h : parse fl bytes = .error e)
    : e.isException = true :=
  parseChars_isException h

theorem parseMembers_sorted {fl : FloatOps D} {fuel : Nat} {members : List (Str × Json D)} {token : Token D}
    {s s' : List Char} {value : Json D} (hmembers : OrdMap.Sorted members)
    (h : parseMembers fl fuel members token s = .ok (value, s'))
    : ∃ members', value = .object members' ∧ OrdMap.Sorted members' := by
  induction fuel generalizing members token s with
  | zero => simp [parseMembers] at h
  | succ fuel ih =>
    unfold parseMembers at h
    split at h
    . split at h
      . split at h
        . next value' s₁ _ =>
          split at h
          . exact ih (OrdMap.sorted_emplace hmembers) h
          . simp only [Except.ok.injEq, Prod.mk.injEq] at h
            exact ⟨_, h.1.symm, OrdMap.sorted_emplace hmembers⟩
          . contradiction
        . contradiction
      . contradiction
    . contradiction

theorem parseElements_array {fl : FloatOps D} {fuel : Nat} {elements : List (Json D)} {token : Token D}
    {s s' : List Char} {value : Json D} (h : parseElements fl fuel elements token s = .ok (value, s'))
    : ∃ elements', value = .array elements' := by
  induction fuel generalizing elements token s with
  | zero => simp [parseElements] at h
  | succ fuel ih =>
    unfold parseElements at h
    split at h
    . split at h
      . exact ih h
      . simp only [Except.ok.injEq, Prod.mk.injEq] at h
        exact ⟨_, h.1.symm⟩
      . contradiction
    . contradiction

theorem parseInternal_sorted {fl : FloatOps D} {fuel : Nat} {token : Token D} {s s' : List Char}
    {members : List (Str × Json D)} (h : parseInternal fl fuel token s = .ok (.object members, s'))
    : OrdMap.Sorted members := by
  cases fuel with
  | zero => simp [parseInternal] at h
  | succ fuel =>
    cases token with
    | beginObject =>
      simp only [parseInternal] at h
      split at h
      . simp only [Except.ok.injEq, Prod.mk.injEq, Json.object.injEq] at h
        rw [← h.1]
        exact List.Pairwise.nil
      . obtain ⟨members', hvalue, hsorted⟩ := parseMembers_sorted List.Pairwise.nil h
        cases hvalue
        exact hsorted
    | beginArray =>
      simp only [parseInternal] at h
      split at h
      . simp at h
      . obtain ⟨elements, hvalue⟩ := parseElements_array h
        cases hvalue
    | valueFloat d =>
      simp only [parseInternal] at h
      split at h
      . simp at h
      . contradiction
    | literalTrue | literalFalse | literalNull | valueString | valueUnsigned | valueInteger =>
      simp [parseInternal] at h
    | endArray | endObject | nameSeparator | valueSeparator | parseError | endOfInput =>
      simp [parseInternal] at h

theorem parse_sorted {fl : FloatOps D} {bytes : List UInt8} {members : List (Str × Json D)}
    (h : parse fl bytes = .ok (.object members))
    : OrdMap.Sorted members := by
  unfold parse parseChars at h
  split at h
  . next hparse =>
    split at h
    . cases h
      exact parseInternal_sorted hparse
    . contradiction
  . contradiction

def memberText (m : Str × Int) : Str :=
  '"' :: (m.1 ++ '"' :: ':' :: ' ' :: intText m.2)

def membersText (ms : List (Str × Int)) : Str :=
  match ms with
  | [] => ['}']
  | m :: ms => ',' :: ' ' :: (memberText m ++ membersText ms)

def intValue (n : Int) : Json D :=
  if 0 ≤ n then .numberUnsigned n.toNat else .numberInteger n

theorem length_le_membersText (ms : List (Str × Int)) : ms.length < (membersText ms).length := by
  induction ms with
  | nil => simp [membersText]
  | cons m ms ih =>
    simp only [membersText, List.length_cons, List.length_append]
    omega

theorem parseInternal_intToken (fl : FloatOps D) (fuel : Nat) (n : Int) (s : List Char)
    : parseInternal fl (fuel + 1) (intToken n) s = .ok (intValue n, s) := by
  unfold intToken intValue
  split
  . rfl
  . rfl

theorem scan_memberText (fl : FloatOps D) {m : Str × Int} (hkey : ∀ c ∈ m.1, IsPlain c) (s : List Char)
    : scan fl (memberText m ++ s) = (.valueString m.1, ':' :: ' ' :: (intText m.2 ++ s)) := by
  have := scan_key fl hkey (':' :: ' ' :: (intText m.2 ++ s))
  simpa [memberText] using this

theorem parseMembers_membersText (fl : FloatOps D) (ms : List (Str × Int))
    : ∀ (m : Str × Int) (members : List (Str × Json D)) (fuel : Nat) (s : List Char),
        (∀ m' ∈ m :: ms, (∀ c ∈ m'.1, IsPlain c) ∧ IsStored m'.2)
          →
        ms.length + 2 ≤ fuel
          →
        parseMembers fl fuel members (.valueString m.1)
            (':' :: ' ' :: (intText m.2 ++ (membersText ms ++ s)))
          =
        .ok
          (.object ((m :: ms).foldl (fun acc m => OrdMap.emplace m.1 (intValue m.2) acc) members), s)
    := by
  induction ms with
  | nil =>
    intro m members fuel s hms hfuel
    match fuel, hfuel with
    | fuel + 2, _ =>
      have hm := hms m (by simp)
      simp only [parseMembers, membersText]
      rw [scan_colon]
      dsimp only
      rw [scan_space, List.singleton_append, scan_intText fl hm.2 s (by decide)]
      dsimp only
      rw [parseInternal_intToken]
      rfl
  | cons m₂ ms ih =>
    intro m members fuel s hms hfuel
    match fuel, hfuel with
    | fuel + 2, hfuel =>
      have hm := hms m (by simp)
      have hm₂ := hms m₂ (by simp)
      unfold parseMembers
      simp only [membersText, List.cons_append, List.append_assoc]
      rw [scan_colon]
      dsimp only
      rw [scan_space, scan_intText fl hm.2 _ (by decide)]
      dsimp only
      rw [parseInternal_intToken]
      dsimp only
      rw [scan_comma]
      dsimp only
      rw [scan_space, scan_memberText fl hm₂.1]
      dsimp only
      rw [ih]
      . rfl
      . intro m' hm'
        exact hms m' (List.mem_cons_of_mem _ hm')
      . simp only [List.length_cons] at hfuel
        omega

def objectText (m : Str × Int) (ms : List (Str × Int)) : Str :=
  '{' :: (memberText m ++ membersText ms)

theorem parseChars_objectText (fl : FloatOps D) (m : Str × Int) (ms : List (Str × Int))
    (hms : ∀ m' ∈ m :: ms, (∀ c ∈ m'.1, IsPlain c) ∧ IsStored m'.2)
    : parseChars fl (objectText m ms)
        =
      .ok (.object (OrdMap.ofList ((m :: ms).map (fun m => (m.1, intValue m.2))))) := by
  have hlength := length_le_membersText ms
  have hm := hms m (by simp)
  have hobject : scan fl (objectText m ms) = (.beginObject, memberText m ++ membersText ms) :=
    scan_brace fl _
  have hparse : parseInternal fl (2 * (objectText m ms).length + 3) .beginObject
      (memberText m ++ membersText ms)
        =
      .ok (.object (OrdMap.ofList ((m :: ms).map (fun m => (m.1, intValue m.2)))), []) := by
    simp only [parseInternal, scan_memberText fl hm.1]
    have := parseMembers_membersText fl ms m [] (2 * (objectText m ms).length + 2) [] hms (by
      simp only [objectText, List.length_cons, List.length_append]
      omega)
    rw [List.append_nil] at this
    rw [this]
    simp [OrdMap.ofList, List.foldl_map]
  unfold parseChars
  rw [hobject]
  dsimp only
  rw [hparse]
  rfl

end Parser
