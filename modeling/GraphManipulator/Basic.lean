import Mathlib.Data.List.TakeWhile
import Mathlib.Data.Nat.Digits.Lemmas
import Mathlib.Tactic.Common

/-!
This module contains what the classes of the server share: the ways a call can end, and the parts of the
C++ standard library whose results they depend on.
-/

/--
This goes before the decision over all values of `α`, of which there are many where `α` is `Char`.
-/
instance (priority := high) decidableForallMem {α : Type*} (P : α → Prop) [DecidablePred P] (l : List α)
    : Decidable (∀ x ∈ l, P x) :=
  List.decidableBAll P l

/--
`std::string`, as the sequence of its chars. A char stands for the byte with its code.
-/
abbrev Str := List Char

inductive Fault where
  | parseError (what : String)
  | typeError (what : String)
  | outOfRange (what : String)
  | invalidArgument (what : String)
  | runtimeError (what : String)
  -- an access behind the last element of a container
  | outOfBounds
  -- a loop that is never left
  | nonterminating
  -- `std::terminate`
  | terminated
  deriving DecidableEq, Repr

namespace Fault

def isException : Fault → Bool
  | outOfBounds => false
  | nonterminating => false
  | terminated => false
  | _ => true

end Fault

/--
Run a call in a `std::thread` and join it. An exception that leaves the thread's function ends the process.
-/
def runThread (call : Except Fault α) : Except Fault α :=
  match call with
  | .ok a => .ok a
  | .error e => if e.isException then .error .terminated else .error e

@[simp]
theorem runThread_ok (a : α) : runThread (.ok a) = .ok a := rfl

def vectorAt (v : List α) (i : Nat) : Except Fault α :=
  match v[i]? with
  | some a => .ok a
  | none => .error .outOfBounds

theorem vectorAt_eq_ok {v : List α} {i : Nat} {a : α} (h : v[i]? = some a)
    : vectorAt v i = .ok a := by
  simp [vectorAt, h]

def intMin : Int := -2147483648

def intMax : Int := 2147483647

def IsInt (n : Int) : Prop := intMin ≤ n ∧ n ≤ intMax

instance (n : Int) : Decidable (IsInt n) := inferInstanceAs (Decidable (_ ∧ _))

def castInt (n : Int) : Int := n.bmod 4294967296

theorem isInt_castInt (n : Int) : IsInt (castInt n) := by
  unfold IsInt castInt intMin intMax
  have := Int.le_bmod (x := n) (m := 4294967296) (by decide)
  have := Int.bmod_lt (x := n) (m := 4294967296) (by decide)
  omega

theorem castInt_eq_self {n : Int} (h : IsInt n) : castInt n = n := by
  unfold IsInt intMin intMax at h
  unfold castInt
  apply Int.bmod_eq_of_le <;> omega

def intText (n : Int) : Str :=
  match n with
  | .ofNat n => Nat.toDigits 10 n
  | .negSucc n => '-' :: Nat.toDigits 10 (n + 1)

theorem isDigit_of_mem_toDigits {c : Char} {n : Nat} (h : c ∈ Nat.toDigits 10 n) : c.isDigit = true :=
  Nat.isDigit_of_mem_toDigits (by decide) (by decide) h

def isSpace (c : Char) : Bool :=
  c = ' ' || ('\t' ≤ c && c ≤ '\r')

def stoi (s : Str) : Except Fault Int :=
  let s := s.dropWhile isSpace
  let (negative, s) :=
    match s with
    | '-' :: tail => (true, tail)
    | '+' :: tail => (false, tail)
    | tail => (false, tail)
  let digits := s.takeWhile Char.isDigit
  if digits.isEmpty then
    .error (.invalidArgument "stoi")
  else
    let value : Int := Nat.ofDigitChars 10 digits 0
    let value := if negative then -value else value
    if IsInt value then .ok value else .error (.outOfRange "stoi")

theorem isSpace_of_isDigit {c : Char} (h : c.isDigit = true) : isSpace c = false := by
  have hle := Char.isDigit_iff_toNat.mp h
  simp only [isSpace, Bool.or_eq_false_iff, decide_eq_false_iff_not, Bool.and_eq_false_iff]
  constructor
  . rintro rfl
    exact absurd h (by decide)
  . right
    intro hr
    have : c.toNat ≤ '\r'.toNat := hr
    have : '\r'.toNat = 13 := rfl
    have : '0'.toNat = 48 := rfl
    omega

theorem stoi_of_digits {s : Str} (hne : s ≠ []) (hdigits : ∀ c ∈ s, c.isDigit = true)
    (hrange : IsInt (Nat.ofDigitChars 10 s 0))
    : stoi s = .ok (Nat.ofDigitChars 10 s 0) := by
  have htake : s.takeWhile Char.isDigit = s := by
    rw [List.takeWhile_eq_self_iff]
    exact hdigits
  cases s with
  | nil => exact absurd rfl hne
  | cons c tail =>
    have hc := hdigits c (by simp)
    have hdrop : (c :: tail).dropWhile isSpace = c :: tail := by
      simp [isSpace_of_isDigit hc]
    have hminus : c ≠ '-' := by
      rintro rfl
      exact absurd hc (by decide)
    have hplus : c ≠ '+' := by
      rintro rfl
      exact absurd hc (by decide)
    unfold stoi
    rw [hdrop]
    simp [hminus, hplus, htake, hrange]

/--
A value of `std::uniform_int_distribution<>(a, b)`, chosen by the random word `w`
-/
def uniformInt (a b w : Nat) : Nat := a + w % (b + 1 - a)

theorem uniformInt_le {a b w : Nat} (h : a ≤ b) : uniformInt a b w ≤ b := by
  unfold uniformInt
  have := Nat.mod_lt w (y := b + 1 - a) (by omega)
  omega
