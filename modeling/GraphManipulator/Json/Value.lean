import GraphManipulator.Basic
import GraphManipulator.Lib.OrdMap

/-!
This module contains `nlohmann::json`: its values, the iteration over them and their conversion to `int`.
-/

/--
A JSON value. `D` is the type `double`.
-/
inductive Json (D : Type) where
  | null
  | object (members : List (Str × Json D))
  | array (elements : List (Json D))
  | string (s : Str)
  | boolean (b : Bool)
  | numberInteger (n : Int)
  | numberUnsigned (n : Nat)
  | numberFloat (d : D)

/--
The operations on `double` that the parser and the conversion to `int` rely on.
-/
structure FloatOps (D : Type) where
  strtod : Str → D
  isFinite : D → Bool
  -- `static_cast<int>`
  toInt : D → Int

def FloatOps.none : FloatOps Unit where
  strtod := fun _ => ()
  isFinite := fun _ => true
  toInt := fun _ => 0

namespace Json

variable {D : Type}

def typeName (j : Json D) : String :=
  match j with
  | null => "null"
  | object _ => "object"
  | array _ => "array"
  | string _ => "string"
  | boolean _ => "boolean"
  | _ => "number"

def elements (j : Json D) : List (Json D) :=
  match j with
  | null => []
  | object members => members.map Prod.snd
  | array elements => elements
  | j => [j]

def toInt (fl : FloatOps D) (j : Json D) : Except Fault Int :=
  match j with
  | numberUnsigned n => .ok (castInt n)
  | numberInteger n => .ok (castInt n)
  | numberFloat d => .ok (castInt (fl.toInt d))
  | boolean b => .ok (if b then 1 else 0)
  | j => .error (.typeError ("type must be number, but is " ++ j.typeName))

def IsConvertible (j : Json D) : Prop :=
  match j with
  | numberUnsigned _ | numberInteger _ | numberFloat _ | boolean _ => True
  | _ => False

instance (j : Json D) : Decidable j.IsConvertible := by
  cases j <;> unfold IsConvertible <;> infer_instance

def asInt (fl : FloatOps D) (j : Json D) : Int :=
  match j.toInt fl with
  | .ok n => n
  | .error _ => 0

theorem isInt_of_toInt {fl : FloatOps D} {j : Json D} {n : Int} (h : j.toInt fl = .ok n) : IsInt n := by
  cases j with
  | numberUnsigned | numberInteger | numberFloat =>
    simp only [toInt, Except.ok.injEq] at h
    rw [← h]
    apply isInt_castInt
  | boolean b =>
    simp only [toInt, Except.ok.injEq] at h
    rw [← h]
    cases b <;> decide
  | null | object | array | string => simp [toInt] at h

theorem toInt_of_isConvertible {fl : FloatOps D} {j : Json D} (h : j.IsConvertible)
    : j.toInt fl = .ok (j.asInt fl) := by
  cases j with
  | null | object | array | string => exact absurd h (by simp [IsConvertible])
  | numberUnsigned | numberInteger | numberFloat | boolean => rfl

theorem toInt_of_not_isConvertible (fl : FloatOps D) {j : Json D} (h : ¬ j.IsConvertible)
    : ∃ what, j.toInt fl = .error (.typeError what) := by
  cases j with
  | null | object | array | string => exact ⟨_, rfl⟩
  | numberUnsigned | numberInteger | numberFloat | boolean => exact absurd trivial h

end Json
