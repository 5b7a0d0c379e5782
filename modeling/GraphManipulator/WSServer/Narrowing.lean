import GraphManipulator.WSServer.Members

/-!
This module contains what becomes of an integer in a message: it is cast to `int` without a check, and the ranges
of the generator are tested after that.
-/

/--
One of the three parameters: the range that the generator accepts, what it takes instead of other numbers, and
where it keeps the number
-/
structure Slot where
  least : Int
  greatest : Int
  default : Int
  used : AdjacencyObjectsGenerator → Nat

namespace Slot

def Accepts (slot : Slot) (v : Int) : Prop := slot.least ≤ v ∧ v ≤ slot.greatest

instance (slot : Slot) (v : Int) : Decidable (slot.Accepts v) := inferInstanceAs (Decidable (_ ∧ _))

def nodes : Slot where
  least := 2
  greatest := intMax
  default := 2
  used := AdjacencyObjectsGenerator.overallAdjencyMatrixDimension

def names : Slot where
  least := 1
  greatest := intMax
  default := 3
  used := AdjacencyObjectsGenerator.charactersDimension

def metrics : Slot where
  least := 1
  greatest := 9
  default := 5
  used := AdjacencyObjectsGenerator.metricDimension

def all : List Slot := [nodes, names, metrics]

/--
The generator uses `v` where it is accepted and the default elsewhere, and the number that was assigned for `v` is
no other one that is accepted.
-/
structure Takes (slot : Slot) (v assigned : Int) (g : AdjacencyObjectsGenerator) : Prop where
  used : (slot.used g : Int) = if slot.Accepts v then v else slot.default
  assigned : slot.Accepts assigned → assigned = v

theorem isInt_of_accepts {slot : Slot} (hslot : slot ∈ all) {v : Int} (h : slot.Accepts v) : IsInt v := by
  have hrange : 0 ≤ slot.least ∧ slot.greatest ≤ intMax := by
    simp only [all, List.mem_cons, List.not_mem_nil, or_false] at hslot
    rcases hslot with rfl | rfl | rfl <;> decide
  unfold Accepts at h
  unfold IsInt intMin
  omega

theorem used_eq {payloadData : List Int} {g : AdjacencyObjectsGenerator} (hlength : payloadData.length = 3)
    (hg : GraphProcessor.adjacencyObjects payloadData = .ok g) {i : Nat} {slot : Slot} (hslot : all[i]? = some slot)
    {n : Int} (hn : payloadData[i]? = some n) (hint : IsInt n)
    : (slot.used g : Int) = if slot.Accepts n then n else slot.default := by
  obtain ⟨a, b, c, rfl⟩ := List.length_eq_three.mp hlength
  cases hg
  -- an `int` is never above the range, where the range ends with the type
  have hle : n ≤ intMax := hint.2
  match i, hslot, hn with
  | 0, rfl, rfl =>
    have hrange : a > 1 ↔ nodes.Accepts a := by
      simp only [nodes, Accepts]
      omega
    rw [← if_congr hrange rfl rfl]
    apply Int.toNat_of_nonneg
    split <;> omega
  | 1, rfl, rfl =>
    have hrange : b > 0 ↔ names.Accepts b := by
      simp only [names, Accepts]
      omega
    rw [← if_congr hrange rfl rfl]
    apply Int.toNat_of_nonneg
    split <;> omega
  | 2, rfl, rfl =>
    have hrange : c > 0 ∧ c < 10 ↔ metrics.Accepts c := by
      simp only [metrics, Accepts]
      omega
    rw [← if_congr hrange rfl rfl]
    apply Int.toNat_of_nonneg
    split <;> omega

theorem takes_castInt_iff {slot : Slot} (hslot : slot ∈ all) {v : Int} {g : AdjacencyObjectsGenerator}
    (hused : (slot.used g : Int) = if slot.Accepts (castInt v) then castInt v else slot.default)
    : slot.Takes v (castInt v) g ↔ IsInt v ∨ ¬ slot.Accepts (castInt v) := by
  constructor
  . intro h
    by_cases haccepts : slot.Accepts (castInt v)
    . left
      rw [← h.assigned haccepts]
      apply isInt_castInt
    . exact Or.inr haccepts
  . rintro (hint | hrejects)
    . rw [castInt_eq_self hint] at hused ⊢
      exact ⟨hused, fun _ => rfl⟩
    . refine ⟨?_, fun haccepts => absurd haccepts hrejects⟩
      rw [hused, if_neg hrejects, if_neg]
      intro haccepts
      rw [castInt_eq_self (isInt_of_accepts hslot haccepts)] at hrejects
      exact hrejects haccepts

end Slot

namespace Json

variable {D : Type}

def IsInteger (j : Json D) (v : Int) : Prop :=
  j = .numberInteger v ∨ ∃ n : Nat, j = .numberUnsigned n ∧ v = n

theorem asInt_of_isInteger {fl : FloatOps D} {j : Json D} {v : Int} (h : j.IsInteger v)
    : j.asInt fl = castInt v := by
  rcases h with rfl | ⟨n, rfl, rfl⟩
  . rfl
  . rfl

end Json

namespace WSServer

open Client Parser

variable {D : Type} {fl : FloatOps D}

theorem updatePayload_takes_iff {calls : List Call} {server : WSServer} (h : History fl calls server) {call : Call}
    {jsonObj : Json D} (hparse : parse fl call.message = .ok jsonObj) (hmessage : IsConvertible fl call.message)
    {i : Nat} {slot : Slot} (hslot : Slot.all[i]? = some slot) {j : Json D} {v : Int}
    (hj : jsonObj.elements[i]? = some j) (hv : j.IsInteger v)
    : ∃ payloadData g, Generates fl server call payloadData g
        ∧ payloadData[i]? = some (castInt v)
        ∧ (slot.Takes v (castInt v) g ↔ IsInt v ∨ ¬ slot.Accepts (castInt v)) := by
  have hlength := h.hasParameters.length_eq
  have hi : i < 3 := (List.getElem?_eq_some_iff.mp hslot).1
  obtain ⟨g, hg⟩ := adjacencyObjects_parametersAfter fl h.hasParameters call.message
  have hassigned : (parametersAfter fl server.payloadData call.message)[i]? = some (castInt v) := by
    have hlt := (List.getElem?_eq_some_iff.mp hj).1
    rw [parametersAfter, messageValues, hparse]
    dsimp only
    rw [getElem?_overwrite_of_lt (by rwa [List.length_map]) (by rwa [hlength]), List.getElem?_map, hj,
      Option.map_some, Json.asInt_of_isInteger hv]
  refine ⟨_, g, generates_of_isConvertible h.hasParameters hmessage hg, hassigned, ?_⟩
  apply Slot.takes_castInt_iff (List.mem_of_getElem? hslot)
  apply Slot.used_eq ?_ hg hslot hassigned (isInt_castInt v)
  rw [parametersAfter, length_overwrite, hlength]

theorem isInteger_intValue (v : Int) : (intValue (D := D) v).IsInteger v := by
  unfold intValue
  split
  . next hle => exact .inr ⟨v.toNat, rfl, (Int.toNat_of_nonneg hle).symm⟩
  . exact .inl rfl

def nodesCall (v : Int) : Call := objectCall ("characters_length".toList, v) []

theorem parse_nodesCall (fl : FloatOps D) {v : Int} (hv : Lexer.IsStored v)
    : parse fl (nodesCall v).message = .ok (.object [("characters_length".toList, intValue v)]) :=
  parse_objectCall_single fl (by decide +kernel) hv

theorem isConvertible_nodesCall (fl : FloatOps D) {v : Int} (hv : Lexer.IsStored v)
    : IsConvertible fl (nodesCall v).message :=
  isConvertible_of_intValues [("characters_length".toList, v)] (parse_nodesCall fl hv)

theorem updatePayload_takes_four
    : ∃ payloadData g, Generates FloatOps.none new (nodesCall 4) payloadData g
        ∧ payloadData[0]? = some (castInt 4)
        ∧ (Slot.nodes.Takes 4 (castInt 4) g ↔ IsInt 4 ∨ ¬ Slot.nodes.Accepts (castInt 4)) := by
  have hfirst : History FloatOps.none [] new := .nil _
  exact updatePayload_takes_iff hfirst (parse_nodesCall FloatOps.none (by decide))
    (isConvertible_nodesCall FloatOps.none (by decide)) rfl rfl (isInteger_intValue 4)

theorem not_takes_wrapped
    : ∃ server' g,
        parse FloatOps.none (nodesCall 4294967301).message
            =
          .ok (.object [("characters_length".toList, .numberUnsigned 4294967301)])
        ∧ updatePayload FloatOps.none new (nodesCall 4294967301) = (.ok (), server')
        ∧ server'.payloadData = [5, 0, 0]
        ∧ GraphProcessor.adjacencyObjects server'.payloadData = .ok g
        ∧ g.overallAdjencyMatrixDimension = 5
        ∧ ¬ Slot.nodes.Takes 4294967301 5 g := by
  have hparse := parse_nodesCall FloatOps.none (v := 4294967301) (by decide)
  have hpayload : parametersAfter FloatOps.none [0, 0, 0] (nodesCall 4294967301).message = [5, 0, 0] := by
    rw [parametersAfter, messageValues_eq hparse]
    rfl
  obtain ⟨server', hcall, hserver⟩ := updatePayload_of_le hasParameters_new
    (isConvertible_nodesCall FloatOps.none (by decide)) hpayload (by decide)
  refine ⟨server', .ofDims 5 0 0, hparse, hcall, hserver, ?_, rfl, ?_⟩
  . rw [hserver]
    rfl
  . intro h
    exact absurd (h.assigned (by decide)) (by decide)

end WSServer
