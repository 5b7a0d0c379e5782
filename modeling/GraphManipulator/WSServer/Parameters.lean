import GraphManipulator.Client.PayloadLemmas
import GraphManipulator.GraphMapper.Representation
import GraphManipulator.WSServer.Lemmas

/-!
This module contains which parameters a message is answered with: those of a message of the page are the
numbers in its text fields, and those that a message has no value for come from the messages before it.
-/

namespace WSServer

open Client Parser

variable {D : Type} {fl : FloatOps D}

theorem toInt_intValue {n : Int} (h : IsInt n) : (intValue n).toInt fl = .ok n := by
  unfold intValue
  split
  . next hle =>
    rw [Json.toInt, Int.toNat_of_nonneg hle, castInt_eq_self h]
  . rw [Json.toInt, castInt_eq_self h]

theorem isConvertible_intValue (n : Int) : (intValue (D := D) n).IsConvertible := by
  unfold intValue
  split
  . trivial
  . trivial

def IsFieldsMessage (a b c : Int) (message : List UInt8) : Prop :=
  message = encode (payload ⟨intText a, intText b, intText c⟩)
    ∨ ∃ m ms, (m :: ms).Perm (fieldMembers a b c) ∧ message = encode (objectText m ms)

section

variable {a b c : Int} {message : List UInt8}

theorem parse_fieldsMessage (fl : FloatOps D) (ha : IsInt a) (hb : IsInt b) (hc : IsInt c)
    (hmessage : IsFieldsMessage a b c message)
    : ∃ jsonObj, parse fl message = .ok jsonObj ∧ jsonObj.elements = [intValue b, intValue a, intValue c] := by
  obtain ⟨m, ms, hperm, rfl⟩ : ∃ m ms, (m :: ms).Perm (fieldMembers a b c)
      ∧ message = encode (objectText m ms) := by
    rcases hmessage with rfl | h
    . exact ⟨_, _, List.Perm.refl _, by rw [payload_intText]⟩
    . exact h
  have hms : ∀ m' ∈ m :: ms, (∀ c ∈ m'.1, Lexer.IsPlain c) ∧ Lexer.IsStored m'.2 := by
    intro m' hm'
    exact plain_of_mem_fieldMembers ha hb hc m' (hperm.mem_iff.mp hm')
  refine ⟨_, parse_encode_objectText fl m ms hms, ?_⟩
  rw [ofList_fieldMembers hperm]
  rfl

theorem isConvertible_fieldsMessage (fl : FloatOps D) (ha : IsInt a) (hb : IsInt b) (hc : IsInt c)
    (hmessage : IsFieldsMessage a b c message)
    : IsConvertible fl message := by
  obtain ⟨jsonObj, hparse, helements⟩ := parse_fieldsMessage fl ha hb hc hmessage
  refine ⟨jsonObj, hparse, ?_⟩
  rw [helements]
  simp [isConvertible_intValue]

theorem parametersAfter_fieldsMessage (fl : FloatOps D) (ha : IsInt a) (hb : IsInt b) (hc : IsInt c)
    (hmessage : IsFieldsMessage a b c message) {payloadData : List Int} (hlength : payloadData.length = 3)
    : parametersAfter fl payloadData message = [b, a, c] := by
  have hvalue : ∀ {n}, IsInt n → (intValue (D := D) n).asInt fl = n := by
    intro n hn
    rw [Json.asInt, toInt_intValue hn]
  obtain ⟨jsonObj, hparse, helements⟩ := parse_fieldsMessage fl ha hb hc hmessage
  simp only [parametersAfter, messageValues, hparse, helements, List.map_cons, List.map_nil, hvalue ha,
    hvalue hb, hvalue hc]
  rw [overwrite_of_le (by simp [hlength]), hlength]
  rfl

end

theorem dimensions_ofDims (a b c : Int)
    : ((AdjacencyObjectsGenerator.ofDims b a c).overallAdjencyMatrixDimension : Int) = (if 1 < b then b else 2)
      ∧ ((AdjacencyObjectsGenerator.ofDims b a c).charactersDimension : Int) = (if 0 < a then a else 3)
      ∧ ((AdjacencyObjectsGenerator.ofDims b a c).metricDimension : Int) = (if 0 < c ∧ c < 10 then c else 5) := by
  refine ⟨?_, ?_, ?_⟩
  . apply Int.toNat_of_nonneg
    split <;> omega
  . apply Int.toNat_of_nonneg
    split <;> omega
  . apply Int.toNat_of_nonneg
    split <;> omega

/--
A message of the page has the generator constructed with the number in the field NODES COUNT as the number of
names, that in VERTEX NAME LENGTH as their length and that in EDGES WEIGHT COUNT as the length of the keys.
-/
theorem updatePayload_fieldsMessage {calls : List Call} {server : WSServer} (h : History fl calls server)
    {a b c : Int} (ha : IsInt a) (hb : IsInt b) (hc : IsInt c) {call : Call}
    (hmessage : IsFieldsMessage a b c call.message)
    : Generates fl server call [b, a, c] (.ofDims b a c)
      ∧ ((AdjacencyObjectsGenerator.ofDims b a c).overallAdjencyMatrixDimension : Int) = (if 1 < b then b else 2)
      ∧ ((AdjacencyObjectsGenerator.ofDims b a c).charactersDimension : Int) = (if 0 < a then a else 3)
      ∧ ((AdjacencyObjectsGenerator.ofDims b a c).metricDimension : Int) = (if 0 < c ∧ c < 10 then c else 5) := by
  refine ⟨?_, dimensions_ofDims a b c⟩
  have hconvertible := isConvertible_fieldsMessage fl ha hb hc hmessage
  have hpayload := parametersAfter_fieldsMessage fl ha hb hc hmessage h.hasParameters.length_eq
  have hgenerates := generates_of_isConvertible (g := .ofDims b a c) h.hasParameters hconvertible
  rw [hpayload] at hgenerates
  exact hgenerates (GraphProcessor.adjacencyObjects_eq_ok b a c)

def fieldsCall (a b c : Int) : Call where
  message := encode (payload ⟨intText a, intText b, intText c⟩)
  draws := ⟨fun _ _ => 0, fun _ _ => 0, fun _ _ => 0⟩
  env := GraphMapper.isolatedStart

theorem updatePayload_fieldsMessage_fieldsCall
    : Generates FloatOps.none new (fieldsCall 3 4 2) [4, 3, 2] (.ofDims 4 3 2)
      ∧ ((AdjacencyObjectsGenerator.ofDims 4 3 2).overallAdjencyMatrixDimension : Int) = 4
      ∧ ((AdjacencyObjectsGenerator.ofDims 4 3 2).charactersDimension : Int) = 3
      ∧ ((AdjacencyObjectsGenerator.ofDims 4 3 2).metricDimension : Int) = 2 := by
  have hfirst : History FloatOps.none [] new := .nil _
  exact updatePayload_fieldsMessage hfirst (by decide) (by decide) (by decide) (.inl rfl)

theorem history_fieldsCall {a b c : Int} (ha : IsInt a) (hb : IsInt b) (hc : IsInt c) (hle : b ≤ 65535)
    : ∃ server, History FloatOps.none [fieldsCall a b c] server ∧ server.payloadData = [b, a, c] := by
  have hmessage : IsFieldsMessage a b c (fieldsCall a b c).message := .inl rfl
  have hpayload := parametersAfter_fieldsMessage FloatOps.none ha hb hc hmessage
    hasParameters_new.length_eq
  have hconvertible := isConvertible_fieldsMessage FloatOps.none ha hb hc hmessage
  obtain ⟨server, hcall, hserver⟩ := updatePayload_of_le hasParameters_new hconvertible hpayload hle
  refine ⟨server, .cons trivial ?_ (.nil _), hserver⟩
  simp only [step, hcall]

def emptyObject : Call where
  message := [0x7b, 0x7d]
  draws := ⟨fun _ _ => 0, fun _ _ => 0, fun _ _ => 0⟩
  env := GraphMapper.isolatedStart

theorem updatePayload_emptyObject {server : WSServer} {a b c : Int}
    (h : HasParameters server.payloadData) (hserver : server.payloadData = [b, a, c]) (hle : b ≤ 65535)
    : ∃ server', updatePayload FloatOps.none server emptyObject = (.ok (), server')
        ∧ server'.payloadData = [b, a, c] := by
  have hparse : parse FloatOps.none emptyObject.message = .ok (.object []) := rfl
  have hpayload : parametersAfter FloatOps.none server.payloadData emptyObject.message = [b, a, c] := by
    rw [parametersAfter, messageValues, hparse, hserver]
    rfl
  have hmessage : IsConvertible FloatOps.none emptyObject.message := ⟨_, hparse, by simp [Json.elements]⟩
  exact updatePayload_of_le h hmessage hpayload hle

theorem parameters_of_histories {calls₁ calls₂ : List Call} {server₁ server₂ server₁' server₂' : WSServer}
    {call₁ call₂ : Call} (h₁ : History fl calls₁ server₁) (h₂ : History fl calls₂ server₂)
    (hmessage : call₁.message = call₂.message)
    (hcall₁ : updatePayload fl server₁ call₁ = (.ok (), server₁'))
    (hcall₂ : updatePayload fl server₂ call₂ = (.ok (), server₂'))
    : GraphProcessor.serializeGraph call₁.env call₁.draws server₁'.payloadData = .ok server₁'.graphData
      ∧ GraphProcessor.serializeGraph call₂.env call₂.draws server₂'.payloadData = .ok server₂'.graphData
      ∧ (∀ i < (messageValues fl call₁.message).length, server₁'.payloadData[i]? = server₂'.payloadData[i]?)
      ∧ (∀ i ≥ (messageValues fl call₁.message).length, server₁'.payloadData[i]? = server₁.payloadData[i]?
          ∧ server₂'.payloadData[i]? = server₂.payloadData[i]?)
      ∧ (3 ≤ (messageValues fl call₁.message).length → server₁'.payloadData = server₂'.payloadData) := by
  obtain ⟨-, hpayload₁, hgraph₁⟩ := updatePayload_eq_ok h₁.hasParameters hcall₁
  obtain ⟨-, hpayload₂, hgraph₂⟩ := updatePayload_eq_ok h₂.hasParameters hcall₂
  have hlength : server₁.payloadData.length = server₂.payloadData.length := by
    rw [h₁.hasParameters.length_eq, h₂.hasParameters.length_eq]
  refine ⟨hgraph₁, hgraph₂, ?_, ?_, ?_⟩
  . intro i hi
    rw [hpayload₁, hpayload₂, ← hmessage]
    exact getElem?_overwrite_congr hlength hi
  . intro i hi
    constructor
    . rw [hpayload₁]
      exact getElem?_overwrite_of_le hi
    . rw [hpayload₂, ← hmessage]
      exact getElem?_overwrite_of_le hi
  . intro hcount
    rw [hpayload₁, hpayload₂, ← hmessage]
    apply overwrite_congr hlength
    rw [h₁.hasParameters.length_eq]
    exact hcount

def singleCall : Call where
  message := [0x5b, 0x35, 0x5d]
  draws := ⟨fun _ _ => 0, fun _ _ => 0, fun _ _ => 0⟩
  env := GraphMapper.isolatedStart

theorem updatePayload_singleCall {server : WSServer} {a b c : Int} (h : HasParameters server.payloadData)
    (hserver : server.payloadData = [b, a, c])
    : ∃ server', updatePayload FloatOps.none server singleCall = (.ok (), server')
        ∧ server'.payloadData = [5, a, c] := by
  have hparse : parse FloatOps.none singleCall.message = .ok (.array [.numberUnsigned 5]) := rfl
  have hpayload : parametersAfter FloatOps.none server.payloadData singleCall.message = [5, a, c] := by
    rw [parametersAfter, messageValues, hparse, hserver]
    rfl
  have hmessage : IsConvertible FloatOps.none singleCall.message := by
    refine ⟨_, hparse, ?_⟩
    simp [Json.elements, Json.IsConvertible]
  exact updatePayload_of_le h hmessage hpayload (by decide)

theorem parameters_of_histories_singleCall
    : ∃ server₂ server₁' server₂' : WSServer, History FloatOps.none [fieldsCall 7 8 9] server₂
        ∧ updatePayload FloatOps.none new singleCall = (.ok (), server₁')
        ∧ updatePayload FloatOps.none server₂ singleCall = (.ok (), server₂')
        ∧ server₁'.payloadData[0]? = server₂'.payloadData[0]?
        ∧ (server₁'.payloadData[1]? = some 0 ∧ server₂'.payloadData[1]? = some 7)
        ∧ (server₁'.payloadData[2]? = some 0 ∧ server₂'.payloadData[2]? = some 9) := by
  obtain ⟨server₂, hhistory, hserver₂⟩ :=
    history_fieldsCall (a := 7) (b := 8) (c := 9) (by decide) (by decide) (by decide) (by decide)
  obtain ⟨server₁', hcall₁, -⟩ := updatePayload_singleCall hasParameters_new rfl
  obtain ⟨server₂', hcall₂, -⟩ := updatePayload_singleCall hhistory.hasParameters hserver₂
  have hfirst : History FloatOps.none [] new := .nil _
  have hvalues : (messageValues FloatOps.none singleCall.message).length = 1 := by decide +kernel
  obtain ⟨-, -, hshared, hkept, -⟩ := parameters_of_histories hfirst hhistory rfl hcall₁ hcall₂
  rw [hvalues] at hshared hkept
  rw [hserver₂] at hkept
  exact ⟨server₂, server₁', server₂', hhistory, hcall₁, hcall₂, hshared 0 (by decide), hkept 1 (by decide),
    hkept 2 (by decide)⟩

theorem parameters_differ
    : ∃ server₂ server₁' server₂' : WSServer, History FloatOps.none [] new
        ∧ History FloatOps.none [fieldsCall 7 8 9] server₂
        ∧ updatePayload FloatOps.none new emptyObject = (.ok (), server₁')
        ∧ updatePayload FloatOps.none server₂ emptyObject = (.ok (), server₂')
        ∧ server₁'.payloadData = [0, 0, 0]
        ∧ server₂'.payloadData = [8, 7, 9] := by
  obtain ⟨server₂, hhistory, hserver₂⟩ :=
    history_fieldsCall (a := 7) (b := 8) (c := 9) (by decide) (by decide) (by decide) (by decide)
  obtain ⟨server₁', hcall₁, hserver₁'⟩ := updatePayload_emptyObject hasParameters_new rfl (by decide)
  obtain ⟨server₂', hcall₂, hserver₂'⟩ :=
    updatePayload_emptyObject hhistory.hasParameters hserver₂ (by decide)
  exact ⟨server₂, server₁', server₂', .nil _, hhistory, hcall₁, hcall₂, hserver₁', hserver₂'⟩

end WSServer
