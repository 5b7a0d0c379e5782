import GraphManipulator.WSServer.Atomicity

/-!
This module contains what stays in range: the accesses to the parameters, the dimensions of the generator, the
indices that it draws and the keys that it converts.
-/

namespace AdjacencyObjectsGenerator

structure StaysInRange (g : AdjacencyObjectsGenerator) : Prop where
  nodes : 2 ≤ g.overallAdjencyMatrixDimension
  names : 1 ≤ g.charactersDimension
  metrics : 1 ≤ g.metricDimension ∧ g.metricDimension ≤ 9
  metricsIndex : ∀ w, indexDist metricsChars w < metricsChars.length
  namesIndex : ∀ w, indexDist namesChars w < namesChars.length
  metric : ∀ w, ∃ k, g.generateMetric w = .ok k ∧ 0 ≤ k ∧ k ≤ 10 ^ g.metricDimension - 1 ∧ k < 2 ^ 31

theorem staysInRange (g : AdjacencyObjectsGenerator) : g.StaysInRange where
  nodes := g.two_le
  names := g.one_le
  metrics := ⟨g.metric_pos, by have := g.metric_lt; omega⟩
  metricsIndex := indexDist_lt (by decide)
  namesIndex := indexDist_lt (by decide)
  metric := by
    intro w
    obtain ⟨k, hk, hlt, hint⟩ := g.generateMetric_eq_ok w
    have hpow : (k : Int) < 10 ^ g.metricDimension := by exact_mod_cast hlt
    exact ⟨k, hk, by omega, by omega, by omega⟩

end AdjacencyObjectsGenerator

namespace WSServer

variable {D : Type} {fl : FloatOps D}

structure InRange (payloadData : List Int) : Prop where
  parameters : HasParameters payloadData
  accesses : ∀ i < 3, ∃ n, vectorAt payloadData i = .ok n
  generator : ∃ g, GraphProcessor.adjacencyObjects payloadData = .ok g ∧ g.StaysInRange

theorem inRange_of_hasParameters {payloadData : List Int} (h : HasParameters payloadData)
    : InRange payloadData where
  parameters := h
  accesses := by
    intro i hi
    rw [← h.length_eq] at hi
    exact ⟨_, vectorAt_eq_ok (List.getElem?_eq_getElem hi)⟩
  generator := by
    obtain ⟨g, hg⟩ := GraphProcessor.adjacencyObjects_of_length h.length_eq
    exact ⟨g, hg, g.staysInRange⟩

theorem updatePayload_outcome {server : WSServer} (h : HasParameters server.payloadData) (call : Call)
    : (updatePayload fl server call).1 = .ok ()
      ∨ (updatePayload fl server call).1 = .error (.runtimeError "Cannot process on JSON")
      ∨ (updatePayload fl server call).1 = .error .nonterminating := by
  by_cases hmessage : IsConvertible fl call.message
  . cases updatePayload_outcome_of_isConvertible h hmessage with
    | inl hok => exact .inl hok
    | inr hloop => exact .inr (.inr hloop)
  . exact .inr (.inl (updatePayload_of_not_isConvertible h hmessage))

/--
After any calls, whether they returned or threw, and also after the next one, however that ends
-/
theorem inRange_of_history {calls : List Call} {server : WSServer} (h : History fl calls server) (call : Call)
    : InRange server.payloadData
      ∧ InRange (updatePayload fl server call).2.payloadData
      ∧ ((updatePayload fl server call).1 = .ok ()
        ∨ (updatePayload fl server call).1 = .error (.runtimeError "Cannot process on JSON")
        ∨ (updatePayload fl server call).1 = .error .nonterminating) := by
  refine ⟨inRange_of_hasParameters h.hasParameters, ?_, updatePayload_outcome h.hasParameters call⟩
  exact inRange_of_hasParameters (hasParameters_updatePayload fl h.hasParameters call)

theorem inRange_of_history_throws
    : ∃ server, History FloatOps.none [mixedCall] server
        ∧ server.payloadData = [1, 0, 0]
        ∧ InRange server.payloadData
        ∧ InRange (updatePayload FloatOps.none server mixedCall).2.payloadData := by
  have hstep : step FloatOps.none new mixedCall = some { payloadData := [1, 0, 0] } := by
    rw [step, updatePayload_mixedCall]
    rfl
  have hhistory : History FloatOps.none [mixedCall] _ := .cons trivial hstep (.nil _)
  obtain ⟨hserver, hupdate, -⟩ := inRange_of_history hhistory mixedCall
  exact ⟨_, hhistory, rfl, hserver, hupdate⟩

end WSServer
