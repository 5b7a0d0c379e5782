import GraphManipulator.GraphMapper.Representation
import GraphManipulator.WSServer.Lemmas

/-!
This module contains what a call of `update_payload` leaves behind when it throws: the graph as it was, and the
parameters with the values that were assigned before.
-/

namespace WSServer

variable {D : Type} {fl : FloatOps D}

theorem updatePayload_throws {calls : List Call} {server server' : WSServer} (h : History fl calls server)
    {call : Call} {e : Fault} (hcall : updatePayload fl server call = (.error e, server'))
    (he : e.isException = true)
    : server'.graphData = server.graphData
      ∧ Rejects fl call.message server.payloadData server'.payloadData := by
  by_cases hmessage : IsConvertible fl call.message
  . have houtcome := updatePayload_outcome_of_isConvertible h.hasParameters hmessage
    rw [hcall] at houtcome
    rcases houtcome with hok | hloop
    . contradiction
    . cases hloop
      exact absurd he (by decide)
  . obtain ⟨payloadData, hthrow, hrejects⟩ := updatePayload_rejects h.hasParameters hmessage
    rw [hcall] at hthrow
    cases hthrow
    exact ⟨rfl, hrejects⟩

def mixedCall : Call where
  message := [0x5b, 0x31, 0x2c, 0x22, 0x22, 0x2c, 0x32, 0x5d]
  draws := ⟨fun _ _ => 0, fun _ _ => 0, fun _ _ => 0⟩
  env := GraphMapper.isolatedStart

theorem updatePayload_mixedCall
    : updatePayload FloatOps.none new mixedCall
        =
      (.error (.runtimeError "Cannot process on JSON"), { payloadData := [1, 0, 0] }) := by
  decide +kernel

theorem updatePayload_throws_mixedCall
    : new.graphData = ({ payloadData := [1, 0, 0] } : WSServer).graphData
      ∧ Rejects FloatOps.none mixedCall.message new.payloadData [1, 0, 0] := by
  have hfirst : History FloatOps.none [] new := .nil _
  obtain ⟨hgraph, hrejects⟩ := updatePayload_throws hfirst updatePayload_mixedCall rfl
  exact ⟨hgraph.symm, hrejects⟩

theorem payloadData_changed_mixedCall
    : ∃ server', updatePayload FloatOps.none new mixedCall
          =
        (.error (.runtimeError "Cannot process on JSON"), server')
      ∧ server'.payloadData ≠ new.payloadData :=
  ⟨_, updatePayload_mixedCall, by decide⟩

end WSServer
