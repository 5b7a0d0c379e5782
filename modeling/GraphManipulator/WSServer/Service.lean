import GraphManipulator.Client.PayloadLemmas
import GraphManipulator.GraphMapper.Representation
import GraphManipulator.WSServer.Lemmas

/-!
This module contains which messages the service survives: those that `update_payload` accepts are answered,
each by one reply to its sender, and any other one ends the service for all clients.
-/

open WSServer

namespace Hub

variable {D : Type} {fl : FloatOps D}

/--
Each message is answered by one reply to its sender, and then the next one is delivered.
-/
def Serves (fl : FloatOps D) (hub : Hub) (deliveries : List Delivery) : Prop :=
  match deliveries with
  | [] => True
  | delivery :: deliveries =>
    ∃ hub', onMessage fl hub delivery = (.ok (), hub')
      ∧ hub'.sent
          =
        hub.sent ++ [{
          receiver := delivery.sender
          opCode := delivery.opCode
          message := hub'.server.graphData
        }]
      ∧ Serves fl hub' deliveries

def AllAcceptable (fl : FloatOps D) (payloadData : List Int) (deliveries : List Delivery) : Prop :=
  match deliveries with
  | [] => True
  | delivery :: deliveries =>
    IsAcceptable fl payloadData delivery.toCall
      ∧ AllAcceptable fl (parametersAfter fl payloadData delivery.message) deliveries

section

variable {hub hub' : Hub} {delivery : Delivery}

theorem onMessage_eq_ok (h : HasParameters hub.server.payloadData)
    (hcall : onMessage fl hub delivery = (.ok (), hub'))
    : hub'.sent
          =
        hub.sent ++ [{
          receiver := delivery.sender
          opCode := delivery.opCode
          message := hub'.server.graphData
        }]
      ∧ HasParameters hub'.server.payloadData
      ∧ hub'.server.payloadData = parametersAfter fl hub.server.payloadData delivery.message := by
  have hparameters := hasParameters_updatePayload fl h delivery.toCall
  unfold onMessage at hcall
  split at hcall
  . next server hupdate =>
    obtain ⟨-, hpayload, -⟩ := updatePayload_eq_ok h hupdate
    rw [hupdate] at hparameters
    cases hcall
    exact ⟨rfl, hparameters, hpayload⟩
  . cases hcall

theorem onMessage_eq_ok_iff (h : HasParameters hub.server.payloadData)
    : (∃ hub', onMessage fl hub delivery = (.ok (), hub'))
        ↔
      IsAcceptable fl hub.server.payloadData delivery.toCall := by
  rw [← updatePayload_eq_ok_iff h]
  constructor
  . rintro ⟨hub', hcall⟩
    unfold onMessage at hcall
    split at hcall
    . next server hupdate => exact ⟨server, hupdate⟩
    . cases hcall
  . rintro ⟨server, hupdate⟩
    simp only [onMessage, hupdate]
    exact ⟨_, rfl⟩

end

theorem serves_iff_allAcceptable (fl : FloatOps D) {hub : Hub} (h : HasParameters hub.server.payloadData)
    (deliveries : List Delivery)
    : Serves fl hub deliveries ↔ AllAcceptable fl hub.server.payloadData deliveries := by
  induction deliveries generalizing hub with
  | nil => exact Iff.rfl
  | cons delivery deliveries ih =>
    constructor
    . rintro ⟨hub', hcall, -, hserves⟩
      obtain ⟨-, hparameters, hpayload⟩ := onMessage_eq_ok h hcall
      refine ⟨(onMessage_eq_ok_iff h).mp ⟨hub', hcall⟩, ?_⟩
      rw [← hpayload]
      exact (ih hparameters).mp hserves
    . rintro ⟨hacceptable, hall⟩
      obtain ⟨hub', hcall⟩ := (onMessage_eq_ok_iff h).mpr hacceptable
      obtain ⟨hsent, hparameters, hpayload⟩ := onMessage_eq_ok h hcall
      refine ⟨hub', hcall, hsent, ?_⟩
      rw [← hpayload] at hall
      exact (ih hparameters).mpr hall

theorem run_eq_ok_iff_serves {hub : Hub} (h : HasParameters hub.server.payloadData)
    (deliveries : List Delivery)
    : (run fl hub deliveries).1 = .ok () ↔ Serves fl hub deliveries := by
  induction deliveries generalizing hub with
  | nil => simp [run, Serves]
  | cons delivery deliveries ih =>
    unfold run Serves
    cases hcall : onMessage fl hub delivery with
    | mk outcome hub' =>
      cases outcome with
      | error e => simp
      | ok =>
        obtain ⟨hsent, hparameters, -⟩ := onMessage_eq_ok h hcall
        dsimp only
        rw [ih hparameters]
        constructor
        . intro hserves
          exact ⟨hub', rfl, hsent, hserves⟩
        . rintro ⟨hub'', heq, -, hserves⟩
          cases heq
          exact hserves

theorem run_serves_iff (fl : FloatOps D) (deliveries : List Delivery)
    : (Serves fl {} deliveries ↔ AllAcceptable fl [0, 0, 0] deliveries)
      ∧ ((run fl {} deliveries).1 = .ok () ↔ AllAcceptable fl [0, 0, 0] deliveries) := by
  have hserves : Serves fl {} deliveries ↔ AllAcceptable fl [0, 0, 0] deliveries :=
    serves_iff_allAcceptable fl hasParameters_new deliveries
  refine ⟨hserves, ?_⟩
  rw [run_eq_ok_iff_serves hasParameters_new]
  exact hserves

def emptyFields : Delivery where
  message := Client.encode (Client.payload ⟨[], [], []⟩)
  draws := ⟨fun _ _ => 0, fun _ _ => 0, fun _ _ => 0⟩
  env := GraphMapper.isolatedStart
  sender := 0
  opCode := .text

theorem not_serves_emptyFields
    : ¬ Serves .none {} [emptyFields]
      ∧ (run .none {} [emptyFields]).1 = .error (.runtimeError "Cannot process on JSON") := by
  have hmessage : ¬ WSServer.IsConvertible .none emptyFields.message := by
    rintro ⟨jsonObj, hparse, -⟩
    have hkey : ∀ c ∈ "matrix_dim".toList, Lexer.IsPlain c := by decide +kernel
    obtain ⟨e, hthrow⟩ := Client.parseChars_missing_value FloatOps.none hkey _
    rw [emptyFields, Client.parse_encode FloatOps.none (by decide +kernel), Client.payload_eq] at hparse
    exact absurd (hparse.symm.trans hthrow) (by simp)
  have hrun : (run .none {} [emptyFields]).1 = .error (.runtimeError "Cannot process on JSON") := by
    have hupdate : (updatePayload FloatOps.none new emptyFields.toCall).1
        = .error (.runtimeError "Cannot process on JSON") :=
      updatePayload_of_not_isConvertible hasParameters_new hmessage
    generalize hres : updatePayload FloatOps.none new emptyFields.toCall = res at hupdate
    obtain ⟨outcome, server⟩ := res
    cases hupdate
    simp only [run, onMessage, hres]
  refine ⟨?_, hrun⟩
  rw [← run_eq_ok_iff_serves hasParameters_new, hrun]
  simp

end Hub
