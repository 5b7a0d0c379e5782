import GraphManipulator.AdjacencyObjectsGenerator.Selection
import GraphManipulator.Json.ParserLemmas
import GraphManipulator.Lib.Lts
import GraphManipulator.Lib.Overwrite
import GraphManipulator.WSServer.Impl

/-!
This module contains what a call of `update_payload` does: when it returns, what it then has assigned, and
what holds of the parameters after any calls.
-/

namespace WSServer

variable {D : Type} {fl : FloatOps D}

theorem assignValues_eq_ok {values : List (Json D)} {payloadData : List Int}
    (h : ∀ v ∈ values.take payloadData.length, v.IsConvertible)
    : assignValues fl values payloadData
        =
      (.ok (), overwrite (values.map (Json.asInt fl)) payloadData) := by
  induction values generalizing payloadData with
  | nil => simp [assignValues]
  | cons value values ih =>
    cases payloadData with
    | nil => simp [assignValues]
    | cons parameter payloadData =>
      simp only [List.length_cons, List.take_succ_cons, List.forall_mem_cons] at h
      simp only [assignValues, Json.toInt_of_isConvertible h.1, ih h.2, List.map_cons, overwrite_cons]

theorem assignValues_throws (fl : FloatOps D) {values : List (Json D)} {payloadData : List Int}
    (h : ¬ ∀ v ∈ values.take payloadData.length, v.IsConvertible)
    : ∃ what i v, assignValues fl values payloadData
          =
        (.error (.typeError what), overwrite ((values.take i).map (Json.asInt fl)) payloadData)
      ∧ i < payloadData.length
      ∧ values[i]? = some v
      ∧ ¬ v.IsConvertible
      ∧ ∀ v ∈ values.take i, v.IsConvertible := by
  induction values generalizing payloadData with
  | nil => exact absurd (by simp) h
  | cons value values ih =>
    cases payloadData with
    | nil => exact absurd (by simp) h
    | cons parameter payloadData =>
      simp only [List.length_cons, List.take_succ_cons, List.forall_mem_cons] at h
      by_cases hvalue : value.IsConvertible
      . have hvalues : ¬ ∀ v ∈ values.take payloadData.length, v.IsConvertible :=
          fun hvalues => h ⟨hvalue, hvalues⟩
        obtain ⟨what, i, v, hassign, hi, hv, hthrow, hbefore⟩ := ih hvalues
        refine ⟨what, i + 1, v, ?_, Nat.succ_lt_succ hi, hv, hthrow, ?_⟩
        . simp only [assignValues, Json.toInt_of_isConvertible hvalue, hassign, List.take_succ_cons,
            List.map_cons, overwrite_cons]
        . rw [List.take_succ_cons, List.forall_mem_cons]
          exact ⟨hvalue, hbefore⟩
      . obtain ⟨what, hwhat⟩ := Json.toInt_of_not_isConvertible fl hvalue
        refine ⟨what, 0, value, ?_, Nat.succ_pos _, rfl, hvalue, by simp⟩
        simp [assignValues, hwhat]

structure HasParameters (payloadData : List Int) : Prop where
  length_eq : payloadData.length = 3
  isInt : ∀ n ∈ payloadData, IsInt n

theorem length_assignValues (values : List (Json D)) (payloadData : List Int)
    : (assignValues fl values payloadData).2.length = payloadData.length := by
  induction values generalizing payloadData with
  | nil => rfl
  | cons value values ih =>
    cases payloadData with
    | nil => rfl
    | cons parameter payloadData =>
      unfold assignValues
      split
      . simp only [List.length_cons, ih]
      . rfl

theorem isInt_of_mem_assignValues {values : List (Json D)} {payloadData : List Int}
    (h : ∀ n ∈ payloadData, IsInt n)
    : ∀ n ∈ (assignValues fl values payloadData).2, IsInt n := by
  induction values generalizing payloadData with
  | nil => exact h
  | cons value values ih =>
    cases payloadData with
    | nil => exact h
    | cons parameter payloadData =>
      unfold assignValues
      split
      . next n hn =>
        rw [List.forall_mem_cons] at h ⊢
        exact ⟨Json.isInt_of_toInt hn, ih h.2⟩
      . exact h

@[simp]
theorem callGraphMapper_payloadData (server : WSServer) (call : Call)
    : (callGraphMapper server call).2.payloadData = server.payloadData := by
  unfold callGraphMapper
  split
  . rfl
  . rfl

theorem hasParameters_updatePayload (fl : FloatOps D) {server : WSServer}
    (h : HasParameters server.payloadData) (call : Call)
    : HasParameters (updatePayload fl server call).2.payloadData := by
  have hassign : ∀ values, HasParameters (assignValues fl values server.payloadData).2 := by
    intro values
    constructor
    . rw [length_assignValues, h.length_eq]
    . exact isInt_of_mem_assignValues h.isInt
  simp only [updatePayload, tryUpdatePayload]
  cases Parser.parse fl call.message with
  | error e => exact h
  | ok jsonObj =>
    have := hassign jsonObj.elements
    dsimp only
    generalize assignValues fl jsonObj.elements server.payloadData = res at this ⊢
    obtain ⟨outcome, payloadData⟩ := res
    cases outcome with
    | ok => simpa using this
    | error => exact this

def messageValues (fl : FloatOps D) (message : List UInt8) : List Int :=
  match Parser.parse fl message with
  | .ok jsonObj => jsonObj.elements.map (Json.asInt fl)
  | .error _ => []

def parametersAfter (fl : FloatOps D) (payloadData : List Int) (message : List UInt8) : List Int :=
  overwrite (messageValues fl message) payloadData

/--
A text that the parser accepts, with numbers or booleans for as many parameters as it has values for
-/
def IsConvertible (fl : FloatOps D) (message : List UInt8) : Prop :=
  ∃ jsonObj, Parser.parse fl message = .ok jsonObj ∧ ∀ v ∈ jsonObj.elements.take 3, v.IsConvertible

/--
The text does not parse, and no parameter changes, or one of the first three values does not convert, and those
before it are assigned.
-/
def Rejects (fl : FloatOps D) (message : List UInt8) (payloadData payloadData' : List Int) : Prop :=
  (∃ e, Parser.parse fl message = .error e) ∧ payloadData' = payloadData
    ∨ ∃ jsonObj i v, Parser.parse fl message = .ok jsonObj
        ∧ i < 3
        ∧ jsonObj.elements[i]? = some v
        ∧ ¬ v.IsConvertible
        ∧ (∀ v ∈ jsonObj.elements.take i, v.IsConvertible)
        ∧ payloadData' = overwrite ((jsonObj.elements.take i).map (Json.asInt fl)) payloadData

section

variable {server : WSServer} {call : Call}

theorem updatePayload_of_isConvertible (h : HasParameters server.payloadData)
    (hmessage : IsConvertible fl call.message)
    : updatePayload fl server call
        =
      let res := callGraphMapper
        { server with payloadData := parametersAfter fl server.payloadData call.message } call
      (rethrow res.1, res.2) := by
  obtain ⟨jsonObj, hparse, hvalues⟩ := hmessage
  rw [← h.length_eq] at hvalues
  simp only [updatePayload, tryUpdatePayload, parametersAfter, messageValues, hparse,
    assignValues_eq_ok hvalues]

/--
The generator `g` is constructed with the parameters and runs, and the graph is what the mapper writes for its table.
-/
structure Generates (fl : FloatOps D) (server : WSServer) (call : Call) (payloadData : List Int)
    (g : AdjacencyObjectsGenerator) : Prop where
  adjacencyObjects : GraphProcessor.adjacencyObjects payloadData = .ok g
  ok : ∀ table, g.generateData call.draws = .ok table →
    ∃ mapper, (GraphMapper.ofServersData table).getShortestPath call.env = .ok mapper
      ∧ GraphProcessor.serializeGraph call.env call.draws payloadData = .ok mapper.getGraph
      ∧ updatePayload fl server call = (.ok (), { payloadData := payloadData, graphData := mapper.getGraph })
  -- the loop over the selected pairs might not end
  error : ∀ e, g.generateData call.draws = .error e →
    e = .nonterminating
      ∧ GraphProcessor.serializeGraph call.env call.draws payloadData = .error e
      ∧ updatePayload fl server call = (.error e, { server with payloadData := payloadData })

theorem generates_of_isConvertible (h : HasParameters server.payloadData)
    (hmessage : IsConvertible fl call.message) {g : AdjacencyObjectsGenerator}
    (hg : GraphProcessor.adjacencyObjects (parametersAfter fl server.payloadData call.message) = .ok g)
    : Generates fl server call (parametersAfter fl server.payloadData call.message) g where
  adjacencyObjects := hg
  ok := by
    intro table htable
    obtain ⟨mapper, hmapper, -, hgraph⟩ := GraphProcessor.serializeGraph_of_table call.env hg htable
    refine ⟨mapper, hmapper, hgraph, ?_⟩
    rw [updatePayload_of_isConvertible h hmessage]
    simp only [callGraphMapper, hgraph]
    rfl
  error := by
    intro e he
    obtain ⟨hle, rfl⟩ := AdjacencyObjectsGenerator.nonterminating_of_generateData he
    have hgraph := GraphProcessor.serializeGraph_nonterminating call.env hg hle
    refine ⟨rfl, hgraph, ?_⟩
    rw [updatePayload_of_isConvertible h hmessage]
    simp only [callGraphMapper, hgraph]
    rfl

theorem updatePayload_rejects (h : HasParameters server.payloadData) (hmessage : ¬ IsConvertible fl call.message)
    : ∃ payloadData, updatePayload fl server call
          =
        (.error (.runtimeError "Cannot process on JSON"), { server with payloadData := payloadData })
      ∧ Rejects fl call.message server.payloadData payloadData := by
  cases hparse : Parser.parse fl call.message with
  | error e =>
    refine ⟨server.payloadData, ?_, .inl ⟨⟨e, hparse⟩, rfl⟩⟩
    simp only [updatePayload, tryUpdatePayload, hparse, rethrow, Parser.parse_isException hparse, if_true]
  | ok jsonObj =>
    have hvalues : ¬ ∀ v ∈ jsonObj.elements.take server.payloadData.length, v.IsConvertible := by
      rw [h.length_eq]
      intro hvalues
      exact hmessage ⟨jsonObj, hparse, hvalues⟩
    obtain ⟨what, i, v, hassign, hi, hv, hthrow, hbefore⟩ := assignValues_throws fl hvalues
    rw [h.length_eq] at hi
    refine ⟨_, ?_, .inr ⟨jsonObj, i, v, hparse, hi, hv, hthrow, hbefore, rfl⟩⟩
    simp only [updatePayload, tryUpdatePayload, hparse, hassign]
    rfl

theorem updatePayload_of_not_isConvertible (h : HasParameters server.payloadData)
    (hmessage : ¬ IsConvertible fl call.message)
    : (updatePayload fl server call).1 = .error (.runtimeError "Cannot process on JSON") := by
  obtain ⟨payloadData, hcall, -⟩ := updatePayload_rejects h hmessage
  rw [hcall]

theorem updatePayload_eq_ok {server' : WSServer} (h : HasParameters server.payloadData)
    (hcall : updatePayload fl server call = (.ok (), server'))
    : IsConvertible fl call.message
      ∧ server'.payloadData = parametersAfter fl server.payloadData call.message
      ∧ GraphProcessor.serializeGraph call.env call.draws server'.payloadData = .ok server'.graphData := by
  have hmessage : IsConvertible fl call.message := by
    by_contra hmessage
    have := updatePayload_of_not_isConvertible h hmessage
    rw [hcall] at this
    contradiction
  rw [updatePayload_of_isConvertible h hmessage] at hcall
  refine ⟨hmessage, ?_⟩
  unfold callGraphMapper at hcall
  split at hcall
  . next graphData hgraph =>
    cases hcall
    exact ⟨rfl, hgraph⟩
  . cases hcall

/--
The message converts, and the coins select fewer pairs than the counter of the loop over them has values.
-/
def IsAcceptable (fl : FloatOps D) (payloadData : List Int) (call : Call) : Prop :=
  IsConvertible fl call.message
    ∧ ∃ g, GraphProcessor.adjacencyObjects (parametersAfter fl payloadData call.message) = .ok g
      ∧ (g.selectedPairs call.draws).length < 4294967296

theorem adjacencyObjects_parametersAfter (fl : FloatOps D) {payloadData : List Int}
    (h : HasParameters payloadData) (message : List UInt8)
    : ∃ g, GraphProcessor.adjacencyObjects (parametersAfter fl payloadData message) = .ok g := by
  apply GraphProcessor.adjacencyObjects_of_length
  rw [parametersAfter, length_overwrite]
  exact h.length_eq

theorem updatePayload_outcome_of_isConvertible (h : HasParameters server.payloadData)
    (hmessage : IsConvertible fl call.message)
    : (updatePayload fl server call).1 = .ok () ∨ (updatePayload fl server call).1 = .error .nonterminating := by
  obtain ⟨g, hg⟩ := adjacencyObjects_parametersAfter fl h call.message
  rw [updatePayload_of_isConvertible h hmessage]
  cases Nat.lt_or_ge (g.selectedPairs call.draws).length 4294967296 with
  | inl hlt =>
    obtain ⟨graphData, hgraph⟩ := (GraphProcessor.serializeGraph_eq_ok_iff call.env hg).mpr hlt
    simp only [callGraphMapper, hgraph]
    exact .inl rfl
  | inr hge =>
    have hgraph := GraphProcessor.serializeGraph_nonterminating call.env hg hge
    simp only [callGraphMapper, hgraph]
    exact .inr rfl

theorem isAcceptable_of_le {payloadData : List Int} {a b c : Int} (hmessage : IsConvertible fl call.message)
    (hpayload : parametersAfter fl payloadData call.message = [b, a, c]) (hle : b ≤ 65535)
    : IsAcceptable fl payloadData call := by
  refine ⟨hmessage, .ofDims b a c, ?_, ?_⟩
  . rw [hpayload]
    rfl
  . have hnames : (AdjacencyObjectsGenerator.ofDims b a c).overallAdjencyMatrixDimension ≤ 65535 := by
      simp only [AdjacencyObjectsGenerator.ofDims]
      split <;> omega
    have hpairs := AdjacencyObjectsGenerator.length_selectedPairs_le (.ofDims b a c) call.draws
    have hmul := Nat.mul_le_mul hnames (Nat.sub_le_sub_right hnames 1)
    exact Nat.lt_of_le_of_lt (hpairs.trans hmul) (by decide)

theorem updatePayload_eq_ok_iff (h : HasParameters server.payloadData)
    : (∃ server', updatePayload fl server call = (.ok (), server'))
        ↔
      IsAcceptable fl server.payloadData call := by
  constructor
  . rintro ⟨server', hcall⟩
    obtain ⟨hmessage, hpayload, hgraph⟩ := updatePayload_eq_ok h hcall
    obtain ⟨g, hg⟩ := adjacencyObjects_parametersAfter fl h call.message
    refine ⟨hmessage, g, hg, ?_⟩
    rw [hpayload] at hgraph
    exact (GraphProcessor.serializeGraph_eq_ok_iff call.env hg).mp ⟨_, hgraph⟩
  . rintro ⟨hmessage, g, hg, hpairs⟩
    obtain ⟨graphData, hgraph⟩ := (GraphProcessor.serializeGraph_eq_ok_iff call.env hg).mpr hpairs
    rw [updatePayload_of_isConvertible h hmessage]
    simp only [callGraphMapper, hgraph]
    exact ⟨_, rfl⟩

theorem updatePayload_of_le (h : HasParameters server.payloadData) {a b c : Int}
    (hmessage : IsConvertible fl call.message)
    (hpayload : parametersAfter fl server.payloadData call.message = [b, a, c]) (hle : b ≤ 65535)
    : ∃ server', updatePayload fl server call = (.ok (), server') ∧ server'.payloadData = [b, a, c] := by
  obtain ⟨server', hcall⟩ := (updatePayload_eq_ok_iff h).mpr (isAcceptable_of_le hmessage hpayload hle)
  obtain ⟨-, hserver', -⟩ := updatePayload_eq_ok h hcall
  exact ⟨server', hcall, hserver'.trans hpayload⟩

end

/--
The states of a server whose callers catch what `update_payload` throws
-/
def History (fl : FloatOps D) (calls : List Call) (server : WSServer) : Prop :=
  Lts.Run (step fl) (fun _ _ => True) new calls server

theorem eq_of_step {server server' : WSServer} {call : Call} (h : step fl server call = some server')
    : server' = (updatePayload fl server call).2 := by
  unfold step at h
  split at h
  . next hcall =>
    rw [hcall]
    exact (Option.some.inj h).symm
  . next hcall =>
    rw [hcall]
    split at h
    . exact (Option.some.inj h).symm
    . contradiction

theorem hasParameters_new : HasParameters new.payloadData := by
  constructor
  . rfl
  . decide

theorem History.hasParameters {calls : List Call} {server : WSServer} (h : History fl calls server)
    : HasParameters server.payloadData := by
  apply Lts.Run.invariant (fun server => HasParameters server.payloadData) ?_ h hasParameters_new
  intro server call server' _ hserver hstep
  rw [eq_of_step hstep]
  exact hasParameters_updatePayload fl hserver call

end WSServer
