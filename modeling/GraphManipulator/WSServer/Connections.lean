import GraphManipulator.GraphMapper.Representation
import GraphManipulator.WSServer.Impl
import GraphManipulator.WebSocket.Delivery
import GraphManipulator.WebSocket.Group
import GraphManipulator.WebSocket.Lemmas

/-!
This module contains the service over its connections: the bytes that clients send, in whatever chunks and in
whatever order they arrive, come to messages that are handled one after the other.
-/

open WebSocketProtocol FrameStream

namespace Hub

variable {D : Type}

structure Service where
  hub : Hub := {}
  fault : Option Fault := none

abbrev Answers := Nat → Draws × MapperEnv

def delivery (answers : Answers) (hub : Hub) (sender : Nat) (opCode : OpCode) (data : List UInt8) : Delivery where
  message := data
  draws := (answers hub.sent.length).1
  env := (answers hub.sent.length).2
  sender := sender
  opCode := opCode

/--
The handlers of the service for the socket of one client. An exception ends the service, and so does the end of a
socket, of which the handler never returns.
-/
def handlers (fl : FloatOps D) (answers : Answers) (client : Nat) : Handlers Service where
  maxPayload := 16777216
  inflate _ := none
  messageHandler opCode data s :=
    match s.fault with
    | some _ => s
    | none =>
      match s.hub.onMessage fl (delivery answers s.hub client opCode data) with
      | (.ok (), hub) => { s with hub := hub }
      | (.error e, hub) => { hub := hub, fault := some e }
  pingHandler _ s := s
  pongHandler _ s := s
  send _ _ s := s
  close _ _ s := { s with fault := some .nonterminating }
  terminate s := { s with fault := some .nonterminating }
  isClosed s := s.fault.isSome
  isShuttingDown _ := false
  close_isOver _ _ _ := rfl
  terminate_isOver _ := rfl

/--
The fault for the end of a socket is what the handler of the server does: no bound on its nested calls is enough.
-/
theorem close_unfinished (depth : Nat) (code : Nat) (message : List UInt8) (c : Connection)
    : ∃ c', Connection.close (Connection.groupHandler depth) code message c = .unfinished c' := by
  obtain ⟨c', hcall, -⟩ := Connection.groupHandler_unfinished depth code
    (message.take Connection.maxClosePayload) c.removeWebSocket
  refine ⟨c', ?_⟩
  simp only [Connection.close, hcall]

def members (fl : FloatOps D) (answers : Answers) : Members Service where
  handlers := handlers fl answers
  isOver_apply := by
    intro i j call s hover
    cases hfault : s.fault with
    | none => simp [Handlers.isOver, handlers, hfault] at hover
    | some e => cases call <;> simp [Handlers.isOver, handlers, Handlers.apply, hfault]

def messagesIn (calls : List HandlerCall) : List (OpCode × List UInt8) :=
  calls.filterMap fun call =>
    match call with
    | .message opCode data => some (opCode, data)
    | _ => none

def messagesFrom (client : Nat) (deliveries : List Delivery) : List (OpCode × List UInt8) :=
  (deliveries.filter (fun delivery => delivery.sender = client)).map
    (fun delivery => (delivery.opCode, delivery.message))

section

variable {fl : FloatOps D} {answers : Answers}

theorem run_concat {hub hub' : Hub} {deliveries : List Delivery} (h : run fl hub deliveries = (.ok (), hub'))
    (delivery : Delivery)
    : run fl hub (deliveries ++ [delivery]) = onMessage fl hub' delivery := by
  induction deliveries generalizing hub with
  | nil =>
    obtain rfl : hub = hub' := congrArg Prod.snd h
    rw [List.nil_append, run]
    generalize onMessage fl hub delivery = res
    obtain ⟨_ | _, hub''⟩ := res <;> rfl
  | cons first deliveries ih =>
    rw [List.cons_append, run]
    rw [run] at h
    generalize onMessage fl hub first = res at h
    obtain ⟨_ | _, hub''⟩ := res
    . cases h
    . exact ih h

/--
The hub is where it is after the deliveries one by one, and they have ended as the service has.
-/
structure IsRun (fl : FloatOps D) (s : Service) (deliveries : List Delivery) : Prop where
  hub : (run fl {} deliveries).2 = s.hub
  ok : s.fault = none → (run fl {} deliveries).1 = .ok ()

theorem messagesIn_append (calls calls' : List HandlerCall)
    : messagesIn (calls ++ calls') = messagesIn calls ++ messagesIn calls' :=
  List.filterMap_append

theorem messagesFrom_concat (client : Nat) (deliveries : List Delivery) (delivery : Delivery)
    : messagesFrom client (deliveries ++ [delivery])
        =
      messagesFrom client deliveries
        ++ (if delivery.sender = client then [(delivery.opCode, delivery.message)] else []) := by
  rw [messagesFrom, List.filter_append, List.map_append, messagesFrom]
  congr 1
  by_cases hsender : delivery.sender = client
  . simp [hsender]
  . simp [hsender]

theorem callsOf_concat (client : Nat) (schedule : List (Nat × HandlerCall)) (i : Nat) (call : HandlerCall)
    : callsOf client (schedule ++ [(i, call)])
        =
      callsOf client schedule ++ (if i = client then [call] else []) := by
  rw [callsOf, List.filter_append, List.map_append, callsOf]
  congr 1
  by_cases hi : i = client
  . simp [hi]
  . simp [hi]

theorem apply_cases (fl : FloatOps D) (answers : Answers) (i : Nat) (call : HandlerCall) {s : Service}
    (hlive : s.fault = none) {deliveries : List Delivery} (hrun : IsRun fl s deliveries)
    : ∃ deliveries', IsRun fl (((members fl answers).handlers i).apply s call) deliveries'
        ∧ ∀ client, messagesFrom client deliveries'
            = messagesFrom client deliveries ++ (if i = client then messagesIn [call] else []) := by
  have hsame : ∀ {s' : Service}, s'.hub = s.hub → messagesIn [call] = []
      → ∃ deliveries', IsRun fl s' deliveries'
        ∧ ∀ client, messagesFrom client deliveries'
            = messagesFrom client deliveries ++ (if i = client then messagesIn [call] else []) := by
    intro s' hhub hnone
    refine ⟨deliveries, ⟨hrun.hub.trans hhub.symm, fun _ => hrun.ok hlive⟩, fun client => ?_⟩
    rw [hnone, ite_self, List.append_nil]
  cases call with
  | message opCode data =>
    refine ⟨deliveries ++ [delivery answers s.hub i opCode data], ?_, fun client => ?_⟩
    . have hconcat : run fl {} (deliveries ++ [delivery answers s.hub i opCode data])
          = onMessage fl s.hub (delivery answers s.hub i opCode data) :=
        run_concat (Prod.ext (hrun.ok hlive) hrun.hub) _
      simp only [members, Handlers.apply, handlers, hlive]
      generalize onMessage fl s.hub _ = res at hconcat
      obtain ⟨e | _, hub⟩ := res
      . exact ⟨congrArg Prod.snd hconcat, by simp⟩
      . exact ⟨congrArg Prod.snd hconcat, fun _ => congrArg Prod.fst hconcat⟩
    . exact messagesFrom_concat client deliveries _
  | _ => exact hsame rfl rfl

theorem apply_of_fault (fl : FloatOps D) (answers : Answers) (i : Nat) (call : HandlerCall) {s : Service}
    {e : Fault} (hfault : s.fault = some e)
    : (((members fl answers).handlers i).apply s call).hub = s.hub
        ∧ (((members fl answers).handlers i).apply s call).fault ≠ none := by
  cases call <;> simp [members, Handlers.apply, handlers, hfault]

theorem exists_deliveries (fl : FloatOps D) (answers : Answers) (schedule : List (Nat × HandlerCall))
    : ∃ deliveries, IsRun fl ((members fl answers).run schedule {}) deliveries
        ∧ ∀ i, messagesFrom i deliveries <+: messagesIn (callsOf i schedule)
          ∧ (((members fl answers).run schedule {}).fault = none
            → messagesFrom i deliveries = messagesIn (callsOf i schedule)) := by
  induction schedule using List.reverseRecOn with
  | nil => exact ⟨[], ⟨rfl, fun _ => rfl⟩, fun i => ⟨List.prefix_refl _, fun _ => rfl⟩⟩
  | append_singleton schedule call ih =>
    obtain ⟨i, call⟩ := call
    obtain ⟨deliveries, hrun, hmessages⟩ := ih
    have hlast : (members fl answers).run (schedule ++ [(i, call)]) {}
        = ((members fl answers).handlers i).apply ((members fl answers).run schedule {}) call := by
      rw [Members.run, List.foldl_append]
      rfl
    have hcalls : ∀ client, messagesIn (callsOf client (schedule ++ [(i, call)]))
        = messagesIn (callsOf client schedule) ++ (if i = client then messagesIn [call] else []) := by
      intro client
      rw [callsOf_concat, messagesIn_append]
      split <;> rfl
    simp only [hlast, hcalls]
    generalize (members fl answers).run schedule {} = s at hrun hmessages
    cases hfault : s.fault with
    | none =>
      obtain ⟨deliveries', hrun', hmessages'⟩ := apply_cases fl answers i call hfault hrun
      refine ⟨deliveries', hrun', fun client => ?_⟩
      rw [hmessages', (hmessages client).2 hfault]
      exact ⟨List.prefix_refl _, fun _ => rfl⟩
    | some e =>
      obtain ⟨hhub, hfault'⟩ := apply_of_fault fl answers i call hfault
      refine ⟨deliveries, ⟨hrun.hub.trans hhub.symm, fun hnone => absurd hnone hfault'⟩, fun client => ?_⟩
      exact ⟨(hmessages client).1.trans (List.prefix_append _ _), fun hnone => absurd hnone hfault'⟩

end

/--
A message that a client can send: a text of characters or any bytes, up to the limit of the server
-/
structure IsSent (message : Message) : Prop where
  data : (message.opCode = .text ∧ Utf8.IsUtf8 message.data) ∨ message.opCode = .binary
  length : message.data.length ≤ 16777216

section

variable {fl : FloatOps D} {answers : Answers} {i : Nat}

theorem IsSent.fits {message : Message} (h : IsSent message)
    : message.Fits (recorder ((members fl answers).handlers i).maxPayload) := by
  refine ⟨h.length, fun hcontrol => ?_⟩
  obtain ⟨htext, -⟩ | hbinary := h.data
  . rw [htext] at hcontrol
    exact absurd (by decide) hcontrol
  . rw [hbinary] at hcontrol
    exact absurd (by decide) hcontrol

theorem IsSent.deliver {message : Message} (h : IsSent message) (maxPayload : UInt32) (log : List HandlerCall)
    : (deliver (recorder maxPayload) message.data message.opCode (false, log)).2
        =
      (false, log ++ [.message message.opCode message.data]) := by
  obtain ⟨opCode, data⟩ := message
  rw [deliver_recorder]
  obtain ⟨htext, hdata⟩ | hbinary := h.data
  . cases htext
    simp [isLast, callsFor, isValidUtf8_of_isUtf8 hdata]
  . cases hbinary
    rfl

theorem handleAll_recorder (maxPayload : UInt32) {messages : List Message} (h : ∀ m ∈ messages, IsSent m)
    (log : List HandlerCall)
    : handleAll (recorder maxPayload) messages (false, log)
        =
      (false, log ++ messages.map (fun message => .message message.opCode message.data)) := by
  induction messages generalizing log with
  | nil => rw [List.map_nil, List.append_nil, handleAll]
  | cons message messages ih =>
    rw [List.forall_mem_cons] at h
    have hlive : (recorder maxPayload).isOver (false, log) = false := rfl
    rw [handleAll, if_neg (by simp [hlive]), h.1.deliver, ih h.2, List.append_assoc]
    rfl

def messageCall (message : Message × Mask) : HandlerCall := .message message.1.opCode message.1.data

variable (fl answers i) in
theorem recorded_append_part {sent : List (Message × Mask)} (hsent : ∀ m ∈ sent, IsSent m.1) {part : List UInt8}
    (hwait : ∀ s, step (recorder ((members fl answers).handlers i).maxPayload) true part { socket := s } = .wait)
    : recorded (members fl answers) true i (sent.flatMap (encodeMessage false) ++ part)
        =
      sent.map messageCall := by
  have hmessages : ∀ m ∈ sent.map Prod.fst, IsSent m := by
    rw [List.forall_mem_map]
    exact hsent
  have hstreamed := streamed_messages false (fun m hm => (hsent m hm).fits) part hwait (false, [])
  rw [handleAll_recorder _ hmessages, List.nil_append] at hstreamed
  rw [recorded, show true = !false from rfl, hstreamed, List.map_map]
  rfl

variable (fl answers i) in
theorem recorded_of_prefix {sent : List (Message × Mask)} (hsent : ∀ m ∈ sent, IsSent m.1) {stream : List UInt8}
    (hstream : stream <+: sent.flatMap (encodeMessage false))
    : ∃ k part, k ≤ sent.length ∧ stream = (sent.take k).flatMap (encodeMessage false) ++ part
        ∧ (part = [] ∨ ∃ m, sent[k]? = some m ∧ part <+: encodeMessage false m ∧ part ≠ encodeMessage false m)
        ∧ recorded (members fl answers) true i stream = (sent.take k).map messageCall := by
  have hpadded : stream <+: sent.flatMap (encodeMessage false) ++ [] := by rwa [List.append_nil]
  obtain ⟨k, part, hk, rfl, hpart⟩ := prefix_flatMap hpadded
  rw [List.prefix_nil] at hpart
  refine ⟨k, part, hk, rfl, hpart, ?_⟩
  apply recorded_append_part fl answers i (fun m hm => hsent m (List.mem_of_mem_take hm))
  intro s
  obtain rfl | ⟨m, hm, hbegins, hne⟩ := hpart
  . rfl
  . exact step_part false (hsent m (List.mem_of_getElem? hm)).fits hbegins hne s

end

end Hub
