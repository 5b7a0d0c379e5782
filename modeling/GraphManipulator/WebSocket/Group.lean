import GraphManipulator.WebSocket.Calls

/-!
This module contains that the sockets of a group, which share a buffer and whatever the handlers reach, do not come
in each other's way: any interleaving of the chunks of their streams is an interleaving of the messages in them.
-/

namespace WebSocketProtocol

open FrameStream

section

variable {σ : Type} (h : Handlers σ)

def Handlers.apply (s : σ) (call : HandlerCall) : σ :=
  match call with
  | .message opCode data => h.messageHandler opCode data s
  | .ping data => h.pingHandler data s
  | .pong data => h.pongHandler data s
  | .send message opCode => h.send message opCode s
  | .close code message => h.close code message s
  | .terminate => h.terminate s

def Handlers.applyAll (calls : List HandlerCall) (s : σ) : σ := calls.foldl h.apply s

theorem applyAll_logged (calls : List HandlerCall) (s : σ × List HandlerCall)
    : (h.logged.applyAll calls s).2 = s.2 ++ calls := by
  induction calls generalizing s with
  | nil => exact (List.append_nil _).symm
  | cons call calls ih =>
    have hcall : (h.logged.apply s call).2 = s.2 ++ [call] := by cases call <;> rfl
    have happly : h.logged.applyAll (call :: calls) s = h.logged.applyAll calls (h.logged.apply s call) := rfl
    rw [happly, ih, hcall, List.append_assoc]
    rfl

def callsFor (data : List UInt8) (opCode : OpCode) : List HandlerCall :=
  match opCode with
  | .text => if isValidUtf8 data then [.message .text data] else [.terminate]
  | .binary => [.message .binary data]
  | .close => [.close (parseClosePayload data).1 (parseClosePayload data).2]
  | .ping => [.send data .pong, .ping data]
  | .pong => [.pong data]

/--
Whether the socket is over with the message, whatever the handlers do
-/
def isLast (data : List UInt8) (opCode : OpCode) : Bool :=
  match opCode with
  | .text => !isValidUtf8 data
  | .close => true
  | _ => false

theorem deliver_eq_applyAll (data : List UInt8) (opCode : OpCode) (s : σ)
    : (deliver h data opCode s).2 = h.applyAll (callsFor data opCode) s := by
  cases opCode with
  | text =>
    simp only [deliver, callsFor]
    split <;> rfl
  | _ => rfl

theorem isOver_of_isLast {data : List UInt8} {opCode : OpCode} (hlast : isLast data opCode = true) (s : σ)
    : (deliver h data opCode s).1 = true := by
  cases opCode with
  | text =>
    have hinvalid : isValidUtf8 data = false := by simpa [isLast] using hlast
    simp only [deliver, hinvalid, Bool.false_eq_true, if_false]
  | close => rfl
  | _ => cases hlast

abbrev recorder (maxPayload : UInt32) : Handlers (Bool × List HandlerCall) := (endpoint maxPayload).logged

theorem deliver_recorder (maxPayload : UInt32) (data : List UInt8) (opCode : OpCode) (log : List HandlerCall)
    : deliver (recorder maxPayload) data opCode (false, log)
        =
      (isLast data opCode, (isLast data opCode, log ++ callsFor data opCode)) := by
  cases opCode with
  | text =>
    simp only [deliver, isLast, callsFor]
    split
    . next hvalid =>
      rw [hvalid]
      rfl
    . next hinvalid =>
      rw [Bool.eq_false_iff.mpr hinvalid]
      rfl
  | ping =>
    simp [deliver, isLast, callsFor, Handlers.logged, endpoint, Handlers.isOver]
  | _ => rfl

end

end WebSocketProtocol

namespace FrameStream

open WebSocketProtocol

variable {σ τ : Type}

def logOf (p : Incremental.Progress UInt8 (Assembler (τ × List HandlerCall)) (τ × List HandlerCall))
    : List HandlerCall :=
  match p with
  | .waiting _ a => a.socket.2
  | .finished s => s.2

section

variable {h : Handlers σ} {isServer : Bool}

/--
`res` is what comes of a frame, and `rec` what the recorder makes of it: it gets the calls that the handlers get,
and goes on if the socket does.
-/
def Records (h : Handlers σ) (s : σ) (log : List HandlerCall) (res : σ ⊕ Assembler σ)
    (rec : (Bool × List HandlerCall) ⊕ Assembler (Bool × List HandlerCall)) : Prop :=
  ∃ calls,
    match res with
    | .inl s' => s' = h.applyAll calls s
        ∧ ((∃ ended, rec = .inl (ended, log ++ calls)) ∨ ∃ a, rec = .inr a ∧ a.socket = (false, log ++ calls))
    | .inr a => a.socket = h.applyAll calls s ∧ rec = .inr (a.withSocket (false, log ++ calls))

theorem settle_records (data : List UInt8) (opCode : OpCode) (s : σ) (log : List HandlerCall) (a : Assembler σ)
    : Records h s log (settle (deliver h data opCode s) a)
        (settle (deliver (recorder h.maxPayload) data opCode (false, log)) (a.withSocket (false, log))) := by
  refine ⟨callsFor data opCode, ?_⟩
  have hsocket := deliver_eq_applyAll h data opCode s
  rw [deliver_recorder, settle, settle]
  cases hover : (deliver h data opCode s).1 with
  | true =>
    refine ⟨hsocket, ?_⟩
    cases isLast data opCode with
    | true => exact .inl ⟨true, rfl⟩
    | false => exact .inr ⟨_, rfl, rfl⟩
  | false =>
    have hgoesOn : isLast data opCode = false := by
      rw [← Bool.not_eq_true]
      intro hlast
      rw [isOver_of_isLast h hlast] at hover
      cases hover
    rw [hgoesOn]
    exact ⟨hsocket, rfl⟩

theorem handleFrame_records (a : Assembler σ) (payload : List UInt8) (fin : Bool) (log : List HandlerCall)
    : Records h a.socket log (a.handleFrame h payload fin)
        ((a.withSocket (false, log)).handleFrame (recorder h.maxPayload) payload fin) := by
  have hnone : Records h a.socket log (.inr a) (.inr (a.withSocket (false, log))) :=
    ⟨[], rfl, by rw [List.append_nil]⟩
  cases hopened : a.opened with
  | nil =>
    have hsame : (a.withSocket (false, log)).opened = [] := hopened
    simp only [Assembler.handleFrame, hopened, hsame]
    exact hnone
  | cons opCode opened =>
    have hsame : (a.withSocket (false, log)).opened = opCode :: opened := hopened
    simp only [Assembler.handleFrame, hopened, hsame]
    split
    . cases fin with
      | true => exact settle_records _ _ _ _ { a.closeMessage with message := [] }
      | false => exact ⟨[], rfl, by rw [List.append_nil]; rfl⟩
    . exact settle_records _ _ _ _ a.closeMessage

/--
The same for a step: the recorder may go on where the handlers have ended the socket.
-/
def StepRecords (h : Handlers σ) (s : σ) (log : List HandlerCall) (res : Incremental.Step UInt8 (Assembler σ) σ)
    (rec : Incremental.Step UInt8 (Assembler (Bool × List HandlerCall)) (Bool × List HandlerCall)) : Prop :=
  match res with
  | .wait => rec = .wait
  | .finish s' => ∃ calls, s' = h.applyAll calls s
      ∧ ((∃ ended, rec = .finish (ended, log ++ calls))
        ∨ ∃ a rest, rec = .next a rest ∧ a.socket = (false, log ++ calls))
  | .next a rest => ∃ calls, a.socket = h.applyAll calls s ∧ rec = .next (a.withSocket (false, log ++ calls)) rest

theorem step_records (h : Handlers σ) (isServer : Bool) (bytes : List UInt8) (a : Assembler σ)
    (log : List HandlerCall)
    : StepRecords h a.socket log (step h isServer bytes a)
        (step (recorder h.maxPayload) isServer bytes (a.withSocket (false, log))) := by
  have hterminated : StepRecords h a.socket log (.finish (h.terminate a.socket))
      (.finish ((recorder h.maxPayload).terminate (false, log))) :=
    ⟨[.terminate], rfl, .inl ⟨true, rfl⟩⟩
  unfold step
  cases nextHead isServer bytes with
  | short => rfl
  | invalid => exact hterminated
  | head head =>
    dsimp only
    rw [enterFrame_withSocket]
    cases henter : a.enterFrame head.opCode head.fin with
    | none => exact hterminated
    | some entered =>
      have hrefused : refusePayloadLength (recorder h.maxPayload) head.payLength
          = refusePayloadLength h head.payLength := rfl
      dsimp only [Option.map_some]
      rw [hrefused]
      by_cases hlength : refusePayloadLength h head.payLength = true
      . rw [if_pos hlength, if_pos hlength]
        exact hterminated
      . rw [if_neg hlength, if_neg hlength]
        by_cases hwhole : bytes.length < head.messageHeader + head.payLength
        . rw [if_pos hwhole, if_pos hwhole]
          rfl
        . rw [if_neg hwhole, if_neg hwhole]
          obtain ⟨calls, hrecords⟩ := handleFrame_records (h := h) entered
            (head.mask.unmask ((bytes.drop head.messageHeader).take head.payLength)) head.fin log
          generalize head.mask.unmask _ = payload at hrecords
          rw [socket_of_enterFrame henter] at hrecords
          cases hframe : entered.handleFrame h payload head.fin with
          | inl s' =>
            rw [hframe] at hrecords
            obtain ⟨hs', ⟨ended, hrec⟩ | ⟨a', hrec, ha'⟩⟩ := hrecords
            . exact ⟨calls, hs', .inl ⟨ended, by rw [hrec]⟩⟩
            . exact ⟨calls, hs', .inr ⟨a', _, by rw [hrec], ha'⟩⟩
          | inr a' =>
            rw [hframe] at hrecords
            obtain ⟨ha', hrec⟩ := hrecords
            exact ⟨calls, ha', by rw [hrec]⟩

theorem log_prefix (isServer : Bool) (maxPayload : UInt32) (bytes : List UInt8)
    (a : Assembler (Bool × List HandlerCall))
    : a.socket.2 <+: logOf ((frames (recorder maxPayload) isServer).decode bytes a) := by
  have happly : ∀ {calls : List HandlerCall} {s s' : Bool × List HandlerCall},
      s' = (recorder maxPayload).applyAll calls s → a.socket.2 <+: s.2 → a.socket.2 <+: s'.2 := by
    rintro calls s s' rfl hs
    rw [applyAll_logged]
    exact hs.trans (List.prefix_append _ _)
  have hdecode := (frames (recorder maxPayload) isServer).decode_invariant
    (P := fun a' => a.socket.2 <+: a'.socket.2) (Q := fun s => a.socket.2 <+: s.2) ?_ ?_ bytes (List.prefix_refl _)
  . generalize (frames (recorder maxPayload) isServer).decode bytes a = p at hdecode
    cases p with
    | waiting pending a' => exact hdecode
    | finished s => exact hdecode
  . intro bytes a₁ a₂ rest ha₁ hstep
    have hrecords := step_records (recorder maxPayload) isServer bytes a₁ []
    rw [show step (recorder maxPayload) isServer bytes a₁ = _ from hstep] at hrecords
    obtain ⟨calls, ha₂, -⟩ := hrecords
    exact happly ha₂ ha₁
  . intro bytes a₁ s ha₁ hstep
    have hrecords := step_records (recorder maxPayload) isServer bytes a₁ []
    rw [show step (recorder maxPayload) isServer bytes a₁ = _ from hstep] at hrecords
    obtain ⟨calls, hs, -⟩ := hrecords
    exact happly hs ha₁

theorem decode_records (h : Handlers σ) (isServer : Bool) (bytes : List UInt8) (a : Assembler σ)
    (log : List HandlerCall)
    : ∃ calls,
        match (frames h isServer).decode bytes a with
        | .waiting pending a' => a'.socket = h.applyAll calls a.socket
            ∧ (frames (recorder h.maxPayload) isServer).decode bytes (a.withSocket (false, log))
              = .waiting pending (a'.withSocket (false, log ++ calls))
        | .finished s => s = h.applyAll calls a.socket
            ∧ log ++ calls
              <+: logOf ((frames (recorder h.maxPayload) isServer).decode bytes (a.withSocket (false, log))) := by
  induction bytes, a using Incremental.decode.induct (frames h isServer) generalizing log with
  | case1 bytes a hstep =>
    have hrecords := step_records h isServer bytes a log
    rw [show step h isServer bytes a = .wait from hstep] at hrecords
    have hrec : (frames (recorder h.maxPayload) isServer).step bytes (a.withSocket (false, log)) = .wait :=
      hrecords
    refine ⟨[], ?_⟩
    rw [Incremental.decode_of_wait _ hstep, Incremental.decode_of_wait _ hrec]
    exact ⟨rfl, by rw [List.append_nil]⟩
  | case2 bytes a s hstep =>
    have hrecords := step_records h isServer bytes a log
    rw [show step h isServer bytes a = .finish s from hstep] at hrecords
    obtain ⟨calls, hs, ⟨ended, hrec⟩ | ⟨a', rest, hrec, ha'⟩⟩ := hrecords
    . refine ⟨calls, ?_⟩
      rw [Incremental.decode_of_finish _ hstep, Incremental.decode_of_finish _ hrec]
      exact ⟨hs, List.prefix_refl _⟩
    . refine ⟨calls, ?_⟩
      rw [Incremental.decode_of_finish _ hstep, Incremental.decode_of_next _ hrec]
      refine ⟨hs, ?_⟩
      have hbegins := log_prefix isServer h.maxPayload rest a'
      rwa [ha'] at hbegins
  | case3 bytes a a' rest hstep ih =>
    have hrecords := step_records h isServer bytes a log
    rw [show step h isServer bytes a = .next a' rest from hstep] at hrecords
    obtain ⟨calls, ha', hrec⟩ := hrecords
    obtain ⟨calls', hrest⟩ := ih (log ++ calls)
    refine ⟨calls ++ calls', ?_⟩
    rw [Incremental.decode_of_next _ hstep,
      Incremental.decode_of_next (frames (recorder h.maxPayload) isServer) hrec]
    rw [ha'] at hrest
    simp only [Handlers.applyAll, List.foldl_append, ← List.append_assoc] at hrest ⊢
    exact hrest

end

end FrameStream

namespace WebSocketProtocol

open FrameStream

section

variable {σ τ : Type}

def Receiver.withSocket (r : Receiver σ) (s : τ) : Receiver τ := { r with socket := s }

/--
A socket that goes on does not depend on what its handlers reach.
-/
theorem Refines.withSocket {h : Handlers σ} {isServer : Bool} {r : Receiver σ} {pending : List UInt8}
    {a : Assembler σ} (hrefines : Refines h isServer r (.waiting pending a)) {s : σ} (hlive : h.isOver s = false)
    : Refines h isServer (r.withSocket s) (.waiting pending (a.withSocket s)) := by
  have hassembled : ∀ {a : Assembler σ} {part},
      Assembled r a part → Assembled (r.withSocket s) (a.withSocket s) part :=
    fun h => ⟨rfl, h.fragmentBuffer, h.disabled, h.controlTipLength⟩
  have hnested : ∀ {a : Assembler σ}, Nested r.state a → Nested (r.withSocket s).state (a.withSocket s) :=
    fun h => ⟨h.opStack, h.holds, h.lastFin⟩
  cases hrefines with
  | atHead hat hspill =>
    exact .atHead (r := r.withSocket s) ⟨hat.wantsHead, hnested hat.nested, hassembled hat.assembled,
      hat.opensData, hlive⟩ hspill
  | inPayload entered head hin =>
    refine .inPayload (entered.withSocket s) head ⟨hin.nextHead_eq, ?_, hin.accepted, hin.wantsHead, hin.spill,
      hnested hin.nested, hin.remaining, hin.pos, hin.mask, hassembled hin.assembled, hin.opensData, hlive⟩
    rw [enterFrame_withSocket, hin.enterFrame_eq]
    rfl

end

/--
The handlers of the sockets of a group, on the state that all of them reach. A socket that is over stays so.
-/
structure Members (S : Type) where
  handlers : Nat → Handlers S
  isOver_apply : ∀ {i : Nat} (j : Nat) (call : HandlerCall) {s : S}, (handlers i).isOver s = true
    → (handlers i).isOver ((handlers j).apply s call) = true

structure Group (S : Type) where
  recvBuffer : Memory UInt8
  shared : S
  receivers : Nat → Receiver Unit := fun _ => { socket := () }

section

variable {S : Type} (members : Members S) (isServer : Bool)

def Group.receive (g : Group S) (arrival : Nat × List UInt8) : Group S :=
  let (i, bytes) := arrival
  let res := WebSocketProtocol.receive (members.handlers i) isServer g.recvBuffer bytes
    ((g.receivers i).withSocket g.shared)
  { recvBuffer := res.1
    shared := res.2.socket
    receivers := Function.update g.receivers i (res.2.withSocket ()) }

def Group.receiveAll (arrivals : List (Nat × List UInt8)) (g : Group S) : Group S :=
  arrivals.foldl (Group.receive members isServer) g

def streamOf (i : Nat) (arrivals : List (Nat × List UInt8)) : List UInt8 :=
  ((arrivals.filter (fun arrival => arrival.1 = i)).map Prod.snd).flatten

def callsOf (i : Nat) (schedule : List (Nat × HandlerCall)) : List HandlerCall :=
  (schedule.filter (fun call => call.1 = i)).map Prod.snd

def Members.run (schedule : List (Nat × HandlerCall)) (s : S) : S :=
  schedule.foldl (fun s call => (members.handlers call.1).apply s call.2) s

def recorded (i : Nat) (bytes : List UInt8) : List HandlerCall :=
  (streamed (recorder (members.handlers i).maxPayload) isServer bytes (false, [])).2

theorem recorded_eq (i : Nat) (bytes : List UInt8)
    : recorded members isServer i bytes
        =
      logOf ((frames (recorder (members.handlers i).maxPayload) isServer).decode bytes
        { socket := (false, []) }) := by
  have hlive : (recorder (members.handlers i).maxPayload).isOver (false, []) = false := rfl
  simp only [recorded, streamed, hlive, Bool.false_eq_true, if_false]
  split
  . next hdecode => rw [hdecode, logOf]
  . next hdecode => rw [hdecode, logOf]

theorem recorded_append (i : Nat) (bytes more : List UInt8)
    : recorded members isServer i bytes <+: recorded members isServer i (bytes ++ more) := by
  rw [recorded_eq, recorded_eq, Incremental.decode_append]
  cases (frames (recorder (members.handlers i).maxPayload) isServer).decode bytes { socket := (false, []) } with
  | waiting pending a => exact log_prefix _ _ _ _
  | finished s => exact List.prefix_refl _

/--
Socket `i` has made of `stream` the calls that are in the schedule, unless it was over before.
-/
def IsServed (g : Group S) (schedule : List (Nat × HandlerCall)) (i : Nat) (stream : List UInt8) : Prop :=
  ((members.handlers i).isOver g.shared = true ∧ callsOf i schedule <+: recorded members isServer i stream)
    ∨ ∃ (pending : List UInt8) (a : Assembler Unit),
      Refines (members.handlers i) isServer ((g.receivers i).withSocket g.shared)
          (.waiting pending (a.withSocket g.shared))
        ∧ (frames (recorder (members.handlers i).maxPayload) isServer).decode stream { socket := (false, []) }
          = .waiting pending (a.withSocket (false, callsOf i schedule))

variable {members isServer} {g : Group S} {schedule : List (Nat × HandlerCall)} {i j : Nat} {stream : List UInt8}

theorem isOver_applyAll (calls : List HandlerCall) {s : S} (hover : (members.handlers i).isOver s = true)
    : (members.handlers i).isOver ((members.handlers j).applyAll calls s) = true := by
  induction calls generalizing s with
  | nil => exact hover
  | cons call calls ih => exact ih (members.isOver_apply j call hover)

theorem callsOf_append_self (schedule : List (Nat × HandlerCall)) (i : Nat) (calls : List HandlerCall)
    : callsOf i (schedule ++ calls.map (fun call => (i, call))) = callsOf i schedule ++ calls := by
  have hcalls : (calls.map (fun call => (i, call))).filter (fun call => decide (call.1 = i))
      = calls.map (fun call => (i, call)) := by
    rw [List.filter_eq_self]
    simp
  rw [callsOf, List.filter_append, List.map_append, hcalls, List.map_map]
  exact congrArg _ (List.map_id _)

theorem callsOf_append_of_ne (schedule : List (Nat × HandlerCall)) (hne : j ≠ i) (calls : List HandlerCall)
    : callsOf j (schedule ++ calls.map (fun call => (i, call))) = callsOf j schedule := by
  have hcalls : (calls.map (fun call => (i, call))).filter (fun call => decide (call.1 = j)) = [] := by
    rw [List.filter_eq_nil_iff]
    intro call hcall
    obtain ⟨c, -, rfl⟩ := List.mem_map.mp hcall
    simpa using hne.symm
  rw [callsOf, List.filter_append, hcalls, List.append_nil]
  rfl

theorem run_append (schedule : List (Nat × HandlerCall)) (i : Nat) (calls : List HandlerCall) (s : S)
    : members.run (schedule ++ calls.map (fun call => (i, call))) s
        =
      (members.handlers i).applyAll calls (members.run schedule s) := by
  rw [Members.run, List.foldl_append, List.foldl_map]
  rfl

theorem IsServed.of_other (hserved : IsServed members isServer g schedule i stream) (hne : i ≠ j) {g' : Group S}
    (hreceiver : g'.receivers i = g.receivers i) {calls : List HandlerCall}
    (hshared : g'.shared = (members.handlers j).applyAll calls g.shared)
    : IsServed members isServer g' (schedule ++ calls.map (fun call => (j, call))) i stream := by
  rw [IsServed, callsOf_append_of_ne schedule hne, hreceiver, hshared]
  obtain ⟨hover, hbegins⟩ | ⟨pending, a, hrefines, hdecode⟩ := hserved
  . exact .inl ⟨isOver_applyAll calls hover, hbegins⟩
  . cases hover : (members.handlers i).isOver ((members.handlers j).applyAll calls g.shared) with
    | true =>
      refine .inl ⟨rfl, ?_⟩
      rw [recorded_eq, hdecode]
      exact List.prefix_refl _
    | false => exact .inr ⟨pending, a, hrefines.withSocket hover, hdecode⟩

theorem IsServed.receive (hserved : IsServed members isServer g schedule i stream) (bytes : List UInt8)
    : ∃ calls, (g.receive members isServer (i, bytes)).shared = (members.handlers i).applyAll calls g.shared
        ∧ IsServed members isServer (g.receive members isServer (i, bytes))
          (schedule ++ calls.map (fun call => (i, call))) i (stream ++ bytes) := by
  have hself : ((g.receive members isServer (i, bytes)).receivers i).withSocket
        (g.receive members isServer (i, bytes)).shared
      = (WebSocketProtocol.receive (members.handlers i) isServer g.recvBuffer bytes
        ((g.receivers i).withSocket g.shared)).2 := by
    simp only [Group.receive, Function.update_self]
    rfl
  have hshared : (g.receive members isServer (i, bytes)).shared
      = (WebSocketProtocol.receive (members.handlers i) isServer g.recvBuffer bytes
        ((g.receivers i).withSocket g.shared)).2.socket := rfl
  obtain ⟨hover, hbegins⟩ | ⟨pending, a, hrefines, hdecode⟩ := hserved
  . have hsame := @receive_of_over _ _ isServer ((g.receivers i).withSocket g.shared) hover g.recvBuffer bytes
    refine ⟨[], ?_, .inl ⟨?_, ?_⟩⟩
    . rw [hshared, hsame]
      rfl
    . rw [hshared, hsame]
      exact hover
    . rw [callsOf_append_self, List.append_nil]
      exact hbegins.trans (recorded_append members isServer i stream bytes)
  . have hreceive := receive_refines hrefines g.recvBuffer bytes
    rw [← hself] at hreceive
    obtain ⟨calls, hrecords⟩ := decode_records (members.handlers i) isServer (pending ++ bytes)
      (a.withSocket g.shared) (callsOf i schedule)
    have hrecorder : (frames (recorder (members.handlers i).maxPayload) isServer).decode (stream ++ bytes)
          { socket := (false, []) }
        = (frames (recorder (members.handlers i).maxPayload) isServer).decode (pending ++ bytes)
          (a.withSocket (false, callsOf i schedule)) := by
      rw [Incremental.decode_append, hdecode]
      rfl
    refine ⟨calls, ?_⟩
    rw [IsServed, callsOf_append_self, recorded_eq, hrecorder]
    generalize g.receive members isServer (i, bytes) = g' at hreceive
    rw [Incremental.Progress.absorb] at hreceive
    cases hprogress : (frames (members.handlers i) isServer).decode (pending ++ bytes) (a.withSocket g.shared) with
    | waiting pending' a' =>
      rw [hprogress] at hreceive hrecords
      obtain ⟨hcalls, hlog⟩ := hrecords
      have hsocket : g'.shared = a'.socket := hreceive.live.1
      refine ⟨hsocket.trans hcalls, .inr ⟨pending', a'.withSocket (), ?_, hlog⟩⟩
      have hsame : (a'.withSocket ()).withSocket g'.shared = a' := by
        rw [hsocket]
        rfl
      rw [hsame]
      exact hreceive
    | finished s' =>
      rw [hprogress] at hreceive hrecords
      obtain ⟨hcalls, hlog⟩ := hrecords
      cases hreceive with
      | ended hover => exact ⟨hcalls, .inl ⟨hover, hlog⟩⟩

theorem isServed_start (mem : Memory UInt8) (s : S) (i : Nat)
    : IsServed members isServer { recvBuffer := mem, shared := s } [] i [] := by
  cases hover : (members.handlers i).isOver s with
  | true => exact .inl ⟨hover, List.nil_prefix⟩
  | false =>
    refine .inr ⟨[], { socket := () }, refines_start hover, ?_⟩
    exact Incremental.decode_of_wait _ rfl

theorem streamOf_append (i j : Nat) (arrivals : List (Nat × List UInt8)) (bytes : List UInt8)
    : streamOf i (arrivals ++ [(j, bytes)]) = streamOf i arrivals ++ (if j = i then bytes else []) := by
  rw [streamOf, List.filter_append, List.map_append, List.flatten_append, streamOf]
  congr 1
  by_cases hj : j = i
  . simp [hj]
  . simp [hj]

theorem exists_schedule (members : Members S) (isServer : Bool) (arrivals : List (Nat × List UInt8))
    (mem : Memory UInt8) (s : S)
    : ∃ schedule,
        (Group.receiveAll members isServer arrivals { recvBuffer := mem, shared := s }).shared
            = members.run schedule s
          ∧ ∀ i, IsServed members isServer
            (Group.receiveAll members isServer arrivals { recvBuffer := mem, shared := s }) schedule i
            (streamOf i arrivals) := by
  induction arrivals using List.reverseRecOn with
  | nil => exact ⟨[], rfl, isServed_start mem s⟩
  | append_singleton arrivals arrival ih =>
    obtain ⟨schedule, hrun, hserved⟩ := ih
    obtain ⟨i, bytes⟩ := arrival
    have hlast : Group.receiveAll members isServer (arrivals ++ [(i, bytes)]) { recvBuffer := mem, shared := s }
        = (Group.receiveAll members isServer arrivals { recvBuffer := mem, shared := s }).receive members isServer
          (i, bytes) := by
      rw [Group.receiveAll, List.foldl_append]
      rfl
    rw [hlast]
    generalize Group.receiveAll members isServer arrivals _ = g at hrun hserved
    obtain ⟨calls, hshared, hself⟩ := (hserved i).receive bytes
    refine ⟨schedule ++ calls.map (fun call => (i, call)), ?_, ?_⟩
    . rw [hshared, hrun, run_append]
    . intro j
      rw [streamOf_append]
      by_cases hj : i = j
      . subst hj
        rw [if_pos rfl]
        exact hself
      . rw [if_neg hj, List.append_nil]
        refine (hserved j).of_other (Ne.symm hj) ?_ hshared
        simp only [Group.receive]
        exact Function.update_of_ne (Ne.symm hj) _ _

theorem IsServed.calls {g : Group S} {schedule : List (Nat × HandlerCall)} {i : Nat} {bytes : List UInt8}
    (h : IsServed members isServer g schedule i bytes)
    : callsOf i schedule <+: recorded members isServer i bytes
      ∧ ((members.handlers i).isOver g.shared = false
        → callsOf i schedule = recorded members isServer i bytes) := by
  obtain ⟨hover, hbegins⟩ | ⟨pending, a, -, hdecode⟩ := h
  . refine ⟨hbegins, ?_⟩
    intro hlive
    rw [hover] at hlive
    cases hlive
  . have hcalls : callsOf i schedule = recorded members isServer i bytes := by
      rw [recorded_eq, hdecode]
      rfl
    exact ⟨hcalls ▸ List.prefix_refl _, fun _ => hcalls⟩

/--
The sockets of a group get the calls that each of them gets for its own stream, in some order, unless a socket is
over before.
-/
theorem group_receiveAll (members : Members S) (isServer : Bool) (arrivals : List (Nat × List UInt8))
    (mem : Memory UInt8) (s : S)
    : ∃ schedule,
        (Group.receiveAll members isServer arrivals { recvBuffer := mem, shared := s }).shared
            = members.run schedule s
          ∧ ∀ i, callsOf i schedule <+: recorded members isServer i (streamOf i arrivals)
            ∧ ((members.handlers i).isOver (members.run schedule s) = false
              → callsOf i schedule = recorded members isServer i (streamOf i arrivals)) := by
  obtain ⟨schedule, hshared, hserved⟩ := exists_schedule members isServer arrivals mem s
  refine ⟨schedule, hshared, ?_⟩
  intro i
  rw [← hshared]
  exact (hserved i).calls

end

end WebSocketProtocol
