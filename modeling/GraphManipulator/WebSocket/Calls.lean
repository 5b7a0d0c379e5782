import GraphManipulator.WebSocket.Chunks
import GraphManipulator.WebSocket.Utf8

/-!
This module contains what the handlers of a socket are called with, whatever its peer sends.
-/

inductive HandlerCall where
  | message (opCode : OpCode) (data : List UInt8)
  | ping (data : List UInt8)
  | pong (data : List UInt8)
  | send (message : List UInt8) (opCode : OpCode)
  | close (code : Nat) (message : List UInt8)
  | terminate
  deriving DecidableEq, Repr

namespace FrameStream

variable {σ τ : Type}

def Assembler.withSocket (a : Assembler σ) (s : τ) : Assembler τ := { a with socket := s }

theorem enterFrame_withSocket (a : Assembler σ) (opCode : UInt8) (fin : Bool) (s : τ)
    : (a.withSocket s).enterFrame opCode fin = (a.enterFrame opCode fin).map (fun a => a.withSocket s) := by
  by_cases hcode : opCode ≠ 0
  . by_cases hfull : a.opened.length = 2 ∨ (a.lastFin = false ∧ opCode < 2)
    . have hsame : (a.withSocket s).opened.length = 2 ∨ ((a.withSocket s).lastFin = false ∧ opCode < 2) := hfull
      simp only [Assembler.enterFrame, if_pos hcode, dif_pos hfull, dif_pos hsame, Option.map_none]
    . have hsame : ¬ ((a.withSocket s).opened.length = 2 ∨ ((a.withSocket s).lastFin = false ∧ opCode < 2)) :=
        hfull
      simp only [Assembler.enterFrame, if_pos hcode, dif_neg hfull, dif_neg hsame, Option.map_some]
      rfl
  . by_cases hempty : a.opened = []
    . have hsame : (a.withSocket s).opened = [] := hempty
      simp only [Assembler.enterFrame, if_neg hcode, if_pos hempty, if_pos hsame, Option.map_none]
    . have hsame : ¬ (a.withSocket s).opened = [] := hempty
      simp only [Assembler.enterFrame, if_neg hcode, if_neg hempty, if_neg hsame, Option.map_some]
      rfl

theorem socket_of_enterFrame {a entered : Assembler σ} {opCode : UInt8} {fin : Bool}
    (henter : a.enterFrame opCode fin = some entered)
    : entered.socket = a.socket := by
  unfold Assembler.enterFrame at henter
  split at henter
  . split at henter
    . cases henter
    . cases henter
      rfl
  . split at henter
    . cases henter
    . cases henter
      rfl

end FrameStream

namespace WebSocketProtocol

open FrameStream Utf8

def IsCloseCode (code : Nat) : Prop :=
  (1000 ≤ code ∧ code ≤ 1003) ∨ (1007 ≤ code ∧ code ≤ 1011) ∨ (4000 ≤ code ∧ code ≤ 4999)

instance (code : Nat) : Decidable (IsCloseCode code) := inferInstanceAs (Decidable (_ ∨ _ ∨ _))

def accepted (code : Nat) (message : List UInt8) : Nat × List UInt8 :=
  if IsCloseCode code ∧ isValidUtf8 message = true then (code, message) else (0, [])

theorem parseClosePayload_cons (high low : UInt8) (message : List UInt8)
    : parseClosePayload (high :: low :: message) = accepted (256 * high.toNat + low.toNat) message := by
  have hrefused : (decide (256 * high.toNat + low.toNat < 1000) || decide (256 * high.toNat + low.toNat > 4999)
        || (decide (256 * high.toNat + low.toNat > 1011) && decide (256 * high.toNat + low.toNat < 4000))
        || (decide (256 * high.toNat + low.toNat ≥ 1004) && decide (256 * high.toNat + low.toNat ≤ 1006))
        || !isValidUtf8 message) = true
      ↔ ¬ (IsCloseCode (256 * high.toNat + low.toNat) ∧ isValidUtf8 message = true) := by
    rw [IsCloseCode]
    cases isValidUtf8 message with
    | true =>
      simp
      omega
    | false => simp
  rw [parseClosePayload, accepted]
  by_cases hcode : IsCloseCode (256 * high.toNat + low.toNat) ∧ isValidUtf8 message = true
  . rw [if_pos hcode]
    exact if_neg (fun h => hrefused.mp h hcode)
  . rw [if_neg hcode]
    exact if_pos (hrefused.mpr hcode)

theorem parseClosePayload_formatClosePayload (code : Nat) (message : List UInt8)
    : parseClosePayload (formatClosePayload code message) = accepted (code % 65536) message := by
  unfold formatClosePayload
  split
  . next hzero =>
    rw [hzero, accepted, if_neg (by simp [IsCloseCode])]
    rfl
  . have hword : 256 * (UInt8.ofNat (code / 256)).toNat + (UInt8.ofNat code).toNat = code % 65536 := by
      rw [UInt8.toNat_ofNat', UInt8.toNat_ofNat']
      omega
    rw [parseClosePayload_cons, hword]

theorem formatClosePayload_parseClosePayload {src : List UInt8} (h : parseClosePayload src ≠ (0, []))
    : formatClosePayload (parseClosePayload src).1 (parseClosePayload src).2 = src
        ∧ IsCloseCode (parseClosePayload src).1 ∧ IsUtf8 (parseClosePayload src).2 := by
  match src with
  | [] => exact absurd rfl h
  | [_] => exact absurd rfl h
  | high :: low :: message =>
    have hlow := low.toNat_lt
    have hhigh := high.toNat_lt
    rw [parseClosePayload_cons, accepted] at h ⊢
    split at h
    . next haccepted =>
      rw [if_pos haccepted]
      refine ⟨?_, haccepted.1, isUtf8_of_isValidUtf8 haccepted.2⟩
      have hcode := haccepted.1
      rw [IsCloseCode] at hcode
      have hquotient : UInt8.ofNat ((256 * high.toNat + low.toNat) / 256) = high := by
        apply UInt8.toNat.inj
        rw [UInt8.toNat_ofNat']
        omega
      have hremainder : UInt8.ofNat (256 * high.toNat + low.toNat) = low := by
        apply UInt8.toNat.inj
        rw [UInt8.toNat_ofNat']
        omega
      rw [formatClosePayload, if_neg (by dsimp only; omega), hquotient, hremainder]
    . exact absurd rfl h

theorem length_formatClosePayload (code : Nat) (message : List UInt8)
    : (formatClosePayload code message).length ≤ message.length + 2 := by
  unfold formatClosePayload
  split
  . exact Nat.zero_le _
  . exact Nat.le_refl _

def Handlers.logged {σ : Type} (h : Handlers σ) : Handlers (σ × List HandlerCall) where
  maxPayload := h.maxPayload
  inflate := h.inflate
  messageHandler opCode data s := (h.messageHandler opCode data s.1, s.2 ++ [.message opCode data])
  pingHandler data s := (h.pingHandler data s.1, s.2 ++ [.ping data])
  pongHandler data s := (h.pongHandler data s.1, s.2 ++ [.pong data])
  send message opCode s := (h.send message opCode s.1, s.2 ++ [.send message opCode])
  close code message s := (h.close code message s.1, s.2 ++ [.close code message])
  terminate s := (h.terminate s.1, s.2 ++ [.terminate])
  isClosed s := h.isClosed s.1
  isShuttingDown s := h.isShuttingDown s.1
  close_isOver code message s := h.close_isOver code message s.1
  terminate_isOver s := h.terminate_isOver s.1

def endpoint (maxPayload : UInt32) : Handlers Bool where
  maxPayload := maxPayload
  inflate _ := none
  messageHandler _ _ s := s
  pingHandler _ s := s
  pongHandler _ s := s
  send _ _ s := s
  close _ _ _ := true
  terminate _ := true
  isClosed _ := false
  isShuttingDown s := s
  close_isOver _ _ _ := rfl
  terminate_isOver _ := rfl

inductive Delivery where
  | text (cs : List Char)
  | binary (data : List UInt8)
  | ping (data : List UInt8) (hlength : data.length ≤ 125)
  | pong (data : List UInt8) (hlength : data.length ≤ 125)

def Delivery.calls (d : Delivery) : List HandlerCall :=
  match d with
  | .text cs => [.message .text (cs.flatMap String.utf8EncodeChar)]
  | .binary data => [.message .binary data]
  | .ping data _ => [.send data .pong, .ping data]
  | .pong data _ => [.pong data]

inductive Ending where
  | terminated
  | withoutCode
  | withCode (code : Nat) (hcode : IsCloseCode code) (cs : List Char)

def Ending.call (e : Ending) : HandlerCall :=
  match e with
  | .terminated => .terminate
  | .withoutCode => .close 0 []
  | .withCode code _ cs => .close code (cs.flatMap String.utf8EncodeChar)

/--
There is an ending only if the socket is over, and no call behind it.
-/
def IsTrace (calls : List HandlerCall) (isOver : Bool) : Prop :=
  ∃ (ds : List Delivery) (ending : Option Ending),
    calls = ds.flatMap Delivery.calls ++ (ending.map Ending.call).toList ∧ (ending ≠ none → isOver = true)

section

variable {calls : List HandlerCall} {isOver : Bool}

theorem IsTrace.deliver (htrace : IsTrace calls false) (d : Delivery) : IsTrace (calls ++ d.calls) isOver := by
  obtain ⟨ds, ending, rfl, hending⟩ := htrace
  cases ending with
  | none =>
    refine ⟨ds ++ [d], none, ?_, fun h => absurd rfl h⟩
    simp
  | some e => exact absurd (hending (by simp)) (by simp)

theorem IsTrace.finish (htrace : IsTrace calls false) (e : Ending) : IsTrace (calls ++ [e.call]) true := by
  obtain ⟨ds, ending, rfl, hending⟩ := htrace
  cases ending with
  | none =>
    refine ⟨ds, some e, ?_, fun _ => rfl⟩
    simp
  | some e => exact absurd (hending (by simp)) (by simp)

end

section

variable {σ : Type} {h : Handlers σ} {isServer : Bool}

theorem step_cases (h : Handlers σ) (isServer : Bool) (bytes : List UInt8) (a : Assembler σ)
    : match step h isServer bytes a with
      | .wait => True
      | .finish s => s = h.terminate a.socket ∨ ∃ head entered payload,
          nextHead isServer bytes = .head head ∧ a.enterFrame head.opCode head.fin = some entered
            ∧ payload.length = head.payLength ∧ entered.handleFrame h payload head.fin = .inl s
      | .next a' _ => ∃ head entered payload,
          nextHead isServer bytes = .head head ∧ a.enterFrame head.opCode head.fin = some entered
            ∧ payload.length = head.payLength ∧ entered.handleFrame h payload head.fin = .inr a' := by
  unfold step
  cases hhead : nextHead isServer bytes with
  | short => trivial
  | invalid => exact .inl rfl
  | head head =>
    dsimp only
    cases henter : a.enterFrame head.opCode head.fin with
    | none => exact .inl rfl
    | some entered =>
      dsimp only
      by_cases hrefused : refusePayloadLength h head.payLength = true
      . rw [if_pos hrefused]
        exact .inl rfl
      . rw [if_neg hrefused]
        by_cases hwhole : bytes.length < head.messageHeader + head.payLength
        . rw [if_pos hwhole]
          trivial
        . rw [if_neg hwhole]
          have hlength : (head.mask.unmask ((bytes.drop head.messageHeader).take head.payLength)).length
              = head.payLength := by
            rw [CyclicMask.length_unmask, List.length_take, List.length_drop]
            omega
          generalize head.mask.unmask _ = payload at hlength
          cases hframe : entered.handleFrame h payload head.fin with
          | inl s => exact .inr ⟨head, entered, payload, rfl, henter, hlength, hframe⟩
          | inr a' => exact ⟨head, entered, payload, rfl, henter, hlength, hframe⟩

def Delivers (h : Handlers σ) (s s' : σ) : Prop :=
  ∃ data opCode, s' = (deliver h data opCode s).2 ∧ (¬ opCode.toByte < 3 → data.length ≤ 125)

theorem Entered.handleFrame_cases {a entered : Assembler σ} {head : Head} {c : OpCode} {opened : List OpCode}
    (hentered : Entered a entered head c opened) {payload : List UInt8} (hlength : payload.length = head.payLength)
    : match entered.handleFrame h payload head.fin with
      | .inl s => Delivers h a.socket s
      | .inr a' => a'.socket = a.socket ∨ Delivers h a.socket a'.socket := by
  have hsettle : ∀ data (a' : Assembler σ), (¬ c.toByte < 3 → data.length ≤ 125) →
      match settle (deliver h data c entered.socket) a' with
      | .inl s => Delivers h a.socket s
      | .inr a' => a'.socket = a.socket ∨ Delivers h a.socket a'.socket := by
    intro data a' hshort
    rw [hentered.socket, settle]
    cases (deliver h data c a.socket).1 with
    | true => exact ⟨data, c, rfl, hshort⟩
    | false => exact .inr ⟨data, c, rfl, hshort⟩
  simp only [Assembler.handleFrame, hentered.opened_eq]
  by_cases hdata : c.toByte < 3
  . rw [if_pos hdata]
    cases head.fin with
    | true => exact hsettle _ _ (fun hcontrol => absurd hdata hcontrol)
    | false => exact .inl hentered.socket
  . rw [if_neg hdata]
    exact hsettle _ _ (fun hcontrol => hlength ▸ (hentered.control hcontrol).2)

theorem streamed_invariant {P : σ → Prop}
    (hdeliver : ∀ {s s'}, h.isOver s = false → P s → Delivers h s s' → P s')
    (hterminate : ∀ {s}, h.isOver s = false → P s → P (h.terminate s)) (bytes : List UInt8) {s : σ} (hs : P s)
    : P (streamed h isServer bytes s) := by
  have hnext : ∀ {bytes a a' rest}, OpensData a ∧ h.isOver a.socket = false ∧ P a.socket
      → step h isServer bytes a = .next a' rest → OpensData a' ∧ h.isOver a'.socket = false ∧ P a'.socket := by
    rintro bytes a a' rest ⟨hdata, hlive, ha⟩ hstep
    have hcases := step_cases h isServer bytes a
    rw [hstep] at hcases
    obtain ⟨head, entered, payload, hhead, henter, hlength, hframe⟩ := hcases
    obtain ⟨c, opened, hentered⟩ := entered_of_enterFrame hhead hdata henter
    have hsocket := hentered.handleFrame_cases (h := h) hlength
    rw [hframe] at hsocket
    refine ⟨hentered.opensData_of_handleFrame hframe, ?_, ?_⟩
    . exact isOver_of_handleFrame_inr h (hentered.socket ▸ hlive) hframe
    . obtain hsame | hdelivers := hsocket
      . exact hsame ▸ ha
      . exact hdeliver hlive ha hdelivers
  have hfinish : ∀ {bytes a s'}, OpensData a ∧ h.isOver a.socket = false ∧ P a.socket
      → step h isServer bytes a = .finish s' → P s' := by
    rintro bytes a s' ⟨hdata, hlive, ha⟩ hstep
    have hcases := step_cases h isServer bytes a
    rw [hstep] at hcases
    obtain rfl | ⟨head, entered, payload, hhead, henter, hlength, hframe⟩ := hcases
    . exact hterminate hlive ha
    . obtain ⟨c, opened, hentered⟩ := entered_of_enterFrame hhead hdata henter
      have hsocket := hentered.handleFrame_cases (h := h) hlength
      rw [hframe] at hsocket
      exact hdeliver hlive ha hsocket
  unfold streamed
  split
  . exact hs
  . next hlive =>
    have hstart : OpensData (σ := σ) { socket := s } := by
      intro c hc
      cases hc
    have hdecode := (frames h isServer).decode_invariant hnext hfinish bytes
      ⟨hstart, Bool.eq_false_iff.mpr hlive, hs⟩
    split
    . next hwaiting =>
      rw [hwaiting] at hdecode
      exact hdecode.2.2
    . next hfinished =>
      rw [hfinished] at hdecode
      exact hdecode

end

section

variable {σ : Type} (h : Handlers σ) (isServer : Bool)

theorem exists_ending (data : List UInt8)
    : ∃ e : Ending, .close (parseClosePayload data).1 (parseClosePayload data).2 = e.call := by
  by_cases hcode : parseClosePayload data = (0, [])
  . rw [hcode]
    exact ⟨.withoutCode, rfl⟩
  . obtain ⟨-, hcode, cs, hmessage⟩ := formatClosePayload_parseClosePayload hcode
    rw [hmessage]
    exact ⟨.withCode _ hcode cs, rfl⟩

theorem trace_terminate {s : σ × List HandlerCall} (htrace : IsTrace s.2 false)
    : IsTrace (h.logged.terminate s).2 (h.logged.isOver (h.logged.terminate s)) := by
  have hover : h.logged.isOver (h.logged.terminate s) = true := h.logged.terminate_isOver s
  rw [hover]
  exact htrace.finish .terminated

theorem trace_of_delivers {s s' : σ × List HandlerCall} (hlive : h.logged.isOver s = false)
    (htrace : IsTrace s.2 (h.logged.isOver s)) (hdelivers : Delivers h.logged s s')
    : IsTrace s'.2 (h.logged.isOver s') := by
  obtain ⟨data, opCode, rfl, hshort⟩ := hdelivers
  rw [hlive] at htrace
  cases opCode with
  | text =>
    simp only [deliver]
    split
    . next hvalid =>
      obtain ⟨cs, rfl⟩ := isUtf8_of_isValidUtf8 hvalid
      exact htrace.deliver (.text cs)
    . exact trace_terminate h htrace
  | binary => exact htrace.deliver (.binary data)
  | close =>
    obtain ⟨e, he⟩ := exists_ending data
    have hover : h.logged.isOver (deliver h.logged data .close s).2 = true := h.logged.close_isOver _ _ _
    rw [hover]
    simp only [deliver, Handlers.logged, he]
    exact htrace.finish e
  | ping =>
    have hdelivery : IsTrace (s.2 ++ (Delivery.ping data (hshort (by decide))).calls)
        (h.logged.isOver (deliver h.logged data .ping s).2) := htrace.deliver _
    simpa [deliver, Handlers.logged, Delivery.calls] using hdelivery
  | pong => exact htrace.deliver (.pong data (hshort (by decide)))

theorem deliver_logged (data : List UInt8) (opCode : OpCode) (s : σ × List HandlerCall)
    : deliver h data opCode s.1 = ((deliver h.logged data opCode s).1, (deliver h.logged data opCode s).2.1) := by
  cases opCode with
  | text =>
    simp only [deliver]
    split <;> rfl
  | _ => rfl

def eraseCalls (a : Assembler (σ × List HandlerCall)) : Assembler σ := a.withSocket a.socket.1

theorem handleFrame_logged (a : Assembler (σ × List HandlerCall)) (payload : List UInt8) (fin : Bool)
    : (eraseCalls a).handleFrame h payload fin
        =
      (a.handleFrame h.logged payload fin).map Prod.fst eraseCalls := by
  have hsettle : ∀ data opCode (a' : Assembler (σ × List HandlerCall)),
      settle (deliver h data opCode a.socket.1) (eraseCalls a')
        = (settle (deliver h.logged data opCode a.socket) a').map Prod.fst eraseCalls := by
    intro data opCode a'
    rw [deliver_logged, settle, settle]
    split <;> rfl
  cases hopened : a.opened with
  | nil =>
    have hnone : (eraseCalls a).opened = [] := hopened
    simp only [Assembler.handleFrame, hopened, hnone, Sum.map_inr]
  | cons opCode opened =>
    have hsome : (eraseCalls a).opened = opCode :: opened := hopened
    simp only [Assembler.handleFrame, hopened, hsome]
    split
    . split
      . exact hsettle _ _ { a.closeMessage with message := [] }
      . rfl
    . exact hsettle _ _ a.closeMessage

theorem step_logged (bytes : List UInt8) (a : Assembler (σ × List HandlerCall))
    : step h isServer bytes (eraseCalls a) = (step h.logged isServer bytes a).map eraseCalls Prod.fst := by
  unfold step
  cases nextHead isServer bytes with
  | short => rfl
  | invalid => rfl
  | head head =>
    dsimp only
    have henter := enterFrame_withSocket a head.opCode head.fin a.socket.1
    rw [eraseCalls, henter]
    cases hentered : a.enterFrame head.opCode head.fin with
    | none => rfl
    | some entered =>
      have hsame : entered.withSocket a.socket.1 = eraseCalls entered := by
        rw [eraseCalls, socket_of_enterFrame hentered]
      have hrefused : refusePayloadLength h head.payLength = refusePayloadLength h.logged head.payLength := rfl
      simp only [Option.map_some, hrefused, hsame, handleFrame_logged]
      split
      . rfl
      . split
        . rfl
        . cases entered.handleFrame h.logged _ head.fin <;> rfl

theorem streamed_logged (bytes : List UInt8) (s : σ × List HandlerCall)
    : (streamed h.logged isServer bytes s).1 = streamed h isServer bytes s.1 := by
  have hover : h.logged.isOver s = h.isOver s.1 := rfl
  have hstart : ({ socket := s.1 } : Assembler σ) = eraseCalls { socket := s } := rfl
  unfold streamed
  rw [hover, hstart, (frames h.logged isServer).decode_map (step_logged h isServer) bytes { socket := s }]
  split
  . rfl
  . cases (frames h.logged isServer).decode bytes { socket := s } <;> rfl

theorem trace_receiveAll (chunks : List (Memory UInt8 × List UInt8)) (s : σ)
    : let s' := (receiveAll h.logged isServer chunks { socket := (s, []) }).socket
      IsTrace s'.2 (h.isOver s'.1) ∧ s'.1 = (receiveAll h isServer chunks { socket := s }).socket := by
  dsimp only
  rw [socket_eq_streamed, socket_eq_streamed]
  refine ⟨?_, streamed_logged h isServer _ _⟩
  apply streamed_invariant (h := h.logged) (P := fun s => IsTrace s.2 (h.logged.isOver s))
  . exact trace_of_delivers h
  . intro s hlive htrace
    rw [hlive] at htrace
    exact trace_terminate h htrace
  . exact ⟨[], none, rfl, fun h => absurd rfl h⟩

end

end WebSocketProtocol
