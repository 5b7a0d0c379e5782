import GraphManipulator.Lib.Incremental
import GraphManipulator.WebSocket.Protocol

/-!
This module contains what a stream of frames means, apart from how its bytes arrive: the bytes behind the last
whole frame wait, and each whole frame goes to the message that it belongs to.
-/

namespace FrameStream

open WebSocketProtocol

structure Head where
  fin : Bool
  opCode : UInt8
  messageHeader : Nat
  payLength : Nat
  mask : Mask

inductive NextHead where
  | short
  | invalid
  | head (head : Head)

def isInvalid (b0 b1 : UInt8) : Bool :=
  let opCode := b0 &&& 15
  b0 &&& 64 ≠ 0 || b0 &&& 48 ≠ 0 || (opCode > 2 && opCode < 8) || opCode > 10
    || (opCode > 2 && (!decide (b0 &&& 128 ≠ 0) || (b1 &&& 127).toNat > 125))

def lengths (isServer : Bool) (b1 : UInt8) (rest : List UInt8) : Nat × Nat :=
  if (b1 &&& 127).toNat < 126 then
    (shortMessageHeader isServer, (b1 &&& 127).toNat)
  else if (b1 &&& 127).toNat = 126 then
    (mediumMessageHeader isServer, BigEndian.decode (rest.take 2))
  else
    (longMessageHeader isServer, BigEndian.decode (rest.take 8))

def maskOf (isServer : Bool) (bytes : List UInt8) (messageHeader : Nat) : Mask :=
  if isServer then fun i => bytes.getD (messageHeader - 4 + i.val) 0 else fun _ => 0

def nextHead (isServer : Bool) (bytes : List UInt8) : NextHead :=
  match bytes with
  | b0 :: b1 :: rest =>
    if bytes.length < shortMessageHeader isServer then
      .short
    else if isInvalid b0 b1 then
      .invalid
    else
      let (messageHeader, payLength) := lengths isServer b1 rest
      if bytes.length < messageHeader then
        .short
      else
        .head {
          fin := b0 &&& 128 ≠ 0
          opCode := b0 &&& 15
          messageHeader := messageHeader
          payLength := payLength
          mask := maskOf isServer bytes messageHeader
        }
  | _ => .short

theorem length_nil_le : ([] : List OpCode).length ≤ 2 := Nat.zero_le 2

/--
What is known between two frames: the messages that were begun, the innermost first, and what has come of the
message that is cut into fragments.
-/
structure Assembler (σ : Type) where
  opened : List OpCode := []
  depth : opened.length ≤ 2 := by exact length_nil_le
  lastFin : Bool := true
  message : List UInt8 := []
  socket : σ

section

variable {σ : Type} (h : Handlers σ)

/--
The frame is the beginning of another message if it has an opcode and goes on with the last one otherwise.
-/
def Assembler.enterFrame (a : Assembler σ) (opCode : UInt8) (fin : Bool) : Option (Assembler σ) :=
  if opCode ≠ 0 then
    if hdepth : a.opened.length = 2 ∨ (a.lastFin = false ∧ opCode < 2) then
      none
    else
      some { a with
        opened := .ofByte opCode :: a.opened
        depth := by
          have := a.depth
          rw [not_or] at hdepth
          rw [List.length_cons]
          omega
        lastFin := fin
      }
  else if a.opened = [] then
    none
  else
    some { a with lastFin := fin }

def Assembler.closeMessage (a : Assembler σ) : Assembler σ :=
  { a with opened := a.opened.tail, depth := Nat.le_trans (by simp) a.depth }

def deliver (data : List UInt8) (opCode : OpCode) (s : σ) : Bool × σ :=
  match opCode with
  | .text =>
    if isValidUtf8 data then
      (h.isOver (h.messageHandler .text data s), h.messageHandler .text data s)
    else
      (true, h.terminate s)
  | .binary => (h.isOver (h.messageHandler .binary data s), h.messageHandler .binary data s)
  | .close => (true, h.close (parseClosePayload data).1 (parseClosePayload data).2 s)
  | .ping =>
    let s := h.pingHandler data (h.send data .pong s)
    (h.isOver s, s)
  | .pong => (h.isOver (h.pongHandler data s), h.pongHandler data s)

def settle (res : Bool × σ) (a : Assembler σ) : σ ⊕ Assembler σ :=
  if res.1 then .inl res.2 else .inr { a with socket := res.2 }

def Assembler.handleFrame (a : Assembler σ) (payload : List UInt8) (fin : Bool) : σ ⊕ Assembler σ :=
  match a.opened with
  | [] => .inr a
  | opCode :: _ =>
    if opCode.toByte < 3 then
      if fin then
        settle (deliver h (a.message ++ payload) opCode a.socket) { a.closeMessage with message := [] }
      else
        .inr { a with message := a.message ++ payload }
    else
      settle (deliver h payload opCode a.socket) a.closeMessage

variable (isServer : Bool)

def step (bytes : List UInt8) (a : Assembler σ) : Incremental.Step UInt8 (Assembler σ) σ :=
  match nextHead isServer bytes with
  | .short => .wait
  | .invalid => .finish (h.terminate a.socket)
  | .head head =>
    match a.enterFrame head.opCode head.fin with
    | none => .finish (h.terminate a.socket)
    | some entered =>
      if refusePayloadLength h head.payLength then
        .finish (h.terminate a.socket)
      else if bytes.length < head.messageHeader + head.payLength then
        .wait
      else
        let payload := (bytes.drop head.messageHeader).take head.payLength
        match entered.handleFrame h (head.mask.unmask payload) head.fin with
        | .inl s => .finish s
        | .inr a => .next a (bytes.drop (head.messageHeader + head.payLength))

end

section

variable {isServer : Bool}

theorem le_lengths (isServer : Bool) (b1 : UInt8) (rest : List UInt8)
    : shortMessageHeader isServer ≤ (lengths isServer b1 rest).1 := by
  have hmedium : shortMessageHeader isServer ≤ mediumMessageHeader isServer := by cases isServer <;> decide
  have hlong : shortMessageHeader isServer ≤ longMessageHeader isServer := by cases isServer <;> decide
  unfold lengths
  split
  . exact Nat.le_refl _
  . split
    . exact hmedium
    . exact hlong

theorem lengths_le (isServer : Bool) (b1 : UInt8) (rest : List UInt8)
    : (lengths isServer b1 rest).1 ≤ longMessageHeader isServer := by
  have hshort : shortMessageHeader isServer ≤ longMessageHeader isServer := by cases isServer <;> decide
  have hmedium : mediumMessageHeader isServer ≤ longMessageHeader isServer := by cases isServer <;> decide
  unfold lengths
  split
  . exact hshort
  . split
    . exact hmedium
    . exact Nat.le_refl _

theorem two_le_short (isServer : Bool) : 2 ≤ shortMessageHeader isServer := by cases isServer <;> decide

theorem lengths_append {b1 : UInt8} {rest : List UInt8} (more : List UInt8)
    (h : (lengths isServer b1 rest).1 ≤ rest.length + 2)
    : lengths isServer b1 (rest ++ more) = lengths isServer b1 rest := by
  have hmedium : 4 ≤ mediumMessageHeader isServer := by cases isServer <;> decide
  have hlong : 10 ≤ longMessageHeader isServer := by cases isServer <;> decide
  unfold lengths at h ⊢
  split
  . rfl
  . next hnotShort =>
    rw [if_neg hnotShort] at h
    split
    . next hlength =>
      rw [if_pos hlength] at h
      dsimp only at h
      rw [List.take_append_of_le_length (by omega)]
    . next hlength =>
      rw [if_neg hlength] at h
      dsimp only at h
      rw [List.take_append_of_le_length (by omega)]

theorem maskOf_append {bytes : List UInt8} (more : List UInt8) {messageHeader : Nat}
    (hshort : shortMessageHeader isServer ≤ messageHeader) (hle : messageHeader ≤ bytes.length)
    : maskOf isServer (bytes ++ more) messageHeader = maskOf isServer bytes messageHeader := by
  cases isServer with
  | false => rfl
  | true =>
    have hfour : 6 ≤ messageHeader := hshort
    unfold maskOf
    rw [if_pos rfl, if_pos rfl]
    funext i
    have hi := i.isLt
    rw [List.getD_eq_getElem?_getD, List.getD_eq_getElem?_getD, List.getElem?_append_left (by omega)]

theorem nextHead_append {bytes : List UInt8} (more : List UInt8) (h : nextHead isServer bytes ≠ .short)
    : nextHead isServer (bytes ++ more) = nextHead isServer bytes := by
  match bytes with
  | [] => exact absurd rfl h
  | [_] => exact absurd rfl h
  | b0 :: b1 :: rest =>
    simp only [nextHead, List.cons_append, List.length_cons, List.length_append] at h ⊢
    by_cases hshort : rest.length + 1 + 1 < shortMessageHeader isServer
    . rw [if_pos hshort] at h
      exact absurd rfl h
    . rw [if_neg hshort] at h ⊢
      rw [if_neg (by omega)]
      split
      . rfl
      . next hvalid =>
        rw [if_neg hvalid] at h
        by_cases hheader : rest.length + 1 + 1 < (lengths isServer b1 rest).1
        . rw [if_pos hheader] at h
          exact absurd rfl h
        . rw [lengths_append more (by omega), if_neg hheader, if_neg (by omega)]
          have hmask : maskOf isServer (b0 :: b1 :: rest ++ more) (lengths isServer b1 rest).1
              = maskOf isServer (b0 :: b1 :: rest) (lengths isServer b1 rest).1 := by
            apply maskOf_append more (le_lengths isServer b1 rest)
            simpa using hheader
          simp only [List.cons_append] at hmask
          rw [hmask]

theorem bounds_of_nextHead {bytes : List UInt8} {head : Head} (h : nextHead isServer bytes = .head head)
    : shortMessageHeader isServer ≤ head.messageHeader ∧ head.messageHeader ≤ bytes.length := by
  match bytes with
  | [] => cases h
  | [_] => cases h
  | b0 :: b1 :: rest =>
    simp only [nextHead] at h
    split at h
    . cases h
    . split at h
      . cases h
      . split at h
        . cases h
        . next hheader =>
          cases h
          exact ⟨le_lengths isServer b1 rest, Nat.not_lt.mp hheader⟩

theorem length_of_nextHead_short {bytes : List UInt8} (h : nextHead isServer bytes = .short)
    : bytes.length < longMessageHeader isServer := by
  have hlong : 10 ≤ longMessageHeader isServer ∧ shortMessageHeader isServer ≤ longMessageHeader isServer := by
    cases isServer <;> decide
  match bytes with
  | [] => exact Nat.lt_of_lt_of_le (by simp) hlong.1
  | [_] => exact Nat.lt_of_lt_of_le (by simp) hlong.1
  | b0 :: b1 :: rest =>
    simp only [nextHead] at h
    split at h
    . next hshort => exact Nat.lt_of_lt_of_le hshort hlong.2
    . split at h
      . cases h
      . split at h
        . next hheader => exact Nat.lt_of_lt_of_le hheader (lengths_le isServer b1 rest)
        . cases h

theorem mask_of_nextHead {bytes : List UInt8} {head : Head} (h : nextHead isServer bytes = .head head)
    : head.mask = maskOf isServer bytes head.messageHeader := by
  match bytes with
  | [] => cases h
  | [_] => cases h
  | b0 :: b1 :: rest =>
    simp only [nextHead] at h
    split at h
    . cases h
    . split at h
      . cases h
      . split at h
        . cases h
        . cases h
          rfl

theorem control_of_nextHead {bytes : List UInt8} {head : Head} (h : nextHead isServer bytes = .head head)
    (hcontrol : 2 < head.opCode)
    : head.fin = true ∧ head.payLength ≤ 125 := by
  match bytes with
  | [] => cases h
  | [_] => cases h
  | b0 :: b1 :: rest =>
    simp only [nextHead] at h
    split at h
    . cases h
    . split at h
      . cases h
      . next hvalid =>
        split at h
        . cases h
        . cases h
          dsimp only at hcontrol ⊢
          simp only [isInvalid, Bool.or_eq_true, Bool.and_eq_true, Bool.not_eq_true', decide_eq_true_eq,
            decide_eq_false_iff_not, not_or, not_and] at hvalid
          obtain ⟨hfin, hlength⟩ := hvalid.2 hcontrol
          refine ⟨by simpa using hfin, ?_⟩
          have hshort : (b1 &&& 127).toNat < 126 := by omega
          rw [lengths, if_pos hshort]
          exact Nat.not_lt.mp hlength

end

section

variable {σ : Type} (h : Handlers σ) (isServer : Bool)

theorem step_of_head {bytes : List UInt8} {a entered : Assembler σ} {head : Head}
    (hhead : nextHead isServer bytes = .head head)
    (henter : a.enterFrame head.opCode head.fin = some entered)
    (hlength : refusePayloadLength h head.payLength = false)
    : step h isServer bytes a
        =
      if bytes.length < head.messageHeader + head.payLength then
        .wait
      else
        let payload := (bytes.drop head.messageHeader).take head.payLength
        match entered.handleFrame h (head.mask.unmask payload) head.fin with
        | .inl s => .finish s
        | .inr a => .next a (bytes.drop (head.messageHeader + head.payLength)) := by
  simp [step, hhead, henter, hlength]

theorem step_append_of_ne_wait {bytes : List UInt8} (more : List UInt8) {a : Assembler σ}
    (hstep : step h isServer bytes a ≠ .wait)
    : step h isServer (bytes ++ more) a
        =
      match step h isServer bytes a with
      | .wait => .wait
      | .finish s => .finish s
      | .next a rest => .next a (rest ++ more) := by
  have hshort : nextHead isServer bytes ≠ .short := by
    intro hshort
    apply hstep
    rw [step, hshort]
  unfold step at hstep ⊢
  rw [nextHead_append more hshort]
  cases hhead : nextHead isServer bytes with
  | short => exact absurd hhead hshort
  | invalid => rfl
  | head head =>
    dsimp only
    cases henter : a.enterFrame head.opCode head.fin with
    | none => rfl
    | some entered =>
      dsimp only
      split
      . rfl
      . next hlength =>
        by_cases hwhole : bytes.length < head.messageHeader + head.payLength
        . simp [hhead, henter, hlength, hwhole] at hstep
        . have hmore : ¬ (bytes ++ more).length < head.messageHeader + head.payLength := by
            rw [List.length_append]
            omega
          rw [if_neg hwhole, if_neg hmore]
          rw [List.drop_append_of_le_length (by omega), List.drop_append_of_le_length (by omega)]
          rw [List.take_append_of_le_length (by rw [List.length_drop]; omega)]
          split <;> rfl

def frames : Incremental UInt8 (Assembler σ) σ where
  step := step h isServer
  length_rest := by
    intro bytes a a' rest hstep
    unfold step at hstep
    split at hstep
    . cases hstep
    . cases hstep
    . next head hhead =>
      have hbounds := bounds_of_nextHead hhead
      have htwo := two_le_short isServer
      split at hstep
      . cases hstep
      . split at hstep
        . cases hstep
        . split at hstep
          . cases hstep
          . dsimp only at hstep
            split at hstep
            . cases hstep
            . cases hstep
              rw [List.length_drop]
              omega
  step_append := by
    intro bytes a a' rest more hstep
    rw [step_append_of_ne_wait h isServer more (by rw [hstep]; simp), hstep]
  finish_append := by
    intro bytes a s more hstep
    rw [step_append_of_ne_wait h isServer more (by rw [hstep]; simp), hstep]

end

end FrameStream
