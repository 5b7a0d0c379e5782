import GraphManipulator.WebSocket.Frames

/-!
This module contains that the fragments of a frame, in whatever pieces they are handled, come to the whole frame.
-/

namespace WebSocketProtocol

open FrameStream

/--
The slots of the array hold the opened messages, the outermost in slot 0.
-/
def Holds (opCode : Int → OpCode) : List OpCode → Prop
  | [] => True
  | c :: opened => opCode opened.length = c ∧ Holds opCode opened

variable {σ : Type}

structure Nested (state : State) (a : Assembler σ) : Prop where
  opStack : state.opStack = a.opened.length - 1
  holds : Holds state.opCode a.opened
  lastFin : state.lastFin = a.lastFin

/--
What the length of the tip is to be when `part` was handled: only control frames are counted.
-/
def tipLength (opened : List OpCode) (part : List UInt8) : Nat :=
  match opened with
  | [] => 0
  | c :: _ => if c.toByte < 3 then 0 else part.length

@[simp]
theorem tipLength_nil (opened : List OpCode) : tipLength opened [] = 0 := by
  unfold tipLength
  split
  . rfl
  . simp

/--
`part` is what the socket has handled of the payload of the frame of the innermost message.
-/
structure Assembled (r : Receiver σ) (a : Assembler σ) (part : List UInt8) : Prop where
  socket : r.socket = a.socket
  fragmentBuffer : r.fragmentBuffer = a.message ++ part
  disabled : r.compressionStatus = .disabled
  controlTipLength : r.controlTipLength.toNat = tipLength a.opened part

theorem holds_update {opCode : Int → OpCode} {opened : List OpCode} {n : Int} (c : OpCode)
    (hn : opened.length ≤ n) (h : Holds opCode opened)
    : Holds (Function.update opCode n c) opened := by
  induction opened with
  | nil => trivial
  | cons d opened ih =>
    rw [List.length_cons] at hn
    refine ⟨?_, ih (by omega) h.2⟩
    rw [Function.update_of_ne (by omega)]
    exact h.1

section

variable {state : State} {a : Assembler σ}

theorem Nested.top {c : OpCode} {opened : List OpCode} (h : Nested state a) (hopened : a.opened = c :: opened)
    : state.top = c := by
  have hstack := h.opStack
  have hholds := h.holds
  rw [hopened, List.length_cons] at hstack
  rw [hopened] at hholds
  have htop : state.opStack = opened.length := by omega
  rw [State.top, htop]
  exact hholds.1

theorem Nested.pop (h : Nested state a) (hopened : a.opened ≠ []) : Nested state.pop a.closeMessage := by
  obtain ⟨c, opened, hcons⟩ := List.exists_cons_of_ne_nil hopened
  have hstack := h.opStack
  have hholds := h.holds
  rw [hcons] at hstack hholds
  rw [List.length_cons] at hstack
  have htail : a.closeMessage.opened = opened := by simp [Assembler.closeMessage, hcons]
  constructor
  . rw [State.pop, htail]
    dsimp only
    omega
  . rw [htail]
    exact hholds.2
  . exact h.lastFin

theorem Nested.enterFrame (h : Nested state a) (opCode : UInt8) (fin : Bool)
    : match a.enterFrame opCode fin with
      | none => state.enterFrame opCode fin = none
      | some entered => ∃ state', state.enterFrame opCode fin = some state' ∧ Nested state' entered
          ∧ state'.wantsHead = state.wantsHead ∧ state'.spill = state.spill := by
  have hstack := h.opStack
  by_cases hcode : opCode ≠ 0
  . have hrefused : (state.opStack = 1 ∨ (state.lastFin = false ∧ opCode < 2))
        ↔ (a.opened.length = 2 ∨ (a.lastFin = false ∧ opCode < 2)) := by
      rw [h.lastFin]
      apply or_congr_left
      omega
    by_cases hrefuse : a.opened.length = 2 ∨ (a.lastFin = false ∧ opCode < 2)
    . simp only [Assembler.enterFrame, State.enterFrame, if_pos hcode, dif_pos hrefuse,
        if_pos (hrefused.mpr hrefuse)]
    . simp only [Assembler.enterFrame, State.enterFrame, if_pos hcode, dif_neg hrefuse,
        if_neg (mt hrefused.mp hrefuse)]
      refine ⟨_, rfl, ⟨?_, ?_, rfl⟩, rfl, rfl⟩
      . simp only [State.push, List.length_cons]
        omega
      . have hslot : state.opStack + 1 = a.opened.length := by omega
        simp only [State.push, hslot]
        exact ⟨Function.update_self _ _ _, holds_update _ (Int.le_refl _) h.holds⟩
  . have hnone : state.opStack = -1 ↔ a.opened = [] := by
      rw [← List.length_eq_zero_iff]
      omega
    by_cases hempty : a.opened = []
    . simp only [Assembler.enterFrame, State.enterFrame, if_neg hcode, if_pos hempty,
        if_pos (hnone.mpr hempty)]
    . simp only [Assembler.enterFrame, State.enterFrame, if_neg hcode, if_neg hempty,
        if_neg (mt hnone.mp hempty)]
      exact ⟨_, rfl, ⟨hstack, h.holds, rfl⟩, rfl, rfl⟩

end

theorem toByte_ofByte_lt {b : UInt8} (hzero : b ≠ 0) (hdata : ¬ 2 < b) : (OpCode.ofByte b).toByte < 3 := by
  have hnat : b.toNat ≠ 0 := fun h => hzero (UInt8.toNat.inj h)
  have htwo : (2 : UInt8).toNat = 2 := rfl
  rw [UInt8.lt_iff_toNat_lt, htwo] at hdata
  obtain h | h : b.toNat = 1 ∨ b.toNat = 2 := by omega
  . rw [show b = 1 from UInt8.toNat.inj h]
    decide
  . rw [show b = 2 from UInt8.toNat.inj h]
    decide

def OpensData (a : Assembler σ) : Prop := ∀ c ∈ a.opened, c.toByte < 3

/--
The frame belongs to a message, which is a control frame only if the frame is whole and short.
-/
structure Entered (a entered : Assembler σ) (head : Head) (c : OpCode) (opened : List OpCode) : Prop where
  opened_eq : entered.opened = c :: opened
  opensData : ∀ d ∈ opened, d.toByte < 3
  control : ¬ c.toByte < 3 → head.fin = true ∧ head.payLength ≤ 125
  socket : entered.socket = a.socket
  message : entered.message = a.message

theorem entered_of_enterFrame {isServer : Bool} {bytes : List UInt8} {a entered : Assembler σ} {head : Head}
    (hhead : nextHead isServer bytes = .head head) (hdata : OpensData a)
    (henter : a.enterFrame head.opCode head.fin = some entered)
    : ∃ c opened, Entered a entered head c opened := by
  unfold Assembler.enterFrame at henter
  split at henter
  . next hcode =>
    split at henter
    . cases henter
    . cases henter
      refine ⟨_, _, rfl, hdata, ?_, rfl, rfl⟩
      intro hcontrol
      apply control_of_nextHead hhead
      exact Classical.not_not.mp (mt (toByte_ofByte_lt hcode) hcontrol)
  . split at henter
    . cases henter
    . next hne =>
      cases henter
      obtain ⟨c, opened, hopened⟩ := List.exists_cons_of_ne_nil hne
      rw [OpensData, hopened, List.forall_mem_cons] at hdata
      exact ⟨c, opened, hopened, hdata.2, fun hcontrol => absurd hdata.1 hcontrol, rfl, rfl⟩

theorem lastFin_of_enterFrame {a entered : Assembler σ} {opCode : UInt8} {fin : Bool}
    (henter : a.enterFrame opCode fin = some entered)
    : entered.lastFin = fin := by
  unfold Assembler.enterFrame at henter
  split at henter
  . split at henter
    . cases henter
    . cases henter
      rfl
  . split at henter
    . cases henter
    . cases henter
      rfl

section

variable (h : Handlers σ)

theorem deliver_isOver (data : List UInt8) (opCode : OpCode) (s : σ)
    : (deliver h data opCode s).1 = h.isOver (deliver h data opCode s).2 := by
  cases opCode with
  | text =>
    simp only [deliver]
    split
    . rfl
    . exact (h.terminate_isOver s).symm
  | binary => rfl
  | close => exact (h.close_isOver _ _ s).symm
  | ping => rfl
  | pong => rfl

theorem settle_deliver (data : List UInt8) (opCode : OpCode) (s : σ) (a : Assembler σ)
    : settle (deliver h data opCode s) a
        =
      if h.isOver (deliver h data opCode s).2 then
        .inl (deliver h data opCode s).2
      else
        .inr { a with socket := (deliver h data opCode s).2 } := by
  rw [settle, deliver_isOver]

theorem isOver_of_handleFrame_inl {a : Assembler σ} {payload : List UInt8} {fin : Bool} {s : σ}
    (hframe : a.handleFrame h payload fin = .inl s)
    : h.isOver s = true := by
  have hsettle : ∀ data opCode a', settle (deliver h data opCode a.socket) a' = .inl s
      → h.isOver s = true := by
    intro data opCode a' hsettle
    rw [settle_deliver] at hsettle
    split at hsettle
    . next hover =>
      cases hsettle
      exact hover
    . cases hsettle
  unfold Assembler.handleFrame at hframe
  split at hframe
  . cases hframe
  . split at hframe
    . split at hframe
      . exact hsettle _ _ _ hframe
      . cases hframe
    . exact hsettle _ _ _ hframe

theorem isOver_of_handleFrame_inr {a a' : Assembler σ} {payload : List UInt8} {fin : Bool}
    (hlive : h.isOver a.socket = false) (hframe : a.handleFrame h payload fin = .inr a')
    : h.isOver a'.socket = false := by
  have hsettle : ∀ data opCode a'', settle (deliver h data opCode a.socket) a'' = .inr a'
      → h.isOver a'.socket = false := by
    intro data opCode a'' hsettle
    rw [settle_deliver] at hsettle
    split at hsettle
    . cases hsettle
    . next hover =>
      cases hsettle
      exact Bool.not_eq_true _ ▸ hover
  unfold Assembler.handleFrame at hframe
  split at hframe
  . cases hframe
    exact hlive
  . split at hframe
    . split at hframe
      . exact hsettle _ _ _ hframe
      . cases hframe
        exact hlive
    . exact hsettle _ _ _ hframe

variable {h}

theorem handleMessage_eq {r : Receiver σ} (hdisabled : r.compressionStatus = .disabled) (data : List UInt8)
    {opCode : OpCode} (hdata : opCode.toByte < 3)
    : handleMessage h data opCode r
        =
      ((deliver h data opCode r.socket).1, { r with socket := (deliver h data opCode r.socket).2 }) := by
  have hinflate : inflateMessage h data r = (some data, r) := by
    unfold inflateMessage
    rw [if_neg (by rw [hdisabled]; decide)]
  unfold handleMessage
  rw [hinflate]
  cases opCode with
  | text =>
    cases hvalid : isValidUtf8 data with
    | true => simp [deliver, hvalid]
    | false => simp [deliver, hvalid, forceClose]
  | binary => simp [deliver]
  | close | ping | pong => exact absurd hdata (by decide)

theorem handleControl_eq (data : List UInt8) {opCode : OpCode} (r : Receiver σ)
    (hcontrol : ¬ opCode.toByte < 3)
    : handleControl h data opCode r
        =
      ((deliver h data opCode r.socket).1, { r with socket := (deliver h data opCode r.socket).2 }) := by
  cases opCode with
  | text | binary => exact absurd (by decide) hcontrol
  | close | ping | pong => rfl

section

variable {r : Receiver σ} {a : Assembler σ} {part : List UInt8} {c : OpCode} {opened : List OpCode}

theorem Assembled.toNat_add (hassembled : Assembled r a part) (hopened : a.opened = c :: opened)
    (hcontrol : ¬ c.toByte < 3) {data : List UInt8} (hsmall : part.length + data.length < 256)
    : (r.controlTipLength + UInt8.ofNat data.length).toNat = (part ++ data).length := by
  have htip := hassembled.controlTipLength
  rw [hopened, tipLength, if_neg hcontrol] at htip
  rw [UInt8.toNat_add, UInt8.toNat_ofNat', htip, List.length_append]
  omega

theorem handleFragment_part (hassembled : Assembled r a part) (hopened : a.opened = c :: opened)
    (data : List UInt8) {remainingBytes : Nat} (hremaining : remainingBytes ≠ 0) (fin : Bool)
    (hcontrol : ¬ c.toByte < 3 → part.length + data.length < 256)
    : ∃ r', handleFragment h data remainingBytes c fin r = (false, r')
        ∧ Assembled r' a (part ++ data) ∧ r'.state = r.state := by
  have htip := hassembled.controlTipLength
  have hbuffer : r.fragmentBuffer ++ data = a.message ++ (part ++ data) := by
    rw [hassembled.fragmentBuffer, List.append_assoc]
  unfold handleFragment
  by_cases hdata : c.toByte < 3
  . rw [if_pos hdata, if_neg (by simp [hremaining])]
    dsimp only
    rw [if_neg (by simp [hremaining])]
    refine ⟨_, rfl, ⟨hassembled.socket, hbuffer, hassembled.disabled, ?_⟩, rfl⟩
    rw [hopened, tipLength, if_pos hdata] at htip ⊢
    exact htip
  . rw [if_neg hdata, if_neg (by simp [hremaining])]
    dsimp only
    rw [if_neg (by simp [hremaining])]
    refine ⟨_, rfl, ⟨hassembled.socket, hbuffer, hassembled.disabled, ?_⟩, rfl⟩
    rw [hopened, tipLength, if_neg hdata]
    exact hassembled.toNat_add hopened hdata (hcontrol hdata)

def Completes (r : Receiver σ) (res : Bool × Receiver σ) (whole : σ ⊕ Assembler σ) : Prop :=
  match whole with
  | .inl s => res.1 = true ∧ res.2.socket = s
  | .inr a => res.1 = false ∧ Assembled res.2 a [] ∧ res.2.state = r.state

theorem completes_settle {data : List UInt8} {s : σ} {r₁ : Receiver σ} {a' : Assembler σ}
    {res : Bool × Receiver σ}
    (hres : res = ((deliver h data c s).1, { r₁ with socket := (deliver h data c s).2 }))
    (hbuffer : r₁.fragmentBuffer = a'.message) (hdisabled : r₁.compressionStatus = .disabled)
    (htip : r₁.controlTipLength = 0) (hstate : r₁.state = r.state)
    : Completes r res (settle (deliver h data c s) a') := by
  subst hres
  unfold settle
  split
  . next hover => exact ⟨hover, rfl⟩
  . next hover =>
    refine ⟨Bool.eq_false_iff.mpr hover, ⟨rfl, ?_, hdisabled, ?_⟩, hstate⟩
    . rw [List.append_nil]
      exact hbuffer
    . rw [tipLength_nil]
      exact congrArg UInt8.toNat htip

theorem handleFragment_data (hassembled : Assembled r a part) (hopened : a.opened = c :: opened)
    (hdata : c.toByte < 3) (data : List UInt8) (fin : Bool)
    : Completes r (handleFragment h data 0 c fin r) (a.handleFrame h (part ++ data) fin) := by
  have htip : r.controlTipLength = 0 := by
    have := hassembled.controlTipLength
    rw [hopened, tipLength, if_pos hdata] at this
    exact UInt8.toNat.inj this
  have hbuffer : r.fragmentBuffer ++ data = a.message ++ (part ++ data) := by
    rw [hassembled.fragmentBuffer, List.append_assoc]
  simp only [Assembler.handleFrame, hopened, if_pos hdata]
  unfold handleFragment
  rw [if_pos hdata]
  cases fin with
  | false =>
    simp only [Bool.false_eq_true, false_and, and_false, if_false]
    refine ⟨rfl, ⟨hassembled.socket, ?_, hassembled.disabled, ?_⟩, rfl⟩
    . rw [List.append_nil]
      exact hbuffer
    . rw [tipLength_nil, htip]
      rfl
  | true =>
    simp only [true_and, if_true]
    split
    . next hempty =>
      rw [List.length_eq_zero_iff] at hempty
      rw [hempty, List.nil_append] at hbuffer
      rw [← hbuffer, ← hassembled.socket]
      exact completes_settle (handleMessage_eq hassembled.disabled data hdata) hempty hassembled.disabled
        htip rfl
    . rw [handleMessage_eq (r := { r with fragmentBuffer := r.fragmentBuffer ++ data }) hassembled.disabled _
        hdata]
      rw [hbuffer, hassembled.socket]
      cases hdeliver : deliver h (a.message ++ (part ++ data)) c a.socket with
      | mk ended s =>
        cases ended with
        | true => exact ⟨rfl, rfl⟩
        | false =>
          refine ⟨rfl, ⟨rfl, rfl, hassembled.disabled, ?_⟩, rfl⟩
          rw [tipLength_nil, htip]
          rfl

theorem handleFragment_control (hassembled : Assembled r a part) (hopened : a.opened = c :: opened)
    (hcontrol : ¬ c.toByte < 3) {data : List UInt8} (hsmall : part.length + data.length < 256)
    : Completes r (handleFragment h data 0 c true r) (a.handleFrame h (part ++ data) true) := by
  have htip := hassembled.controlTipLength
  rw [hopened, tipLength, if_neg hcontrol] at htip
  simp only [Assembler.handleFrame, hopened, if_neg hcontrol]
  unfold handleFragment
  rw [if_neg hcontrol]
  simp only [true_and]
  split
  . next hzero =>
    rw [hzero] at htip
    have hpart : part = [] := List.length_eq_zero_iff.mp htip.symm
    rw [hpart, List.nil_append, ← hassembled.socket]
    apply completes_settle (handleControl_eq data r hcontrol) _ hassembled.disabled hzero rfl
    rw [hassembled.fragmentBuffer, hpart, List.append_nil]
    rfl
  . have hlength := hassembled.toNat_add hopened hcontrol hsmall
    have hbuffer : r.fragmentBuffer ++ data = a.message ++ (part ++ data) := by
      rw [hassembled.fragmentBuffer, List.append_assoc]
    have hstart : (a.message ++ (part ++ data)).length - (part ++ data).length = a.message.length := by
      rw [List.length_append]
      omega
    simp only [if_true, hlength, hbuffer, hstart, List.drop_left]
    rw [handleControl_eq _ _ hcontrol, hassembled.socket]
    dsimp only
    cases hdeliver : deliver h (part ++ data) c a.socket with
    | mk ended s =>
      cases ended with
      | true => exact ⟨rfl, rfl⟩
      | false =>
        refine ⟨rfl, ⟨rfl, ?_, hassembled.disabled, ?_⟩, rfl⟩
        . exact List.take_left.trans (List.append_nil _).symm
        . rw [tipLength_nil]
          rfl

end

section

variable {r : Receiver σ} {a entered a' : Assembler σ} {head : Head} {part : List UInt8} {c : OpCode}
  {opened : List OpCode}

theorem Entered.handleFragment_part (hentered : Entered a entered head c opened)
    (hassembled : Assembled r entered part) {data : List UInt8}
    (hlength : part.length + data.length ≤ head.payLength) {remainingBytes : Nat}
    (hremaining : remainingBytes ≠ 0) (fin : Bool)
    : ∃ r', handleFragment h data remainingBytes c fin r = (false, r')
        ∧ Assembled r' entered (part ++ data) ∧ r'.state = r.state := by
  apply WebSocketProtocol.handleFragment_part hassembled hentered.opened_eq data hremaining
  intro hcontrol
  have := (hentered.control hcontrol).2
  omega

theorem Entered.handleFragment_completes (hentered : Entered a entered head c opened)
    (hassembled : Assembled r entered part) {data : List UInt8}
    (hlength : part.length + data.length ≤ head.payLength)
    : Completes r (handleFragment h data 0 c head.fin r)
        (entered.handleFrame h (part ++ data) head.fin) := by
  by_cases hdata : c.toByte < 3
  . exact handleFragment_data hassembled hentered.opened_eq hdata data head.fin
  . obtain ⟨hfin, hshort⟩ := hentered.control hdata
    rw [hfin]
    exact handleFragment_control hassembled hentered.opened_eq hdata (by omega)

theorem Entered.opened_of_handleFrame (hentered : Entered a entered head c opened) {payload : List UInt8}
    (hframe : entered.handleFrame h payload head.fin = .inr a')
    : a'.opened = (if head.fin then opened else c :: opened) ∧ a'.lastFin = entered.lastFin := by
  have hclosed : entered.closeMessage.opened = opened := by
    simp [Assembler.closeMessage, hentered.opened_eq]
  have hsettle : ∀ data a'' s, a''.opened = opened → a''.lastFin = entered.lastFin
      → settle (deliver h data c s) a'' = .inr a' → a'.opened = opened ∧ a'.lastFin = entered.lastFin := by
    intro data a'' s hopened hlastFin hsettle
    unfold settle at hsettle
    split at hsettle
    . cases hsettle
    . cases hsettle
      exact ⟨hopened, hlastFin⟩
  simp only [Assembler.handleFrame, hentered.opened_eq] at hframe
  split at hframe
  . cases hfin : head.fin with
    | true =>
      rw [hfin, if_pos rfl] at hframe
      exact hsettle _ { entered.closeMessage with message := [] } _ hclosed rfl hframe
    | false =>
      rw [hfin, if_neg Bool.false_ne_true] at hframe
      cases hframe
      exact ⟨rfl, rfl⟩
  . next hcontrol =>
    rw [(hentered.control hcontrol).1, if_pos rfl]
    exact hsettle _ _ _ hclosed rfl hframe

theorem Entered.opensData_of_handleFrame (hentered : Entered a entered head c opened)
    {payload : List UInt8} (hframe : entered.handleFrame h payload head.fin = .inr a')
    : OpensData a' := by
  have hopened := (hentered.opened_of_handleFrame hframe).1
  unfold OpensData
  rw [hopened]
  split
  . exact hentered.opensData
  . next hfin =>
    rw [List.forall_mem_cons]
    refine ⟨?_, hentered.opensData⟩
    by_contra hcontrol
    exact hfin (hentered.control hcontrol).1

theorem Entered.nested_of_handleFrame (hentered : Entered a entered head c opened) {payload : List UInt8}
    {state : State} (hnested : Nested state entered)
    (hframe : entered.handleFrame h payload head.fin = .inr a')
    : Nested (if head.fin then state.pop else state) a' := by
  obtain ⟨hopened, hlastFin⟩ := hentered.opened_of_handleFrame hframe
  split
  . next hfin =>
    have hpop := hnested.pop (by simp [hentered.opened_eq])
    have hclosed : entered.closeMessage.opened = opened := by
      simp [Assembler.closeMessage, hentered.opened_eq]
    rw [if_pos hfin, ← hclosed] at hopened
    constructor
    . rw [hopened]
      exact hpop.opStack
    . rw [hopened]
      exact hpop.holds
    . rw [hlastFin]
      exact hpop.lastFin
  . next hfin =>
    rw [if_neg hfin, ← hentered.opened_eq] at hopened
    constructor
    . rw [hopened]
      exact hnested.opStack
    . rw [hopened]
      exact hnested.holds
    . rw [hlastFin]
      exact hnested.lastFin

end

end

end WebSocketProtocol
