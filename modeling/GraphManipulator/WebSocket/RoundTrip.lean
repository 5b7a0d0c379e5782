import GraphManipulator.WebSocket.Calls

/-!
This module contains that the messages that one side writes are the messages that the handlers of the other side
get.
-/

namespace FrameStream

open WebSocketProtocol

def codeByte (code : Option OpCode) : UInt8 :=
  match code with
  | some opCode => opCode.toByte
  | none => 0

def encodeLength (fin : Bool) (code : Option OpCode) (length : Nat) (maskBit : UInt8) : List UInt8 :=
  let b0 : UInt8 := (if fin then 128 else 0) ||| codeByte code
  if length < 126 then
    [b0, UInt8.ofNat length ||| maskBit]
  else if length ≤ 65535 then
    [b0, 126 ||| maskBit] ++ BigEndian.encode 2 length
  else
    [b0, 127 ||| maskBit] ++ BigEndian.encode 8 length

def encodeFrame (sender : Bool) (fin : Bool) (code : Option OpCode) (payload : List UInt8) (mask : Mask)
    : List UInt8 :=
  if sender then
    encodeLength fin code payload.length 0 ++ payload
  else
    encodeLength fin code payload.length 0x80 ++ [mask 0, mask 1, mask 2, mask 3] ++ mask.unmask payload

theorem formatMessage_eq_encodeFrame (sender : Bool) (data : List UInt8) (opCode : OpCode) (mask : Mask)
    : formatMessage sender data opCode data.length false mask
        =
      encodeFrame sender true (some opCode) data mask := by
  cases sender <;> rfl

theorem firstByte (fin : Bool) (code : Option OpCode)
    : let b0 : UInt8 := (if fin then 128 else 0) ||| codeByte code
      b0 &&& 15 = codeByte code ∧ b0 &&& 48 = 0 ∧ b0 &&& 64 = 0 ∧ (decide (b0 &&& 128 ≠ 0)) = fin := by
  cases fin with
  | false =>
    cases code with
    | none => decide
    | some opCode => cases opCode <;> decide
  | true =>
    cases code with
    | none => decide
    | some opCode => cases opCode <;> decide

theorem secondByte {n : Nat} (h : n < 128)
    : ((UInt8.ofNat n ||| 0) &&& 127).toNat = n ∧ ((UInt8.ofNat n ||| 0x80) &&& 127).toNat = n := by
  revert n
  decide +kernel

theorem encodeLength_eq (fin : Bool) (code : Option OpCode) {length : Nat} (hlength : length < 256 ^ 8)
    {maskBit : UInt8} (hmaskBit : maskBit = 0 ∨ maskBit = 0x80)
    : ∃ b1 ext, encodeLength fin code length maskBit
          = ((if fin then 128 else 0) ||| codeByte code) :: b1 :: ext
        ∧ (∀ isServer more, lengths isServer b1 (ext ++ more)
          = (2 + ext.length + (if isServer then 4 else 0), length))
        ∧ (length ≤ 125 → (b1 &&& 127).toNat ≤ 125) := by
  have hsecond : ∀ {n : Nat}, n < 128 → ((UInt8.ofNat n ||| maskBit) &&& 127).toNat = n := by
    intro n hn
    obtain rfl | rfl := hmaskBit
    . exact (secondByte hn).1
    . exact (secondByte hn).2
  unfold encodeLength
  by_cases hshort : length < 126
  . have hb1 := hsecond (n := length) (by omega)
    rw [if_pos hshort]
    refine ⟨_, [], rfl, ?_, fun h => by rwa [hb1]⟩
    intro isServer more
    rw [lengths, hb1, if_pos hshort]
    cases isServer <;> rfl
  . rw [if_neg hshort]
    by_cases hmedium : length ≤ 65535
    . have hfits : length < 256 ^ 2 := by omega
      have hb1 := hsecond (n := 126) (by omega)
      rw [if_pos hmedium]
      refine ⟨126 ||| maskBit, BigEndian.encode 2 length, rfl, ?_, fun h => by omega⟩
      intro isServer more
      have htake : (BigEndian.encode 2 length ++ more).take 2 = BigEndian.encode 2 length :=
        List.take_left' (BigEndian.length_encode 2 length)
      have hcode : ((126 ||| maskBit) &&& 127).toNat = 126 := hb1
      rw [lengths, hcode, if_neg (by omega), if_pos rfl, htake, BigEndian.decode_encode hfits]
      cases isServer <;> rfl
    . have hb1 := hsecond (n := 127) (by omega)
      rw [if_neg hmedium]
      refine ⟨127 ||| maskBit, BigEndian.encode 8 length, rfl, ?_, fun h => by omega⟩
      intro isServer more
      have htake : (BigEndian.encode 8 length ++ more).take 8 = BigEndian.encode 8 length :=
        List.take_left' (BigEndian.length_encode 8 length)
      have hcode : ((127 ||| maskBit) &&& 127).toNat = 127 := hb1
      rw [lengths, hcode, if_neg (by omega), if_neg (by omega), htake, BigEndian.decode_encode hlength]
      cases isServer <;> rfl

structure IsFrame (fin : Bool) (code : Option OpCode) (payload : List UInt8) : Prop where
  length : payload.length < 256 ^ 8
  control : ∀ opCode ∈ code, ¬ opCode.toByte < 3 → fin = true ∧ payload.length ≤ 125

theorem isInvalid_eq_false {fin : Bool} {code : Option OpCode} {payload : List UInt8}
    (hframe : IsFrame fin code payload) {b1 : UInt8}
    (hb1 : payload.length ≤ 125 → (b1 &&& 127).toNat ≤ 125)
    : isInvalid ((if fin then 128 else 0) ||| codeByte code) b1 = false := by
  obtain ⟨hcode, hrsv23, hrsv1, hfin⟩ := firstByte fin code
  rw [isInvalid]
  simp only [hcode, hrsv23, hrsv1, hfin]
  cases code with
  | none => simp [codeByte]
  | some opCode =>
    have hcontrol := hframe.control opCode rfl
    cases opCode with
    | text | binary => simp [codeByte, OpCode.toByte]
    | close | ping | pong =>
      obtain ⟨hfin, hshort⟩ := hcontrol (by decide)
      have hlength := hb1 hshort
      generalize (b1 &&& 127).toNat = n at hlength
      simp [codeByte, OpCode.toByte, hfin, hlength]

section

variable {fin : Bool} {code : Option OpCode} {payload : List UInt8} {mask : Mask}

theorem nextHead_encodeFrame_server (hframe : IsFrame fin code payload) (mask : Mask) (more : List UInt8)
    : ∃ messageHeader,
        nextHead false (encodeFrame true fin code payload mask ++ more)
            = .head ⟨fin, codeByte code, messageHeader, payload.length, fun _ => 0⟩
          ∧ (encodeFrame true fin code payload mask ++ more).drop messageHeader = payload ++ more := by
  obtain ⟨b1, ext, hencode, hlengths, hb1⟩ := encodeLength_eq fin code hframe.length (.inl rfl)
  obtain ⟨hcode, -, -, hfin⟩ := firstByte fin code
  have hlengths := hlengths false (payload ++ more)
  rw [if_neg Bool.false_ne_true] at hlengths
  have hbytes : encodeFrame true fin code payload mask ++ more
      = ((if fin then 128 else 0) ||| codeByte code) :: b1 :: (ext ++ (payload ++ more)) := by
    rw [encodeFrame, if_pos rfl, hencode]
    simp
  refine ⟨2 + ext.length + 0, ?_, ?_⟩
  . rw [hbytes, nextHead, if_neg (by simp [shortMessageHeader]),
      if_neg (by rw [isInvalid_eq_false hframe hb1]; simp), hlengths]
    dsimp only
    rw [if_neg (by simp; omega), hcode, hfin]
    rfl
  . rw [hbytes, Nat.add_zero, Nat.add_comm]
    simp

theorem maskOf_append_mask (l : List UInt8) (mask : Mask) (more : List UInt8)
    : maskOf true (l ++ ([mask 0, mask 1, mask 2, mask 3] ++ more)) (l.length + 4) = mask := by
  unfold maskOf
  rw [if_pos rfl]
  funext i
  rw [Nat.add_sub_cancel, List.getD_eq_getElem?_getD, List.getElem?_append_right (Nat.le_add_right _ _),
    Nat.add_sub_cancel_left]
  match i with
  | 0 | 1 | 2 | 3 => rfl

theorem nextHead_encodeFrame_client (hframe : IsFrame fin code payload) (mask : Mask) (more : List UInt8)
    : ∃ messageHeader,
        nextHead true (encodeFrame false fin code payload mask ++ more)
            = .head ⟨fin, codeByte code, messageHeader, payload.length, mask⟩
          ∧ (encodeFrame false fin code payload mask ++ more).drop messageHeader
            = mask.unmask payload ++ more := by
  obtain ⟨b1, ext, hencode, hlengths, hb1⟩ := encodeLength_eq fin code hframe.length (.inr rfl)
  obtain ⟨hcode, -, -, hfin⟩ := firstByte fin code
  have hbytes : encodeFrame false fin code payload mask ++ more
      = ((if fin then 128 else 0) ||| codeByte code) :: b1
          :: (ext ++ ([mask 0, mask 1, mask 2, mask 3] ++ (mask.unmask payload ++ more))) := by
    rw [encodeFrame, if_neg Bool.false_ne_true, hencode]
    simp
  have hlengths := hlengths true ([mask 0, mask 1, mask 2, mask 3] ++ (mask.unmask payload ++ more))
  rw [if_pos rfl] at hlengths
  have hmask := maskOf_append_mask (((if fin then 128 else 0) ||| codeByte code) :: b1 :: ext) mask
    (mask.unmask payload ++ more)
  have hheader : (((if fin then 128 else 0) ||| codeByte code) :: b1 :: ext).length + 4
      = 2 + ext.length + 4 := by
    rw [List.length_cons, List.length_cons]
    omega
  rw [hheader] at hmask
  refine ⟨2 + ext.length + 4, ?_, ?_⟩
  . rw [hbytes, nextHead, if_neg (by simp [shortMessageHeader]; omega),
      if_neg (by rw [isInvalid_eq_false hframe hb1]; simp), hlengths]
    dsimp only
    rw [if_neg (by simp; omega), hcode, hfin]
    rw [List.cons_append, List.cons_append] at hmask
    rw [hmask]
  . rw [hbytes, ← hheader, ← List.cons_append, ← List.cons_append, ← List.drop_drop, List.drop_left]
    rfl

theorem step_encodeFrame {σ : Type} {h : Handlers σ} (sender : Bool) (mask : Mask)
    (hframe : IsFrame fin code payload) (hlength : payload.length ≤ h.maxPayload.toNat) {a entered : Assembler σ}
    (henter : a.enterFrame (codeByte code) fin = some entered) (more : List UInt8)
    : step h (!sender) (encodeFrame sender fin code payload mask ++ more) a
        =
      match entered.handleFrame h payload fin with
      | .inl s => .finish s
      | .inr a => .next a more := by
  have haccepted : refusePayloadLength h payload.length = false :=
    decide_eq_false (Nat.not_lt.mpr hlength)
  -- the two directions differ in the mask only
  have hstep : ∀ {bytes : List UInt8} {messageHeader : Nat} {mask : Mask},
      nextHead (!sender) bytes = .head ⟨fin, codeByte code, messageHeader, payload.length, mask⟩
        → bytes.drop messageHeader = mask.unmask payload ++ more
        → step h (!sender) bytes a
            =
          match entered.handleFrame h payload fin with
          | .inl s => .finish s
          | .inr a => .next a more := by
    intro bytes messageHeader mask hhead hdrop
    have hle := (bounds_of_nextHead hhead).2
    have hbytes : bytes.length = messageHeader + (payload.length + more.length) := by
      have := congrArg List.length hdrop
      rw [List.length_drop, List.length_append, CyclicMask.length_unmask] at this
      dsimp only at hle
      omega
    have htake : (mask.unmask payload ++ more).take payload.length = mask.unmask payload :=
      List.take_left' (CyclicMask.length_unmask mask payload)
    have hrest : (mask.unmask payload ++ more).drop payload.length = more :=
      List.drop_left' (CyclicMask.length_unmask mask payload)
    rw [step_of_head h (!sender) hhead henter haccepted]
    dsimp only
    rw [if_neg (by omega), hdrop, htake, CyclicMask.unmask_unmask, ← List.drop_drop, hdrop]
    exact hrest.symm ▸ rfl
  cases sender with
  | true =>
    obtain ⟨messageHeader, hhead, hdrop⟩ := nextHead_encodeFrame_server hframe mask more
    exact hstep hhead (by rw [hdrop, CyclicMask.unmask_zero])
  | false =>
    obtain ⟨messageHeader, hhead, hdrop⟩ := nextHead_encodeFrame_client hframe mask more
    exact hstep hhead hdrop

end

structure Message where
  opCode : OpCode
  data : List UInt8

structure Fragment where
  payload : List UInt8
  mask : Mask
  controls : List (Message × Mask)

/--
A message as it is sent: whole, or in fragments with control messages between them
-/
structure Transmission where
  opCode : OpCode
  fragments : List Fragment := []
  last : List UInt8
  mask : Mask

def encodeMessage (sender : Bool) (message : Message × Mask) : List UInt8 :=
  formatMessage sender message.1.data message.1.opCode message.1.data.length false message.2

def encodeFragments (sender : Bool) (code : Option OpCode) (fragments : List Fragment)
    (last : List UInt8) (mask : Mask) : List UInt8 :=
  match fragments with
  | [] => encodeFrame sender true code last mask
  | fragment :: fragments =>
    encodeFrame sender false code fragment.payload fragment.mask
      ++ (fragment.controls.flatMap (encodeMessage sender) ++ encodeFragments sender none fragments last mask)

def Transmission.encode (sender : Bool) (t : Transmission) : List UInt8 :=
  encodeFragments sender (some t.opCode) t.fragments t.last t.mask

/--
The messages in the order in which they are complete
-/
def Transmission.messages (t : Transmission) : List Message :=
  t.fragments.flatMap (fun fragment => fragment.controls.map Prod.fst)
    ++ [{ opCode := t.opCode, data := t.fragments.flatMap Fragment.payload ++ t.last }]

section

variable {σ : Type} (h : Handlers σ)

/--
The handlers for the messages one after the other, as long as the socket goes on
-/
def handleAll (messages : List Message) (s : σ) : σ :=
  match messages with
  | [] => s
  | message :: messages =>
    if h.isOver s then s else handleAll messages (deliver h message.data message.opCode s).2

structure Message.Fits (message : Message) : Prop where
  length : message.data.length ≤ h.maxPayload.toNat
  control : ¬ message.opCode.toByte < 3 → message.data.length ≤ 125

structure Fragment.Fits (fragment : Fragment) : Prop where
  length : fragment.payload.length ≤ h.maxPayload.toNat
  controls : ∀ control ∈ fragment.controls, control.1.Fits h ∧ ¬ control.1.opCode.toByte < 3

structure Transmission.Fits (t : Transmission) : Prop where
  data : t.fragments ≠ [] → t.opCode.toByte < 3
  fragments : ∀ fragment ∈ t.fragments, fragment.Fits h
  last : Message.Fits h ⟨t.opCode, t.last⟩

variable {h}

theorem handleAll_of_over {s : σ} (hover : h.isOver s = true) (messages : List Message)
    : handleAll h messages s = s := by
  cases messages with
  | nil => rfl
  | cons message messages => rw [handleAll, if_pos hover]

theorem handleAll_append (messages messages' : List Message) (s : σ)
    : handleAll h (messages ++ messages') s = handleAll h messages' (handleAll h messages s) := by
  induction messages generalizing s with
  | nil => rfl
  | cons message messages ih =>
    rw [List.cons_append, handleAll, handleAll]
    split
    . next hover => rw [handleAll_of_over hover]
    . rw [ih]

theorem length_lt (h : Handlers σ) {payload : List UInt8} (hlength : payload.length ≤ h.maxPayload.toNat)
    : payload.length < 256 ^ 8 := by
  have := h.maxPayload.toNat_lt
  omega

def after (h : Handlers σ) (isServer : Bool) (s : σ) (more : List UInt8)
    : Incremental.Progress UInt8 (Assembler σ) σ :=
  if h.isOver s then .finished s else (frames h isServer).decode more { socket := s }

def inside (opCode : OpCode) (part : List UInt8) (lastFin : Bool) (s : σ) : Assembler σ where
  opened := [opCode]
  depth := by simp
  lastFin := lastFin
  message := part
  socket := s

theorem decode_encodeFrame {sender fin : Bool} {code : Option OpCode} {payload : List UInt8} {mask : Mask}
    (hframe : IsFrame fin code payload) (hlength : payload.length ≤ h.maxPayload.toNat)
    {a entered : Assembler σ} (henter : a.enterFrame (codeByte code) fin = some entered)
    (more : List UInt8)
    : (frames h (!sender)).decode (encodeFrame sender fin code payload mask ++ more) a
        =
      match entered.handleFrame h payload fin with
      | .inl s => .finished s
      | .inr a => (frames h (!sender)).decode more a := by
  have hstep := step_encodeFrame sender mask hframe hlength henter more
  cases hhandle : entered.handleFrame h payload fin with
  | inl s =>
    rw [hhandle] at hstep
    exact Incremental.decode_of_finish _ hstep
  | inr a' =>
    rw [hhandle] at hstep
    exact Incremental.decode_of_next _ hstep

theorem decode_settled {sender fin : Bool} {code : Option OpCode} {payload : List UInt8} {mask : Mask}
    (hframe : IsFrame fin code payload) (hlength : payload.length ≤ h.maxPayload.toNat)
    {a entered next : Assembler σ} (henter : a.enterFrame (codeByte code) fin = some entered) {s : σ}
    (hsettle : entered.handleFrame h payload fin = if h.isOver s then .inl s else .inr next) (more : List UInt8)
    : (frames h (!sender)).decode (encodeFrame sender fin code payload mask ++ more) a
        =
      if h.isOver s then
        .finished s
      else
        (frames h (!sender)).decode more next := by
  rw [decode_encodeFrame hframe hlength henter, hsettle]
  by_cases hover : h.isOver s = true
  . rw [if_pos hover, if_pos hover]
  . rw [if_neg hover, if_neg hover]

theorem enterFrame_some {a : Assembler σ} {opCode : OpCode} (fin : Bool) (hdepth : a.opened.length + 1 ≤ 2)
    (hfirst : a.lastFin = true ∨ ¬ opCode.toByte < 3)
    : a.enterFrame (codeByte (some opCode)) fin
        =
      some { a with opened := opCode :: a.opened, depth := hdepth, lastFin := fin } := by
  have hcode : codeByte (some opCode) ≠ 0 := by cases opCode <;> decide
  have hcast : OpCode.ofByte (codeByte (some opCode)) = opCode := by cases opCode <;> rfl
  have hallowed : ¬ (a.opened.length = 2 ∨ (a.lastFin = false ∧ codeByte (some opCode) < 2)) := by
    rintro (htwo | ⟨hlastFin, htext⟩)
    . omega
    . obtain hfin | hcontrol := hfirst
      . rw [hlastFin] at hfin
        cases hfin
      . apply hcontrol
        exact UInt8.lt_trans htext (by decide)
  simp only [Assembler.enterFrame, if_pos hcode, dif_neg hallowed, hcast]

theorem decode_control (sender : Bool) {c : Message × Mask} (hfits : c.1.Fits h)
    (hcontrol : ¬ c.1.opCode.toByte < 3) {a : Assembler σ} (hdepth : a.opened.length + 1 ≤ 2)
    (more : List UInt8)
    : let s := (deliver h c.1.data c.1.opCode a.socket).2
      (frames h (!sender)).decode (encodeMessage sender c ++ more) a
        =
      if h.isOver s then
        .finished s
      else
        (frames h (!sender)).decode more { a with lastFin := true, socket := s } := by
  have hframe : IsFrame true (some c.1.opCode) c.1.data := by
    refine ⟨length_lt h hfits.length, ?_⟩
    rintro opCode ⟨⟩ hcontrol
    exact ⟨rfl, hfits.control hcontrol⟩
  dsimp only
  rw [encodeMessage, formatMessage_eq_encodeFrame]
  apply decode_settled hframe hfits.length (enterFrame_some true hdepth (.inr hcontrol))
  simp only [Assembler.handleFrame, if_neg hcontrol, settle_deliver, Assembler.closeMessage, List.tail_cons]

theorem decode_controls (sender : Bool) {controls : List (Message × Mask)}
    (hcontrols : ∀ control ∈ controls, control.1.Fits h ∧ ¬ control.1.opCode.toByte < 3) (opCode : OpCode)
    (part : List UInt8) (lastFin : Bool) {s : σ} (hlive : h.isOver s = false) (more : List UInt8)
    : let s' := handleAll h (controls.map Prod.fst) s
      ∃ lastFin',
        (frames h (!sender)).decode (controls.flatMap (encodeMessage sender) ++ more)
            (inside opCode part lastFin s)
          =
        if h.isOver s' then
          .finished s'
        else
          (frames h (!sender)).decode more (inside opCode part lastFin' s') := by
  induction controls generalizing lastFin s with
  | nil =>
    refine ⟨lastFin, ?_⟩
    simp only [List.map_nil, handleAll, hlive, List.flatMap_nil, List.nil_append]
    rfl
  | cons control controls ih =>
    rw [List.forall_mem_cons] at hcontrols
    have hfirst : (frames h (!sender)).decode
          (encodeMessage sender control ++ (controls.flatMap (encodeMessage sender) ++ more))
          (inside opCode part lastFin s)
        =
      if h.isOver (deliver h control.1.data control.1.opCode s).2 then
        .finished (deliver h control.1.data control.1.opCode s).2
      else
        (frames h (!sender)).decode (controls.flatMap (encodeMessage sender) ++ more)
          (inside opCode part true (deliver h control.1.data control.1.opCode s).2) :=
      decode_control sender (a := inside opCode part lastFin s) hcontrols.1.1 hcontrols.1.2 (Nat.le_refl 2) _
    have hall : handleAll h ((control :: controls).map Prod.fst) s
        = handleAll h (controls.map Prod.fst) (deliver h control.1.data control.1.opCode s).2 := by
      rw [List.map_cons, handleAll, if_neg (by simp [hlive])]
    dsimp only
    rw [List.flatMap_cons, List.append_assoc, hfirst, hall]
    by_cases hover : h.isOver (deliver h control.1.data control.1.opCode s).2 = true
    . refine ⟨lastFin, ?_⟩
      rw [handleAll_of_over hover, if_pos hover, if_pos hover]
    . obtain ⟨lastFin', hrest⟩ := ih hcontrols.2 true (Bool.eq_false_iff.mpr hover)
      refine ⟨lastFin', ?_⟩
      rw [if_neg hover]
      exact hrest

theorem decode_last {sender : Bool} {code : Option OpCode} {opCode : OpCode} (part : List UInt8)
    {last : List UInt8} {mask : Mask} (hdata : opCode.toByte < 3) (hlength : last.length ≤ h.maxPayload.toNat)
    {a : Assembler σ} (hcode : ∀ c ∈ code, c.toByte < 3)
    (henter : a.enterFrame (codeByte code) true = some (inside opCode part true a.socket))
    (more : List UInt8)
    : (frames h (!sender)).decode (encodeFrame sender true code last mask ++ more) a
        =
      after h (!sender) (deliver h (part ++ last) opCode a.socket).2 more := by
  have hframe : IsFrame true code last :=
    ⟨length_lt h hlength, fun c hc hcontrol => absurd (hcode c hc) hcontrol⟩
  apply decode_settled hframe hlength henter
  simp only [Assembler.handleFrame, inside, if_pos hdata, if_true, settle_deliver, Assembler.closeMessage,
    List.tail_cons]

theorem decode_goesOn {sender : Bool} {code : Option OpCode} {opCode : OpCode} (part : List UInt8)
    {payload : List UInt8} {mask : Mask} {s : σ} (hdata : opCode.toByte < 3)
    (hlength : payload.length ≤ h.maxPayload.toNat) {a : Assembler σ} (hcode : ∀ c ∈ code, c.toByte < 3)
    (henter : a.enterFrame (codeByte code) false = some (inside opCode part false s)) (more : List UInt8)
    : (frames h (!sender)).decode (encodeFrame sender false code payload mask ++ more) a
        =
      (frames h (!sender)).decode more (inside opCode (part ++ payload) false s) := by
  have hframe : IsFrame false code payload :=
    ⟨length_lt h hlength, fun c hc hcontrol => absurd (hcode c hc) hcontrol⟩
  rw [decode_encodeFrame hframe hlength henter]
  simp only [Assembler.handleFrame, inside, if_pos hdata, Bool.false_eq_true, if_false]

theorem decode_fragments {sender : Bool} {fragments : List Fragment} {opCode : OpCode} {last : List UInt8}
    {mask : Mask} (hdata : opCode.toByte < 3) (hfragments : ∀ fragment ∈ fragments, fragment.Fits h)
    (hlast : last.length ≤ h.maxPayload.toNat) (part : List UInt8) (lastFin : Bool) {s : σ}
    (hlive : h.isOver s = false) (more : List UInt8)
    : (frames h (!sender)).decode (encodeFragments sender none fragments last mask ++ more)
          (inside opCode part lastFin s)
        =
      after h (!sender)
        (handleAll h
          (fragments.flatMap (fun fragment => fragment.controls.map Prod.fst)
            ++ [{ opCode := opCode, data := part ++ (fragments.flatMap Fragment.payload ++ last) }])
          s)
        more := by
  induction fragments generalizing part lastFin s with
  | nil =>
    have hnone : ∀ c ∈ (none : Option OpCode), c.toByte < 3 := by simp
    rw [encodeFragments, decode_last part hdata hlast hnone rfl]
    simp only [List.flatMap_nil, List.nil_append, handleAll, hlive]
    rfl
  | cons fragment fragments ih =>
    rw [List.forall_mem_cons] at hfragments
    have hnone : ∀ c ∈ (none : Option OpCode), c.toByte < 3 := by simp
    obtain ⟨lastFin', hcontrols⟩ := decode_controls sender hfragments.1.controls opCode
      (part ++ fragment.payload) false hlive (encodeFragments sender none fragments last mask ++ more)
    rw [encodeFragments, List.append_assoc,
      decode_goesOn part (s := s) hdata hfragments.1.length hnone rfl, List.append_assoc, hcontrols]
    rw [List.flatMap_cons, List.append_assoc, handleAll_append, List.flatMap_cons]
    split
    . next hover => rw [handleAll_of_over hover, after, if_pos hover]
    . next hgoesOn =>
      rw [ih hfragments.2 (part ++ fragment.payload) lastFin' (Bool.eq_false_iff.mpr hgoesOn),
        List.append_assoc, List.append_assoc]

theorem decode_transmission {sender : Bool} {t : Transmission} (hfits : t.Fits h) {s : σ}
    (hlive : h.isOver s = false) (more : List UInt8)
    : (frames h (!sender)).decode (t.encode sender ++ more) { socket := s }
        =
      after h (!sender) (handleAll h t.messages s) more := by
  obtain ⟨opCode, fragments, last, mask⟩ := t
  obtain ⟨hdata, hfragments, hlast⟩ := hfits
  have hroom : ([] : List OpCode).length + 1 ≤ 2 := by decide
  have henter : ∀ fin, Assembler.enterFrame { socket := s } (codeByte (some opCode)) fin
      = some (inside opCode [] fin s) := fun fin =>
    enterFrame_some (a := { socket := s }) fin hroom (.inl rfl)
  cases fragments with
  | nil =>
    by_cases hcontrol : opCode.toByte < 3
    . have hcode : ∀ c ∈ some opCode, c.toByte < 3 := by
        rintro c ⟨⟩
        exact hcontrol
      rw [Transmission.encode, encodeFragments,
        decode_last [] (a := { socket := s }) hcontrol hlast.length hcode (henter true)]
      simp only [Transmission.messages, List.flatMap_nil, List.nil_append, handleAll, hlive]
      rfl
    . have hdecode := decode_control sender (c := (⟨opCode, last⟩, mask)) (a := { socket := s }) hlast hcontrol
        hroom more
      dsimp only at hdecode
      rw [encodeMessage, formatMessage_eq_encodeFrame] at hdecode
      rw [Transmission.encode, encodeFragments, hdecode]
      simp only [Transmission.messages, List.flatMap_nil, List.nil_append, handleAll, hlive, after]
      rfl
  | cons fragment fragments =>
    have hdata := hdata (by simp)
    rw [List.forall_mem_cons] at hfragments
    have hcode : ∀ c ∈ some opCode, c.toByte < 3 := by
      rintro c ⟨⟩
      exact hdata
    obtain ⟨lastFin', hcontrols⟩ := decode_controls sender hfragments.1.controls opCode
      ([] ++ fragment.payload) false hlive (encodeFragments sender none fragments last mask ++ more)
    rw [Transmission.encode, encodeFragments, List.append_assoc,
      decode_goesOn [] (a := { socket := s }) hdata hfragments.1.length hcode (henter false),
      List.append_assoc, hcontrols]
    simp only [Transmission.messages, List.flatMap_cons, List.append_assoc, handleAll_append]
    split
    . next hover => rw [handleAll_of_over hover, handleAll_of_over hover, after, if_pos hover]
    . next hgoesOn =>
      rw [decode_fragments hdata hfragments.2 hlast.length ([] ++ fragment.payload) lastFin'
        (Bool.eq_false_iff.mpr hgoesOn), handleAll_append, List.nil_append]

theorem decode_transmissions {sender : Bool} {ts : List Transmission} (hfits : ∀ t ∈ ts, t.Fits h) {s : σ}
    (hlive : h.isOver s = false) (more : List UInt8)
    : (frames h (!sender)).decode (ts.flatMap (Transmission.encode sender) ++ more) { socket := s }
        =
      after h (!sender) (handleAll h (ts.flatMap Transmission.messages) s) more := by
  induction ts generalizing s with
  | nil =>
    simp only [List.flatMap_nil, List.nil_append, handleAll, after, hlive]
    rfl
  | cons t ts ih =>
    rw [List.forall_mem_cons] at hfits
    rw [List.flatMap_cons, List.append_assoc, decode_transmission hfits.1 hlive, List.flatMap_cons,
      handleAll_append, after]
    split
    . next hover => rw [handleAll_of_over hover, after, if_pos hover]
    . next hgoesOn => exact ih hfits.2 (Bool.eq_false_iff.mpr hgoesOn)

/--
Behind the messages there may be a beginning of the next frame.
-/
theorem streamed_transmissions (sender : Bool) {ts : List Transmission} (hfits : ∀ t ∈ ts, t.Fits h)
    (part : List UInt8) (hpart : ∀ s, step h (!sender) part { socket := s } = .wait) (s : σ)
    : streamed h (!sender) (ts.flatMap (Transmission.encode sender) ++ part) s
        =
      handleAll h (ts.flatMap Transmission.messages) s := by
  unfold streamed
  split
  . next hover => rw [handleAll_of_over hover]
  . next hlive =>
    rw [decode_transmissions hfits (Bool.eq_false_iff.mpr hlive), after]
    split
    . next hdecode =>
      split at hdecode
      . cases hdecode
      . rw [Incremental.decode_of_wait _ (hpart _)] at hdecode
        cases hdecode
        rfl
    . next hdecode =>
      split at hdecode
      . cases hdecode
        rfl
      . rw [Incremental.decode_of_wait _ (hpart _)] at hdecode
        cases hdecode

theorem streamed_messages (sender : Bool) {messages : List (Message × Mask)}
    (hfits : ∀ message ∈ messages, message.1.Fits h) (part : List UInt8)
    (hpart : ∀ s, step h (!sender) part { socket := s } = .wait) (s : σ)
    : streamed h (!sender) (messages.flatMap (encodeMessage sender) ++ part) s
        =
      handleAll h (messages.map Prod.fst) s := by
  let whole : Message × Mask → Transmission := fun message =>
    { opCode := message.1.opCode, last := message.1.data, mask := message.2 }
  have hwhole : ∀ t ∈ messages.map whole, t.Fits h := by
    rw [List.forall_mem_map]
    intro message hmessage
    exact ⟨fun hne => absurd rfl hne, fun _ hmem => absurd hmem List.not_mem_nil, hfits message hmessage⟩
  have hencode : messages.flatMap (encodeMessage sender)
      = (messages.map whole).flatMap (Transmission.encode sender) := by
    rw [List.flatMap_map]
    congr 1
    funext message
    exact formatMessage_eq_encodeFrame sender _ _ _
  have hmessages : (messages.map whole).flatMap Transmission.messages = messages.map Prod.fst := by
    rw [List.flatMap_map, List.map_eq_flatMap]
    rfl
  rw [hencode, streamed_transmissions sender hwhole part hpart, hmessages]

theorem receiveAll_transmissions (h : Handlers σ) (sender : Bool) {ts : List Transmission}
    (hfits : ∀ t ∈ ts, t.Fits h) {chunks : List (Memory UInt8 × List UInt8)}
    (hchunks : received chunks = ts.flatMap (Transmission.encode sender)) (s : σ)
    : (receiveAll h (!sender) chunks { socket := s }).socket
        =
      handleAll h (ts.flatMap Transmission.messages) s := by
  rw [← streamed_transmissions sender hfits [] (fun _ => rfl) s, List.append_nil, ← hchunks]
  exact socket_eq_streamed h (!sender) chunks s

theorem receiveAll_transmissions_ping
    : (receiveAll (endpoint 1024).logged false
          [(fun _ => 0, [1, 1, 104, 137]), (fun _ => 7, [1, 33, 128, 1]), (fun _ => 9, [105])]
          { socket := (false, []) }).socket
        =
      (false, [.send [33] .pong, .ping [33], .message .text [104, 105]]) := by
  let noMask : Mask := fun _ => 0
  let t : Transmission := {
    opCode := .text
    fragments := [{ payload := [104], mask := noMask, controls := [(⟨.ping, [33]⟩, noMask)] }]
    last := [105]
    mask := noMask
  }
  have hfits : ∀ t' ∈ [t], t'.Fits (endpoint 1024).logged := by
    rw [List.forall_mem_singleton]
    refine ⟨fun _ => by decide, ?_, ⟨by decide, fun _ => by decide⟩⟩
    rw [List.forall_mem_singleton]
    refine ⟨by decide, ?_⟩
    rw [List.forall_mem_singleton]
    exact ⟨⟨by decide, fun _ => by decide⟩, by decide⟩
  exact (receiveAll_transmissions (endpoint 1024).logged true hfits (by decide) (false, [])).trans (by decide)

theorem receiveAll_messages (h : Handlers σ) (sender : Bool) {messages : List (Message × Mask)}
    (hfits : ∀ message ∈ messages, message.1.Fits h) {chunks : List (Memory UInt8 × List UInt8)}
    (hchunks : received chunks = messages.flatMap (encodeMessage sender)) (s : σ)
    : (receiveAll h (!sender) chunks { socket := s }).socket = handleAll h (messages.map Prod.fst) s := by
  rw [← streamed_messages sender hfits [] (fun _ => rfl) s, List.append_nil, ← hchunks]
  exact socket_eq_streamed h (!sender) chunks s

theorem receiveAll_messages_masked
    : (receiveAll (endpoint 1024).logged true
          [(fun _ => 0, [129, 130, 0]), (fun _ => 7, [1, 2, 3, 104, 104])] { socket := (false, []) }).socket
        =
      (false, [.message .text [104, 105]]) := by
  have hfits : ∀ message ∈ [((⟨.text, [104, 105]⟩ : Message), (fun i => UInt8.ofNat i.val : Mask))],
      message.1.Fits (endpoint 1024).logged := by
    rw [List.forall_mem_singleton]
    exact ⟨by decide, fun _ => by decide⟩
  exact (receiveAll_messages (endpoint 1024).logged false hfits (by decide) (false, [])).trans (by decide)

/--
What a side closes with arrives with the first 123 bytes of its reason. If the cut is inside of a character, or
the code is none that may be sent, then neither of them arrives.
-/
theorem close_arrives {σ : Type} (h : Handlers σ) (hmaxPayload : 125 ≤ h.maxPayload.toNat) {s : σ}
    (hlive : h.isOver s = false) (handler : DisconnectionHandler) (code : Nat) (message : List UInt8)
    {c c' : Connection} (hclose : Connection.close handler code message c = .returned c')
    : ∃ payload, c'.ws.sent.getLast? = some (.close, payload)
        ∧ ∀ (sender : Bool) (mask : Mask) (chunks : List (Memory UInt8 × List UInt8)),
          received chunks = formatMessage sender payload .close payload.length false mask
            → (receiveAll h (!sender) chunks { socket := s }).socket
                =
              let arrived := accepted (code % 65536) (message.take 123)
              h.close arrived.1 arrived.2 s := by
  unfold Connection.close at hclose
  dsimp only at hclose
  split at hclose
  . next c₁ _ =>
    cases hclose
    refine ⟨_, List.getLast?_concat, ?_⟩
    intro sender mask chunks hchunks
    have hshort : (formatClosePayload code (message.take Connection.maxClosePayload)).length ≤ 125 := by
      have hle := length_formatClosePayload code (message.take Connection.maxClosePayload)
      rw [List.length_take, Connection.maxClosePayload] at hle
      exact Nat.le_trans hle (by omega)
    generalize hpayload : formatClosePayload code (message.take Connection.maxClosePayload) = payload
      at hshort hchunks
    have hfits : ∀ m ∈ [((⟨.close, payload⟩ : Message), mask)], m.1.Fits h := by
      rintro m hm
      rw [List.mem_singleton.mp hm]
      exact ⟨Nat.le_trans hshort hmaxPayload, fun _ => hshort⟩
    have hstreamed := streamed_messages sender hfits [] (fun _ => rfl) s
    rw [List.append_nil, List.flatMap_singleton, encodeMessage, ← hchunks, ← socket_eq_streamed] at hstreamed
    rw [hstreamed]
    simp only [List.map_cons, List.map_nil, handleAll, hlive, Bool.false_eq_true, if_false, deliver]
    rw [← hpayload, parseClosePayload_formatClosePayload, Connection.maxClosePayload]
  . cases hclose

theorem close_arrives_going
    : ∃ payload,
        (Connection.send { ws := { inGroup := false, shuttingDown := true, timeout := true } }
          (formatClosePayload 1001 [98, 121, 101]) .close).ws.sent.getLast? = some (.close, payload)
        ∧ ∀ (sender : Bool) (mask : Mask) (chunks : List (Memory UInt8 × List UInt8)),
          received chunks = formatMessage sender payload .close payload.length false mask
            → (receiveAll (endpoint 1024).logged (!sender) chunks { socket := (false, []) }).socket
              = (true, [.close 1001 [98, 121, 101]]) :=
  close_arrives (endpoint 1024).logged (by decide) (s := (false, [])) (by decide)
    (fun _ _ c => .returned c) 1001 [98, 121, 101] (c := { ws := {} }) rfl

end

end FrameStream
