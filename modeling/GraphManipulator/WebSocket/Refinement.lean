import GraphManipulator.WebSocket.Fragments
import GraphManipulator.WebSocket.Masking

/-!
This module contains that a socket, whatever chunks the bytes arrive in and whatever the buffer held before,
does what the stream of its frames means.
-/

namespace WebSocketProtocol

open FrameStream

section

variable {isServer : Bool} {mem : Memory UInt8} {src : Nat}

theorem read_two {length : Nat} (h : 2 ≤ length)
    : mem.read src length = mem src :: mem (src + 1) :: mem.read (src + 2) (length - 2) := by
  obtain ⟨n, rfl⟩ := Nat.exists_eq_add_of_le h
  rw [Nat.add_comm, Nat.add_sub_cancel]
  rfl

theorem maskOf_read {length messageHeader : Nat} (hfour : 4 ≤ messageHeader) (hle : messageHeader ≤ length)
    : maskOf true (mem.read src length) messageHeader = fun i => mem (src + messageHeader - 4 + i.val) := by
  unfold maskOf
  rw [if_pos rfl]
  funext i
  have hi := i.isLt
  have hsrc : src + (messageHeader - 4 + i.val) = src + messageHeader - 4 + i.val := by omega
  rw [List.getD_eq_getElem?_getD, Memory.getElem?_read _ _ (by omega), hsrc]
  rfl

theorem refuseHead_eq {σ : Type} {r : Receiver σ} (h : r.compressionStatus = .disabled)
    : refuseHead mem src r = (isInvalid (mem src) (mem (src + 1)), r) := by
  have hcompressed : setCompressed r = (false, r) := by
    unfold setCompressed
    rw [if_neg (by rw [h]; decide)]
  unfold refuseHead
  cases hrsv : rsv1 mem src with
  | true =>
    rw [rsv1] at hrsv
    simp [hcompressed, isInvalid, hrsv]
  | false =>
    rw [rsv1] at hrsv
    simp only [isInvalid, hrsv, rsv23, getOpCode, isFin, payloadLength, Bool.false_eq_true, if_false,
      Bool.not_true]
    rfl

theorem consumeHead_eq {σ : Type} (h : Handlers σ) {length : Nat} (r : Receiver σ)
    (hshort : shortMessageHeader isServer ≤ length)
    : consumeHead h isServer ⟨mem, src, length⟩ r
        =
      let (messageHeader, payLength) := lengths isServer (mem (src + 1)) (mem.read (src + 2) (length - 2))
      if length < messageHeader then
        none
      else
        some (consumeMessage h isServer messageHeader payLength ⟨mem, src, length⟩ r) := by
  have hmedium : 4 ≤ mediumMessageHeader isServer := by cases isServer <;> decide
  have hlong : 10 ≤ longMessageHeader isServer := by cases isServer <;> decide
  unfold consumeHead lengths payloadLength
  dsimp only
  split
  . rw [if_neg (by omega)]
  . split
    . dsimp only
      split
      . rfl
      . rw [Memory.take_read _ _ (by omega)]
    . dsimp only
      split
      . rfl
      . rw [Memory.take_read _ _ (by omega)]

theorem nextHead_read (mem : Memory UInt8) (src : Nat) {length : Nat} (hshort : shortMessageHeader isServer ≤ length)
    : nextHead isServer (mem.read src length)
        =
      if isInvalid (mem src) (mem (src + 1)) then
        .invalid
      else
        let (messageHeader, payLength) := lengths isServer (mem (src + 1)) (mem.read (src + 2) (length - 2))
        if length < messageHeader then
          .short
        else
          .head {
            fin := isFin mem src
            opCode := getOpCode mem src
            messageHeader := messageHeader
            payLength := payLength
            mask := maskOf isServer (mem.read src length) messageHeader
          } := by
  have htwo := two_le_short isServer
  have hlength := Memory.length_read mem src length
  rw [read_two (by omega)] at hlength ⊢
  rw [nextHead, hlength, if_neg (by omega)]
  rfl

theorem nextHead_of_lt (bytes : List UInt8) (hshort : bytes.length < shortMessageHeader isServer)
    : nextHead isServer bytes = .short := by
  match bytes with
  | [] => rfl
  | [_] => rfl
  | _ :: _ :: _ => rw [nextHead, if_pos hshort]

theorem fields_of_nextHead {length : Nat} {head : Head}
    (hhead : nextHead isServer (mem.read src length) = .head head)
    : head.fin = isFin mem src ∧ head.opCode = getOpCode mem src
        ∧ head.mask = maskOf isServer (mem.read src length) head.messageHeader := by
  have hbounds := bounds_of_nextHead hhead
  have htwo := two_le_short isServer
  rw [Memory.length_read] at hbounds
  rw [read_two (by omega)] at hhead ⊢
  simp only [nextHead] at hhead
  split at hhead
  . cases hhead
  . split at hhead
    . cases hhead
    . split at hhead
      . cases hhead
      . cases hhead
        exact ⟨rfl, rfl, rfl⟩

theorem unmask_payload (mem : Memory UInt8) (src : Nat) {length messageHeader payLength : Nat}
    (hheader : shortMessageHeader isServer ≤ messageHeader)
    (hle : messageHeader + payLength ≤ length)
    : (maskOf isServer (mem.read src length) messageHeader).unmask
          (((mem.read src length).drop messageHeader).take payLength)
        =
      (if isServer then
          unmaskImpreciseCopyMask mem (src + messageHeader - 4) (src + messageHeader)
            (src + messageHeader - 4) payLength
        else
          mem).read (if isServer then src + messageHeader - 4 else src + messageHeader) payLength := by
  rw [Memory.drop_read _ _ (by omega), Memory.take_read _ _ (by omega)]
  cases isServer with
  | false => exact CyclicMask.unmask_zero _
  | true =>
    have hsix : 6 ≤ messageHeader := hheader
    rw [maskOf_read (by omega) (by omega)]
    exact (read_unmaskImprecise mem _ (by omega) payLength).symm

theorem unmask_part (mem : Memory UInt8) (src : Nat) {length messageHeader : Nat}
    (hheader : shortMessageHeader isServer ≤ messageHeader) (hle : messageHeader ≤ length)
    : (maskOf isServer (mem.read src length) messageHeader).unmask
          ((mem.read src length).drop messageHeader)
        =
      (if isServer then
          unmaskImprecise mem src (src + messageHeader) (fun i => mem (src + messageHeader - 4 + i.val))
            (length - messageHeader)
        else
          mem).read (if isServer then src else src + messageHeader) (length - messageHeader) := by
  rw [Memory.drop_read _ _ hle]
  cases isServer with
  | false => exact CyclicMask.unmask_zero _
  | true =>
    have hsix : 6 ≤ messageHeader := hheader
    rw [maskOf_read (by omega) (by omega)]
    exact (read_unmaskImprecise mem _ (by omega) (length - messageHeader)).symm

theorem unmaskPayload_of_outside (mem : Memory UInt8) (src : Nat) {messageHeader : Nat}
    (hheader : shortMessageHeader isServer ≤ messageHeader) (payLength : Nat) {p : Nat}
    (hp : p < src + 2 ∨ src + messageHeader + payLength ≤ p)
    : (if isServer then
          unmaskImpreciseCopyMask mem (src + messageHeader - 4) (src + messageHeader)
            (src + messageHeader - 4) payLength
        else
          mem) p = mem p := by
  cases isServer with
  | false => rfl
  | true =>
    have hsix : 6 ≤ messageHeader := hheader
    rw [if_pos rfl, unmaskImpreciseCopyMask]
    apply unmaskImprecise_of_outside
    omega

end

section

variable {σ : Type} (h : Handlers σ) (isServer : Bool)

structure AtHead (r : Receiver σ) (a : Assembler σ) : Prop where
  wantsHead : r.state.wantsHead = true
  nested : Nested r.state a
  assembled : Assembled r a []
  opensData : OpensData a
  live : h.isOver a.socket = false

/--
The socket is in the payload of a frame. The stream waits with the frame in `pending`, as far as it is there.
-/
structure InPayload (r : Receiver σ) (pending : List UInt8) (a entered : Assembler σ) (head : Head)
    : Prop where
  nextHead_eq : nextHead isServer pending = .head head
  enterFrame_eq : a.enterFrame head.opCode head.fin = some entered
  accepted : refusePayloadLength h head.payLength = false
  wantsHead : r.state.wantsHead = false
  spill : r.state.spill = []
  nested : Nested r.state entered
  remaining : r.state.remainingBytes + pending.length = head.messageHeader + head.payLength
  pos : r.state.remainingBytes ≠ 0
  mask : isServer = true → r.state.mask = head.mask.rotate (pending.length - head.messageHeader)
  assembled : Assembled r entered (head.mask.unmask (pending.drop head.messageHeader))
  opensData : OpensData a
  live : h.isOver a.socket = false

inductive Refines (r : Receiver σ) : Incremental.Progress UInt8 (Assembler σ) σ → Prop
  | atHead {a : Assembler σ} (hat : AtHead h r a) (hspill : nextHead isServer r.state.spill = .short)
    : Refines r (.waiting r.state.spill a)
  | inPayload {pending : List UInt8} {a : Assembler σ} (entered : Assembler σ) (head : Head)
    (hin : InPayload h isServer r pending a entered head) : Refines r (.waiting pending a)
  | ended (hover : h.isOver r.socket = true) : Refines r (.finished r.socket)

/--
What the socket has come to after the first frame of `bytes`, if it is whole and the socket goes on
-/
def Leads (bytes : List UInt8) (a : Assembler σ) (stopped : Bool) (input : Input) (r : Receiver σ) : Prop :=
  match step h isServer bytes a with
  | .wait => stopped = true ∧ Refines h isServer r (.waiting bytes a)
  | .finish s => stopped = true ∧ h.isOver s = true ∧ r.socket = s
  | .next a rest => stopped = false ∧ AtHead h r a ∧ r.state.spill = []
      ∧ input.mem.read input.src input.length = rest

end

section

variable {σ : Type} {h : Handlers σ} {isServer : Bool} {mem : Memory UInt8} {src length : Nat}
  {r : Receiver σ} {a entered : Assembler σ} {head : Head}

theorem leads_of_finish {bytes : List UInt8} {input : Input} {s : σ}
    (hstep : step h isServer bytes a = .finish s) (hover : h.isOver s = true) (hsocket : r.socket = s)
    : Leads h isServer bytes a true input r := by
  rw [Leads, hstep]
  exact ⟨rfl, hover, hsocket⟩

theorem assembled_enter (hat : AtHead h r a) {c : OpCode} {opened : List OpCode}
    (hentered : Entered a entered head c opened) (state : State)
    : Assembled { r with state := state } entered [] := by
  constructor
  . exact hat.assembled.socket.trans hentered.socket.symm
  . exact hat.assembled.fragmentBuffer.trans (by rw [hentered.message])
  . exact hat.assembled.disabled
  . have htip := hat.assembled.controlTipLength
    rw [tipLength_nil] at htip ⊢
    exact htip

theorem consumeMessage_part (hat : AtHead h r a)
    (hhead : nextHead isServer (mem.read src length) = .head head)
    (henter : a.enterFrame head.opCode head.fin = some entered)
    (haccepted : refusePayloadLength h head.payLength = false)
    {state : State} (hstate : r.state.enterFrame (getOpCode mem src) (isFin mem src) = some state)
    (hnested : Nested state entered) (hshort : length < head.messageHeader + head.payLength)
    : let res := consumeMessage h isServer head.messageHeader head.payLength ⟨mem, src, length⟩ r
      Leads h isServer (mem.read src length) a res.1 res.2.1 res.2.2 := by
  obtain ⟨hheader, hle⟩ := bounds_of_nextHead hhead
  rw [Memory.length_read] at hle
  obtain ⟨-, -, hmask⟩ := fields_of_nextHead hhead
  obtain ⟨c, opened, hentered⟩ := entered_of_enterFrame hhead hat.opensData henter
  have hpart := unmask_part mem src hheader hle
  have hwhole : ¬ head.payLength + head.messageHeader ≤ length := by omega
  have hwait : step h isServer (mem.read src length) a = .wait := by
    rw [step_of_head h isServer hhead henter haccepted, Memory.length_read, if_pos hshort]
  unfold Leads
  rw [hwait]
  simp only [consumeMessage, hstate, haccepted, Bool.false_eq_true, if_false, if_neg hwhole]
  rw [← hmask] at hpart
  rw [← hpart]
  generalize hinside : State.mk _ _ _ _ _ _ _ = inside
  have hinsideNested : Nested inside entered := by
    rw [← hinside]
    exact ⟨hnested.opStack, hnested.holds, hnested.lastFin⟩
  have hlength : ([] : List UInt8).length
        + (head.mask.unmask ((mem.read src length).drop head.messageHeader)).length
      ≤ head.payLength := by
    rw [CyclicMask.length_unmask, List.length_drop, Memory.length_read, List.length_nil]
    omega
  have hremaining : head.payLength + head.messageHeader - length ≠ 0 := by omega
  obtain ⟨r', hfragment, hassembled, hstate'⟩ :=
    hentered.handleFragment_part (h := h) (assembled_enter hat hentered inside) hlength hremaining
      (isFin mem src)
  rw [hinsideNested.top hentered.opened_eq, hfragment]
  have hin : InPayload h isServer r' (mem.read src length) a entered head := by
    refine {
      nextHead_eq := hhead
      enterFrame_eq := henter
      accepted := haccepted
      wantsHead := by rw [hstate', ← hinside]
      spill := by rw [hstate', ← hinside]
      nested := by rw [hstate']; exact hinsideNested
      remaining := ?_
      pos := by rw [hstate', ← hinside]; exact hremaining
      mask := ?_
      assembled := hassembled
      opensData := hat.opensData
      live := hat.live
    }
    . rw [hstate', ← hinside, Memory.length_read]
      dsimp only
      omega
    . intro hserver
      subst hserver
      have hsix : 6 ≤ head.messageHeader := hheader
      rw [hstate', ← hinside, hmask, maskOf_read (by omega) hle, Memory.length_read]
      exact rotateMask_eq_rotate _ _
  exact ⟨trivial, .inPayload entered head hin⟩

theorem Assembled.setState {part : List UInt8} (hassembled : Assembled r a part) (state : State)
    : Assembled { r with state := state } a part :=
  ⟨hassembled.socket, hassembled.fragmentBuffer, hassembled.disabled, hassembled.controlTipLength⟩

theorem consumeMessage_whole (hat : AtHead h r a)
    (hhead : nextHead isServer (mem.read src length) = .head head)
    (henter : a.enterFrame head.opCode head.fin = some entered)
    (haccepted : refusePayloadLength h head.payLength = false)
    {state : State} (hstate : r.state.enterFrame (getOpCode mem src) (isFin mem src) = some state)
    (hnested : Nested state entered) (hwants : state.wantsHead = true)
    (hlength : head.messageHeader + head.payLength ≤ length)
    : let res := consumeMessage h isServer head.messageHeader head.payLength ⟨mem, src, length⟩ r
      Leads h isServer (mem.read src length) a res.1 res.2.1 res.2.2 := by
  obtain ⟨hheader, -⟩ := bounds_of_nextHead hhead
  obtain ⟨hfin, -, hmask⟩ := fields_of_nextHead hhead
  obtain ⟨c, opened, hentered⟩ := entered_of_enterFrame hhead hat.opensData henter
  have hpayload := unmask_payload mem src hheader hlength
  have houtside := fun p => unmaskPayload_of_outside mem src hheader head.payLength (p := p)
  have hwhole : head.payLength + head.messageHeader ≤ length := by omega
  have hstep := step_of_head h isServer hhead henter haccepted
  rw [Memory.length_read, if_neg (by omega)] at hstep
  unfold Leads
  rw [hstep]
  simp only [consumeMessage, hstate, haccepted, Bool.false_eq_true, if_false, if_pos hwhole]
  rw [← hmask] at hpayload
  rw [← hpayload]
  generalize (if isServer = true then _ else mem) = mem' at houtside
  -- the first byte is read again when the payload was unmasked
  have hfin' : isFin mem' src = head.fin := by
    rw [hfin, isFin, isFin, houtside src (.inl (by omega))]
  rw [hfin', hnested.top hentered.opened_eq]
  have hshort : ([] : List UInt8).length
        + (head.mask.unmask (((mem.read src length).drop head.messageHeader).take head.payLength)).length
      ≤ head.payLength := by
    rw [CyclicMask.length_unmask, List.length_take, List.length_nil]
    omega
  have hcompletes := hentered.handleFragment_completes (h := h) (assembled_enter hat hentered state) hshort
  rw [List.nil_append] at hcompletes
  generalize handleFragment h _ 0 c head.fin _ = res at hcompletes
  obtain ⟨stopped, r'⟩ := res
  cases hframe : entered.handleFrame h _ head.fin with
  | inl s =>
    rw [hframe] at hcompletes
    obtain ⟨rfl, hsocket⟩ := hcompletes
    exact ⟨rfl, isOver_of_handleFrame_inl h hframe, hsocket⟩
  | inr a' =>
    rw [hframe] at hcompletes
    obtain ⟨rfl, hassembled, hstate'⟩ := hcompletes
    have hlive : h.isOver entered.socket = false := by
      rw [hentered.socket]
      exact hat.live
    have hafter := hentered.nested_of_handleFrame hnested hframe
    dsimp only at hstate'
    refine ⟨rfl, ⟨?_, ?_, hassembled.setState _, hentered.opensData_of_handleFrame hframe,
      isOver_of_handleFrame_inr h hlive hframe⟩, rfl, ?_⟩
    . dsimp only
      rw [hstate']
      split
      . exact hwants
      . exact hwants
    . dsimp only
      rw [hstate']
      exact ⟨hafter.opStack, hafter.holds, hafter.lastFin⟩
    . have hrest : head.payLength + head.messageHeader = head.messageHeader + head.payLength := by omega
      dsimp only
      rw [hrest, Memory.drop_read _ _ hlength]
      apply Memory.read_congr
      intro p hlower _
      exact houtside p (.inr (by omega))

theorem consumeMessage_leads (hat : AtHead h r a)
    (hhead : nextHead isServer (mem.read src length) = .head head)
    : let res := consumeMessage h isServer head.messageHeader head.payLength ⟨mem, src, length⟩ r
      Leads h isServer (mem.read src length) a res.1 res.2.1 res.2.2 := by
  obtain ⟨hfin, hopCode, -⟩ := fields_of_nextHead hhead
  have henterFrame := hat.nested.enterFrame (getOpCode mem src) (isFin mem src)
  rw [← hopCode, ← hfin] at henterFrame
  have hsocket : h.terminate r.socket = h.terminate a.socket := by rw [hat.assembled.socket]
  cases henter : a.enterFrame head.opCode head.fin with
  | none =>
    rw [henter, hopCode, hfin] at henterFrame
    have hstep : step h isServer (mem.read src length) a = .finish (h.terminate a.socket) := by
      simp [step, hhead, henter]
    simp only [consumeMessage, henterFrame]
    exact leads_of_finish hstep (h.terminate_isOver a.socket) hsocket
  | some entered =>
    rw [henter, hopCode, hfin] at henterFrame
    obtain ⟨state, hstate, hnested, hwants, -⟩ := henterFrame
    rw [hat.wantsHead] at hwants
    cases haccepted : refusePayloadLength h head.payLength with
    | true =>
      have hstep : step h isServer (mem.read src length) a = .finish (h.terminate a.socket) := by
        simp [step, hhead, henter, haccepted]
      simp only [consumeMessage, hstate, haccepted, if_true]
      exact leads_of_finish hstep (h.terminate_isOver a.socket) hsocket
    | false =>
      by_cases hlength : length < head.messageHeader + head.payLength
      . exact consumeMessage_part hat hhead henter haccepted hstate hnested hlength
      . exact consumeMessage_whole hat hhead henter haccepted hstate hnested hwants (Nat.not_lt.mp hlength)

theorem keepSpill_refines (hat : AtHead h r a) (hspill : length = 0 → r.state.spill = [])
    (hshort : nextHead isServer (mem.read src length) = .short)
    : Refines h isServer (keepSpill ⟨mem, src, length⟩ r) (.waiting (mem.read src length) a) := by
  unfold keepSpill
  split
  . next hzero =>
    dsimp only at hzero
    have hnil : mem.read src length = r.state.spill := by
      rw [hspill hzero, hzero]
      rfl
    rw [hnil] at hshort ⊢
    exact .atHead hat hshort
  . refine .atHead (r := { r with state.spill := mem.read src length }) ?_ hshort
    exact ⟨hat.wantsHead, ⟨hat.nested.opStack, hat.nested.holds, hat.nested.lastFin⟩,
      hat.assembled.setState _, hat.opensData, hat.live⟩

theorem parseNext_refines (hat : AtHead h r a) {rounds : Nat} (hrounds : length < rounds)
    (hspill : length = 0 → r.state.spill = [])
    : Refines h isServer (parseNext h isServer rounds ⟨mem, src, length⟩ r).2
        ((frames h isServer).decode (mem.read src length) a) := by
  induction rounds generalizing mem src length r a with
  | zero => omega
  | succ rounds ih =>
    unfold parseNext
    dsimp only
    have hwait : nextHead isServer (mem.read src length) = .short
        → step h isServer (mem.read src length) a = .wait := by
      intro hhead
      simp only [step, hhead]
    by_cases hshort : length < shortMessageHeader isServer
    . have hhead := nextHead_of_lt (mem.read src length)
        (by rw [Memory.length_read]; exact hshort)
      rw [if_pos hshort, Incremental.decode_of_wait _ (hwait hhead)]
      exact keepSpill_refines hat hspill hhead
    . have hread := nextHead_read mem src (Nat.not_lt.mp hshort)
      rw [if_neg hshort, refuseHead_eq hat.assembled.disabled]
      cases hinvalid : isInvalid (mem src) (mem (src + 1)) with
      | true =>
        rw [hinvalid, if_pos rfl] at hread
        have hstep : step h isServer (mem.read src length) a = .finish (h.terminate a.socket) := by
          simp only [step, hread]
        rw [Incremental.decode_of_finish _ hstep, ← hat.assembled.socket]
        exact .ended (r := forceClose h r) (h.terminate_isOver r.socket)
      | false =>
        rw [hinvalid, if_neg Bool.false_ne_true] at hread
        dsimp only
        rw [consumeHead_eq h r (Nat.not_lt.mp hshort)]
        dsimp only at hread ⊢
        by_cases hheader : length < (lengths isServer (mem (src + 1)) (mem.read (src + 2) (length - 2))).1
        . rw [if_pos hheader] at hread ⊢
          rw [Incremental.decode_of_wait _ (hwait hread)]
          exact keepSpill_refines hat hspill hread
        . rw [if_neg hheader] at hread ⊢
          have hleads := consumeMessage_leads hat hread
          dsimp only at hleads
          generalize consumeMessage h isServer _ _ _ r = res at hleads
          obtain ⟨stopped, ⟨mem', src', length'⟩, r'⟩ := res
          unfold Leads at hleads
          cases hstep : step h isServer (mem.read src length) a with
          | wait =>
            rw [hstep] at hleads
            obtain ⟨rfl, hrefines⟩ := hleads
            rw [Incremental.decode_of_wait _ hstep]
            exact hrefines
          | finish s =>
            rw [hstep] at hleads
            obtain ⟨rfl, hover, rfl⟩ := hleads
            rw [Incremental.decode_of_finish _ hstep]
            exact .ended hover
          | next a' rest =>
            rw [hstep] at hleads
            obtain ⟨rfl, hat', hspill', rfl⟩ := hleads
            have hless := (frames h isServer).length_rest hstep
            dsimp only at hless
            rw [Memory.length_read, Memory.length_read] at hless
            rw [Incremental.decode_of_next _ hstep]
            exact ih hat' (by omega) (fun _ => hspill')

theorem rotate_chunk (mask : Mask) (length : Nat)
    : (if length % 4 ≠ 0 then rotateMask (4 - length % 4) mask else mask) = mask.rotate length := by
  split
  . exact rotateMask_eq_rotate mask length
  . next hzero =>
    rw [← CyclicMask.rotate_mod, Classical.not_not.mp hzero, CyclicMask.rotate_zero]

variable {pending : List UInt8}

theorem InPayload.unmask_append (hin : InPayload h isServer r pending a entered head) (data : List UInt8)
    : head.mask.unmask (pending.drop head.messageHeader ++ data)
        =
      head.mask.unmask (pending.drop head.messageHeader)
        ++ if isServer then r.state.mask.unmask data else data := by
  rw [CyclicMask.unmask_append, List.length_drop]
  cases isServer with
  | false =>
    have hzero : head.mask = fun _ => 0 := mask_of_nextHead hin.nextHead_eq
    rw [hzero, CyclicMask.rotate_const, CyclicMask.unmask_zero, CyclicMask.unmask_zero]
    rfl
  | true =>
    rw [hin.mask rfl]
    rfl

theorem InPayload.step_append (hin : InPayload h isServer r pending a entered head) (bytes : List UInt8)
    : step h isServer (pending ++ bytes) a
        =
      if bytes.length < r.state.remainingBytes then
        .wait
      else
        let payload := pending.drop head.messageHeader ++ bytes.take r.state.remainingBytes
        match entered.handleFrame h (head.mask.unmask payload) head.fin with
        | .inl s => .finish s
        | .inr a => .next a (bytes.drop r.state.remainingBytes) := by
  have hremaining := hin.remaining
  have hle := (bounds_of_nextHead hin.nextHead_eq).2
  have hhead : nextHead isServer (pending ++ bytes) = .head head := by
    rw [nextHead_append bytes (by rw [hin.nextHead_eq]; simp), hin.nextHead_eq]
  rw [step_of_head h isServer hhead hin.enterFrame_eq hin.accepted, List.length_append]
  by_cases hshort : bytes.length < r.state.remainingBytes
  . rw [if_pos hshort, if_pos (by omega)]
  . have hdrop : (pending ++ bytes).drop (head.messageHeader + head.payLength)
        = bytes.drop r.state.remainingBytes := by
      rw [← hremaining, Nat.add_comm, List.drop_append]
      simp
    have htake : ((pending ++ bytes).drop head.messageHeader).take head.payLength
        = pending.drop head.messageHeader ++ bytes.take r.state.remainingBytes := by
      have hpayLength : head.payLength
          = (pending.drop head.messageHeader).length + r.state.remainingBytes := by
        rw [List.length_drop]
        omega
      rw [List.drop_append_of_le_length hle, hpayLength, List.take_length_add_append]
    rw [if_neg hshort, if_neg (by omega), hdrop]
    exact htake ▸ rfl

theorem consumeContinuation_part (mem : Memory UInt8) (src : Nat)
    (hin : InPayload h isServer r pending a entered head)
    (hshort : length < r.state.remainingBytes)
    : (consumeContinuation h isServer ⟨mem, src, length⟩ r).1 = false
        ∧ Refines h isServer (consumeContinuation h isServer ⟨mem, src, length⟩ r).2.2
            (.waiting (pending ++ mem.read src length) a) := by
  obtain ⟨c, opened, hentered⟩ := entered_of_enterFrame hin.nextHead_eq hin.opensData hin.enterFrame_eq
  have hremaining := hin.remaining
  have hle := (bounds_of_nextHead hin.nextHead_eq).2
  have happend := hin.unmask_append (mem.read src length)
  have hdata : (if isServer then r.state.mask.unmask (mem.read src length) else mem.read src length)
      = (if isServer then unmaskInplace mem src (src + (length / 4 + 1) * 4) r.state.mask else mem).read
          src length := by
    cases isServer with
    | false => rfl
    | true => exact (read_unmaskInplace mem r.state.mask length).symm
  rw [hdata] at happend
  simp only [consumeContinuation, if_neg (Nat.not_le.mpr hshort)]
  generalize (if isServer = true then _ else mem) = mem' at happend
  have hlength : (head.mask.unmask (pending.drop head.messageHeader)).length
      + (mem'.read src length).length ≤ head.payLength := by
    rw [CyclicMask.length_unmask, List.length_drop, Memory.length_read]
    omega
  have hrest : r.state.remainingBytes - length ≠ 0 := by omega
  generalize hinside : State.mk _ _ _ _ _ (r.state.remainingBytes - length) _ = inside
  have hnested : Nested inside entered := by
    rw [← hinside]
    exact ⟨hin.nested.opStack, hin.nested.holds, hin.nested.lastFin⟩
  obtain ⟨r', hfragment, hassembled, hstate'⟩ := hentered.handleFragment_part (h := h)
    (hin.assembled.setState inside) hlength hrest r.state.lastFin
  have htop : inside.top = c := hnested.top hentered.opened_eq
  rw [htop, hfragment]
  dsimp only
  have hnext : nextHead isServer (pending ++ mem.read src length) = .head head := by
    rw [nextHead_append _ (by rw [hin.nextHead_eq]; simp), hin.nextHead_eq]
  refine ⟨rfl, .inPayload entered head ?_⟩
  refine {
    nextHead_eq := hnext
    enterFrame_eq := hin.enterFrame_eq
    accepted := hin.accepted
    wantsHead := by rw [hstate', ← hinside]; exact hin.wantsHead
    spill := by rw [hstate', ← hinside]; exact hin.spill
    nested := by rw [hstate']; exact ⟨hnested.opStack, hnested.holds, hnested.lastFin⟩
    remaining := ?_
    pos := by rw [hstate', ← hinside]; exact hrest
    mask := ?_
    assembled := ?_
    opensData := hin.opensData
    live := hin.live
  }
  . rw [hstate', ← hinside, List.length_append, Memory.length_read]
    dsimp only
    omega
  . intro hserver
    subst hserver
    have hmask := hin.mask rfl
    simp only [true_and]
    rw [rotate_chunk, hmask, CyclicMask.rotate_rotate, List.length_append, Memory.length_read]
    congr 1
    omega
  . rw [List.drop_append_of_le_length hle, happend]
    exact hassembled.setState _

theorem consumeContinuation_whole (mem : Memory UInt8) (src : Nat)
    (hin : InPayload h isServer r pending a entered head)
    (hlength : r.state.remainingBytes ≤ length)
    : let res := consumeContinuation h isServer ⟨mem, src, length⟩ r
      Leads h isServer (pending ++ mem.read src length) a (!res.1) res.2.1 res.2.2 := by
  obtain ⟨c, opened, hentered⟩ := entered_of_enterFrame hin.nextHead_eq hin.opensData hin.enterFrame_eq
  have hremaining := hin.remaining
  have hle := (bounds_of_nextHead hin.nextHead_eq).2
  have hstep := hin.step_append (mem.read src length)
  rw [Memory.length_read, if_neg (Nat.not_lt.mpr hlength), Memory.take_read _ _ hlength,
    Memory.drop_read _ _ hlength] at hstep
  dsimp only at hstep
  have happend := hin.unmask_append (mem.read src r.state.remainingBytes)
  have hdata : (if isServer then
          r.state.mask.unmask (mem.read src r.state.remainingBytes)
        else
          mem.read src r.state.remainingBytes)
      = (if isServer then unmaskRest mem r.state.mask src r.state.remainingBytes else mem).read src
          r.state.remainingBytes := by
    cases isServer with
    | false => rfl
    | true => exact (read_unmaskRest mem r.state.mask r.state.remainingBytes).symm
  have houtside : ∀ p, src + r.state.remainingBytes ≤ p
      → (if isServer then unmaskRest mem r.state.mask src r.state.remainingBytes else mem) p = mem p := by
    intro p hp
    cases isServer with
    | false => rfl
    | true => exact unmaskRest_of_outside mem _ _ (.inr hp)
  rw [hdata] at happend
  rw [happend] at hstep
  unfold Leads
  rw [hstep]
  simp only [consumeContinuation, if_pos hlength]
  have hunmaskRest : unmaskTail
        (unmaskInplace mem src (src + r.state.remainingBytes / 4 * 4) r.state.mask)
        (src + r.state.remainingBytes / 4 * 4) r.state.mask 0 (r.state.remainingBytes % 4)
      = unmaskRest mem r.state.mask src r.state.remainingBytes := rfl
  rw [hunmaskRest]
  generalize (if isServer = true then _ else mem) = mem' at houtside
  rw [hin.nested.top hentered.opened_eq]
  have hlastFin : r.state.lastFin = head.fin := by
    rw [hin.nested.lastFin]
    exact lastFin_of_enterFrame hin.enterFrame_eq
  have hshort : (head.mask.unmask (pending.drop head.messageHeader)).length
      + (mem'.read src r.state.remainingBytes).length ≤ head.payLength := by
    rw [CyclicMask.length_unmask, List.length_drop, Memory.length_read]
    omega
  have hcompletes := hentered.handleFragment_completes (h := h) hin.assembled hshort
  rw [hlastFin]
  generalize handleFragment h _ 0 c head.fin _ = res at hcompletes
  obtain ⟨stopped, r'⟩ := res
  cases hframe : entered.handleFrame h _ head.fin with
  | inl s =>
    rw [hframe] at hcompletes
    obtain ⟨rfl, hsocket⟩ := hcompletes
    exact ⟨rfl, isOver_of_handleFrame_inl h hframe, hsocket⟩
  | inr a' =>
    rw [hframe] at hcompletes
    obtain ⟨rfl, hassembled, hstate'⟩ := hcompletes
    have hlive : h.isOver entered.socket = false := by
      rw [hentered.socket]
      exact hin.live
    have hafter := hentered.nested_of_handleFrame hin.nested hframe
    dsimp only at hstate'
    refine ⟨rfl, ⟨rfl, ?_, hassembled.setState _, hentered.opensData_of_handleFrame hframe,
      isOver_of_handleFrame_inr h hlive hframe⟩, ?_, ?_⟩
    . dsimp only
      rw [hstate']
      exact ⟨hafter.opStack, hafter.holds, hafter.lastFin⟩
    . dsimp only
      rw [hstate']
      split
      . exact hin.spill
      . exact hin.spill
    . apply Memory.read_congr
      intro p hlower _
      exact houtside p hlower

theorem read_copy_spill (mem : Memory UInt8) {src : Nat} (length : Nat) {spill : List UInt8}
    (hroom : spill.length ≤ src)
    : (mem.copy (src - spill.length) spill).read (src - spill.length) (length + spill.length)
        =
      spill ++ mem.read src length := by
  rw [Nat.add_comm, Memory.read_add, Memory.read_copy, Nat.sub_add_cancel hroom,
    Memory.read_copy_of_disjoint _ (.inr (by omega))]

theorem consume_refines (mem : Memory UInt8) (length : Nat)
    (hrefines : Refines h isServer r (.waiting pending a)) (hroom : r.state.spill.length ≤ src)
    : Refines h isServer (consume h isServer mem src length r).2
        ((frames h isServer).decode (pending ++ mem.read src length) a) := by
  unfold consume
  cases hrefines with
  | atHead hat _ =>
    rw [if_pos hat.wantsHead, ← read_copy_spill mem length hroom]
    apply parseNext_refines hat (Nat.lt_succ_self _)
    intro hzero
    exact List.length_eq_zero_iff.mp (Nat.eq_zero_of_add_eq_zero_left hzero)
  | inPayload entered head hin =>
    simp only [hin.wantsHead, Bool.false_eq_true, if_false, hin.spill, Memory.copy, List.length_nil,
      Nat.sub_zero, Nat.add_zero]
    by_cases hlength : r.state.remainingBytes ≤ length
    . have hleads := consumeContinuation_whole mem src hin hlength
      dsimp only at hleads
      generalize consumeContinuation h isServer _ r = res at hleads
      obtain ⟨goes, ⟨mem', src', length'⟩, r'⟩ := res
      unfold Leads at hleads
      cases hstep : step h isServer (pending ++ mem.read src length) a with
      | wait =>
        rw [hstep] at hleads
        obtain ⟨hgoes, hrefines⟩ := hleads
        rw [Bool.not_eq_true'] at hgoes
        subst hgoes
        rw [Incremental.decode_of_wait _ hstep]
        exact hrefines
      | finish s =>
        rw [hstep] at hleads
        obtain ⟨hgoes, hover, rfl⟩ := hleads
        rw [Bool.not_eq_true'] at hgoes
        subst hgoes
        rw [Incremental.decode_of_finish _ hstep]
        exact .ended hover
      | next a' rest =>
        rw [hstep] at hleads
        obtain ⟨hgoes, hat, hspill, rfl⟩ := hleads
        rw [Bool.not_eq_false'] at hgoes
        subst hgoes
        rw [Incremental.decode_of_next _ hstep]
        exact parseNext_refines hat (Nat.lt_succ_self _) (fun _ => hspill)
    . obtain ⟨hstops, hrefines⟩ := consumeContinuation_part mem src hin
        (Nat.not_le.mp hlength)
      have hwait : step h isServer (pending ++ mem.read src length) a = .wait := by
        rw [hin.step_append, Memory.length_read, if_pos (Nat.not_le.mp hlength)]
      generalize consumeContinuation h isServer _ r = res at hstops hrefines
      obtain ⟨goes, input, r'⟩ := res
      dsimp only at hstops
      subst hstops
      rw [Incremental.decode_of_wait _ hwait]
      exact hrefines

end

end WebSocketProtocol
