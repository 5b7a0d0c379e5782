import GraphManipulator.Lib.BigEndian
import GraphManipulator.Lib.CyclicMask
import GraphManipulator.WebSocket.Impl
import Mathlib.Logic.Function.Basic

/-!
This module contains the frames of a connection: how a socket writes a message as a frame, and how it turns the
bytes that it receives into messages, in the buffer in which they were received.
-/

def OpCode.toByte (opCode : OpCode) : UInt8 :=
  match opCode with
  | .text => 1
  | .binary => 2
  | .close => 8
  | .ping => 9
  | .pong => 10

/--
The cast of the code in a frame. The codes of no message were refused before it.
-/
def OpCode.ofByte (b : UInt8) : OpCode :=
  if b = 1 then .text
  else if b = 2 then .binary
  else if b = 8 then .close
  else if b = 9 then .ping
  else .pong

namespace WebSocketProtocol

abbrev Mask := CyclicMask 4

instance neZero_mask : NeZero 4 := ⟨by decide⟩

def shortMessageHeader (isServer : Bool) : Nat := if isServer then 6 else 2

def mediumMessageHeader (isServer : Bool) : Nat := if isServer then 8 else 4

def longMessageHeader (isServer : Bool) : Nat := if isServer then 14 else 10

def consumePrePadding (isServer : Bool) : Nat := longMessageHeader isServer - 1

def consumePostPadding : Nat := 4

structure State where
  wantsHead : Bool := true
  spill : List UInt8 := []
  opStack : Int := -1
  lastFin : Bool := true
  opCode : Int → OpCode := fun _ => .text
  remainingBytes : Nat := 0
  mask : Mask := fun _ => 0

section

variable (frame : Memory UInt8) (src : Nat)

def isFin : Bool := frame src &&& 128 ≠ 0

def getOpCode : UInt8 := frame src &&& 15

def payloadLength : Nat := (frame (src + 1) &&& 127).toNat

def rsv23 : Bool := frame src &&& 48 ≠ 0

def rsv1 : Bool := frame src &&& 64 ≠ 0

end

def unmaskRounds (mem : Memory UInt8) (dst src : Nat) (mask : Mask) (n : Nat) : Memory UInt8 :=
  match n with
  | 0 => mem
  | n + 1 =>
    let mem := mem.write dst (mem src ^^^ mask 0)
    let mem := mem.write (dst + 1) (mem (src + 1) ^^^ mask 1)
    let mem := mem.write (dst + 2) (mem (src + 2) ^^^ mask 2)
    let mem := mem.write (dst + 3) (mem (src + 3) ^^^ mask 3)
    unmaskRounds mem (dst + 4) (src + 4) mask n

def unmaskImprecise (mem : Memory UInt8) (dst src : Nat) (mask : Mask) (length : Nat) : Memory UInt8 :=
  unmaskRounds mem dst src mask (length / 4 + 1)

def unmaskImpreciseCopyMask (mem : Memory UInt8) (dst src maskPtr length : Nat) : Memory UInt8 :=
  let mask : Mask := fun i => mem (maskPtr + i.val)
  unmaskImprecise mem dst src mask length

def unmaskInplace (mem : Memory UInt8) (data stop : Nat) (mask : Mask) : Memory UInt8 :=
  unmaskRounds mem data data mask ((stop - data + 3) / 4)

def rotateMask (offset : Nat) (originalMask : Mask) : Mask :=
  let mask := Function.update originalMask (Fin.ofNat 4 (0 + offset)) (originalMask 0)
  let mask := Function.update mask (Fin.ofNat 4 (1 + offset)) (originalMask 1)
  let mask := Function.update mask (Fin.ofNat 4 (2 + offset)) (originalMask 2)
  Function.update mask (Fin.ofNat 4 (3 + offset)) (originalMask 3)

def unmaskTail (mem : Memory UInt8) (src : Nat) (mask : Mask) (i n : Nat) : Memory UInt8 :=
  match n with
  | 0 => mem
  | n + 1 => unmaskTail (mem.write (src + i) (mem (src + i) ^^^ mask (Fin.ofNat 4 i))) src mask (i + 1) n

def formatMessage (isServer : Bool) (src : List UInt8) (opCode : OpCode) (reportedLength : Nat)
    (compressed : Bool) (random : Mask) : List UInt8 :=
  let b0 : UInt8 := 128 ||| (if compressed then 64 else 0) ||| opCode.toByte
  let maskBit : UInt8 := if isServer then 0 else 0x80
  let head :=
    if reportedLength < 126 then
      [b0, UInt8.ofNat reportedLength ||| maskBit]
    else if reportedLength ≤ 65535 then
      [b0, 126 ||| maskBit] ++ BigEndian.encode 2 reportedLength
    else
      [b0, 127 ||| maskBit] ++ BigEndian.encode 8 reportedLength
  if isServer then head ++ src else head ++ [random 0, random 1, random 2, random 3] ++ random.unmask src

inductive CompressionStatus where
  | disabled
  | enabled
  | compressedFrame
  deriving DecidableEq, Repr

/--
What the socket and its group do apart from the frames, on the state `σ` of the socket and of whatever the
handlers reach. A socket is closed or shutting down once it was closed or terminated.
-/
structure Handlers (σ : Type) where
  maxPayload : UInt32
  inflate : List UInt8 → Option (List UInt8)
  messageHandler : OpCode → List UInt8 → σ → σ
  pingHandler : List UInt8 → σ → σ
  pongHandler : List UInt8 → σ → σ
  send : List UInt8 → OpCode → σ → σ
  close : Nat → List UInt8 → σ → σ
  terminate : σ → σ
  isClosed : σ → Bool
  isShuttingDown : σ → Bool
  close_isOver : ∀ code message s,
    (isClosed (close code message s) || isShuttingDown (close code message s)) = true
  terminate_isOver : ∀ s, (isClosed (terminate s) || isShuttingDown (terminate s)) = true

structure Receiver (σ : Type) where
  state : State := {}
  fragmentBuffer : List UInt8 := []
  compressionStatus : CompressionStatus := .disabled
  controlTipLength : UInt8 := 0
  socket : σ

/--
The received bytes that were not consumed yet: `length` bytes of the buffer, from `src` on
-/
structure Input where
  mem : Memory UInt8
  src : Nat
  length : Nat

def State.push (state : State) (opCode : OpCode) : State :=
  { state with
    opStack := state.opStack + 1
    opCode := Function.update state.opCode (state.opStack + 1) opCode
  }

def State.pop (state : State) : State := { state with opStack := state.opStack - 1 }

def State.top (state : State) : OpCode := state.opCode state.opStack

/--
The beginning of `consumeMessage`: what the code and the last frame allow. There is no state if the socket is
closed for it.
-/
def State.enterFrame (state : State) (opCode : UInt8) (fin : Bool) : Option State :=
  if opCode ≠ 0 then
    if state.opStack = 1 ∨ (state.lastFin = false ∧ opCode < 2) then
      none
    else
      some { state.push (.ofByte opCode) with lastFin := fin }
  else if state.opStack = -1 then
    none
  else
    some { state with lastFin := fin }

section

variable {σ : Type} (h : Handlers σ)

def Handlers.isOver (s : σ) : Bool := h.isClosed s || h.isShuttingDown s

def refusePayloadLength (length : Nat) : Bool := length > h.maxPayload.toNat

def forceClose (r : Receiver σ) : Receiver σ := { r with socket := h.terminate r.socket }

def setCompressed (r : Receiver σ) : Bool × Receiver σ :=
  if r.compressionStatus = .enabled then
    (true, { r with compressionStatus := .compressedFrame })
  else
    (false, r)

def inflateMessage (data : List UInt8) (r : Receiver σ) : Option (List UInt8) × Receiver σ :=
  if r.compressionStatus = .compressedFrame then
    (h.inflate data, { r with compressionStatus := .enabled })
  else
    (some data, r)

def handleMessage (data : List UInt8) (opCode : OpCode) (r : Receiver σ) : Bool × Receiver σ :=
  match inflateMessage h data r with
  | (none, r) => (true, forceClose h r)
  | (some data, r) =>
    if opCode = .text ∧ isValidUtf8 data = false then
      (true, forceClose h r)
    else
      let s := h.messageHandler opCode data r.socket
      (h.isOver s, { r with socket := s })

def handleControl (data : List UInt8) (opCode : OpCode) (r : Receiver σ) : Bool × Receiver σ :=
  match opCode with
  | .close =>
    let closeFrame := parseClosePayload data
    (true, { r with socket := h.close closeFrame.1 closeFrame.2 r.socket })
  | .ping =>
    let s := h.pingHandler data (h.send data .pong r.socket)
    (h.isOver s, { r with socket := s })
  | .pong =>
    let s := h.pongHandler data r.socket
    (h.isOver s, { r with socket := s })
  | _ => (false, r)

def handleFragment (data : List UInt8) (remainingBytes : Nat) (opCode : OpCode) (fin : Bool)
    (r : Receiver σ) : Bool × Receiver σ :=
  if opCode.toByte < 3 then
    if remainingBytes = 0 ∧ fin = true ∧ r.fragmentBuffer.length = 0 then
      handleMessage h data opCode r
    else
      let r := { r with fragmentBuffer := r.fragmentBuffer ++ data }
      if remainingBytes = 0 ∧ fin = true then
        match handleMessage h r.fragmentBuffer opCode r with
        | (true, r) => (true, r)
        | (false, r) => (false, { r with fragmentBuffer := [] })
      else
        (false, r)
  else if remainingBytes = 0 ∧ fin = true ∧ r.controlTipLength = 0 then
    handleControl h data opCode r
  else
    let r := { r with
      fragmentBuffer := r.fragmentBuffer ++ data
      controlTipLength := r.controlTipLength + UInt8.ofNat data.length
    }
    if remainingBytes = 0 ∧ fin = true then
      let start := r.fragmentBuffer.length - r.controlTipLength.toNat
      match handleControl h (r.fragmentBuffer.drop start) opCode r with
      | (true, r) => (true, r)
      | (false, r) => (false, { r with fragmentBuffer := r.fragmentBuffer.take start, controlTipLength := 0 })
    else
      (false, r)

variable (isServer : Bool)

def consumeMessage (messageHeader payLength : Nat) (input : Input) (r : Receiver σ)
    : Bool × Input × Receiver σ :=
  let { mem, src, length } := input
  match r.state.enterFrame (getOpCode mem src) (isFin mem src) with
  | none => (true, input, forceClose h r)
  | some state =>
    let r := { r with state := state }
    if refusePayloadLength h payLength then
      (true, input, forceClose h r)
    else if payLength + messageHeader ≤ length then
      let maskPtr := src + messageHeader - 4
      let mem := if isServer then
          unmaskImpreciseCopyMask mem maskPtr (src + messageHeader) maskPtr payLength
        else
          mem
      let data := mem.read (if isServer then maskPtr else src + messageHeader) payLength
      match handleFragment h data 0 state.top (isFin mem src) r with
      | (true, r) => (true, { input with mem := mem }, r)
      | (false, r) =>
        let state := if isFin mem src then r.state.pop else r.state
        let input := {
          mem := mem
          src := src + (payLength + messageHeader)
          length := length - (payLength + messageHeader)
        }
        (false, input, { r with state := { state with spill := [] } })
    else
      let fin := isFin mem src
      let received := length - messageHeader
      let mask : Mask := fun i => mem (src + messageHeader - 4 + i.val)
      let mem := if isServer then unmaskImprecise mem src (src + messageHeader) mask received else mem
      let src := if isServer then src else src + messageHeader
      let state := { state with
        spill := []
        wantsHead := false
        remainingBytes := payLength + messageHeader - length
        mask := if isServer then rotateMask (4 - received % 4) mask else state.mask
      }
      let r := { r with state := state }
      let res := handleFragment h (mem.read src received) state.remainingBytes state.top fin r
      (true, { input with mem := mem }, res.2)

def consumeContinuation (input : Input) (r : Receiver σ) : Bool × Input × Receiver σ :=
  let { mem, src, length } := input
  let { remainingBytes, mask, lastFin, .. } := r.state
  if remainingBytes ≤ length then
    let n := remainingBytes / 4
    let mem := if isServer then
        unmaskTail (unmaskInplace mem src (src + n * 4) mask) (src + n * 4) mask 0 (remainingBytes % 4)
      else
        mem
    match handleFragment h (mem.read src remainingBytes) 0 r.state.top lastFin r with
    | (true, r) => (false, { input with mem := mem }, r)
    | (false, r) =>
      let state := if lastFin then r.state.pop else r.state
      let input := { mem := mem, src := src + remainingBytes, length := length - remainingBytes }
      (true, input, { r with state := { state with wantsHead := true } })
  else
    let mem := if isServer then unmaskInplace mem src (src + (length / 4 + 1) * 4) mask else mem
    let r := { r with state.remainingBytes := remainingBytes - length }
    match handleFragment h (mem.read src length) (remainingBytes - length) r.state.top lastFin r with
    | (true, r) => (false, { input with mem := mem }, r)
    | (false, r) =>
      let mask := if isServer ∧ length % 4 ≠ 0 then rotateMask (4 - length % 4) mask else mask
      (false, { input with mem := mem }, { r with state.mask := mask })

def refuseHead (mem : Memory UInt8) (src : Nat) (r : Receiver σ) : Bool × Receiver σ :=
  let (compressed, r) := if rsv1 mem src then setCompressed r else (true, r)
  let opCode := getOpCode mem src
  (!compressed || rsv23 mem src || (opCode > 2 && opCode < 8) || opCode > 10
    || (opCode > 2 && (!isFin mem src || payloadLength mem src > 125)), r)

def consumeHead (input : Input) (r : Receiver σ) : Option (Bool × Input × Receiver σ) :=
  let { mem, src, length } := input
  if payloadLength mem src < 126 then
    some (consumeMessage h isServer (shortMessageHeader isServer) (payloadLength mem src) input r)
  else if payloadLength mem src = 126 then
    if length < mediumMessageHeader isServer then
      none
    else
      let payLength := BigEndian.decode (mem.read (src + 2) 2)
      some (consumeMessage h isServer (mediumMessageHeader isServer) payLength input r)
  else if length < longMessageHeader isServer then
    none
  else
    let payLength := BigEndian.decode (mem.read (src + 2) 8)
    some (consumeMessage h isServer (longMessageHeader isServer) payLength input r)

def keepSpill (input : Input) (r : Receiver σ) : Receiver σ :=
  if input.length = 0 then r else { r with state.spill := input.mem.read input.src input.length }

def parseNext (rounds : Nat) (input : Input) (r : Receiver σ) : Memory UInt8 × Receiver σ :=
  match rounds with
  | 0 => (input.mem, r)
  | rounds + 1 =>
    if input.length < shortMessageHeader isServer then
      (input.mem, keepSpill input r)
    else
      match refuseHead input.mem input.src r with
      | (true, r) => (input.mem, forceClose h r)
      | (false, r) =>
        match consumeHead h isServer input r with
        | none => (input.mem, keepSpill input r)
        | some (true, input, r) => (input.mem, r)
        | some (false, input, r) => parseNext rounds input r

def consume (mem : Memory UInt8) (src length : Nat) (r : Receiver σ) : Memory UInt8 × Receiver σ :=
  let spill := r.state.spill
  let input := {
    mem := mem.copy (src - spill.length) spill
    src := src - spill.length
    length := length + spill.length
  }
  if r.state.wantsHead then
    parseNext h isServer (input.length + 1) input r
  else
    match consumeContinuation h isServer input r with
    | (true, input, r) => parseNext h isServer (input.length + 1) input r
    | (false, input, r) => (input.mem, r)

def onData (mem : Memory UInt8) (src length : Nat) (r : Receiver σ) : Memory UInt8 × Receiver σ :=
  if h.isShuttingDown r.socket then (mem, r) else consume h isServer mem src length r

/--
The part of `ioHandler` that receives: the bytes go to the buffer of all sockets, behind its padding. A closed
socket is not polled.
-/
def receive (mem : Memory UInt8) (bytes : List UInt8) (r : Receiver σ) : Memory UInt8 × Receiver σ :=
  if h.isClosed r.socket then
    (mem, r)
  else
    let src := consumePrePadding isServer
    onData h isServer (mem.copy src bytes) src bytes.length r

end

end WebSocketProtocol
