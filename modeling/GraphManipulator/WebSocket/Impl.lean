import Mathlib.Init

/-!
This module contains how a connection of the server ends: the functions of `uWS::WebSocket` through which every
end passes, and the handler that the server registers for it.
-/

inductive OpCode where
  | text
  | binary
  | close
  | ping
  | pong
  deriving DecidableEq, Repr

/--
The parts of a socket that its end depends on or changes
-/
structure WebSocket where
  -- the group still lists the socket
  inGroup : Bool := true
  shuttingDown : Bool := false
  closed : Bool := false
  timeout : Bool := false
  fragmentBuffer : List UInt8 := []
  controlTipLength : UInt8 := 0
  -- the frames that were handed to the transport
  sent : List (OpCode × List UInt8) := []
  deriving DecidableEq, Repr

structure Connection where
  ws : WebSocket
  handled : List (Nat × List UInt8) := []
  deriving DecidableEq, Repr

/--
How a call ends: it returns, or it needs more nested calls than there may be.
-/
inductive Outcome where
  | returned (c : Connection)
  | unfinished (c : Connection)
  deriving DecidableEq, Repr

abbrev DisconnectionHandler := Nat → List UInt8 → Connection → Outcome

namespace WebSocketProtocol

def isValidUtf8 (s : List UInt8) : Bool :=
  match s with
  | [] => true
  | s0 :: tail =>
    if s0 &&& 0x80 = 0 then
      isValidUtf8 tail
    else if s0 &&& 0x60 = 0x40 then
      match tail with
      | s1 :: rest => if s1 &&& 0xc0 ≠ 0x80 || s0 &&& 0xfe = 0xc0 then false else isValidUtf8 rest
      | _ => false
    else if s0 &&& 0xf0 = 0xe0 then
      match tail with
      | s1 :: s2 :: rest =>
        if s1 &&& 0xc0 ≠ 0x80 || s2 &&& 0xc0 ≠ 0x80 || (s0 = 0xe0 && s1 &&& 0xe0 = 0x80)
            || (s0 = 0xed && s1 &&& 0xe0 = 0xa0) then
          false
        else
          isValidUtf8 rest
      | _ => false
    else if s0 &&& 0xf8 = 0xf0 then
      match tail with
      | s1 :: s2 :: s3 :: rest =>
        if s1 &&& 0xc0 ≠ 0x80 || s2 &&& 0xc0 ≠ 0x80 || s3 &&& 0xc0 ≠ 0x80
            || (s0 = 0xf0 && s1 &&& 0xf0 = 0x80) || (s0 = 0xf4 && s1 > 0x8f) || s0 > 0xf4 then
          false
        else
          isValidUtf8 rest
      | _ => false
    else
      false

def parseClosePayload (src : List UInt8) : Nat × List UInt8 :=
  match src with
  | high :: low :: message =>
    let code := 256 * high.toNat + low.toNat
    if code < 1000 || code > 4999 || (code > 1011 && code < 4000) || (code ≥ 1004 && code ≤ 1006)
        || !isValidUtf8 message then
      (0, [])
    else
      (code, message)
  | _ => (0, [])

def formatClosePayload (code : Nat) (message : List UInt8) : List UInt8 :=
  if code % 65536 = 0 then [] else UInt8.ofNat (code / 256) :: UInt8.ofNat code :: message

end WebSocketProtocol

namespace Connection

def removeWebSocket (c : Connection) : Connection := { c with ws.inGroup := false }

def setShuttingDown (c : Connection) : Connection := { c with ws.shuttingDown := true }

def startTimeout (c : Connection) : Connection := { c with ws.timeout := true }

def cancelTimeout (c : Connection) : Connection := { c with ws.timeout := false }

def closeSocket (c : Connection) : Connection := { c with ws.closed := true }

def send (c : Connection) (message : List UInt8) (opCode : OpCode) : Connection :=
  { c with ws.sent := c.ws.sent ++ [(opCode, message)] }

def maxClosePayload : Nat := 123

section

variable (disconnectionHandler : DisconnectionHandler)

def close (code : Nat) (message : List UInt8) (c : Connection) : Outcome :=
  let message := message.take maxClosePayload
  match disconnectionHandler code message c.removeWebSocket with
  | .returned c =>
    let c := c.setShuttingDown.startTimeout
    .returned (c.send (WebSocketProtocol.formatClosePayload code message) .close)
  | .unfinished c => .unfinished c

/--
`WebSocket::onEnd`, up to the messages that were not sent
-/
def onEnd (c : Connection) : Outcome :=
  if c.ws.shuttingDown then
    .returned c.cancelTimeout.closeSocket
  else
    match disconnectionHandler 1006 [] c.removeWebSocket with
    | .returned c => .returned c.closeSocket
    | .unfinished c => .unfinished c

def terminate (c : Connection) : Outcome := onEnd disconnectionHandler c

def handleCloseFragment (data : List UInt8) (remainingBytes : Nat) (fin : Bool) (c : Connection) : Outcome :=
  if remainingBytes = 0 ∧ fin = true ∧ c.ws.controlTipLength = 0 then
    let closeFrame := WebSocketProtocol.parseClosePayload data
    close disconnectionHandler closeFrame.1 closeFrame.2 c
  else
    let fragmentBuffer := c.ws.fragmentBuffer ++ data
    let controlTipLength := c.ws.controlTipLength + UInt8.ofNat data.length
    let c := { c with
      ws.fragmentBuffer := fragmentBuffer
      ws.controlTipLength := controlTipLength
    }
    if remainingBytes = 0 ∧ fin = true then
      let controlBuffer := fragmentBuffer.drop (fragmentBuffer.length - controlTipLength.toNat)
      let closeFrame := WebSocketProtocol.parseClosePayload controlBuffer
      close disconnectionHandler closeFrame.1 closeFrame.2 c
    else
      .returned c

end

inductive End where
  -- the last fragment of a close frame
  | closeFrame (data : List UInt8)
  | transportEnd
  | terminate

def deliver (disconnectionHandler : DisconnectionHandler) (e : End) (c : Connection) : Outcome :=
  match e with
  | .closeFrame data => handleCloseFragment disconnectionHandler data 0 true c
  | .transportEnd => onEnd disconnectionHandler c
  | .terminate => terminate disconnectionHandler c

/--
The handler that the server registers: `ws->close()`. It reaches itself again through the `handler` of the
group, and prints a line when that returns.
-/
def onDisconnection (handler : DisconnectionHandler) : DisconnectionHandler := fun code message c =>
  close handler 1000 [] { c with handled := c.handled ++ [(code, message)] }

/--
The handler of the group, with a bound on the number of its calls that are active at a time
-/
def groupHandler (depth : Nat) : DisconnectionHandler :=
  match depth with
  | 0 => fun _ _ c => .unfinished c
  | depth + 1 => onDisconnection (groupHandler depth)

end Connection
