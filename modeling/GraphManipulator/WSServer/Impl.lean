import GraphManipulator.GraphProcessor
import GraphManipulator.Json.Parser
import GraphManipulator.WebSocket.Impl

/-!
This module contains the server: the three parameters and the graph that all connections share, the update of
them from a message, and the loop that hands messages to the handler.
-/

structure Call where
  message : List UInt8
  draws : Draws
  env : MapperEnv

structure WSServer where
  payloadData : List Int
  graphData : Str := []
  deriving DecidableEq, Repr

namespace WSServer

variable {D : Type}

def new : WSServer where
  payloadData := List.replicate 3 0

def callGraphMapper (server : WSServer) (call : Call) : Except Fault Unit × WSServer :=
  -- the callee takes the parameters as `const &&`, so that they stay where they are
  match GraphProcessor.serializeGraph call.env call.draws server.payloadData with
  | .ok graphData => (.ok (), { server with graphData := graphData })
  | .error e => (.error e, server)

/--
The loop that assigns values to parameters until there is no other value or no other parameter. An exception
leaves what was assigned before.
-/
def assignValues (fl : FloatOps D) (values : List (Json D)) (payloadData : List Int)
    : Except Fault Unit × List Int :=
  match values, payloadData with
  | value :: values, parameter :: payloadData =>
    match value.toInt fl with
    | .ok n =>
      let res := assignValues fl values payloadData
      (res.1, n :: res.2)
    | .error e => (.error e, parameter :: payloadData)
  | _, payloadData => (.ok (), payloadData)

def rethrow (res : Except Fault Unit) : Except Fault Unit :=
  match res with
  | .ok () => .ok ()
  | .error e => .error (if e.isException then .runtimeError "Cannot process on JSON" else e)

def tryUpdatePayload (fl : FloatOps D) (server : WSServer) (call : Call) : Except Fault Unit × WSServer :=
  match Parser.parse fl call.message with
  | .error e => (.error e, server)
  | .ok jsonObj =>
    match assignValues fl jsonObj.elements server.payloadData with
    | (.ok (), payloadData) => callGraphMapper { server with payloadData := payloadData } call
    | (.error e, payloadData) => (.error e, { server with payloadData := payloadData })

def updatePayload (fl : FloatOps D) (server : WSServer) (call : Call) : Except Fault Unit × WSServer :=
  let res := tryUpdatePayload fl server call
  (rethrow res.1, res.2)

/--
The server after a call whose caller catches exceptions. There is none after a call that does not end.
-/
def step (fl : FloatOps D) (server : WSServer) (call : Call) : Option WSServer :=
  match updatePayload fl server call with
  | (.ok (), server) => some server
  | (.error e, server) => if e.isException then some server else none

end WSServer

namespace Hub

structure Delivery extends Call where
  sender : Nat
  opCode : OpCode

structure Reply where
  receiver : Nat
  opCode : OpCode
  message : Str
  deriving DecidableEq, Repr

end Hub

structure Hub where
  server : WSServer := .new
  sent : List Hub.Reply := []

namespace Hub

variable {D : Type}

def send (hub : Hub) (receiver : Nat) (message : Str) (opCode : OpCode) : Hub :=
  { hub with sent := hub.sent ++ [{ receiver := receiver, opCode := opCode, message := message }] }

def onMessage (fl : FloatOps D) (hub : Hub) (delivery : Delivery) : Except Fault Unit × Hub :=
  match hub.server.updatePayload fl delivery.toCall with
  | (.ok (), server) =>
    (.ok (), { hub with server := server }.send delivery.sender server.graphData delivery.opCode)
  | (.error e, server) => (.error e, { hub with server := server })

/--
`run`, for the messages that are delivered. Nothing catches what the handler throws.
-/
def run (fl : FloatOps D) (hub : Hub) (deliveries : List Delivery) : Except Fault Unit × Hub :=
  match deliveries with
  | [] => (.ok (), hub)
  | delivery :: deliveries =>
    match onMessage fl hub delivery with
    | (.ok (), hub) => run fl hub deliveries
    | (.error e, hub) => (.error e, hub)

end Hub
