import GraphManipulator.GraphlibDot.Impl

/-!
This module contains the client page: the message that it assembles from its text fields, what it does with a
reply, and its connection: the sockets it has created, the one it holds and its three buttons.
-/

namespace Client

structure Fields where
  -- the field labelled VERTEX NAME LENGTH
  matrixDim : Str
  -- the field labelled NODES COUNT
  nodesDim : Str
  -- the field labelled EDGES WEIGHT COUNT
  metricsDim : Str

def payload (fields : Fields) : Str :=
  let matrixDim := fields.matrixDim
  let charactersLength := fields.nodesDim
  let metrics := fields.metricsDim
  "\x7b\"matrix_dim\": ".toList ++ matrixDim
    ++ ", \"characters_length\": ".toList ++ charactersLength
    ++ ", \"metrics\": ".toList ++ metrics ++ "\x7d".toList

def encode (text : Str) : List UInt8 := text.flatMap String.utf8EncodeChar

def indexOf (s searchString : Str) : Int :=
  match s with
  | [] => if searchString = [] then 0 else -1
  | c :: tail =>
    if searchString.isPrefixOf (c :: tail) then
      0
    else
      let position := indexOf tail searchString
      if position = -1 then -1 else position + 1

inductive Reaction where
  | showError
  -- show the text and hand it to the parser, which returns a tree or throws
  | render (tree : Option GraphlibDot.GraphStmt)

def onmessage (wsMsg : Str) : Reaction :=
  if indexOf wsMsg "error".toList > 0 then
    .showError
  else
    .render (GraphlibDot.parse wsMsg)

inductive ReadyState where
  | connecting
  | open
  | closing
  | closed
  deriving DecidableEq, Repr

/--
The sockets are in the order of their creation, `webSocket` is the global variable. The other fields are the
`disabled` properties of the buttons, as the page sets them at first.
-/
structure Page where
  sockets : List ReadyState := []
  webSocket : Option Nat := none
  btnPlotDisabled : Bool := true
  btnConnectDisabled : Bool := false
  btnDisconnectDisabled : Bool := true
  deriving DecidableEq, Repr

/--
The clicks of the user and what happens to a socket. An open socket might be closed by the server before its
close event is delivered.
-/
inductive Event where
  -- the constructor of the socket might throw
  | clickConnect (constructed : Bool)
  | clickDisconnect
  | clickPlot
  | openEvent (socket : Nat)
  | closing (socket : Nat)
  | closeEvent (socket : Nat)
  deriving DecidableEq, Repr

namespace Page

def openWSConnection (page : Page) (constructed : Bool) : Page :=
  if constructed then
    { page with sockets := page.sockets ++ [.connecting], webSocket := some page.sockets.length }
  else
    page

def setReadyState (page : Page) (socket : Nat) (state : ReadyState) : Page :=
  { page with sockets := page.sockets.set socket state }

def onDisconnectClick (page : Page) : Page :=
  match page.webSocket with
  | none => page
  | some socket =>
    match page.sockets[socket]? with
    | some .connecting => page.setReadyState socket .closing
    | some .open => page.setReadyState socket .closing
    | _ => page

def onopen (page : Page) : Page :=
  { page with
    btnPlotDisabled := false
    btnConnectDisabled := true
    btnDisconnectDisabled := false
  }

def onclose (page : Page) : Page :=
  { page with
    btnPlotDisabled := true
    btnConnectDisabled := false
    btnDisconnectDisabled := true
  }

def step (page : Page) (event : Event) : Option Page :=
  match event with
  | .clickConnect constructed =>
    if page.btnConnectDisabled then none else some (page.openWSConnection constructed)
  | .clickDisconnect => if page.btnDisconnectDisabled then none else some page.onDisconnectClick
  | .clickPlot => if page.btnPlotDisabled then none else some page
  | .openEvent socket =>
    match page.sockets[socket]? with
    | some .connecting => some (page.setReadyState socket .open).onopen
    | _ => none
  | .closing socket =>
    match page.sockets[socket]? with
    | some .open => some (page.setReadyState socket .closing)
    | _ => none
  | .closeEvent socket =>
    match page.sockets[socket]? with
    | some .closed => none
    | some _ => some (page.setReadyState socket .closed).onclose
    | none => none

end Page

end Client
