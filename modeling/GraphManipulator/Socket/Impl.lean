import Mathlib.Init

/-!
This module contains how a socket gets rid of what it sends: the kernel takes some of it at once, and what it
does not take waits in a queue until the socket is writable.
-/

/--
What comes of `::send`: the kernel takes up to so many bytes, or the call would block, or it fails.
-/
inductive Sending where
  | sent (n : Nat)
  | wouldBlock
  | failed

namespace Socket

structure Message (κ : Type) where
  data : List UInt8
  callback : Option κ

end Socket

structure Socket (κ : Type) where
  messageQueue : List (Socket.Message κ) := []
  -- `UV_WRITABLE` is among the events for which the socket is polled
  pollsWritable : Bool := false
  -- the bytes that the kernel took
  wire : List UInt8 := []
  -- the callbacks that were called, by their argument `cancelled`
  finished : List κ := []
  cancelled : List κ := []
  isClosed : Bool := false

namespace Socket

variable {κ : Type}

def call (callback : Option κ) (isCancelled : Bool) (s : Socket κ) : Socket κ :=
  match callback with
  | none => s
  | some callback =>
    if isCancelled then
      { s with cancelled := s.cancelled ++ [callback] }
    else
      { s with finished := s.finished ++ [callback] }

/--
Whether the message was transferred to the queue. There is no answer if it could not be written.
-/
def write (sending : Sending) (message : Message κ) (s : Socket κ) : Option Bool × Socket κ :=
  if s.messageQueue.isEmpty then
    match sending with
    | .failed => (none, s)
    | .wouldBlock => (some true, { s with pollsWritable := true, messageQueue := [message] })
    | .sent n =>
      if message.data.length ≤ n then
        (some false, { s with wire := s.wire ++ message.data })
      else
        (some true, { s with
          wire := s.wire ++ message.data.take n
          pollsWritable := true
          messageQueue := [{ message with data := message.data.drop n }]
        })
  else
    (some true, { s with messageQueue := s.messageQueue ++ [message] })

/--
`sendTransformed`, with the message that the transformer makes. The callback of a message that is queued is set
after it was queued.
-/
def sendTransformed (sending : Sending) (message : Message κ) (s : Socket κ) : Socket κ :=
  if s.messageQueue.isEmpty then
    match write sending message s with
    | (some true, s) => s
    | (some false, s) => s.call message.callback false
    | (none, s) => s.call message.callback true
  else
    { s with messageQueue := s.messageQueue ++ [message] }

def cancelQueue (queue : List (Message κ)) (s : Socket κ) : Socket κ :=
  match queue with
  | [] => { s with messageQueue := [] }
  | message :: queue => cancelQueue queue (s.call message.callback true)

/--
The part of `WebSocket::onEnd` that is about the messages which were not sent
-/
def onEnd (s : Socket κ) : Socket κ := cancelQueue s.messageQueue { s with isClosed := true }

/--
The loop of `ioHandler` over the queue, in which the calls of `::send` have the results `sendings`
-/
def sendQueue (sendings : Nat → Sending) (i : Nat) (queue : List (Message κ)) (s : Socket κ) : Socket κ :=
  match queue with
  | [] => s
  | message :: queue =>
    match sendings i with
    | .sent n =>
      if message.data.length ≤ n then
        let s := { s with wire := s.wire ++ message.data }.call message.callback false
        let s := { s with messageQueue := queue }
        if queue.isEmpty then
          { s with pollsWritable := false }
        else
          sendQueue sendings (i + 1) queue s
      else
        { s with
          wire := s.wire ++ message.data.take n
          messageQueue := { message with data := message.data.drop n } :: queue
        }
    | .wouldBlock => s
    | .failed => onEnd s

def onWritable (sendings : Nat → Sending) (s : Socket κ) : Socket κ := sendQueue sendings 0 s.messageQueue s

/--
The sockets that a run leads to, with the messages that were sent in it. Nothing happens to a closed socket, and
it is not polled for what it does not wait for.
-/
inductive Run : List (Message κ) → Socket κ → Prop
  | start : Run [] {}
  | send {sent : List (Message κ)} {s : Socket κ} (hrun : Run sent s) (hopen : s.isClosed = false)
    (sending : Sending) (message : Message κ) : Run (sent ++ [message]) (sendTransformed sending message s)
  | writable {sent : List (Message κ)} {s : Socket κ} (hrun : Run sent s) (hopen : s.isClosed = false)
    (hpolls : s.pollsWritable = true) (sendings : Nat → Sending) : Run sent (onWritable sendings s)
  | ended {sent : List (Message κ)} {s : Socket κ} (hrun : Run sent s) (hopen : s.isClosed = false)
    : Run sent (onEnd s)

end Socket
