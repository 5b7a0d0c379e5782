import GraphManipulator.WebSocket.Impl

/-!
This module contains that no connection ever ends: the handler closes the socket, which calls the handler.
-/

namespace Connection

structure IsLive (c : Connection) : Prop where
  notShuttingDown : c.ws.shuttingDown = false
  notClosed : c.ws.closed = false
  notHandled : c.handled = []

/--
What an end is to lead to: some number of nested calls is enough, and the handler has run once.
-/
def EndsOnce (e : End) (c : Connection) : Prop :=
  ∃ depth c', deliver (groupHandler depth) e c = .returned c' ∧ c'.handled.length = 1

def FollowsHandler (call r : Outcome) : Prop :=
  match call with
  | .unfinished c => r = .unfinished c
  | .returned c => ∃ c', r = .returned c' ∧ c'.handled = c.handled

theorem close_followsHandler (handler : DisconnectionHandler) (code : Nat) (message : List UInt8)
    (c : Connection)
    : FollowsHandler (handler code (message.take maxClosePayload) c.removeWebSocket)
        (close handler code message c) := by
  cases hcall : handler code (message.take maxClosePayload) c.removeWebSocket with
  | unfinished c' => simp only [FollowsHandler, close, hcall]
  | returned c' =>
    simp only [FollowsHandler, close, hcall]
    exact ⟨_, rfl, rfl⟩

theorem onEnd_followsHandler (handler : DisconnectionHandler) {c : Connection}
    (h : c.ws.shuttingDown = false)
    : FollowsHandler (handler 1006 [] c.removeWebSocket) (onEnd handler c) := by
  have hrunning : ¬ c.ws.shuttingDown = true := by simp [h]
  cases hcall : handler 1006 [] c.removeWebSocket with
  | unfinished c' => simp only [FollowsHandler, onEnd, if_neg hrunning, hcall]
  | returned c' =>
    simp only [FollowsHandler, onEnd, if_neg hrunning, hcall]
    exact ⟨_, rfl, rfl⟩

theorem handleCloseFragment_eq_close (data : List UInt8) (c : Connection)
    : ∃ code message c', c'.handled = c.handled
        ∧ ∀ handler, handleCloseFragment handler data 0 true c = close handler code message c' := by
  by_cases hwhole : c.ws.controlTipLength = 0
  . let closeFrame := WebSocketProtocol.parseClosePayload data
    refine ⟨closeFrame.1, closeFrame.2, c, rfl, ?_⟩
    intro handler
    simp only [handleCloseFragment, hwhole, and_self, if_true, closeFrame]
  . let fragmentBuffer := c.ws.fragmentBuffer ++ data
    let controlTipLength := c.ws.controlTipLength + UInt8.ofNat data.length
    let closeFrame := WebSocketProtocol.parseClosePayload
      (fragmentBuffer.drop (fragmentBuffer.length - controlTipLength.toNat))
    refine ⟨closeFrame.1, closeFrame.2, { c with
      ws.fragmentBuffer := fragmentBuffer
      ws.controlTipLength := controlTipLength
    }, rfl, ?_⟩
    intro handler
    simp only [handleCloseFragment, hwhole, and_false, and_self, if_true, if_false, closeFrame,
      fragmentBuffer, controlTipLength]

theorem deliver_followsHandler (e : End) {c : Connection} (h : c.IsLive)
    : ∃ code message c', c'.handled = []
        ∧ ∀ handler, FollowsHandler (handler code message c') (deliver handler e c) := by
  cases e with
  | closeFrame data =>
    obtain ⟨code, message, c', hhandled, hclose⟩ := handleCloseFragment_eq_close data c
    refine ⟨code, message.take maxClosePayload, c'.removeWebSocket, ?_, ?_⟩
    . rw [← h.notHandled, ← hhandled]
      rfl
    . intro handler
      rw [deliver, hclose handler]
      exact close_followsHandler handler code message c'
  | transportEnd =>
    exact ⟨1006, [], c.removeWebSocket, h.notHandled, fun handler =>
      onEnd_followsHandler handler h.notShuttingDown⟩
  | terminate =>
    exact ⟨1006, [], c.removeWebSocket, h.notHandled, fun handler =>
      onEnd_followsHandler handler h.notShuttingDown⟩

theorem groupHandler_unfinished (depth : Nat) (code : Nat) (message : List UInt8) (c : Connection)
    : ∃ c', groupHandler depth code message c = .unfinished c'
        ∧ c'.handled.length = c.handled.length + depth := by
  induction depth generalizing code message c with
  | zero => exact ⟨c, rfl, rfl⟩
  | succ depth ih =>
    obtain ⟨c', hcall, hlength⟩ := ih 1000 ([].take maxClosePayload)
      (removeWebSocket { c with handled := c.handled ++ [(code, message)] })
    refine ⟨c', ?_, ?_⟩
    . simp only [groupHandler, onDisconnection, close, hcall]
    . rw [hlength]
      simp only [removeWebSocket, List.length_append, List.length_singleton]
      omega

theorem deliver_passive (e : End) {c : Connection} (h : c.IsLive)
    : ∃ c', deliver (fun code message c => .returned { c with handled := c.handled ++ [(code, message)] }) e c
          = .returned c'
        ∧ c'.handled.length = 1 := by
  obtain ⟨code, message, c₁, hhandled, hfollows⟩ := deliver_followsHandler e h
  obtain ⟨c', hdeliver, hc'⟩ := hfollows
    (fun code message c => .returned { c with handled := c.handled ++ [(code, message)] })
  refine ⟨c', hdeliver, ?_⟩
  rw [hc', List.length_append, hhandled]
  rfl

theorem deliver_unfinished (e : End) {c : Connection} (h : c.IsLive) (depth : Nat)
    : ∃ c', deliver (groupHandler depth) e c = .unfinished c' ∧ c'.handled.length = depth := by
  obtain ⟨code, message, c₁, hhandled, hfollows⟩ := deliver_followsHandler e h
  obtain ⟨c', hcall, hlength⟩ := groupHandler_unfinished depth code message c₁
  have hdeliver := hfollows (groupHandler depth)
  rw [hcall] at hdeliver
  refine ⟨c', hdeliver, ?_⟩
  rw [hlength, hhandled]
  exact Nat.zero_add depth

theorem not_endsOnce (e : End) {c : Connection} (h : c.IsLive)
    : ¬ EndsOnce e c ∧ ∀ depth, ∃ c', deliver (groupHandler depth) e c = .unfinished c'
        ∧ c'.handled.length = depth := by
  refine ⟨?_, deliver_unfinished e h⟩
  rintro ⟨depth, c', hreturned, -⟩
  obtain ⟨c'', hunfinished, -⟩ := deliver_unfinished e h depth
  rw [hunfinished] at hreturned
  contradiction

theorem not_endsOnce_closeFrame
    : ¬ EndsOnce (.closeFrame [3, 232]) { ws := {} }
      ∧ ∀ depth, ∃ c', deliver (groupHandler depth) (.closeFrame [3, 232]) { ws := {} } = .unfinished c'
        ∧ c'.handled.length = depth :=
  not_endsOnce _ ⟨rfl, rfl, rfl⟩

theorem transportEnd_unfinished
    : ¬ EndsOnce .transportEnd { ws := {} } := by
  rintro ⟨depth, c', hreturned, -⟩
  have hlive : IsLive { ws := {} } := ⟨rfl, rfl, rfl⟩
  obtain ⟨c'', hunfinished, -⟩ := deliver_unfinished .transportEnd hlive depth
  rw [hunfinished] at hreturned
  contradiction

end Connection
