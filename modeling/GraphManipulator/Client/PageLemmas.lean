import GraphManipulator.Client.Page
import GraphManipulator.Lib.Lts

/-!
This module contains when the buttons of the page agree with its sockets: as long as Connect is not clicked
again before the socket of the last click is open or closed.
-/

namespace Client

namespace Page

def HasState (page : Page) (socket : Nat) (state : ReadyState) : Prop := page.sockets[socket]? = some state

structure Safe (page : Page) : Prop where
  -- what can be disconnected is there
  live : page.btnPlotDisabled = false → page.btnDisconnectDisabled = false →
    ∃ socket, page.webSocket = some socket ∧ (page.HasState socket .open ∨ page.HasState socket .closing)
  -- where a connection can be opened there is none
  noOpen : page.btnConnectDisabled = false → ∀ socket, ¬ page.HasState socket .open
  -- no open connection is lost
  held : ∀ socket, page.HasState socket .open →
    page.webSocket = some socket ∧ page.btnDisconnectDisabled = false

/--
No socket is created while another one is still connecting. A click on Connect creates none if the constructor
throws.
-/
def Patient (page : Page) (event : Event) : Prop :=
  match event with
  | .clickConnect true => .connecting ∉ page.sockets
  | _ => True

instance (page : Page) (event : Event) : Decidable (page.Patient event) :=
  match event with
  | .clickConnect true => inferInstanceAs (Decidable (_ ∉ _))
  | .clickConnect false | .clickDisconnect | .clickPlot | .openEvent _ | .closing _ | .closeEvent _ => isTrue trivial

def ButtonsFor (page : Page) (state : ReadyState) : Prop :=
  if state = .open ∨ state = .closing then
    page.btnPlotDisabled = false ∧ page.btnConnectDisabled = true ∧ page.btnDisconnectDisabled = false
  else
    page.btnPlotDisabled = true ∧ page.btnConnectDisabled = false ∧ page.btnDisconnectDisabled = true

def heldState (page : Page) : ReadyState := (page.webSocket.bind (page.sockets[·]?)).getD .closed

structure Inv (page : Page) : Prop where
  othersClosed : ∀ socket state, page.HasState socket state → state ≠ .closed → page.webSocket = some socket
  buttons : page.ButtonsFor page.heldState

theorem heldState_eq {page : Page} {socket : Nat} {state : ReadyState} (hheld : page.webSocket = some socket)
    (hstate : page.HasState socket state)
    : page.heldState = state := by
  rw [HasState] at hstate
  simp [heldState, hheld, hstate]

theorem Inv.heldState_eq {page : Page} (h : page.Inv) {socket : Nat} {state : ReadyState}
    (hstate : page.HasState socket state) (hlive : state ≠ .closed)
    : page.heldState = state :=
  Page.heldState_eq (h.othersClosed socket state hstate hlive) hstate

theorem Inv.buttonsFor {page : Page} (h : page.Inv) {socket : Nat} {state : ReadyState}
    (hstate : page.HasState socket state) (hlive : state ≠ .closed)
    : page.ButtonsFor state :=
  h.heldState_eq hstate hlive ▸ h.buttons

theorem buttonsFor_closing {page : Page} (h : page.ButtonsFor .open) : page.ButtonsFor .closing := by
  simpa [ButtonsFor] using h

theorem Inv.safe {page : Page} (h : page.Inv) : page.Safe := by
  have hopen : ∀ socket, page.HasState socket .open → page.ButtonsFor .open :=
    fun socket hstate => h.buttonsFor hstate (by decide)
  constructor
  . intro hplot hdisconnect
    have hbuttons := h.buttons
    unfold ButtonsFor at hbuttons
    split at hbuttons
    . next hstate =>
      cases hheld : page.webSocket with
      | none => simp [heldState, hheld] at hstate
      | some socket =>
        refine ⟨socket, rfl, ?_⟩
        cases hsocket : page.sockets[socket]? with
        | none => simp [heldState, hheld, hsocket] at hstate
        | some state =>
          rw [Page.heldState_eq hheld hsocket] at hstate
          rcases hstate with rfl | rfl
          . exact Or.inl hsocket
          . exact Or.inr hsocket
    . simp [hplot] at hbuttons
  . intro hconnect socket hstate
    have hbuttons := hopen socket hstate
    simp [ButtonsFor, hconnect] at hbuttons
  . intro socket hstate
    have hbuttons := hopen socket hstate
    simp only [ButtonsFor, true_or, if_true] at hbuttons
    exact ⟨h.othersClosed socket .open hstate (by decide), hbuttons.2.2⟩

theorem inv_init : Inv {} := by
  constructor
  . intro socket state hstate
    simp [HasState] at hstate
  . simp [heldState, ButtonsFor]

theorem Inv.setState {page page' : Page} {socket : Nat} {state new : ReadyState} (h : page.Inv)
    (hstate : page.HasState socket state) (hlive : state ≠ .closed)
    (hsockets : page'.sockets = page.sockets.set socket new) (hheld : page'.webSocket = page.webSocket)
    (hbuttons : page'.ButtonsFor new)
    : page'.Inv := by
  have hsocket := h.othersClosed socket state hstate hlive
  have hlt : socket < page.sockets.length := (List.getElem?_eq_some_iff.mp hstate).1
  have hnew : page'.HasState socket new := by
    rw [HasState, hsockets, List.getElem?_set_self hlt]
  constructor
  . intro socket' state' hstate' hlive'
    by_cases heq : socket = socket'
    . rw [hheld, hsocket, heq]
    . rw [HasState, hsockets, List.getElem?_set_ne heq] at hstate'
      rw [hheld]
      exact h.othersClosed socket' state' hstate' hlive'
  . rw [Page.heldState_eq (by rw [hheld, hsocket]) hnew]
    exact hbuttons

theorem Inv.closed_of_connect {page : Page} (h : page.Inv) (hconnect : page.btnConnectDisabled = false)
    (hpatient : .connecting ∉ page.sockets) {socket : Nat} {state : ReadyState}
    (hstate : page.HasState socket state)
    : state = .closed := by
  cases state with
  | connecting => exact absurd (List.mem_of_getElem? hstate) hpatient
  | «open» | closing =>
    have hbuttons := h.buttonsFor hstate (by decide)
    simp [ButtonsFor, hconnect] at hbuttons
  | closed => rfl

theorem heldState_closed {page : Page} (h : ∀ socket state, page.HasState socket state → state = .closed)
    : page.heldState = .closed := by
  unfold heldState
  cases page.webSocket with
  | none => rfl
  | some socket =>
    cases hstate : page.sockets[socket]? with
    | none => simp [hstate]
    | some state => simp [hstate, h socket state hstate]

theorem Inv.openWSConnection {page : Page} (h : page.Inv) (hconnect : page.btnConnectDisabled = false)
    (hpatient : .connecting ∉ page.sockets)
    : (page.openWSConnection true).Inv := by
  have hclosed : ∀ socket state, page.HasState socket state → state = .closed :=
    fun socket state => h.closed_of_connect hconnect hpatient
  have hbuttons : page.ButtonsFor .closed := heldState_closed hclosed ▸ h.buttons
  have hnew : (page.openWSConnection true).HasState page.sockets.length .connecting := by
    simp [HasState, Page.openWSConnection]
  constructor
  . intro socket state hstate hlive
    have hle : socket ≤ page.sockets.length := by
      have hlt := (List.getElem?_eq_some_iff.mp hstate).1
      simp only [Page.openWSConnection, if_true, List.length_append, List.length_singleton] at hlt
      omega
    rcases Nat.lt_or_eq_of_le hle with hlt | heq
    . simp only [HasState, Page.openWSConnection, if_true, List.getElem?_append_left hlt] at hstate
      exact absurd (hclosed socket state hstate) hlive
    . rw [heq]
      rfl
  . rw [Page.heldState_eq rfl hnew]
    exact hbuttons

theorem Inv.onDisconnectClick {page : Page} (h : page.Inv) (hdisconnect : page.btnDisconnectDisabled = false)
    : page.onDisconnectClick.Inv := by
  unfold Page.onDisconnectClick
  split
  . exact h
  . next socket hheld =>
    split
    . next hstate =>
      have hbuttons := h.buttonsFor hstate (by decide)
      simp [ButtonsFor, hdisconnect] at hbuttons
    . next hstate =>
      have hbuttons := h.buttonsFor hstate (by decide)
      exact h.setState hstate (by decide) rfl rfl (buttonsFor_closing hbuttons)
    . exact h

theorem Inv.step {page page' : Page} {event : Event} (hpatient : page.Patient event) (h : page.Inv)
    (hstep : page.step event = some page')
    : page'.Inv := by
  cases event with
  | clickConnect constructed =>
    simp only [Page.step, Option.ite_none_left_eq_some, Bool.not_eq_true, Option.some.injEq] at hstep
    rw [← hstep.2]
    cases constructed with
    | false => exact h
    | true => exact h.openWSConnection hstep.1 hpatient
  | clickDisconnect =>
    simp only [Page.step, Option.ite_none_left_eq_some, Bool.not_eq_true, Option.some.injEq] at hstep
    rw [← hstep.2]
    exact h.onDisconnectClick hstep.1
  | clickPlot =>
    simp only [Page.step, Option.ite_none_left_eq_some, Option.some.injEq] at hstep
    rw [← hstep.2]
    exact h
  | openEvent socket =>
    simp only [Page.step] at hstep
    split at hstep
    . next hstate =>
      rw [← Option.some.inj hstep]
      exact h.setState hstate (by decide) rfl rfl ⟨rfl, rfl, rfl⟩
    . contradiction
  | closing socket =>
    simp only [Page.step] at hstep
    split at hstep
    . next hstate =>
      rw [← Option.some.inj hstep]
      exact h.setState hstate (by decide) rfl rfl (buttonsFor_closing (h.buttonsFor hstate (by decide)))
    . contradiction
  | closeEvent socket =>
    simp only [Page.step] at hstep
    split at hstep
    . contradiction
    . next hlive hstate =>
      rw [← Option.some.inj hstep]
      exact h.setState hstate (fun heq => hlive (heq ▸ rfl)) rfl rfl ⟨rfl, rfl, rfl⟩
    . contradiction

theorem safe_of_run {events : List Event} {page : Page} (hrun : Lts.Run step Patient {} events page)
    : page.Safe :=
  (hrun.invariant Inv (fun _ _ _ hpatient h hstep => h.step hpatient hstep) inv_init).safe

theorem not_patient_iff {page : Page} {event : Event}
    : ¬ page.Patient event ↔ event = .clickConnect true ∧ .connecting ∈ page.sockets := by
  cases event with
  | clickConnect constructed => cases constructed <;> simp [Patient]
  | _ => simp [Patient]

theorem not_safe_of_openEvent {page : Page} {socket : Nat} (hstate : page.HasState socket .connecting)
    : ∃ page', Lts.Run step (fun _ _ => True) (page.openWSConnection true) [.openEvent socket] page'
        ∧ ¬ page'.Safe := by
  have hlt : socket < page.sockets.length := (List.getElem?_eq_some_iff.mp hstate).1
  have hold : (page.openWSConnection true).sockets[socket]? = some .connecting := by
    simp only [Page.openWSConnection, if_true, List.getElem?_append_left hlt]
    exact hstate
  have hopen : (page.openWSConnection true).step (.openEvent socket)
      = some ((page.openWSConnection true).setReadyState socket .open).onopen := by
    simp only [Page.step, hold]
  refine ⟨_, .cons trivial hopen (.nil _), ?_⟩
  intro hsafe
  have hopened : ((page.openWSConnection true).setReadyState socket .open).onopen.HasState socket .open :=
    List.getElem?_set_self (List.getElem?_eq_some_iff.mp hold).1
  have hheld : some page.sockets.length = some socket := (hsafe.held socket hopened).1
  have := Option.some.inj hheld
  omega

/--
In a run that does not meet the condition, the first click against it only needs the open event of an older socket
behind it for the buttons not to agree with the sockets.
-/
theorem not_safe_of_not_patient {events : List Event} {page : Page}
    (hrun : Lts.Run step (fun _ _ => True) {} events page) (himpatient : ¬ Lts.Run step Patient {} events page)
    : ∃ pre page₁ socket page', pre ++ [.clickConnect true] <+: events
        ∧ Lts.Run step Patient {} pre page₁
        ∧ Lts.Run step (fun _ _ => True) page₁ [.clickConnect true, .openEvent socket] page'
        ∧ ¬ page'.Safe := by
  obtain ⟨pre, event, page₁, page₂, hbegins, hpre, hnot, hok, hstep⟩ := hrun.exists_first_not himpatient
  obtain ⟨rfl, hconnecting⟩ := not_patient_iff.mp hnot
  obtain ⟨socket, hstate⟩ := List.mem_iff_getElem?.mp hconnecting
  have hclick : page₂ = page₁.openWSConnection true := by
    simp only [step, Option.ite_none_left_eq_some, Option.some.injEq] at hstep
    exact hstep.2.symm
  rw [hclick] at hstep
  obtain ⟨page', hopen, hsafe⟩ := not_safe_of_openEvent hstate
  exact ⟨pre, page₁, socket, page', hbegins, hpre, .cons hok hstep hopen, hsafe⟩

theorem safe_of_run_reconnect
    : Safe {
        sockets := [.closed, .open]
        webSocket := some 1
        btnPlotDisabled := false
        btnConnectDisabled := true
        btnDisconnectDisabled := false
      } := by
  have hrun : Lts.Run step Patient {}
      [.clickConnect true, .clickConnect false, .closeEvent 0, .clickConnect true, .openEvent 1] _ :=
    .cons (by decide) rfl (.cons (by decide) rfl (.cons (by decide) rfl (.cons (by decide) rfl
      (.cons (by decide) rfl (.nil _)))))
  exact safe_of_run hrun

theorem not_safe_of_run
    : ∃ events page, Lts.Run step (fun _ _ => True) {} events page ∧ ¬ page.Safe := by
  refine ⟨[.clickConnect true, .clickConnect true, .openEvent 0], _,
    .cons trivial rfl (.cons trivial rfl (.cons trivial rfl (.nil _))), ?_⟩
  intro h
  obtain ⟨hheld, -⟩ := h.held 0 rfl
  exact absurd hheld (by decide)

end Page

end Client
