import GraphManipulator.Socket.Impl
import Mathlib.Data.List.Basic

/-!
This module contains that a socket loses, repeats and exchanges nothing of what it sends, and that it calls each
callback once.
-/

namespace Socket

variable {κ : Type}

section

variable (callback : Option κ) (isCancelled : Bool) (s : Socket κ)

@[simp]
theorem messageQueue_call : (s.call callback isCancelled).messageQueue = s.messageQueue := by
  cases callback <;> cases isCancelled <;> rfl

@[simp]
theorem pollsWritable_call : (s.call callback isCancelled).pollsWritable = s.pollsWritable := by
  cases callback <;> cases isCancelled <;> rfl

@[simp]
theorem wire_call : (s.call callback isCancelled).wire = s.wire := by
  cases callback <;> cases isCancelled <;> rfl

@[simp]
theorem isClosed_call : (s.call callback isCancelled).isClosed = s.isClosed := by
  cases callback <;> cases isCancelled <;> rfl

@[simp]
theorem finished_call
    : (s.call callback isCancelled).finished = s.finished ++ (if isCancelled then [] else callback.toList) := by
  cases callback <;> cases isCancelled <;> simp [call]

@[simp]
theorem cancelled_call
    : (s.call callback isCancelled).cancelled = s.cancelled ++ (if isCancelled then callback.toList else []) := by
  cases callback <;> cases isCancelled <;> simp [call]

end

def callbacks (messages : List (Message κ)) : List κ := messages.filterMap Message.callback

def bytes (messages : List (Message κ)) : List UInt8 := messages.flatMap Message.data

@[simp]
theorem callbacks_nil : callbacks ([] : List (Message κ)) = [] := rfl

@[simp]
theorem bytes_nil : bytes ([] : List (Message κ)) = [] := rfl

@[simp]
theorem callbacks_append (messages messages' : List (Message κ))
    : callbacks (messages ++ messages') = callbacks messages ++ callbacks messages' :=
  List.filterMap_append

@[simp]
theorem callbacks_cons (message : Message κ) (messages : List (Message κ))
    : callbacks (message :: messages) = message.callback.toList ++ callbacks messages := by
  cases h : message.callback <;> simp [callbacks, h]

@[simp]
theorem bytes_append (messages messages' : List (Message κ))
    : bytes (messages ++ messages') = bytes messages ++ bytes messages' :=
  List.flatMap_append

@[simp]
theorem bytes_cons (message : Message κ) (messages : List (Message κ))
    : bytes (message :: messages) = message.data ++ bytes messages :=
  List.flatMap_cons

inductive Remains : (queue pending : List (Message κ)) → (part : List UInt8) → Prop
  | none : Remains [] [] []
  | some {part data : List UInt8} (hrest : part = [] ∨ data ≠ []) (callback : Option κ) (rest : List (Message κ))
    : Remains (⟨data, callback⟩ :: rest) (⟨part ++ data, callback⟩ :: rest) part

/--
An open socket that has sent `done` and `part` of the first message of `pending`, and that could not send `refused`
-/
structure Live (s : Socket κ) (done pending refused : List (Message κ)) (part : List UInt8) : Prop where
  isOpen : s.isClosed = false
  wire : s.wire = bytes done ++ part
  queue : Remains s.messageQueue pending part
  finished : s.finished = callbacks done
  cancelled : s.cancelled = callbacks refused
  polls : s.messageQueue ≠ [] → s.pollsWritable = true

structure Over (s : Socket κ) (done pending refused : List (Message κ)) (part : List UInt8) : Prop where
  isClosed : s.isClosed = true
  wire : s.wire = bytes done ++ part
  queue : ∃ queue, Remains queue pending part
  messageQueue : s.messageQueue = []
  finished : s.finished = callbacks done
  cancelled : s.cancelled = callbacks refused ++ callbacks pending

def Accounts (s : Socket κ) (done pending refused : List (Message κ)) (part : List UInt8) : Prop :=
  s.Live done pending refused part ∨ s.Over done pending refused part

section

variable {s : Socket κ} {done pending refused : List (Message κ)} {part : List UInt8}

theorem remains_self (pending : List (Message κ)) : Remains pending pending [] := by
  cases pending with
  | nil => exact .none
  | cons message rest => exact @Remains.some _ [] message.data (.inl rfl) message.callback rest

theorem Remains.push {queue : List (Message κ)} (h : Remains queue pending part) (message : Message κ)
    : Remains (queue ++ [message]) (pending ++ [message]) part := by
  cases h with
  | none => exact remains_self [message]
  | some hrest callback rest => exact .some hrest callback (rest ++ [message])

theorem Remains.callbacks_eq {queue : List (Message κ)} (h : Remains queue pending part)
    : callbacks queue = callbacks pending := by
  cases h with
  | none => rfl
  | some hrest callback rest => simp

theorem Live.nothing (h : s.Live done pending refused part) (hempty : s.messageQueue = [])
    : pending = [] ∧ part = [] := by
  have hqueue := h.queue
  rw [hempty] at hqueue
  cases hqueue with
  | none => exact ⟨rfl, rfl⟩

theorem Accounts.remains (h : s.Accounts done pending refused part)
    : s.wire = bytes done ++ part ∧ ∃ queue, Remains queue pending part := by
  obtain hlive | hover := h
  . exact ⟨hlive.wire, _, hlive.queue⟩
  . exact ⟨hover.wire, hover.queue⟩

theorem cancelQueue_eq (queue : List (Message κ)) (s : Socket κ)
    : cancelQueue queue s
        =
      { s with messageQueue := [], cancelled := s.cancelled ++ callbacks queue } := by
  induction queue generalizing s with
  | nil => simp [cancelQueue, callbacks]
  | cons message queue ih =>
    rw [cancelQueue, ih]
    cases h : message.callback <;> simp [call, h]

theorem onEnd_over (h : s.Live done pending refused part) : s.onEnd.Over done pending refused part := by
  rw [onEnd, cancelQueue_eq]
  refine ⟨rfl, h.wire, ⟨_, h.queue⟩, rfl, h.finished, ?_⟩
  simp only [h.cancelled, h.queue.callbacks_eq]

theorem Remains.take {data : List UInt8} {callback : Option κ} {rest : List (Message κ)}
    (h : Remains (⟨data, callback⟩ :: rest) pending part) {n : Nat} (hn : n < data.length)
    : Remains (⟨data.drop n, callback⟩ :: rest) pending (part ++ data.take n) := by
  cases h with
  | some hrest callback rest =>
    have hdrop : data.drop n ≠ [] := by
      rw [ne_eq, List.drop_eq_nil_iff]
      exact Nat.not_le.mpr hn
    have hsplit : part ++ data = (part ++ data.take n) ++ data.drop n := by
      rw [List.append_assoc, List.take_append_drop]
    rw [hsplit]
    exact .some (.inr hdrop) callback rest

theorem sendQueue_accounts (sendings : Nat → Sending) (i : Nat) {queue : List (Message κ)}
    (h : s.Live done pending refused part) (hqueue : s.messageQueue = queue)
    : ∃ moved pending' part', pending = moved ++ pending'
        ∧ (sendQueue sendings i queue s).Accounts (done ++ moved) pending' refused part' := by
  induction queue generalizing s i done pending part with
  | nil =>
    refine ⟨[], pending, part, rfl, ?_⟩
    rw [List.append_nil]
    exact .inl h
  | cons message queue ih =>
    obtain ⟨data, callback⟩ := message
    have hremains := h.queue
    have hpolls := h.polls (by rw [hqueue]; simp)
    rw [hqueue] at hremains
    have hnone : ∀ {s' : Socket κ} {part'}, s'.Accounts done pending refused part'
        → ∃ moved pending' part', pending = moved ++ pending'
          ∧ s'.Accounts (done ++ moved) pending' refused part' := by
      intro s' part' haccounts
      refine ⟨[], pending, part', rfl, ?_⟩
      rw [List.append_nil]
      exact haccounts
    unfold sendQueue
    cases sendings i with
    | wouldBlock => exact hnone (.inl h)
    | failed => exact hnone (.inr (onEnd_over h))
    | sent n =>
      by_cases hn : data.length ≤ n
      . -- the whole message was sent
        simp only [if_pos hn]
        cases hremains with
        | some hrest callback rest =>
          let s' : Socket κ :=
            { ({ s with wire := s.wire ++ data } : Socket κ).call callback false with messageQueue := queue }
          have hlive : s'.Live (done ++ [⟨part ++ data, callback⟩]) queue refused [] := by
            refine ⟨?_, ?_, remains_self queue, ?_, ?_, fun _ => ?_⟩
            . simpa [s'] using h.isOpen
            . simp [s', h.wire]
            . simp [s', h.finished]
            . simp [s', h.cancelled]
            . simpa [s'] using hpolls
          cases queue with
          | nil =>
            refine ⟨[⟨part ++ data, callback⟩], [], [], rfl, .inl ?_⟩
            exact ⟨hlive.isOpen, hlive.wire, .none, hlive.finished, hlive.cancelled, fun hne => absurd rfl hne⟩
          | cons next queue =>
            obtain ⟨moved, pending', part', hmoved, haccounts⟩ := ih (i + 1) hlive rfl
            refine ⟨⟨part ++ data, callback⟩ :: moved, pending', part', by rw [hmoved]; rfl, ?_⟩
            rw [List.append_cons]
            exact haccounts
      . simp only [if_neg hn]
        refine hnone (.inl ⟨h.isOpen, ?_, hremains.take (Nat.not_le.mp hn), h.finished, h.cancelled,
          fun _ => hpolls⟩)
        simp only [h.wire, List.append_assoc]

theorem onWritable_accounts (sendings : Nat → Sending) (h : s.Live done pending refused part)
    : ∃ moved pending' part', pending = moved ++ pending'
        ∧ (onWritable sendings s).Accounts (done ++ moved) pending' refused part' :=
  sendQueue_accounts sendings 0 h rfl

theorem sendTransformed_accounts (sending : Sending) (message : Message κ)
    (h : s.Live done pending refused part)
    : (pending = [] ∧ (sendTransformed sending message s).Live (done ++ [message]) [] refused [])
      ∨ (∃ part', (sendTransformed sending message s).Live done (pending ++ [message]) refused part')
      ∨ (sendTransformed sending message s).Live done pending (refused ++ [message]) part := by
  obtain ⟨data, callback⟩ := message
  unfold sendTransformed
  by_cases hempty : s.messageQueue = []
  . obtain ⟨rfl, rfl⟩ := h.nothing hempty
    have hwire := h.wire
    rw [List.append_nil] at hwire
    simp only [hempty, List.isEmpty_nil, if_true, write]
    cases sending with
    | failed =>
      refine .inr (.inr ⟨?_, ?_, ?_, ?_, ?_, ?_⟩)
      . simpa using h.isOpen
      . simpa using h.wire
      . simpa using h.queue
      . simpa using h.finished
      . simp [h.cancelled]
      . simpa using h.polls
    | wouldBlock =>
      refine .inr (.inl ⟨[], h.isOpen, h.wire, remains_self _, h.finished, h.cancelled, fun _ => rfl⟩)
    | sent n =>
      by_cases hn : data.length ≤ n
      . simp only [if_pos hn]
        refine .inl ⟨trivial, ?_, ?_, ?_, ?_, ?_, ?_⟩
        . simpa using h.isOpen
        . simp [hwire]
        . simpa using Remains.none
        . simp [h.finished]
        . simp [h.cancelled]
        . simp
      . simp only [if_neg hn]
        refine .inr (.inl ⟨data.take n, h.isOpen, ?_, ?_, h.finished, h.cancelled, fun _ => rfl⟩)
        . rw [hwire]
        . exact (remains_self [⟨data, callback⟩]).take (Nat.not_le.mp hn)
  . have hpush : s.messageQueue.isEmpty = false := by simpa using hempty
    simp only [hpush, Bool.false_eq_true, if_false]
    exact .inr (.inl ⟨part, h.isOpen, h.wire, h.queue.push _, h.finished, h.cancelled, fun _ => h.polls hempty⟩)

end

/--
The messages that were sent are divided into those that have left the socket, those that are to leave it, in the
order in which they were sent, and those that were refused.
-/
structure Divides {α : Type} (sent done pending refused : List α) : Prop where
  acceptedOrder : (done ++ pending).Sublist sent
  refusedOrder : refused.Sublist sent
  perm : (done ++ pending ++ refused).Perm sent

section

variable {sent done pending refused : List (Message κ)}

theorem Divides.accept (h : Divides sent done pending refused) (message : Message κ)
    : Divides (sent ++ [message]) done (pending ++ [message]) refused := by
  refine ⟨?_, h.refusedOrder.trans (List.sublist_append_left _ _), ?_⟩
  . rw [← List.append_assoc]
    exact h.acceptedOrder.append (List.Sublist.refl _)
  . have hmiddle : done ++ (pending ++ [message]) ++ refused = (done ++ pending) ++ message :: refused := by simp
    rw [hmiddle]
    exact (List.perm_middle.trans (List.perm_append_singleton _ _).symm).trans (h.perm.append_right _)

theorem Divides.refuse (h : Divides sent done pending refused) (message : Message κ)
    : Divides (sent ++ [message]) done pending (refused ++ [message]) := by
  refine ⟨h.acceptedOrder.trans (List.sublist_append_left _ _), h.refusedOrder.append (List.Sublist.refl _), ?_⟩
  rw [← List.append_assoc]
  exact h.perm.append_right _

theorem Divides.finish {moved pending' : List (Message κ)} (h : Divides sent done pending refused)
    (hmoved : pending = moved ++ pending')
    : Divides sent (done ++ moved) pending' refused := by
  subst hmoved
  have hassoc : done ++ moved ++ pending' = done ++ (moved ++ pending') := List.append_assoc _ _ _
  refine ⟨?_, h.refusedOrder, ?_⟩
  . rw [hassoc]
    exact h.acceptedOrder
  . rw [hassoc]
    exact h.perm

end

theorem exists_accounts {sent : List (Message κ)} {s : Socket κ} (hrun : Run sent s)
    : ∃ done pending refused part, Divides sent done pending refused ∧ s.Accounts done pending refused part := by
  induction hrun with
  | start =>
    exact ⟨[], [], [], [], ⟨.slnil, .slnil, .nil⟩, .inl ⟨rfl, rfl, .none, rfl, rfl, fun h => absurd rfl h⟩⟩
  | send hrun hopen sending message ih =>
    obtain ⟨done, pending, refused, part, hdivides, hlive | hover⟩ := ih
    . obtain ⟨rfl, hsent⟩ | ⟨part', hqueued⟩ | hrefused := sendTransformed_accounts sending message hlive
      . exact ⟨_, _, _, _, (hdivides.accept message).finish (List.append_nil _).symm, .inl hsent⟩
      . exact ⟨_, _, _, _, hdivides.accept message, .inl hqueued⟩
      . exact ⟨_, _, _, _, hdivides.refuse message, .inl hrefused⟩
    . rw [hover.isClosed] at hopen
      cases hopen
  | writable hrun hopen hpolls sendings ih =>
    obtain ⟨done, pending, refused, part, hdivides, hlive | hover⟩ := ih
    . obtain ⟨moved, pending', part', hmoved, haccounts⟩ := onWritable_accounts sendings hlive
      exact ⟨_, _, _, _, hdivides.finish hmoved, haccounts⟩
    . rw [hover.isClosed] at hopen
      cases hopen
  | ended hrun hopen ih =>
    obtain ⟨done, pending, refused, part, hdivides, hlive | hover⟩ := ih
    . exact ⟨_, _, _, _, hdivides, .inr (onEnd_over hlive)⟩
    . rw [hover.isClosed] at hopen
      cases hopen

/--
The bytes that have left a socket are those of the first messages that it did not refuse and of a part of the
next one. Each message that has left it has called its callback, each one that was refused has called it as
cancelled, and the end of the socket cancels the others.
-/
theorem accounts_of_run {sent : List (Message κ)} {s : Socket κ} (hrun : Run sent s)
    : ∃ done pending refused part, Divides sent done pending refused ∧ s.Accounts done pending refused part
        ∧ s.wire = bytes done ++ part
        ∧ s.finished = callbacks done
        ∧ s.cancelled = callbacks refused ++ (if s.isClosed then callbacks pending else []) := by
  obtain ⟨done, pending, refused, part, hdivides, haccounts⟩ := exists_accounts hrun
  refine ⟨done, pending, refused, part, hdivides, haccounts, haccounts.remains.1, ?_⟩
  rcases haccounts with hlive | hover
  . refine ⟨hlive.finished, ?_⟩
    rw [hlive.isOpen, hlive.cancelled]
    exact (List.append_nil _).symm
  . refine ⟨hover.finished, ?_⟩
    rw [hover.isClosed, hover.cancelled]
    rfl

theorem accounts_of_run_closing
    : let s : Socket Nat :=
        onEnd (sendTransformed .failed ⟨[4], some 1⟩ (sendTransformed (.sent 2) ⟨[1, 2, 3], some 0⟩ {}))
      ∃ done pending refused part,
        Divides [(⟨[1, 2, 3], some 0⟩ : Message Nat), ⟨[4], some 1⟩] done pending refused
          ∧ s.Accounts done pending refused part
          ∧ s.wire = bytes done ++ part
          ∧ s.finished = callbacks done
          ∧ s.cancelled = callbacks refused ++ (if s.isClosed then callbacks pending else []) :=
  accounts_of_run (.ended (.send (.send .start rfl (.sent 2) ⟨[1, 2, 3], some 0⟩) rfl .failed ⟨[4], some 1⟩) rfl)

def size (queue : List (Message κ)) : Nat := queue.length + (bytes queue).length

section

variable {s : Socket κ} {done pending refused : List (Message κ)} {part : List UInt8} {sendings : Nat → Sending}

end

end Socket
