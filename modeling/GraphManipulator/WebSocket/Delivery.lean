import GraphManipulator.Socket.Lemmas
import GraphManipulator.WebSocket.RoundTrip

/-!
This module contains what comes of the messages of a socket at the other side, whatever the kernels do: the
messages that have left the one socket are those that the handlers of the other one get.
-/

namespace FrameStream

open WebSocketProtocol

section

variable {σ : Type} {h : Handlers σ}

theorem nextHead_encodeFrame (sender : Bool) {fin : Bool} {code : Option OpCode} {payload : List UInt8}
    (hframe : IsFrame fin code payload) (mask : Mask)
    : ∃ messageHeader mask',
        nextHead (!sender) (encodeFrame sender fin code payload mask)
            = .head ⟨fin, codeByte code, messageHeader, payload.length, mask'⟩
          ∧ (encodeFrame sender fin code payload mask).length = messageHeader + payload.length := by
  have hlength : ∀ {isServer bytes head rest}, nextHead isServer bytes = .head head
      → bytes.drop head.messageHeader = rest → bytes.length = head.messageHeader + rest.length := by
    intro isServer bytes head rest hhead hdrop
    have hle := (bounds_of_nextHead hhead).2
    rw [← hdrop, List.length_drop]
    omega
  cases sender with
  | true =>
    obtain ⟨messageHeader, hhead, hdrop⟩ := nextHead_encodeFrame_server hframe mask []
    rw [List.append_nil] at hhead hdrop
    refine ⟨messageHeader, _, hhead, ?_⟩
    have hbytes := hlength hhead hdrop
    rwa [List.append_nil] at hbytes
  | false =>
    obtain ⟨messageHeader, hhead, hdrop⟩ := nextHead_encodeFrame_client hframe mask []
    rw [List.append_nil] at hhead hdrop
    refine ⟨messageHeader, _, hhead, ?_⟩
    have hbytes := hlength hhead hdrop
    rwa [List.append_nil, CyclicMask.length_unmask] at hbytes

theorem step_part (sender : Bool) {message : Message × Mask} (hfits : message.1.Fits h) {part : List UInt8}
    (hpart : part <+: encodeMessage sender message) (hne : part ≠ encodeMessage sender message) (s : σ)
    : step h (!sender) part { socket := s } = .wait := by
  obtain ⟨⟨opCode, data⟩, mask⟩ := message
  have hframe : IsFrame true (some opCode) data := by
    refine ⟨length_lt h hfits.length, ?_⟩
    rintro opCode ⟨⟩ hcontrol
    exact ⟨rfl, hfits.control hcontrol⟩
  rw [encodeMessage, formatMessage_eq_encodeFrame] at hpart hne
  obtain ⟨messageHeader, mask', hhead, hlength⟩ := nextHead_encodeFrame sender hframe mask
  obtain ⟨rest, hrest⟩ := hpart
  by_cases hshort : nextHead (!sender) part = .short
  . rw [step, hshort]
  . rw [← hrest, nextHead_append rest hshort] at hhead
    have haccepted : refusePayloadLength h data.length = false := decide_eq_false (Nat.not_lt.mpr hfits.length)
    have henter : ({ socket := s } : Assembler σ).enterFrame (codeByte (some opCode)) true = some _ :=
      enterFrame_some true (by simp) (.inl rfl)
    have hmissing : rest ≠ [] := by
      rintro rfl
      rw [List.append_nil] at hrest
      exact hne hrest
    have hless := List.length_pos_of_ne_nil hmissing
    rw [← hrest, List.length_append] at hlength
    rw [step_of_head h (!sender) hhead henter haccepted]
    exact if_pos (by dsimp only; omega)

theorem prefix_flatMap {α : Type} {f : α → List UInt8} {blocks : List α} {part l : List UInt8}
    (hl : l <+: blocks.flatMap f ++ part)
    : ∃ k part', k ≤ blocks.length ∧ l = (blocks.take k).flatMap f ++ part'
        ∧ (part' <+: part ∨ ∃ block, blocks[k]? = some block ∧ part' <+: f block ∧ part' ≠ f block) := by
  induction blocks generalizing l with
  | nil => exact ⟨0, l, Nat.le_refl 0, rfl, .inl hl⟩
  | cons block blocks ih =>
    rw [List.flatMap_cons, List.append_assoc] at hl
    by_cases hblock : f block <+: l
    . obtain ⟨l', rfl⟩ := hblock
      rw [List.prefix_append_right_inj] at hl
      obtain ⟨k, part', hk, rfl, hpart'⟩ := ih hl
      exact ⟨k + 1, part', by simpa using hk, by simp, hpart'⟩
    . refine ⟨0, l, Nat.zero_le _, rfl, .inr ⟨block, rfl, ?_, ?_⟩⟩
      . exact (List.prefix_or_prefix_of_prefix hl (List.prefix_append _ _)).resolve_right hblock
      . rintro rfl
        exact hblock (List.prefix_refl _)

end

structure Outgoing (κ : Type) where
  message : Message × Mask
  callback : Option κ

section

variable {κ σ : Type} {h : Handlers σ}

def Outgoing.frame (sender : Bool) (o : Outgoing κ) : Socket.Message κ where
  data := encodeMessage sender o.message
  callback := o.callback

theorem bytes_frames (sender : Bool) (os : List (Outgoing κ))
    : Socket.bytes (os.map (Outgoing.frame sender))
        =
      (os.map Outgoing.message).flatMap (encodeMessage sender) := by
  rw [Socket.bytes, List.flatMap_map, List.flatMap_map]
  rfl

theorem step_of_remains {sender : Bool} {pending : List (Outgoing κ)} (hfits : ∀ o ∈ pending, o.message.1.Fits h)
    {queue : List (Socket.Message κ)} {part : List UInt8}
    (hremains : Socket.Remains queue (pending.map (Outgoing.frame sender)) part) {part' : List UInt8}
    (hpart' : part' <+: part) (s : σ)
    : step h (!sender) part' { socket := s } = .wait := by
  cases pending with
  | nil =>
    cases hremains with
    | none =>
      rw [List.prefix_nil.mp hpart']
      rfl
  | cons o pending =>
    generalize hframes : (o :: pending).map (Outgoing.frame sender) = frames at hremains
    cases hremains with
    | none => cases hframes
    | @some _ data hrest callback rest =>
      have hframe : encodeMessage sender o.message = part ++ data :=
        congrArg Socket.Message.data (List.cons.inj hframes).1
      obtain rfl | hdata := hrest
      . rw [List.prefix_nil.mp hpart']
        rfl
      . apply step_part sender (hfits o List.mem_cons_self)
        . rw [hframe]
          exact hpart'.trans (List.prefix_append _ _)
        . rintro rfl
          rw [hframe] at hpart'
          have hle := hpart'.length_le
          have hpos := List.length_pos_of_ne_nil hdata
          rw [List.length_append] at hle
          omega

/--
What the handlers of the other side have got is what has left the socket, up to what is on its way: whatever the
kernels take and give at a time, nothing is lost, repeated, exchanged or changed.
-/
theorem delivered_of_run (sender : Bool) {sent : List (Outgoing κ)} (hfits : ∀ o ∈ sent, o.message.1.Fits h)
    {peer : Socket κ} (hrun : Socket.Run (sent.map (Outgoing.frame sender)) peer)
    {chunks : List (Memory UInt8 × List UInt8)} (hchunks : received chunks <+: peer.wire) (s : σ)
    : ∃ (done pending : List (Outgoing κ)) (refused : List (Socket.Message κ)) (part : List UInt8) (k : Nat),
        (done ++ pending).Sublist sent
          ∧ Socket.Divides (sent.map (Outgoing.frame sender)) (done.map (Outgoing.frame sender))
            (pending.map (Outgoing.frame sender)) refused
          ∧ peer.Accounts (done.map (Outgoing.frame sender)) (pending.map (Outgoing.frame sender)) refused part
          ∧ (receiveAll h (!sender) chunks { socket := s }).socket
            = handleAll h ((done.take k).map (fun o => o.message.1)) s
          ∧ k ≤ done.length ∧ (received chunks = peer.wire → k = done.length) := by
  obtain ⟨frames, frames', refused, part, hdivides, haccounts⟩ := Socket.exists_accounts hrun
  obtain ⟨accepted, hsublist, haccepted⟩ := List.sublist_map_iff.mp hdivides.acceptedOrder
  obtain ⟨done, pending, rfl, rfl, rfl⟩ := List.append_eq_map_iff.mp haccepted
  have hdone : ∀ o ∈ done, o.message.1.Fits h := fun o ho =>
    hfits o (hsublist.mem (List.mem_append_left pending ho))
  have hpending : ∀ o ∈ pending, o.message.1.Fits h := fun o ho =>
    hfits o (hsublist.mem (List.mem_append_right done ho))
  obtain ⟨hwire, queue, hremains⟩ := haccounts.remains
  rw [bytes_frames] at hwire
  have hresult : ∀ (k : Nat) (part' : List UInt8), k ≤ done.length
      → received chunks = ((done.take k).map Outgoing.message).flatMap (encodeMessage sender) ++ part'
      → (∀ s : σ, step h (!sender) part' { socket := s } = .wait)
      → (receiveAll h (!sender) chunks { socket := s }).socket
        = handleAll h ((done.take k).map (fun o => o.message.1)) s := by
    intro k part' hk hreceived hwait
    have hfits : ∀ message ∈ (done.take k).map Outgoing.message, message.1.Fits h := by
      rw [List.forall_mem_map]
      exact fun o ho => hdone o (List.mem_of_mem_take ho)
    rw [socket_eq_streamed, hreceived, streamed_messages sender hfits part' hwait, List.map_map]
    rfl
  by_cases hall : received chunks = peer.wire
  . refine ⟨done, pending, refused, part, done.length, hsublist, hdivides, haccounts, ?_, Nat.le_refl _,
      fun _ => rfl⟩
    apply hresult done.length part (Nat.le_refl _)
    . rw [List.take_length, hall, hwire]
    . exact step_of_remains hpending hremains (List.prefix_refl part)
  . rw [hwire, List.flatMap_map] at hchunks
    obtain ⟨k, part', hk, hreceived, hpart'⟩ := prefix_flatMap hchunks
    refine ⟨done, pending, refused, part, k, hsublist, hdivides, haccounts, ?_, hk, fun h => absurd h hall⟩
    apply hresult k part' hk
    . rw [hreceived, List.flatMap_map]
    . obtain hpart' | ⟨o, ho, hbegins, hne⟩ := hpart'
      . exact step_of_remains hpending hremains hpart'
      . exact step_part sender (hdone o (List.mem_of_getElem? ho)) hbegins hne

theorem delivered_of_run_part
    : let o : Outgoing Nat := { message := (⟨.text, [104, 105]⟩, fun _ => 0), callback := some 0 }
      let peer : Socket Nat := Socket.sendTransformed (.sent 3) (o.frame true) {}
      let chunks : List (Memory UInt8 × List UInt8) := [(fun _ => 0, [129]), (fun _ => 7, [2, 104])]
      ∃ (done pending : List (Outgoing Nat)) (refused : List (Socket.Message Nat)) (part : List UInt8) (k : Nat),
        (done ++ pending).Sublist [o]
          ∧ Socket.Divides [o.frame true] (done.map (Outgoing.frame true)) (pending.map (Outgoing.frame true))
            refused
          ∧ peer.Accounts (done.map (Outgoing.frame true)) (pending.map (Outgoing.frame true)) refused part
          ∧ (receiveAll (endpoint 1024).logged false chunks { socket := (false, []) }).socket
            = handleAll (endpoint 1024).logged ((done.take k).map (fun o => o.message.1)) (false, [])
          ∧ k ≤ done.length ∧ (received chunks = peer.wire → k = done.length) := by
  intro o peer chunks
  have hfits : ∀ o' ∈ [o], o'.message.1.Fits (endpoint 1024).logged := by
    rw [List.forall_mem_singleton]
    exact ⟨by decide, fun _ => by decide⟩
  exact delivered_of_run true hfits (.send .start rfl (.sent 3) (o.frame true)) (by decide) (false, [])

end

end FrameStream
