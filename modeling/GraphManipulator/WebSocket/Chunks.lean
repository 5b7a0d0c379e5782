import GraphManipulator.WebSocket.Refinement

/-!
This module contains what the chunks in which a stream arrives come to: the same calls of the handlers as for the
whole stream, and no write outside of the buffer and the fields of the socket.
-/

namespace WebSocketProtocol

open FrameStream

variable {σ : Type} (h : Handlers σ) (isServer : Bool)

/--
The chunks that arrive, each with what the buffer of all sockets holds at that time
-/
def receiveAll (chunks : List (Memory UInt8 × List UInt8)) (r : Receiver σ) : Receiver σ :=
  match chunks with
  | [] => r
  | (mem, bytes) :: chunks => receiveAll chunks (receive h isServer mem bytes r).2

def received (chunks : List (Memory UInt8 × List UInt8)) : List UInt8 := (chunks.map Prod.snd).flatten

def streamed (bytes : List UInt8) (s : σ) : σ :=
  if h.isOver s then
    s
  else
    match (frames h isServer).decode bytes { socket := s } with
    | .waiting _ a => a.socket
    | .finished s => s

section

variable {h isServer} {r : Receiver σ} {p : Incremental.Progress UInt8 (Assembler σ) σ}

theorem Refines.live {pending : List UInt8} {a : Assembler σ}
    (hrefines : Refines h isServer r (.waiting pending a))
    : r.socket = a.socket ∧ h.isOver a.socket = false := by
  cases hrefines with
  | atHead hat _ => exact ⟨hat.assembled.socket, hat.live⟩
  | inPayload entered head hin =>
    obtain ⟨c, opened, hentered⟩ := entered_of_enterFrame hin.nextHead_eq hin.opensData hin.enterFrame_eq
    exact ⟨hin.assembled.socket.trans hentered.socket, hin.live⟩

theorem Refines.spill_le {pending : List UInt8} {a : Assembler σ}
    (hrefines : Refines h isServer r (.waiting pending a))
    : r.state.spill.length ≤ consumePrePadding isServer := by
  cases hrefines with
  | atHead _ hspill => exact Nat.le_sub_one_of_lt (length_of_nextHead_short hspill)
  | inPayload entered head hin =>
    rw [hin.spill]
    exact Nat.zero_le _

theorem refines_start {s : σ} (hlive : h.isOver s = false)
    : Refines h isServer { socket := s } (.waiting [] { socket := s }) := by
  refine .atHead (r := { socket := s }) ⟨rfl, ⟨rfl, trivial, rfl⟩, ⟨rfl, rfl, rfl, rfl⟩, ?_, hlive⟩ rfl
  intro c hc
  cases hc

theorem receive_of_over (hover : h.isOver r.socket = true) (mem : Memory UInt8) (bytes : List UInt8)
    : (receive h isServer mem bytes r).2 = r := by
  rw [Handlers.isOver, Bool.or_eq_true] at hover
  unfold receive
  split
  . rfl
  . next hclosed =>
    have hshuttingDown := hover.resolve_left hclosed
    simp only [onData, hshuttingDown, if_true]

theorem receive_refines (hrefines : Refines h isServer r p) (mem : Memory UInt8) (bytes : List UInt8)
    : Refines h isServer (receive h isServer mem bytes r).2 (p.absorb (frames h isServer) bytes) := by
  cases p with
  | finished s =>
    cases hrefines with
    | ended hover =>
      rw [receive_of_over hover]
      exact .ended hover
  | waiting pending a =>
    obtain ⟨hsocket, hlive⟩ := hrefines.live
    rw [← hsocket, Handlers.isOver, Bool.or_eq_false_iff] at hlive
    simp only [receive, hlive.1, onData, hlive.2, Bool.false_eq_true, if_false]
    have hconsume := consume_refines (mem.copy (consumePrePadding isServer) bytes) bytes.length hrefines
      hrefines.spill_le
    rw [Memory.read_copy] at hconsume
    exact hconsume

theorem receiveAll_refines (hrefines : Refines h isServer r p) (hsettled : p.IsSettled (frames h isServer))
    (chunks : List (Memory UInt8 × List UInt8))
    : Refines h isServer (receiveAll h isServer chunks r)
        (p.absorb (frames h isServer) (received chunks)) := by
  rw [received, ← Incremental.foldl_absorb _ hsettled]
  induction chunks generalizing r p with
  | nil => exact hrefines
  | cons chunk chunks ih =>
    exact ih (receive_refines hrefines chunk.1 chunk.2) (Incremental.isSettled_absorb _ chunk.2)

theorem receiveAll_of_over (hover : h.isOver r.socket = true)
    (chunks : List (Memory UInt8 × List UInt8))
    : receiveAll h isServer chunks r = r := by
  induction chunks with
  | nil => rfl
  | cons chunk chunks ih => rw [receiveAll, receive_of_over hover, ih]

end

theorem receiveAll_refines_start {s : σ} (hlive : h.isOver s = false)
    (chunks : List (Memory UInt8 × List UInt8))
    : Refines h isServer (receiveAll h isServer chunks { socket := s })
        ((frames h isServer).decode (received chunks) { socket := s }) :=
  receiveAll_refines (refines_start hlive) rfl chunks

theorem socket_eq_streamed (chunks : List (Memory UInt8 × List UInt8)) (s : σ)
    : (receiveAll h isServer chunks { socket := s }).socket = streamed h isServer (received chunks) s := by
  unfold streamed
  split
  . next hover => rw [receiveAll_of_over hover]
  . next hlive =>
    have hrefines := receiveAll_refines_start h isServer (Bool.eq_false_iff.mpr hlive) chunks
    split
    . next pending a hdecode =>
      rw [hdecode] at hrefines
      exact hrefines.live.1
    . next s' hdecode =>
      rw [hdecode] at hrefines
      cases hrefines with
      | ended hover => rfl

/--
The chunks and the buffer make no difference: the handlers are called as for the frames of the stream.
-/
theorem receiveAll_eq_receive (chunks : List (Memory UInt8 × List UInt8)) (s : σ) (mem : Memory UInt8)
    : (receiveAll h isServer chunks { socket := s }).socket = streamed h isServer (received chunks) s
        ∧ (receiveAll h isServer chunks { socket := s }).socket
            =
          (receive h isServer mem (received chunks) { socket := s }).2.socket := by
  have hwhole := socket_eq_streamed h isServer [(mem, received chunks)] s
  have hreceived : received [(mem, received chunks)] = received chunks := List.append_nil _
  rw [hreceived] at hwhole
  rw [socket_eq_streamed]
  exact ⟨rfl, hwhole.symm⟩

section

variable {h isServer} {mem : Memory UInt8} {src length p : Nat} {r : Receiver σ}

def StaysInside (mem : Memory UInt8) (src length : Nat) (input : Input) : Prop :=
  (∀ p, p < src ∨ src + length ≤ p → input.mem p = mem p)
    ∧ src ≤ input.src ∧ input.src + input.length = src + length

theorem consumeMessage_staysInside (mem : Memory UInt8) (src : Nat) {messageHeader : Nat} (payLength : Nat)
    (hheader : shortMessageHeader isServer ≤ messageHeader) (hle : messageHeader ≤ length)
    : StaysInside mem src length
        (consumeMessage h isServer messageHeader payLength ⟨mem, src, length⟩ r).2.1 := by
  have hstays : StaysInside mem src length ⟨mem, src, length⟩ :=
    ⟨fun _ _ => rfl, Nat.le_refl src, rfl⟩
  unfold consumeMessage
  dsimp only
  split
  . exact hstays
  . split
    . exact hstays
    . split
      . next hwhole =>
        have houtside : ∀ p, p < src ∨ src + length ≤ p → _ := fun p hp =>
          unmaskPayload_of_outside mem src hheader payLength (p := p) (by omega)
        split
        . exact ⟨houtside, Nat.le_refl src, rfl⟩
        . refine ⟨houtside, Nat.le_add_right src _, ?_⟩
          dsimp only
          omega
      . refine ⟨?_, Nat.le_refl src, rfl⟩
        intro p hp
        cases isServer with
        | false => rfl
        | true =>
          have hsix : 6 ≤ messageHeader := hheader
          simp only [if_true]
          apply unmaskImprecise_of_outside
          omega

theorem parseNext_of_outside (rounds : Nat) (hp : p < src ∨ src + length ≤ p)
    : (parseNext h isServer rounds ⟨mem, src, length⟩ r).1 p = mem p := by
  induction rounds generalizing mem src length r with
  | zero => rfl
  | succ rounds ih =>
    unfold parseNext
    split
    . rfl
    . next hshort =>
      dsimp only at hshort
      split
      . rfl
      . next r' _ =>
        rw [consumeHead_eq h r' (Nat.not_lt.mp hshort)]
        dsimp only
        have hheader := le_lengths isServer (mem (src + 1)) (mem.read (src + 2) (length - 2))
        by_cases hlength : length < (lengths isServer (mem (src + 1)) (mem.read (src + 2) (length - 2))).1
        . rw [if_pos hlength]
        . rw [if_neg hlength]
          have hstays := consumeMessage_staysInside (h := h) (r := r') mem src
            (lengths isServer (mem (src + 1)) (mem.read (src + 2) (length - 2))).2 hheader
            (Nat.not_lt.mp hlength)
          generalize consumeMessage h isServer _ _ _ r' = res at hstays
          obtain ⟨stopped, ⟨mem', src', length'⟩, r''⟩ := res
          obtain ⟨houtside, hlower, hupper⟩ := hstays
          dsimp only at houtside hlower hupper
          cases stopped with
          | true => exact houtside p hp
          | false =>
            dsimp only
            rw [ih (by omega)]
            exact houtside p hp

/--
Only the rest of a payload that is not all there is unmasked beyond its end, in the padding.
-/
theorem consumeContinuation_of_outside (isServer : Bool) (mem : Memory UInt8) (src length : Nat)
    : let res := consumeContinuation h isServer ⟨mem, src, length⟩ r
      (∀ p, p < src ∨ src + length + consumePostPadding ≤ p → res.2.1.mem p = mem p)
        ∧ src ≤ res.2.1.src ∧ res.2.1.src + res.2.1.length = src + length := by
  unfold consumeContinuation
  dsimp only
  split
  . next hwhole =>
    have hle : r.state.remainingBytes ≤ length := hwhole
    have houtside : ∀ p, p < src ∨ src + length + consumePostPadding ≤ p
        → (if isServer then unmaskRest mem r.state.mask src r.state.remainingBytes else mem) p = mem p := by
      intro p hp
      cases isServer with
      | false => rfl
      | true => exact unmaskRest_of_outside mem _ _ (by omega)
    split
    . exact ⟨houtside, Nat.le_refl src, rfl⟩
    . refine ⟨houtside, Nat.le_add_right src _, ?_⟩
      dsimp only
      omega
  . have houtside : ∀ p, p < src ∨ src + length + consumePostPadding ≤ p
        → (if isServer then unmaskInplace mem src (src + (length / 4 + 1) * 4) r.state.mask else mem) p
          = mem p := by
      intro p hp
      cases isServer with
      | false => rfl
      | true =>
        apply unmaskInplace_of_outside
        rw [consumePostPadding] at hp
        omega
    split
    . exact ⟨houtside, Nat.le_refl src, rfl⟩
    . exact ⟨houtside, Nat.le_refl src, rfl⟩

theorem consume_of_outside (hroom : r.state.spill.length ≤ src)
    (hp : p < src - r.state.spill.length ∨ src + length + consumePostPadding ≤ p)
    : (consume h isServer mem src length r).1 p = mem p := by
  have hcopy : mem.copy (src - r.state.spill.length) r.state.spill p = mem p :=
    Memory.copy_of_outside mem (by omega)
  unfold consume
  dsimp only
  split
  . rw [parseNext_of_outside _ (by omega)]
    exact hcopy
  . have hstays := consumeContinuation_of_outside (h := h) (r := r) isServer
      (mem.copy (src - r.state.spill.length) r.state.spill) (src - r.state.spill.length)
      (length + r.state.spill.length)
    dsimp only at hstays
    generalize consumeContinuation h isServer _ r = res at hstays
    obtain ⟨goes, ⟨mem', src', length'⟩, r'⟩ := res
    obtain ⟨houtside, hlower, hupper⟩ := hstays
    dsimp only at houtside hlower hupper
    have hsame : mem' p = mem p := (houtside p (by omega)).trans hcopy
    cases goes with
    | true =>
      dsimp only
      rw [parseNext_of_outside _ (by omega)]
      exact hsame
    | false => exact hsame

end

/--
The fields of the socket hold what they can hold, and the array of the opcodes is read where it was written.
-/
structure Bounded (r : Receiver σ) : Prop where
  spill : r.state.spill.length ≤ consumePrePadding isServer
  opStack : -1 ≤ r.state.opStack ∧ r.state.opStack ≤ 1
  top : r.state.wantsHead = false → 0 ≤ r.state.opStack
  remainingBytes : r.state.wantsHead = false → r.state.remainingBytes ≤ h.maxPayload.toNat
  controlTipLength : r.controlTipLength.toNat ≤ 125

section

variable {h isServer} {r : Receiver σ}

theorem Refines.bounded {pending : List UInt8} {a : Assembler σ}
    (hrefines : Refines h isServer r (.waiting pending a))
    : Bounded h isServer r := by
  have hspill := hrefines.spill_le
  cases hrefines with
  | atHead hat _ =>
    have hdepth := a.depth
    have hstack := hat.nested.opStack
    refine ⟨hspill, by omega, ?_, ?_, ?_⟩
    . intro hwants
      exact absurd hat.wantsHead (by rw [hwants]; simp)
    . intro hwants
      exact absurd hat.wantsHead (by rw [hwants]; simp)
    . rw [hat.assembled.controlTipLength, tipLength_nil]
      exact Nat.zero_le _
  | inPayload entered head hin =>
    obtain ⟨c, opened, hentered⟩ := entered_of_enterFrame hin.nextHead_eq hin.opensData hin.enterFrame_eq
    have hle := (bounds_of_nextHead hin.nextHead_eq).2
    have hremaining := hin.remaining
    have hdepth := entered.depth
    have hstack := hin.nested.opStack
    have hpayLength := hin.accepted
    rw [refusePayloadLength, decide_eq_false_iff_not] at hpayLength
    rw [hentered.opened_eq, List.length_cons] at hdepth hstack
    refine ⟨hspill, by omega, fun _ => by omega, fun _ => by omega, ?_⟩
    rw [hin.assembled.controlTipLength, hentered.opened_eq, tipLength]
    split
    . exact Nat.zero_le _
    . next hcontrol =>
      have hshort := (hentered.control hcontrol).2
      have hpos := hin.pos
      rw [CyclicMask.length_unmask, List.length_drop]
      omega

theorem receive_of_outside (hroom : h.isOver r.socket = true ∨ Bounded h isServer r) (mem : Memory UInt8)
    (bytes : List UInt8) {p : Nat}
    (hp : consumePrePadding isServer + bytes.length + consumePostPadding ≤ p)
    : (receive h isServer mem bytes r).1 p = mem p := by
  have hcopy : mem.copy (consumePrePadding isServer) bytes p = mem p :=
    Memory.copy_of_outside mem (by omega)
  unfold receive
  split
  . rfl
  . next hclosed =>
    unfold onData
    dsimp only
    split
    . exact hcopy
    . next hshuttingDown =>
      have hbounded : Bounded h isServer r := by
        apply hroom.resolve_left
        simp [Handlers.isOver, hclosed, hshuttingDown]
      rw [consume_of_outside hbounded.spill (.inr hp)]
      exact hcopy

end

/--
Whatever has arrived, the fields of a socket that goes on are within their bounds, and what arrives next changes
no byte behind the padding.
-/
theorem bounded_receiveAll (chunks : List (Memory UInt8 × List UInt8)) (s : σ) (mem : Memory UInt8)
    (bytes : List UInt8) (n : Nat)
    : let r := receiveAll h isServer chunks { socket := s }
      (h.isOver r.socket = true ∨ Bounded h isServer r)
        ∧ (receive h isServer mem bytes r).1
              (consumePrePadding isServer + bytes.length + consumePostPadding + n)
            =
          mem (consumePrePadding isServer + bytes.length + consumePostPadding + n) := by
  have hbounded : h.isOver (receiveAll h isServer chunks { socket := s }).socket = true
      ∨ Bounded h isServer (receiveAll h isServer chunks { socket := s }) := by
    cases hlive : h.isOver s with
    | true =>
      rw [receiveAll_of_over hlive]
      exact .inl hlive
    | false =>
      have hrefines := receiveAll_refines_start h isServer hlive chunks
      cases hdecode : (frames h isServer).decode (received chunks) { socket := s } with
      | waiting pending a =>
        rw [hdecode] at hrefines
        exact .inr hrefines.bounded
      | finished s' =>
        rw [hdecode] at hrefines
        cases hrefines with
        | ended hover => exact .inl hover
  exact ⟨hbounded, receive_of_outside hbounded mem bytes (Nat.le_add_right _ n)⟩

end WebSocketProtocol
