import GraphManipulator.Client.Drawn
import GraphManipulator.WSServer.Parameters

/-!
This module contains the whole way of the plots: users enter three numbers, and the page draws the replies.
-/

open Client WebSocketProtocol FrameStream

structure Plot where
  vertexNameLength : Int
  nodesCount : Int
  edgesWeightCount : Int
  isInt : IsInt vertexNameLength ∧ IsInt nodesCount ∧ IsInt edgesWeightCount

namespace Plot

def data (plot : Plot) : List UInt8 :=
  encode (payload ⟨intText plot.vertexNameLength, intText plot.nodesCount, intText plot.edgesWeightCount⟩)

def message (plot : Plot) : Message := ⟨.text, plot.data⟩

def generator (plot : Plot) : AdjacencyObjectsGenerator :=
  .ofDims plot.nodesCount plot.vertexNameLength plot.edgesWeightCount

theorem length_intText_le {n : Int} (h : IsInt n) : (intText n).length ≤ 11 := by
  have hdigits : ∀ m : Nat, m ≤ 2147483648 → (Nat.toDigits 10 m).length ≤ 10 := by
    intro m hm
    rw [Nat.length_toDigits_le_iff (by decide) (by decide)]
    omega
  obtain ⟨hmin, hmax⟩ := h
  rw [intMin] at hmin
  rw [intMax] at hmax
  cases n with
  | ofNat m =>
    have hle : (m : Int) ≤ 2147483647 := hmax
    exact Nat.le_succ_of_le (hdigits m (by omega))
  | negSucc m =>
    exact Nat.succ_le_succ (hdigits (m + 1) (by omega))

theorem length_encode_le (s : Str) : (encode s).length ≤ 4 * s.length := by
  induction s with
  | nil => exact Nat.le_refl 0
  | cons c s ih =>
    have hchar : (String.utf8EncodeChar c).length ≤ 4 := by
      rw [String.length_utf8EncodeChar]
      exact Char.utf8Size_le_four c
    rw [encode] at ih ⊢
    rw [List.flatMap_cons, List.length_append, List.length_cons]
    omega

theorem length_data_le (plot : Plot) : plot.data.length ≤ 400 := by
  have hnames : "matrix_dim".toList.length + "characters_length".toList.length + "metrics".toList.length
      = 34 := by
    decide +kernel
  have hfirst := length_intText_le plot.isInt.1
  have hsecond := length_intText_le plot.isInt.2.1
  have hthird := length_intText_le plot.isInt.2.2
  apply (length_encode_le _).trans
  rw [payload_eq]
  simp only [List.length_cons, List.length_append, List.length_nil]
  omega

theorem isSent_message (plot : Plot) : Hub.IsSent plot.message := by
  refine ⟨Or.inl ⟨rfl, ⟨_, rfl⟩⟩, ?_⟩
  exact plot.length_data_le.trans (by decide)

end Plot

namespace Hub

open WSServer

variable {D : Type}

def IsPlotted (answers : Answers) (reply : Reply) (plot : Plot) : Prop :=
  ∃ n table, plot.generator.generateData (answers n).1 = .ok table
    ∧ reply.opCode = .text ∧ Drawn reply.message (GraphMapper.ofServersData table).printed

structure Serving (answers : Answers) (s : Service) (schedule : List (Nat × HandlerCall)) : Prop where
  live : s.fault = none
  parameters : HasParameters s.hub.server.payloadData
  replies : List.Forall₂ (fun reply call => reply.receiver = call.1
    ∧ ∀ plot : Plot, call.2 = .message .text plot.data → IsPlotted answers reply plot) s.hub.sent schedule

section

variable {fl : FloatOps D} {answers : Answers} {hub : Hub}

theorem parametersAfter_plot (fl : FloatOps D) (plot : Plot) {payloadData : List Int}
    (h : HasParameters payloadData)
    : IsConvertible fl plot.data
        ∧ parametersAfter fl payloadData plot.data
          = [plot.nodesCount, plot.vertexNameLength, plot.edgesWeightCount] := by
  obtain ⟨ha, hb, hc⟩ := plot.isInt
  have hmessage : IsFieldsMessage plot.vertexNameLength plot.nodesCount plot.edgesWeightCount plot.data :=
    Or.inl rfl
  exact ⟨isConvertible_fieldsMessage fl ha hb hc hmessage,
    parametersAfter_fieldsMessage fl ha hb hc hmessage h.length_eq⟩

theorem isPlotted_of_isAnswer {plot : Plot} {payloadData : List Int} (h : HasParameters payloadData) {i n : Nat}
    {reply : Reply} (hanswer : IsAnswer fl payloadData [{
        message := plot.data
        draws := (answers n).1
        env := (answers n).2
        sender := i
        opCode := .text
      }] 0 reply)
    : reply.receiver = i ∧ IsPlotted answers reply plot := by
  obtain ⟨delivery, gen, table, hdelivery, hreceiver, hopCode, hgen, htable, hdrawn⟩ := hanswer
  cases hdelivery
  refine ⟨hreceiver, n, table, ?_, hopCode, hdrawn⟩
  change GraphProcessor.adjacencyObjects (parametersAfter fl payloadData plot.data) = .ok gen at hgen
  rw [(parametersAfter_plot fl plot h).2, GraphProcessor.adjacencyObjects_eq_ok] at hgen
  rw [Plot.generator, Except.ok.inj hgen]
  exact htable

theorem onMessage_plot (fl : FloatOps D) (answers : Answers) (h : HasParameters hub.server.payloadData) (i : Nat)
    {plot : Plot} (hcount : plot.nodesCount ≤ 65535)
    : ∃ hub' reply, onMessage fl hub (delivery answers hub i .text plot.data) = (.ok (), hub')
        ∧ HasParameters hub'.server.payloadData ∧ hub'.sent = hub.sent ++ [reply] ∧ reply.receiver = i
        ∧ ∀ plot' : Plot, plot.data = plot'.data → IsPlotted answers reply plot' := by
  obtain ⟨hconvertible, hparameters⟩ := parametersAfter_plot fl plot h
  have hacceptable : IsAcceptable fl hub.server.payloadData (delivery answers hub i .text plot.data).toCall :=
    isAcceptable_of_le hconvertible hparameters hcount
  obtain ⟨hub', hcall⟩ := (onMessage_eq_ok_iff h).mpr hacceptable
  obtain ⟨-, hkept, -⟩ := onMessage_eq_ok h hcall
  obtain ⟨reply, hsent, hanswer⟩ := isAnswer_onMessage h hcall []
  refine ⟨hub', reply, hcall, hkept, hsent, (isPlotted_of_isAnswer h hanswer).1, ?_⟩
  intro plot' heq
  rw [delivery, heq] at hanswer
  exact (isPlotted_of_isAnswer h hanswer).2

theorem serving_run (fl : FloatOps D) (answers : Answers) {schedule : List (Nat × HandlerCall)}
    (hclicks : ∀ call ∈ schedule, ∃ plot : Plot,
      call.2 = .message .text plot.data ∧ plot.nodesCount ≤ 65535)
    : Serving answers ((members fl answers).run schedule {}) schedule := by
  induction schedule using List.reverseRecOn with
  | nil => exact ⟨rfl, hasParameters_new, List.Forall₂.nil⟩
  | append_singleton schedule call ih =>
    rw [List.forall_mem_append, List.forall_mem_singleton] at hclicks
    have hrun : (members fl answers).run (schedule ++ [call]) {}
        = ((members fl answers).handlers call.1).apply ((members fl answers).run schedule {}) call.2 := by
      rw [Members.run, List.foldl_append]
      rfl
    obtain ⟨i, call⟩ := call
    obtain ⟨plot, rfl, hcount⟩ := hclicks.2
    rw [hrun]
    obtain ⟨hlive, hparameters, hreplies⟩ := ih hclicks.1
    generalize (members fl answers).run schedule {} = s at hlive hparameters hreplies
    obtain ⟨hub', reply, hcall, hkept, hsent, hreceiver, hplotted⟩ :=
      onMessage_plot fl answers hparameters i hcount
    have happly : ((members fl answers).handlers i).apply s (.message .text plot.data)
        = { s with hub := hub' } := by
      simp only [members, Handlers.apply, handlers, hlive, hcall]
    rw [happly]
    refine ⟨hlive, hkept, ?_⟩
    change List.Forall₂ _ hub'.sent _
    rw [hsent]
    refine List.rel_append hreplies (List.Forall₂.cons ⟨hreceiver, ?_⟩ List.Forall₂.nil)
    intro plot' heq
    apply hplotted
    injection heq

def encodeClick (click : Plot × Mask) : List UInt8 := encodeMessage false (click.1.message, click.2)

theorem encodeClick_ne_nil (click : Plot × Mask) : encodeClick click ≠ [] := by
  rw [encodeClick, encodeMessage, formatMessage_eq_encodeFrame, encodeFrame, if_neg Bool.false_ne_true]
  simp

theorem take_prefix_iff {α : Type} {f : α → List UInt8} (hne : ∀ block, f block ≠ []) {blocks : List α}
    {k n : Nat} {part : List UInt8} (hn : n ≤ blocks.length)
    (hpart : part = [] ∨ ∃ block, blocks[k]? = some block ∧ part <+: f block ∧ part ≠ f block)
    : (blocks.take n).flatMap f <+: (blocks.take k).flatMap f ++ part ↔ n ≤ k := by
  constructor
  . intro hbegins
    by_contra hlt
    rw [Nat.not_le] at hlt
    have hblock : blocks[k]? = some blocks[k] := List.getElem?_eq_getElem _
    -- the block at `k` is among the first `n`, so that it would have to be in the part
    have hwhole : (blocks.take k).flatMap f ++ f blocks[k] <+: (blocks.take n).flatMap f := by
      have htake : blocks.take (k + 1) = blocks.take k ++ [blocks[k]] := List.take_succ_eq_append_getElem _
      rw [← List.flatMap_singleton f, ← List.flatMap_append, ← htake]
      exact (List.take_prefix_take_left hlt).flatMap f
    have hwithin := hwhole.trans hbegins
    rw [List.prefix_append_right_inj] at hwithin
    obtain rfl | ⟨block, hget, hpart, hproper⟩ := hpart
    . exact hne _ (List.prefix_nil.mp hwithin)
    . rw [hblock] at hget
      cases hget
      exact hproper (hpart.eq_of_length_le hwithin.length_le)
  . intro hle
    exact ((List.take_prefix_take_left hle).flatMap f).trans (List.prefix_append _ _)

variable (fl answers) in
theorem recorded_clicks (i : Nat) {clicks : List (Plot × Mask)} {stream : List UInt8}
    (hstream : stream <+: clicks.flatMap encodeClick)
    : ∃ k part, k ≤ clicks.length ∧ stream = (clicks.take k).flatMap encodeClick ++ part
        ∧ (part = []
          ∨ ∃ click, clicks[k]? = some click ∧ part <+: encodeClick click ∧ part ≠ encodeClick click)
        ∧ recorded (members fl answers) true i stream
          = (clicks.take k).map (fun click => .message .text click.1.data) := by
  have hsent : ∀ m ∈ clicks.map (fun click => (click.1.message, click.2)), IsSent m.1 := by
    rw [List.forall_mem_map]
    exact fun click _ => click.1.isSent_message
  have hmessages : stream <+:
      (clicks.map (fun click => (click.1.message, click.2))).flatMap (encodeMessage false) := by
    rw [List.flatMap_map]
    exact hstream
  obtain ⟨k, part, hk, heq, hpart, hrecorded⟩ := recorded_of_prefix fl answers i hsent hmessages
  rw [List.length_map] at hk
  rw [← List.map_take, List.flatMap_map] at heq
  rw [← List.map_take, List.map_map] at hrecorded
  refine ⟨k, part, hk, heq, ?_, hrecorded⟩
  obtain rfl | ⟨m, hm, hbegins, hne⟩ := hpart
  . exact .inl rfl
  . rw [List.getElem?_map, Option.map_eq_some_iff] at hm
    obtain ⟨click, hclick, rfl⟩ := hm
    exact .inr ⟨click, hclick, hbegins, hne⟩

def repliesTo (s : Service) (i : Nat) : List Reply := s.hub.sent.filter (fun reply => reply.receiver = i)

theorem forall₂_repliesTo {s : Service} {schedule : List (Nat × HandlerCall)} (h : Serving answers s schedule)
    (i : Nat)
    : List.Forall₂
        (fun reply call => ∀ plot : Plot, call = .message .text plot.data → IsPlotted answers reply plot)
        (repliesTo s i) (callsOf i schedule) := by
  rw [callsOf, List.forall₂_map_right_iff]
  have hfiltered := List.rel_filter (p := fun reply : Reply => decide (reply.receiver = i))
    (q := fun call : Nat × HandlerCall => decide (call.1 = i)) ?_ h.replies
  . exact hfiltered.imp (fun _ _ hreply => hreply.2)
  . intro reply call hreply
    simp only [hreply.1]

/--
The service goes on, and each client has got a reply for each message of its that is all there. The page draws them,
one after the other, as the plots that were asked for.
-/
theorem plots_drawn (fl : FloatOps D) (answers : Answers) {clicks : Nat → List (Plot × Mask)}
    (hcounts : ∀ i, ∀ click ∈ clicks i, click.1.nodesCount ≤ 65535) {arrivals : List (Nat × List UInt8)}
    (harrivals : ∀ i, streamOf i arrivals <+: (clicks i).flatMap encodeClick) (mem : Memory UInt8)
    : let s := (Group.receiveAll (members fl answers) true arrivals { recvBuffer := mem, shared := {} }).shared
      s.fault = none
        ∧ ∀ i, List.Forall₂ (fun reply click => IsPlotted answers reply click.1)
            (repliesTo s i) ((clicks i).take (repliesTo s i).length)
          ∧ ∀ n ≤ (clicks i).length,
            ((clicks i).take n).flatMap encodeClick <+: streamOf i arrivals ↔ n ≤ (repliesTo s i).length := by
  dsimp only
  obtain ⟨schedule, hshared, hserved⟩ := exists_schedule (members fl answers) true arrivals mem {}
  have hcalls := fun i => (hserved i).calls
  have hclicks : ∀ call ∈ schedule, ∃ plot : Plot,
      call.2 = .message .text plot.data ∧ plot.nodesCount ≤ 65535 := by
    intro call hcall
    obtain ⟨k, part, -, -, -, hrecorded⟩ := recorded_clicks fl answers call.1 (harrivals call.1)
    have hmem : call.2 ∈ callsOf call.1 schedule :=
      List.mem_map.mpr ⟨call, List.mem_filter.mpr ⟨hcall, decide_eq_true rfl⟩, rfl⟩
    have hmem := (hcalls call.1).1.subset hmem
    rw [hrecorded, List.mem_map] at hmem
    obtain ⟨click, hclick, hmessage⟩ := hmem
    exact ⟨click.1, hmessage.symm, hcounts call.1 click (List.mem_of_mem_take hclick)⟩
  have hserving := serving_run fl answers hclicks
  rw [hshared] at hcalls ⊢
  refine ⟨hserving.live, fun i => ?_⟩
  have hlive : ((members fl answers).handlers i).isOver ((members fl answers).run schedule {}) = false :=
    (Bool.or_false _).trans (congrArg Option.isSome hserving.live)
  obtain ⟨k, part, hk, hstream, hpart, hrecorded⟩ := recorded_clicks fl answers i (harrivals i)
  have hreplies := forall₂_repliesTo hserving i
  rw [(hcalls i).2 hlive, hrecorded, List.forall₂_map_right_iff] at hreplies
  have hlength : (repliesTo ((members fl answers).run schedule {}) i).length = k := by
    rw [hreplies.length_eq, List.length_take, Nat.min_eq_left hk]
  rw [hlength, hstream]
  exact ⟨hreplies.imp (fun _ click hreply => hreply click.1 rfl),
    fun n hn => take_prefix_iff encodeClick_ne_nil hn hpart⟩

theorem plots_drawn_part
    : let click : Plot × Mask := (⟨3, 2, 1, by decide⟩, fun _ => 5)
      let clicks : Nat → List (Plot × Mask) := fun _ => [click]
      let arrivals : List (Nat × List UInt8) :=
        [(0, (encodeClick click).take 9), (1, (encodeClick click).take 20), (0, (encodeClick click).drop 9)]
      let answers : Answers := fun _ => (⟨fun _ _ => 0, fun _ _ => 0, fun _ _ => 0⟩, GraphMapper.isolatedStart)
      let s := (Group.receiveAll (members .none answers) true arrivals
        { recvBuffer := fun _ => 7, shared := {} }).shared
      s.fault = none
        ∧ ∀ i, List.Forall₂ (fun reply click => IsPlotted answers reply click.1)
            (repliesTo s i) ((clicks i).take (repliesTo s i).length)
          ∧ ∀ n ≤ (clicks i).length,
            ((clicks i).take n).flatMap encodeClick <+: streamOf i arrivals ↔ n ≤ (repliesTo s i).length := by
  intro click clicks arrivals answers
  refine plots_drawn .none answers ?_ ?_ (fun _ => 7)
  . intro i
    rw [List.forall_mem_singleton]
    decide
  . intro i
    match i with
    | 0 => decide +kernel
    | 1 => decide +kernel
    | i + 2 => exact List.nil_prefix

end

end Hub
