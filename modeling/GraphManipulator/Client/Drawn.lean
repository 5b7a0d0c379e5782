import GraphManipulator.Client.MessageLemmas
import GraphManipulator.GraphMapper.PrintedTable
import GraphManipulator.GraphlibDot.Outcome
import GraphManipulator.WSServer.Connections
import GraphManipulator.WSServer.Service

/-!
This module contains what the page makes of the replies: a graph with one node for each name and one edge for each
edge that the mapper has written.
-/

open GraphlibDot

namespace Client

def drawnValue : Attrs := [
  ("rankdir".toList, some "LR".toList),
  ("size".toList, some "4,3".toList),
  ("ratio".toList, some "fill".toList)
]

def drawnNode (name : Str) : Attrs := [("shape".toList, some "circle".toList), ("label".toList, some name)]

def drawnEdge (e : EdgeStatement) : Edge where
  u := e.source
  v := e.target
  value := [
    ("style".toList, some "bold".toList),
    ("label".toList, some (intText e.label)),
    ("color".toList, some e.color.name)
  ]

def mentioned (es : List EdgeStatement) : List Str := es.flatMap (fun e => [e.source, e.target])

structure Depicts (es : List EdgeStatement) (g : CDigraph) : Prop where
  consistent : g.Consistent
  value : g.value = drawnValue
  nodes : g.nodes.entries = (KeySet.ofList (mentioned es)).keys.map (fun name => (name, drawnNode name))
  edges : g.edges.entries.map Prod.snd = es.map drawnEdge

def shapeAttrs : Attrs := [("shape".toList, some "circle".toList)]

def headerCommands : List Command := [
  .inline [("rankdir".toList, some "LR".toList)],
  .inline [("size".toList, some "4,3".toList)],
  .inline [("ratio".toList, some "fill".toList)]
]

def drawnCommands (e : EdgeStatement) : List Command := [
  .node shapeAttrs e.source [],
  .node shapeAttrs e.target [],
  .edge none e.source e.target (drawnEdge e).value
]

def dotTree (es : List EdgeStatement) : GraphStmt where
  type := "digraph".toList
  id := "D".toList
  stmts := some (headerStmts ++ es.map edgeStmt)

theorem edgeValue_eq (label color : Option Str)
    : mergeAttributes [("label".toList, label), ("color".toList, color)] [("style".toList, some "bold".toList)]
        = [("style".toList, some "bold".toList), ("label".toList, label), ("color".toList, color)] := rfl

theorem edgeId_eq (label color : Option Str)
    : CDigraph.edgeId [("label".toList, label), ("color".toList, color)] = none := rfl

theorem commands_edgeStmt {scope : Scope} (hnode : scope "node".toList = some shapeAttrs)
    (hedge : scope "edge".toList = some [("style".toList, some "bold".toList)]) (e : EdgeStatement)
    : (edgeStmt e).commands scope = drawnCommands e := by
  have hshape : scope.get "node".toList [] = shapeAttrs := by
    rw [Scope.get, hnode]
    rfl
  have hvalue : ∀ attrs, mergeAttributes (scope.get "edge".toList attrs) []
      = mergeAttributes (mergeAttributes attrs [("style".toList, some "bold".toList)]) [] := by
    intro attrs
    rw [Scope.get, hedge]
    rfl
  have hdrawn : mergeAttributes (drawnEdge e).value [] = (drawnEdge e).value := rfl
  simp only [edgeStmt, Stmt.commands, elemCommands, Stmt.incident, edgeCommands, hshape, hvalue, edgeValue_eq,
    edgeId_eq, Option.getD_none, Option.getD_some, List.flatMap_nil, List.flatMap_cons, List.map_cons,
    List.map_nil, List.append_nil, List.nil_append, List.cons_append]
  rfl

theorem commands_edgeStmts {scope : Scope} (hnode : scope "node".toList = some shapeAttrs)
    (hedge : scope "edge".toList = some [("style".toList, some "bold".toList)]) (es : List EdgeStatement)
    : listCommands (es.map edgeStmt) scope = es.flatMap drawnCommands := by
  induction es with
  | nil => rfl
  | cons e es ih =>
    rw [List.map_cons, listCommands, commands_edgeStmt hnode hedge, List.flatMap_cons]
    exact congrArg (drawnCommands e ++ ·) ih

def headerScope : Scope := headerStmts.foldl (fun scope stmt => stmt.scopeAfter scope) (fun _ => none)

theorem headerScope_node : headerScope "node".toList = some shapeAttrs := rfl

theorem headerScope_edge : headerScope "edge".toList = some [("style".toList, some "bold".toList)] := rfl

theorem commands_dotTree (es : List EdgeStatement)
    : (dotTree es).commands = headerCommands ++ es.flatMap drawnCommands := by
  rw [← commands_edgeStmts headerScope_node headerScope_edge es]
  rfl

section

variable {es : List EdgeStatement}

theorem nodeNames_dotTree (es : List EdgeStatement) : nodeNames (dotTree es).commands = mentioned es := by
  rw [commands_dotTree, nodeNames_append, nodeNames, nodeNames, List.filterMap_flatMap]
  rfl

theorem subgraphNames_dotTree (es : List EdgeStatement) : subgraphNames (dotTree es).commands = [] := by
  rw [commands_dotTree, subgraphNames, List.filterMap_append, List.filterMap_flatMap]
  exact List.flatMap_eq_nil_iff.mpr (fun e _ => rfl)

theorem edgeNames_dotTree (es : List EdgeStatement) : edgeNames (dotTree es).commands = [] := by
  rw [commands_dotTree, edgeNames, List.filterMap_append, List.filterMap_flatMap]
  exact List.flatMap_eq_nil_iff.mpr (fun e _ => rfl)

theorem edges_dotTree (es : List EdgeStatement)
    : (dotTree es).commands.filterMap Command.edge? = es.map drawnEdge := by
  rw [commands_dotTree, List.filterMap_append, List.filterMap_flatMap, List.map_eq_flatMap]
  rfl

theorem root_dotTree (es : List EdgeStatement) : root (dotTree es).commands = (0, drawnValue) := by
  have hheader : root headerCommands = (0, drawnValue) := rfl
  rw [commands_dotTree, root, List.foldl_append, ← root, hheader]
  induction es with
  | nil => rfl
  | cons e es ih =>
    rw [List.flatMap_cons, List.foldl_append]
    exact ih

theorem nodeValue_of_forall {defaults : Attrs} {commands : List Command} {name : Str}
    (h : ∀ command ∈ commands, command.node? = some name → command = .node defaults name [])
    (hname : name ∈ nodeNames commands)
    : nodeValue commands name = some (labelled defaults name) := by
  induction commands using List.reverseRecOn with
  | nil => cases hname
  | append_singleton commands command ih =>
    rw [List.forall_mem_append, List.forall_mem_singleton] at h
    rw [nodeNames_concat, List.mem_append] at hname
    rw [nodeValue_concat]
    by_cases hmem : name ∈ nodeNames commands
    . rw [ih h.1 hmem]
      cases command with
      | node defaults' id attrs =>
        rw [Command.valueAfter]
        split
        . next hid =>
          have hlast := h.2 (congrArg some hid)
          cases hlast
          rfl
        . rfl
      | _ => rfl
    . rw [nodeValue_eq_none hmem, h.2 (Option.mem_toList.mp (hname.resolve_left hmem))]
      exact if_pos rfl

theorem nodeValue_dotTree {name : Str} (hname : name ∈ mentioned es)
    : nodeValue (dotTree es).commands name = some (drawnNode name) := by
  have hnode : ∀ command ∈ (dotTree es).commands, command.node? = some name →
      command = .node shapeAttrs name [] := by
    intro command hcommand hsome
    rw [commands_dotTree, List.mem_append, List.mem_flatMap] at hcommand
    rcases hcommand with hcommand | ⟨e, -, hcommand⟩
    . have hnone : ∀ command ∈ headerCommands, command.node? = none := by decide
      rw [hnone command hcommand] at hsome
      cases hsome
    . simp only [drawnCommands, List.mem_cons, List.not_mem_nil, or_false] at hcommand
      rcases hcommand with rfl | rfl | rfl
      . rw [show e.source = name from Option.some.inj hsome]
      . rw [show e.target = name from Option.some.inj hsome]
      . cases hsome
  rw [← nodeNames_dotTree] at hname
  rw [nodeValue_of_forall hnode hname]
  rfl

theorem isFree_of_isName {name : Str} (h : IsName name) : IsFree name ∧ name ≠ null := by
  have hlower : ∀ id ∈ null :: objectPrototype, ¬ ∀ c ∈ id, c.isUpper = true := by decide
  have hnot : ∀ id ∈ null :: objectPrototype, name ≠ id := by
    rintro id hid rfl
    exact hlower name hid h.2
  rw [List.forall_mem_cons] at hnot
  refine ⟨isFree_of_head? ?_ (fun hmem => hnot.2 name hmem rfl), hnot.1⟩
  intro hhead
  exact absurd (h.2 '_' (List.mem_of_mem_head? hhead)) (by decide)

theorem wellNamed_dotTree (hes : ∀ e ∈ es, HasNames e) : WellNamed (dotTree es).commands := by
  constructor
  . rw [commands_dotTree, List.forall_mem_append]
    constructor
    . decide
    . intro command hcommand
      obtain ⟨e, -, hcommand⟩ := List.mem_flatMap.mp hcommand
      simp only [drawnCommands, List.mem_cons, List.not_mem_nil, or_false] at hcommand
      rcases hcommand with rfl | rfl | rfl <;> rfl
  . rw [nodeNames_dotTree, subgraphNames_dotTree]
    intro name hname
    obtain ⟨e, he, hname⟩ := List.mem_flatMap.mp hname
    have hisName : IsName name := by
      simp only [List.mem_cons, List.not_mem_nil, or_false] at hname
      rcases hname with rfl | rfl
      . exact (hes e he).1
      . exact (hes e he).2
    obtain ⟨hfree, hnull⟩ := isFree_of_isName hisName
    exact ⟨hfree, hnull, List.not_mem_nil⟩
  . rw [subgraphNames_dotTree]
    exact fun _ hmem => absurd hmem List.not_mem_nil
  . rw [edgeNames_dotTree]
    exact fun _ hmem => absurd hmem List.not_mem_nil
  . rw [subgraphNames_dotTree]
    exact List.nodup_nil
  . rw [edgeNames_dotTree]
    exact List.nodup_nil

theorem enter_not_mem_dotTree (id : Option Str) : Command.enter id ∉ (dotTree es).commands := by
  rw [commands_dotTree, List.mem_append, List.mem_flatMap]
  rintro (hmem | ⟨e, -, hmem⟩)
  . simp [headerCommands] at hmem
  . simp [drawnCommands] at hmem

theorem buildGraph_dotTree (hes : ∀ e ∈ es, HasNames e)
    : ∃ g, buildGraph (dotTree es) = .ok g ∧ Depicts es g := by
  have hnamed := wellNamed_dotTree hes
  have hdigraph : (dotTree es).type ≠ "graph".toList := show "digraph".toList ≠ "graph".toList by decide
  obtain ⟨s, hdraw, hshows⟩ := draw_shows hnamed (endsNamed_listCommands _ [] hnamed.throw_not_mem)
  have hall : ∀ u ∈ s.g.nodes, u ∈ mentioned es := by
    intro u hu
    by_contra hnot
    rw [← nodeNames_dotTree] at hnot
    rcases hshows.unnamed u hu hnot with hmem | ⟨hmem, -⟩
    . rw [subgraphNames_dotTree] at hmem
      cases hmem
    . exact enter_not_mem_dotTree none hmem
  refine ⟨s.g, buildGraph_of_draw hdigraph hdraw, hshows.consistent.graph, ?_, ?_, ?_⟩
  . rw [hshows.value, root_dotTree]
  . have hkeys : s.g.nodes.keys = (KeySet.ofList (mentioned es)).keys := by
      rw [← nodeNames_dotTree, ← hshows.order, nodeNames_dotTree, eq_comm, List.filter_eq_self]
      exact fun u hu => decide_eq_true (hall u hu)
    have hentries : s.g.nodes.entries = s.g.nodes.keys.map (fun name => (name, drawnNode name)) := by
      apply InsertionMap.entries_eq_map
      intro u hu
      rw [hshows.nodes u (by rw [nodeNames_dotTree]; exact hall u hu)]
      exact nodeValue_dotTree (hall u hu)
    rw [hentries, hkeys]
  . rw [hshows.edges, edges_dotTree]

def Drawn (wsMsg : Str) (es : List EdgeStatement) : Prop :=
  ∃ tree g, onmessage wsMsg = .render (some tree) ∧ buildGraph tree = .ok g ∧ Depicts es g

theorem drawn_dotText (hes : ∀ e ∈ es, HasNames e) : Drawn (dotText es) es := by
  obtain ⟨g, hbuild, hdepicts⟩ := buildGraph_dotTree hes
  refine ⟨dotTree es, g, ?_, hbuild, hdepicts⟩
  have hindex : indexOf (dotText es) "error".toList = -1 :=
    indexOf_eq_neg_one (by decide) (not_infix_error (noDoubleR_dotText hes))
  rw [onmessage, hindex, if_neg (by decide), parse_dotText_eq hes]
  rfl

theorem drawn_of_serializeGraph {env : MapperEnv} {d : Draws} {payload : List Int}
    {gen : AdjacencyObjectsGenerator} {text : Str} (hgen : GraphProcessor.adjacencyObjects payload = .ok gen)
    (htext : GraphProcessor.serializeGraph env d payload = .ok text)
    : ∃ table, gen.generateData d = .ok table ∧ Drawn text (GraphMapper.ofServersData table).printed := by
  have hpairs := (GraphProcessor.serializeGraph_eq_ok_iff env hgen).mp ⟨text, htext⟩
  obtain ⟨table, htable, hserialize⟩ := GraphProcessor.serializeGraph_eq_ok env hgen hpairs
  refine ⟨table, htable, ?_⟩
  rw [htext] at hserialize
  rw [Except.ok.inj hserialize]
  exact drawn_dotText (GraphMapper.hasNames_printed (GraphMapper.isName_of_generateData htable))

end

end Client

namespace Hub

open WSServer WebSocketProtocol

variable {D : Type}

/--
The reply number `k` is for the message number `k`: the page draws of it what the mapper has printed of the table
for the parameters that are then in force.
-/
def IsAnswer (fl : FloatOps D) (payloadData : List Int) (deliveries : List Delivery) (k : Nat) (reply : Reply)
    : Prop :=
  ∃ delivery gen table, deliveries[k]? = some delivery
    ∧ reply.receiver = delivery.sender ∧ reply.opCode = delivery.opCode
    ∧ GraphProcessor.adjacencyObjects
        ((deliveries.take (k + 1)).foldl (fun p delivery => parametersAfter fl p delivery.message) payloadData)
        = .ok gen
    ∧ gen.generateData delivery.draws = .ok table
    ∧ Client.Drawn reply.message (GraphMapper.ofServersData table).printed

section

variable {fl : FloatOps D} {hub hub' : Hub} {delivery : Delivery}

theorem IsAnswer.cons {payloadData : List Int} {deliveries : List Delivery} {k : Nat} {reply : Reply}
    (h : IsAnswer fl (parametersAfter fl payloadData delivery.message) deliveries k reply)
    : IsAnswer fl payloadData (delivery :: deliveries) (k + 1) reply := h

theorem isAnswer_onMessage (h : HasParameters hub.server.payloadData)
    (hcall : onMessage fl hub delivery = (.ok (), hub')) (deliveries : List Delivery)
    : ∃ reply, hub'.sent = hub.sent ++ [reply]
        ∧ IsAnswer fl hub.server.payloadData (delivery :: deliveries) 0 reply := by
  unfold onMessage at hcall
  split at hcall
  . next server hupdate =>
    cases hcall
    obtain ⟨-, hpayload, htext⟩ := updatePayload_eq_ok h hupdate
    obtain ⟨gen, hgen⟩ := adjacencyObjects_parametersAfter fl h delivery.message
    rw [hpayload] at htext
    obtain ⟨table, htable, hdrawn⟩ := Client.drawn_of_serializeGraph hgen htext
    exact ⟨_, rfl, delivery, gen, table, rfl, rfl, rfl, hgen, htable, hdrawn⟩
  . cases hcall

theorem sent_of_onMessage_error {e : Fault} (hcall : onMessage fl hub delivery = (.error e, hub'))
    : hub'.sent = hub.sent := by
  unfold onMessage at hcall
  split at hcall
  . cases hcall
  . cases hcall
    rfl

theorem sent_run (fl : FloatOps D) (deliveries : List Delivery) (hub : Hub)
    (h : HasParameters hub.server.payloadData)
    : ∃ replies, (run fl hub deliveries).2.sent = hub.sent ++ replies
        ∧ ∀ k reply, replies[k]? = some reply → IsAnswer fl hub.server.payloadData deliveries k reply := by
  induction deliveries generalizing hub with
  | nil => exact ⟨[], (List.append_nil _).symm, fun k reply hreply => by cases hreply⟩
  | cons delivery deliveries ih =>
    rw [run]
    cases hcall : onMessage fl hub delivery with
    | mk res hub' =>
      cases res with
      | error e =>
        refine ⟨[], ?_, fun k reply hreply => by cases hreply⟩
        rw [List.append_nil]
        exact sent_of_onMessage_error hcall
      | ok u =>
        obtain ⟨-, hparameters, hpayload⟩ := onMessage_eq_ok h hcall
        obtain ⟨reply, hsent, hanswer⟩ := isAnswer_onMessage h hcall deliveries
        obtain ⟨replies, hreplies, hanswers⟩ := ih hub' hparameters
        refine ⟨reply :: replies, ?_, ?_⟩
        . rw [hreplies, hsent, List.append_assoc]
          rfl
        . intro k reply' hreply'
          cases k with
          | zero =>
            cases hreply'
            exact hanswer
          | succ k =>
            apply IsAnswer.cons
            rw [← hpayload]
            exact hanswers k reply' hreply'

end

theorem receiveAll_drawn (fl : FloatOps D) (answers : Answers) (arrivals : List (Nat × List UInt8))
    (mem : Memory UInt8)
    : let s := (Group.receiveAll (members fl answers) true arrivals { recvBuffer := mem, shared := {} }).shared
      ∃ deliveries, IsRun fl s deliveries
        ∧ (∀ i, messagesFrom i deliveries
          <+: messagesIn (recorded (members fl answers) true i (streamOf i arrivals)))
        ∧ ∀ k reply, s.hub.sent[k]? = some reply → IsAnswer fl WSServer.new.payloadData deliveries k reply := by
  dsimp only
  obtain ⟨schedule, hshared, hserved⟩ := exists_schedule (members fl answers) true arrivals mem {}
  have hcalls := fun i => (hserved i).calls
  obtain ⟨deliveries, hrun, hmessages⟩ := exists_deliveries fl answers schedule
  rw [hshared]
  refine ⟨deliveries, hrun, ?_, ?_⟩
  . intro i
    exact (hmessages i).1.trans ((hcalls i).1.filterMap _)
  . obtain ⟨replies, hsent, hanswers⟩ := sent_run fl deliveries {} hasParameters_new
    rw [← hrun.hub, hsent]
    exact hanswers

end Hub
