import Audesys.FbdEditor.Operations
import Audesys.Lib.Assign
import Audesys.Lib.Kahn

/-!
# `FbdEditor.Il` — instruction lists for function block diagrams

`fbd-compile.ts`: nodes are sorted so that each comes after the sources of its wires, and every node gives some lines.
A line is kept as an instruction, `IlLine.render` is its text.
-/

open List

namespace Audesys.FbdEditor

open Audesys.Lib

inductive IlLine where
  | ld (operand : String) (comment : Option String)
  | ldn (operand : String) (comment : Option String)
  | and (operand : String)
  | or (operand : String)
  | xor (operand : String)
  | st (operand : String)
  | jmp (name : String)
  | jmpc (name : String)
  | label (name : String)
  | cal (fbType : String) (params : List (String × String)) (comment : Option String)
  deriving DecidableEq

namespace IlLine

def commentText : Option String → String
  | none => ""
  | some comment => "  (* " ++ comment ++ " *)"

/-- The line of text. -/
def render : IlLine → String
  | ld operand comment => "LD  " ++ operand ++ commentText comment
  | ldn operand comment => "LDN " ++ operand ++ commentText comment
  | and operand => "AND " ++ operand
  | or operand => "OR  " ++ operand
  | xor operand => "XOR " ++ operand
  | st operand => "ST  " ++ operand
  | jmp name => "JMP  " ++ name
  | jmpc name => "JMPC " ++ name
  | label name => name ++ ":"
  | cal fbType params comment =>
    "CAL " ++ fbType ++ "(" ++ ", ".intercalate (params.map fun p => p.1 ++ ":=" ++ p.2) ++ ")" ++ commentText comment

end IlLine

structure IlGenerationResult where
  lines : List IlLine
  variableNames : List String
  deriving DecidableEq

/-- The text of the program. -/
def IlGenerationResult.ilText (result : IlGenerationResult) : String := "\n".intercalate (result.lines.map IlLine.render)

/-! ## Sorting -/

namespace FbdGraph

/-- The wires as edges between the ids of nodes. -/
def flow (graph : FbdGraph) : FlowGraph String BaseEdge := ⟨graph.edges, BaseEdge.sourceId, BaseEdge.targetId⟩

def nodeById (graph : FbdGraph) : String → Option BaseNode := setAll (graph.nodes.map fun n => (n.id, n))

def incomingEdges (graph : FbdGraph) (nodeId : String) : List BaseEdge := graph.edges.filter (·.targetId == nodeId)

/-- The wires into a node; an id that is no node's counts from one. -/
def inDegree (graph : FbdGraph) (nodeId : String) : Int :=
  if graph.nodes.any (·.id == nodeId) then (graph.incomingEdges nodeId).length else 1

/-- The nodes without wires into them. -/
def roots (graph : FbdGraph) : List String := (graph.nodes.map (·.id)).filter fun id => graph.inDegree id == 0

/-- The ids in the order that nodes are taken from the queue. -/
def sortedIds (graph : FbdGraph) : Option (List String) :=
  graph.flow.queueLoop (graph.nodes.length + graph.edges.length) graph.roots graph.inDegree []

/-! ## Names of wires -/

/-- The variable of the `labelCounter`-th wire. -/
def wireName (graph : FbdGraph) (e : BaseEdge) (labelCounter : Nat) : String :=
  match (graph.nodeById e.sourceId).bind (findPin · e.sourcePortName) with
  | some srcPin => "tmp_" ++ srcPin.name ++ "_" ++ toString labelCounter
  | none => "tmp_" ++ toString labelCounter

def wireLabels (graph : FbdGraph) : String → Option String :=
  setAll (graph.edges.zipIdx.map fun p => (p.1.id, graph.wireName p.1 p.2))

/-- The variable of the wire into a pin. -/
def inputValue (graph : FbdGraph) (node : BaseNode) (unconnected : String) (pin : Pin) : String :=
  match (graph.incomingEdges node.id).find? (·.targetPortName == pin.name) with
  | some edge => (graph.wireLabels edge.id).getD unconnected
  | none => unconnected

/-! ## Emitting -/

def findOutgoingEdge (graph : FbdGraph) (nodeId : String) : Option BaseEdge := graph.edges.find? (·.sourceId == nodeId)

/-- The variable of a gate without wires out of it. -/
def gateOut (nodeId : String) : String := "gate_out_" ++ nodeId

/-- The variable that a gate stores to. -/
def outLabel (graph : FbdGraph) (nodeId : String) : String :=
  match graph.findOutgoingEdge nodeId with
  | some outWire => (graph.wireLabels outWire.id).getD (gateOut nodeId)
  | none => gateOut nodeId

end FbdGraph

/-- An input that a gate does not have. -/
def operandAt (values : List String) (i : Nat) : String := values[i]?.getD "undefined"

/-- The lines of `AND` and `OR`: a load, and the operation with each further input. -/
def chainLines (name nodeId : String) (op : String → IlLine) (inputValues : List String) : List IlLine :=
  if inputValues.length = 2 then
    [.ld (operandAt inputValues 0) (some (name ++ " " ++ nodeId)), op (operandAt inputValues 1)]
  else .ld (operandAt inputValues 0) none :: (inputValues.drop 1).map op

def muxSel0 (nodeId : String) : String := "mux_" ++ nodeId ++ "_sel0"
def muxEnd (nodeId : String) : String := "mux_" ++ nodeId ++ "_end"

/-- The lines of a gate that compute its value. -/
def valueLines (nodeId : String) (inputValues : List String) : GateType → List IlLine
  | .not => [.ldn (operandAt inputValues 0) (some ("NOT " ++ nodeId))]
  | .and => chainLines "AND" nodeId .and inputValues
  | .or => chainLines "OR" nodeId .or inputValues
  | .xor => [.ld (operandAt inputValues 0) (some ("XOR " ++ nodeId)), .xor (operandAt inputValues 1)]
  | .mux =>
    [.ld (operandAt inputValues 0) (some ("MUX SEL " ++ nodeId)), .jmpc (muxSel0 nodeId), .ld (operandAt inputValues 1) none,
      .jmp (muxEnd nodeId), .label (muxSel0 nodeId), .ld (operandAt inputValues 2) none, .label (muxEnd nodeId)]

/-- `emitGateNode`. -/
def emitGateNode (graph : FbdGraph) (node : BaseNode) (gateType : GateType) : IlGenerationResult :=
  let inputValues := node.inputPorts.map (graph.inputValue node "FALSE")
  { lines := valueLines node.id inputValues gateType ++ [.st (graph.outLabel node.id)]
    variableNames := if (graph.findOutgoingEdge node.id).isNone then [graph.outLabel node.id] else [] }

/-- The variable that a function block stores an output to. -/
def fbLabel (graph : FbdGraph) (node : BaseNode) (pin : Pin) : Option BaseEdge → String
  | some outEdge => (graph.wireLabels outEdge.id).getD ("fb_" ++ node.id ++ "_" ++ pin.name)
  | none => "fb_" ++ node.id ++ "_" ++ pin.name

/-- `emitFbNode`. -/
def emitFbNode (graph : FbdGraph) (node : BaseNode) (fbType : String) : IlGenerationResult :=
  let params := node.inputPorts.map fun pin => (pin.name, graph.inputValue node "0" pin)
  let outEdge := fun pin : Pin => graph.edges.find? fun e => e.sourceId == node.id && e.sourcePortName == pin.name
  { lines := .cal fbType params (some ("FB " ++ node.id)) ::
      node.outputPorts.map fun pin => .st (fbLabel graph node pin (outEdge pin))
    variableNames := (node.outputPorts.filter fun pin => (outEdge pin).isNone).map fun pin => fbLabel graph node pin none }

def emitNode (graph : FbdGraph) (node : BaseNode) : IlGenerationResult :=
  match node.kind with
  | .gate gateType => emitGateNode graph node gateType
  | .fb fbType => emitFbNode graph node fbType

/-- `convertGraphToIl`; `none` if the fuel of the sort is out. -/
def convertGraphToIl (graph : FbdGraph) : Option IlGenerationResult :=
  graph.sortedIds.map fun ids =>
    let sorted := ids.filterMap graph.nodeById
    ⟨sorted.flatMap fun node => (emitNode graph node).lines, sorted.flatMap fun node => (emitNode graph node).variableNames⟩

/-! ## The sort -/

namespace FbdGraph

variable {graph : FbdGraph}

/-- The wires join nodes of the graph, and the ids of nodes are distinct. -/
structure Joined (graph : FbdGraph) : Prop where
  nodes : (graph.nodes.map (·.id)).Nodup
  sources : ∀ e ∈ graph.edges, e.sourceId ∈ graph.nodes.map (·.id)
  targets : ∀ e ∈ graph.edges, e.targetId ∈ graph.nodes.map (·.id)

theorem inDegree_eq {nodeId : String} (h : nodeId ∈ graph.nodes.map (·.id)) :
    graph.inDegree nodeId = graph.flow.remaining [] nodeId := by
  have hany : graph.nodes.any (·.id == nodeId) = true := by
    obtain ⟨n, hn, rfl⟩ := mem_map.1 h
    exact any_eq_true.2 ⟨n, hn, beq_self_eq_true _⟩
  unfold inDegree incomingEdges FlowGraph.remaining
  rw [if_pos hany, ← countP_eq_length_filter, Nat.cast_inj]
  apply countP_congr
  intro e _
  rw [Bool.and_eq_true, decide_eq_true_eq, decide_eq_true_eq, beq_iff_eq]
  exact (and_iff_left not_mem_nil).symm

theorem mem_roots {nodeId : String} :
    nodeId ∈ graph.roots ↔ nodeId ∈ graph.nodes.map (·.id) ∧ ∀ e ∈ graph.edges, e.targetId ≠ nodeId := by
  unfold roots
  rw [mem_filter]
  apply and_congr_right
  intro h
  rw [beq_iff_eq, inDegree_eq h, Nat.cast_eq_zero, FlowGraph.remaining_eq_zero]
  constructor
  · intro hall e he htgt
    cases hall e he htgt
  · intro hall e he htgt
    exact absurd htgt (hall e he)

/-- The sort comes to an end, and the ids it takes are those that Kahn's algorithm takes. -/
theorem Joined.kahn (h : graph.Joined) : ∃ ids deg, graph.sortedIds = some ids ∧
    FlowGraph.KahnInv graph.flow graph.roots [] deg ids := by
  have hrooted : graph.flow.Rooted graph.roots := by
    intro r hr r' _ hpath
    obtain ⟨u, _, e, he, _, htgt⟩ := (Relation.TransGen.tail'_iff).1 hpath
    exact (mem_roots.1 hr).2 e he htgt
  have hnodup : graph.roots.Nodup := h.nodes.filter _
  have hinv := FlowGraph.KahnInv.init (g := graph.flow) hnodup
  have hcounts : graph.flow.Counts graph.inDegree (graph.flow.remaining []) := fun e he => inDegree_eq (h.targets e he)
  exact FlowGraph.queueLoop_total hrooted (fun r hr => (mem_roots.1 hr).1) h.targets
    (graph.nodes.length + graph.edges.length) hinv hcounts (by
      rw [length_map, length_nil]
      omega)

section
variable {ids : List String} {deg : String → Nat}

theorem nodup_of_kahn (hdone : FlowGraph.KahnInv graph.flow graph.roots [] deg ids) : ids.Nodup := by
  have hwhole := hdone.nodup
  rwa [List.append_nil] at hwhole

/-- Only ids of nodes are taken. -/
theorem Joined.mem_of_kahn (h : graph.Joined) (hdone : FlowGraph.KahnInv graph.flow graph.roots [] deg ids) {id : String}
    (hid : id ∈ ids) : id ∈ graph.nodes.map (·.id) := by
  cases (hdone.done id).1 hid with
  | root hr => exact (mem_roots.1 hr).1
  | node hin _ =>
    obtain ⟨e, he, rfl⟩ := hin
    exact h.targets e he

/-- The sources of the wires into a node are taken before it. -/
theorem sources_of_kahn (hdone : FlowGraph.KahnInv graph.flow graph.roots [] deg ids) {pre post : List String}
    {id : String} (heq : ids = pre ++ id :: post) : ∀ e ∈ graph.edges, e.targetId = id → e.sourceId ∈ pre := by
  intro e he htgt
  rcases hdone.sorted pre id post heq with hroot | hsources
  · exact absurd htgt ((mem_roots.1 hroot).2 e he)
  · exact hsources e he htgt

end

/-- **The sort** of an acyclic graph takes every node once, behind the sources of its wires. -/
theorem Joined.sortedIds (h : graph.Joined) (hacyclic : graph.flow.Acyclic) : ∃ ids, graph.sortedIds = some ids ∧
    ids.Nodup ∧ (∀ id, id ∈ ids ↔ id ∈ graph.nodes.map (·.id)) ∧
      ∀ pre id post, ids = pre ++ id :: post → ∀ e ∈ graph.edges, e.targetId = id → e.sourceId ∈ pre := by
  obtain ⟨ids, deg, hids, hdone⟩ := h.kahn
  have hfed : ∀ id ∈ graph.nodes.map (·.id), graph.flow.Fed graph.roots id := by
    apply hacyclic.fed h.sources
    intro id hid
    by_cases hroot : id ∈ graph.roots
    · exact Or.inl hroot
    · right
      by_contra hnone
      apply hroot
      rw [mem_roots]
      exact ⟨hid, fun e he htgt => hnone ⟨e, he, htgt⟩⟩
  refine ⟨ids, hids, nodup_of_kahn hdone, ?_, fun pre id post heq => sources_of_kahn hdone heq⟩
  intro id
  exact ⟨h.mem_of_kahn hdone, fun hid => (hdone.done id).2 (hfed id hid)⟩

theorem Joined.nodeById (h : graph.Joined) {node : BaseNode} (hnode : node ∈ graph.nodes) :
    graph.nodeById node.id = some node := by
  apply setAll_eq_some
  · rw [map_map]
    exact h.nodes
  · exact mem_map.2 ⟨node, hnode, rfl⟩

/-- The ids of nodes lead to the nodes. -/
theorem Joined.filterMap_nodeById (h : graph.Joined) {ids : List String}
    (hids : ∀ id ∈ ids, id ∈ graph.nodes.map (·.id)) : (ids.filterMap graph.nodeById).map (·.id) = ids ∧
      ∀ node ∈ ids.filterMap graph.nodeById, node ∈ graph.nodes := by
  induction ids with
  | nil => exact ⟨rfl, fun node hnode => by cases hnode⟩
  | cons id ids ih =>
    obtain ⟨hmap, hmem⟩ := ih fun id' hid' => hids id' (mem_cons_of_mem _ hid')
    obtain ⟨node, hnode, rfl⟩ := mem_map.1 (hids id (mem_cons_self ..))
    rw [filterMap_cons_some (h.nodeById hnode), map_cons, hmap]
    refine ⟨rfl, ?_⟩
    intro node' hnode'
    rcases mem_cons.1 hnode' with rfl | hnode'
    · exact hnode
    · exact hmem node' hnode'

end FbdGraph

end Audesys.FbdEditor
