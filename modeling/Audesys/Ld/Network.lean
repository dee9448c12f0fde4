import Audesys.Lib.Kahn

/-!
# `Ld.Network` — contact networks and the power that flows through them

The contact network of a rung (`audesys-ld-semantics`): nodes, edges that carry a contact, the node of the left
power rail and the node of the output. `evaluate_power_flow` goes once through the nodes in the order that
`rebuild_topo` computes and caches, and gates the power of each node with the contacts of its outgoing edges.

Edge contacts look the previous value of their variable up in an `EdgeState` and record the current one. The
evaluations of contacts are kept as a list beside the result; the code has no such list, the theorems about
single contacts speak of it.
-/

namespace Audesys.Ld

open Audesys.Lib

/-! ## Contacts -/

inductive Contact where
  | no (var : String)
  | nc (var : String)
  | posEdge (var : String)
  | negEdge (var : String)
  deriving DecidableEq

def Contact.varName : Contact → String
  | no v | nc v | posEdge v | negEdge v => v

abbrev NodeId := Nat

structure ContactEdge where
  source : NodeId
  target : NodeId
  contact : Contact
  deriving DecidableEq

/-! ## Networks -/

/-- A contact network. A node is its index, so the nodes are their number. -/
structure ContactNetwork where
  nodes : Nat
  edges : List ContactEdge
  leftRail : Option NodeId
  outputNode : Option NodeId
  outgoing : List (List Nat)
  topoOrder : List NodeId
  dirty : Bool
  deriving DecidableEq

namespace ContactNetwork

def new : ContactNetwork := ⟨0, [], none, none, [], [], false⟩

/-- `add_node`, with the id of the new node. -/
def addNode (net : ContactNetwork) : NodeId × ContactNetwork :=
  (net.nodes, { net with nodes := net.nodes + 1, outgoing := net.outgoing ++ [[]], dirty := true })

/-- `add_edge`; a source that is not a node panics. -/
def addEdge (net : ContactNetwork) (source target : NodeId) (contact : Contact) : Option ContactNetwork :=
  if source < net.outgoing.length then
    some { net with
      edges := net.edges ++ [⟨source, target, contact⟩]
      outgoing := net.outgoing.modify source (· ++ [net.edges.length])
      dirty := true }
  else none

def setLeftRail (net : ContactNetwork) (node : NodeId) : ContactNetwork := { net with leftRail := some node }

def setOutputNode (net : ContactNetwork) (node : NodeId) : ContactNetwork := { net with outputNode := some node }

/-- The edges leaving a node, through the adjacency list. -/
def outgoingEdges (net : ContactNetwork) (node : NodeId) : List ContactEdge :=
  ((net.outgoing[node]?).getD []).filterMap fun idx => net.edges[idx]?

def graph (net : ContactNetwork) : FlowGraph NodeId ContactEdge := ⟨net.edges, ContactEdge.source, ContactEdge.target⟩

/-- The in-degrees, counted over all edges. -/
def inDegree (net : ContactNetwork) : NodeId → Nat :=
  net.edges.foldl (fun deg e => Function.update deg e.target (deg e.target + 1)) fun _ => 0

/-- The nodes the sort starts from, the next one to take first. -/
def seeds (net : ContactNetwork) : List NodeId :=
  match net.leftRail with
  | some lr => [lr]
  | none => ((List.range net.nodes).filter fun i => net.inDegree i = 0).reverse

/-- The targets of the edges and the nodes to start from are nodes; other ids are out of bounds. -/
def inBounds (net : ContactNetwork) : Bool :=
  (net.edges.all fun e => e.target < net.nodes) && net.seeds.all fun n => n < net.nodes

/-- `rebuild_topo`, cut off after `fuel` nodes. The queue is a stack, its top the head of the list. -/
def rebuildTopo (fuel : Nat) (net : ContactNetwork) : Option ContactNetwork :=
  if net.inBounds then do
    let order ← net.graph.orderLoop net.outgoingEdges fuel net.seeds net.inDegree []
    some { net with topoOrder := order, dirty := false }
  else none

/-- `topological_order`. -/
def topologicalOrder (fuel : Nat) (net : ContactNetwork) : Option ContactNetwork :=
  if net.dirty then net.rebuildTopo fuel else some net

end ContactNetwork

/-! ## Snapshots and edge states -/

structure InputSnapshot where
  values : String → Option Bool

def InputSnapshot.getBool (s : InputSnapshot) (var : String) : Bool := (s.values var).getD false

/-- The previous values of the variables of edge contacts. -/
structure EdgeState where
  prev : String → Option Bool

namespace EdgeState

def new : EdgeState := ⟨fun _ => none⟩

def record (es : EdgeState) (var : String) (value : Bool) : EdgeState := ⟨Function.update es.prev var (some value)⟩

theorem record_prev (es : EdgeState) (var : String) (value : Bool) (v : String) :
    (es.record var value).prev v = if v = var then some value else es.prev v := by
  show Function.update es.prev var (some value) v = _
  rw [Function.update_apply]

def isRising (es : EdgeState) (var : String) (snapshot : InputSnapshot) : Bool × EdgeState :=
  let curr := snapshot.getBool var
  let prev := (es.prev var).getD false
  (!prev && curr, es.record var curr)

def isFalling (es : EdgeState) (var : String) (snapshot : InputSnapshot) : Bool × EdgeState :=
  let curr := snapshot.getBool var
  let prev := (es.prev var).getD false
  (prev && !curr, es.record var curr)

end EdgeState

/-- Whether the contact is closed in the snapshot, as it is reported; for an edge contact an approximation. -/
def Contact.isClosed (snapshot : InputSnapshot) : Contact → Bool
  | no v | posEdge v => snapshot.getBool v
  | nc v | negEdge v => !snapshot.getBool v

/-- The contacts that look at the value alone. -/
def Contact.IsLevel : Contact → Prop
  | no _ | nc _ => True
  | posEdge _ | negEdge _ => False

/-! ## Power flow -/

/-- Whether a contact passes power, and the edge state after it was asked. -/
def contactPower (contact : Contact) (snapshot : InputSnapshot) (es : EdgeState) : Bool × EdgeState :=
  match contact with
  | .no var => (snapshot.getBool var, es)
  | .nc var => (!snapshot.getBool var, es)
  | .posEdge var => es.isRising var snapshot
  | .negEdge var => es.isFalling var snapshot

/-- One evaluation of a contact: the edge state it found, and whether it passed power. -/
structure Evaluation where
  contact : Contact
  before : EdgeState
  passes : Bool

structure Flow where
  nodePower : NodeId → Option Bool
  edgeState : EdgeState
  evaluations : List Evaluation

namespace Flow

/-- One outgoing edge of a powered node. -/
def edge (snapshot : InputSnapshot) (f : Flow) (e : ContactEdge) : Flow :=
  let (power, es) := contactPower e.contact snapshot f.edgeState
  let existing := (f.nodePower e.target).getD false
  { nodePower := Function.update f.nodePower e.target (some (existing || power))
    edgeState := es
    evaluations := f.evaluations ++ [⟨e.contact, f.edgeState, power⟩] }

/-- One node of the order; without power its edges are skipped. -/
def node (net : ContactNetwork) (snapshot : InputSnapshot) (f : Flow) (n : NodeId) : Flow :=
  match f.nodePower n with
  | some true => (net.outgoingEdges n).foldl (edge snapshot) f
  | _ => f

end Flow

/-- The power at the left rail, before the first node. -/
def Flow.start (leftRail : NodeId) (es : EdgeState) : Flow :=
  ⟨Function.update (fun _ => none) leftRail (some true), es, []⟩

/-- The nodes of the cached order, one after the other. -/
def ContactNetwork.flow (net : ContactNetwork) (snapshot : InputSnapshot) (f : Flow) : Flow :=
  net.topoOrder.foldl (Flow.node net snapshot) f

structure FlowResult where
  power : Bool
  network : ContactNetwork
  edgeState : EdgeState
  evaluations : List Evaluation

/-- `evaluate_power_flow`; it panics unless the rail and the output are set. -/
def evaluatePowerFlow (fuel : Nat) (net : ContactNetwork) (snapshot : InputSnapshot) (es : EdgeState) :
    Option FlowResult := do
  let leftRail ← net.leftRail
  let outputNode ← net.outputNode
  let net ← net.topologicalOrder fuel
  let f := net.flow snapshot (.start leftRail es)
  some ⟨(f.nodePower outputNode).getD false, net, f.edgeState, f.evaluations⟩

end Audesys.Ld
