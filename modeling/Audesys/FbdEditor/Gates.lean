import Audesys.FbdEditor.Ids
import Audesys.FbdEditor.Machine

/-!
# `FbdEditor.Gates` — networks of gates

The values of an acyclic network solve the equations of its gates (`exists_solves`). The program stores the value of a
gate to the first wire out of it only, and of an `XOR` it reads two inputs; so it computes the network exactly where no
gate drives two wires and what an `XOR` has behind its second input does not count (`computesGates_iff`).
-/

namespace Audesys.FbdEditor

open Audesys.Lib Audesys.Editor

/-- The pins of a gate in the editor's model: one for `NOT`, any number for `AND`, `OR` (from one on) and `XOR` (from two on),
and those that a `MUX` is created with. -/
def GateType.Fits (names : List String) : GateType → Prop
  | .not => names.length = 1
  | .and | .or => 0 < names.length
  | .xor => 2 ≤ names.length
  | .mux => names = getDefaultInputPinNames .mux

theorem GateType.Fits.arity {names : List String} {gateType : GateType} (h : gateType.Fits names) :
    gateType.arity names.length := by
  cases gateType with
  | mux => exact congrArg List.length h
  | _ => exact h

/-- An acyclic network of gates with distinct ids, existing ports and at most one wire per input. -/
structure GateNetwork (graph : FbdGraph) : Prop where
  gates : ∀ node ∈ graph.nodes, ∃ gateType, node.kind = .gate gateType
  unique : graph.UniqueIds
  sources : ∀ e ∈ graph.edges, ∃ node pin, graph.findNode e.sourceId = some node ∧ findPin node e.sourcePortName = some pin
  targets : ∀ e ∈ graph.edges, ∃ node pin, graph.findNode e.targetId = some node ∧ findPin node e.targetPortName = some pin
  single : (graph.edges.map fun e => (e.targetId, e.targetPortName)).Nodup
  acyclic : graph.flow.Acyclic

namespace FbdGraph

/-- The value at an input: that of the gate that drives its wire, or false. -/
def inputOf (graph : FbdGraph) (val : String → Bool) (node : BaseNode) (pin : Pin) : Bool :=
  match graph.edges.find? fun e => e.targetId == node.id && e.targetPortName == pin.name with
  | some e => val e.sourceId
  | none => false

/-- Every gate has the value that `f` makes of its inputs. -/
def SolvesBy (f : List Bool → GateType → Bool) (graph : FbdGraph) (val : String → Bool) : Prop :=
  ∀ node ∈ graph.nodes, ∀ gateType, node.kind = .gate gateType →
    val node.id = f (node.inputPorts.map (graph.inputOf val node)) gateType

/-- Every gate has the value that its type makes of its inputs. -/
def Solves (graph : FbdGraph) (val : String → Bool) : Prop := graph.SolvesBy GateType.eval val

/-- Every gate has the pins of its type. -/
def Pinned (graph : FbdGraph) : Prop :=
  ∀ node ∈ graph.nodes, ∀ gateType, node.kind = .gate gateType → gateType.Fits (node.inputPorts.map (·.name))

/-- Of the inputs of an `XOR` behind the second, an even number is true. -/
def EvenBehind (graph : FbdGraph) (val : String → Bool) : Prop :=
  ∀ node ∈ graph.nodes, node.kind = .gate .xor →
    parity ((node.inputPorts.map (graph.inputOf val node)).drop 2) = false

/-- Every wire's variable has the value of the gate that drives it, and the variable of a gate without outgoing wires
has its value. -/
structure Agrees (graph : FbdGraph) (val mem : String → Bool) : Prop where
  wires : ∀ e ∈ graph.edges, ∃ name, graph.wireLabels e.id = some name ∧ mem name = val e.sourceId
  outputs : ∀ node ∈ graph.nodes, graph.findOutgoingEdge node.id = none → mem (gateOut node.id) = val node.id

/-- Its program computes the network, whatever the variables hold before. -/
def ComputesGates (graph : FbdGraph) : Prop :=
  ∃ val result, graph.Solves val ∧ convertGraphToIl graph = some result ∧
    ∀ mem, ∃ mem', Ends result.lines mem mem' ∧ graph.Agrees val mem'

/-! ## Variables -/

/-- The name of a wire ends in its number. -/
theorem toList_wireName (graph : FbdGraph) (e : BaseEdge) (k : Nat) :
    ∃ cs, (graph.wireName e k).toList = 't' :: cs ++ '_' :: (toString k).toList := by
  unfold wireName
  cases (graph.nodeById e.sourceId).bind (findPin · e.sourcePortName) with
  | none =>
    refine ⟨"mp".toList, ?_⟩
    dsimp only
    rw [String.toList_append]
    rfl
  | some pin =>
    refine ⟨"mp_".toList ++ pin.name.toList, ?_⟩
    dsimp only
    rw [String.toList_append, String.toList_append, String.toList_append, List.append_assoc]
    rfl

/-- Two wires never share a variable: the name counts them. -/
theorem wireName_inj {graph : FbdGraph} {e e' : BaseEdge} {k k' : Nat} (h : graph.wireName e k = graph.wireName e' k') :
    k = k' := by
  obtain ⟨cs, hcs⟩ := graph.toList_wireName e k
  obtain ⟨cs', hcs'⟩ := graph.toList_wireName e' k'
  have hplain : ∀ n : Nat, '_' ∉ (toString n).toList := by
    intro n hmem
    exact absurd (isDigit_of_mem_toString hmem) (by decide)
  have hlist := congrArg String.toList h
  rw [hcs, hcs'] at hlist
  exact toString_injective (append_cons_inj_last (hplain k) (hplain k') hlist).2

theorem head_wireName (graph : FbdGraph) (e : BaseEdge) (k : Nat) : (graph.wireName e k).toList.head? = some 't' := by
  obtain ⟨cs, hcs⟩ := graph.toList_wireName e k
  rw [hcs]
  rfl

theorem head_gateOut (nodeId : String) : (gateOut nodeId).toList.head? = some 'g' := by
  unfold gateOut
  rw [String.toList_append]
  rfl

/-- A wire's variable is not the one of a gate without wires. -/
theorem wireName_ne_gateOut (graph : FbdGraph) (e : BaseEdge) (k : Nat) (nodeId : String) :
    graph.wireName e k ≠ gateOut nodeId := by
  intro h
  have hhead := graph.head_wireName e k
  rw [h, head_gateOut] at hhead
  exact absurd hhead (by decide)

theorem wireName_ne_false (graph : FbdGraph) (e : BaseEdge) (k : Nat) : graph.wireName e k ≠ "FALSE" := by
  intro h
  have hhead := graph.head_wireName e k
  rw [h] at hhead
  exact absurd hhead (by decide)

theorem gateOut_inj {nodeId nodeId' : String} (h : gateOut nodeId = gateOut nodeId') : nodeId = nodeId' := by
  have hlist := congrArg String.toList h
  unfold gateOut at hlist
  rw [String.toList_append, String.toList_append] at hlist
  exact String.toList_injective (List.append_cancel_left hlist)

/-- The table of labels holds the name of every wire. -/
theorem wireLabels_eq {graph : FbdGraph} (h : graph.UniqueIds) {e : BaseEdge} {k : Nat} (he : graph.edges[k]? = some e) :
    graph.wireLabels e.id = some (graph.wireName e k) := by
  unfold wireLabels
  apply setAll_eq_some
  · rw [List.map_map]
    have hids : (Prod.fst ∘ fun p : BaseEdge × Nat => (p.1.id, graph.wireName p.1 p.2)) = BaseEdge.id ∘ Prod.fst := rfl
    rw [hids, ← List.map_map, List.zipIdx_map_fst]
    exact h.2
  · exact List.mem_map.2 ⟨(e, k), List.mk_mem_zipIdx_iff_getElem?.2 he, rfl⟩

/-- A variable with the value that a valuation of the gates gives it. -/
def valueAt (graph : FbdGraph) (val : String → Bool) (x : String) : Bool :=
  match graph.edges.zipIdx.find? fun p => graph.wireName p.1 p.2 == x with
  | some p => val p.1.sourceId
  | none =>
    match graph.nodes.find? fun n => gateOut n.id == x with
    | some n => val n.id
    | none => false

/-- The variable of a wire holds the value of the gate the wire leaves. -/
theorem valueAt_wireName {graph : FbdGraph} (val : String → Bool) {e : BaseEdge} {k : Nat}
    (he : graph.edges[k]? = some e) : graph.valueAt val (graph.wireName e k) = val e.sourceId := by
  unfold valueAt
  cases hfind : graph.edges.zipIdx.find? fun p => graph.wireName p.1 p.2 == graph.wireName e k with
  | none =>
    have hnone := List.find?_eq_none.1 hfind (e, k) (List.mk_mem_zipIdx_iff_getElem?.2 he)
    exact absurd (beq_self_eq_true _) hnone
  | some p =>
    have hbeq : (graph.wireName p.1 p.2 == graph.wireName e k) = true :=
      List.find?_some (p := fun p : BaseEdge × Nat => graph.wireName p.1 p.2 == graph.wireName e k) hfind
    have hp := List.mk_mem_zipIdx_iff_getElem?.1 (List.mem_of_find?_eq_some hfind : (p.1, p.2) ∈ _)
    rw [wireName_inj (beq_iff_eq.1 hbeq), he, Option.some.injEq] at hp
    dsimp only
    rw [hp]

theorem valueAt_gateOut {graph : FbdGraph} (val : String → Bool) {node : BaseNode} (hnode : node ∈ graph.nodes) :
    graph.valueAt val (gateOut node.id) = val node.id := by
  unfold valueAt
  have hwire : (graph.edges.zipIdx.find? fun p => graph.wireName p.1 p.2 == gateOut node.id) = none := by
    rw [List.find?_eq_none]
    intro p _ hname
    exact graph.wireName_ne_gateOut p.1 p.2 node.id (beq_iff_eq.1 hname)
  rw [hwire]
  dsimp only
  cases hfind : graph.nodes.find? fun n => gateOut n.id == gateOut node.id with
  | none =>
    have hnone := List.find?_eq_none.1 hfind node hnode
    exact absurd (beq_self_eq_true _) hnone
  | some n =>
    have hbeq : (gateOut n.id == gateOut node.id) = true :=
      List.find?_some (p := fun n : BaseNode => gateOut n.id == gateOut node.id) hfind
    dsimp only
    rw [gateOut_inj (beq_iff_eq.1 hbeq)]

end FbdGraph

/-! ## The order of a network -/

/-- The type of a gate. -/
def BaseNode.gateType (node : BaseNode) : GateType :=
  match node.kind with
  | .gate gateType => gateType
  | .fb _ => .and

theorem gateType_eq {node : BaseNode} {gateType : GateType} (h : node.kind = .gate gateType) : node.gateType = gateType := by
  unfold BaseNode.gateType
  rw [h]

/-- The gates in an order that the wires respect. -/
structure GateOrder (graph : FbdGraph) (sorted : List BaseNode) : Prop where
  nodup : (sorted.map (·.id)).Nodup
  mem_iff : ∀ node, node ∈ sorted ↔ node ∈ graph.nodes
  sources : ∀ pre node post, sorted = pre ++ node :: post → ∀ e ∈ graph.edges, e.targetId = node.id →
    e.sourceId ∈ pre.map (·.id)

namespace GateNetwork

open FbdGraph

variable {graph : FbdGraph}

theorem mem_nodeIds {nodeId : String} {node : BaseNode} (h : graph.findNode nodeId = some node) :
    nodeId ∈ graph.nodes.map (·.id) := by
  obtain ⟨hid, hmem⟩ := findNode_id h
  exact List.mem_map.2 ⟨node, hmem, hid⟩

theorem joined (h : GateNetwork graph) : graph.Joined where
  nodes := h.unique.1
  sources e he := by
    obtain ⟨node, _, hnode, _⟩ := h.sources e he
    exact mem_nodeIds hnode
  targets e he := by
    obtain ⟨node, _, hnode, _⟩ := h.targets e he
    exact mem_nodeIds hnode

theorem kind_eq (h : GateNetwork graph) {node : BaseNode} (hnode : node ∈ graph.nodes) :
    node.kind = .gate node.gateType := by
  obtain ⟨gateType, hkind⟩ := h.gates node hnode
  rw [gateType_eq hkind, hkind]

/-- The sort lists every gate behind the gates that feed it. -/
theorem order (h : GateNetwork graph) :
    ∃ ids, graph.sortedIds = some ids ∧ GateOrder graph (ids.filterMap graph.nodeById) := by
  obtain ⟨ids, hids, hnodup, hmem, hsources⟩ := h.joined.sortedIds h.acyclic
  obtain ⟨hmap, hnodes⟩ := h.joined.filterMap_nodeById fun id hid => (hmem id).1 hid
  refine ⟨ids, hids, ?_, ?_, ?_⟩
  · rw [hmap]
    exact hnodup
  · intro node
    refine ⟨hnodes node, ?_⟩
    intro hnode
    apply List.mem_filterMap.2
    exact ⟨node.id, (hmem node.id).2 (List.mem_map.2 ⟨node, hnode, rfl⟩), h.joined.nodeById hnode⟩
  · intro pre node post heq e he htgt
    apply hsources (pre.map (·.id)) node.id (post.map (·.id)) _ e he htgt
    rw [← hmap, heq, List.map_append, List.map_cons]

end GateNetwork

/-! ## Solutions -/

namespace FbdGraph

/-- The wire into a pin. -/
def inputWire (graph : FbdGraph) (node : BaseNode) (pin : Pin) : Option BaseEdge :=
  graph.edges.find? fun e => e.targetId == node.id && e.targetPortName == pin.name

/-- A pin has the value its wire brings, and false without a wire. -/
theorem inputOf_eq (graph : FbdGraph) (val : String → Bool) (node : BaseNode) (pin : Pin) :
    graph.inputOf val node pin = match graph.inputWire node pin with
      | some e => val e.sourceId
      | none => false := rfl

theorem inputWire_some {graph : FbdGraph} {node : BaseNode} {pin : Pin} {e : BaseEdge}
    (h : graph.inputWire node pin = some e) : e ∈ graph.edges ∧ e.targetId = node.id := by
  refine ⟨List.mem_of_find?_eq_some h, ?_⟩
  have htgt : (e.targetId == node.id && e.targetPortName == pin.name) = true :=
    List.find?_some (p := fun e : BaseEdge => e.targetId == node.id && e.targetPortName == pin.name) h
  rw [Bool.and_eq_true] at htgt
  exact beq_iff_eq.1 htgt.1

/-- A gate as an assignment of its value to its id. -/
def valueAssignment (f : List Bool → GateType → Bool) (graph : FbdGraph) (node : BaseNode) : Assignment String Bool where
  target := node.id
  reads := (node.inputPorts.filterMap (graph.inputWire node)).map (·.sourceId)
  value val := f (node.inputPorts.map (graph.inputOf val node)) node.gateType
  depends val val' h := by
    have hsame : node.inputPorts.map (graph.inputOf val node) = node.inputPorts.map (graph.inputOf val' node) := by
      apply List.map_congr_left
      intro pin hpin
      rw [inputOf_eq, inputOf_eq]
      cases hwire : graph.inputWire node pin with
      | none => rfl
      | some e =>
        apply h
        exact List.mem_map.2 ⟨e, List.mem_filterMap.2 ⟨pin, hpin, hwire⟩, rfl⟩
    rw [hsame]

end FbdGraph

namespace GateOrder

open FbdGraph

variable {graph : FbdGraph} {sorted : List BaseNode} {f : List Bool → GateType → Bool}

theorem targets_eq (f : List Bool → GateType → Bool) (graph : FbdGraph) (sorted : List BaseNode) :
    (sorted.map (graph.valueAssignment f)).map Assignment.target = sorted.map (·.id) := by
  rw [List.map_map]
  rfl

/-- A gate reads from gates before it. -/
theorem reads (h : GateOrder graph sorted) {pre post : List (Assignment String Bool)} {a : Assignment String Bool}
    (heq : sorted.map (graph.valueAssignment f) = pre ++ a :: post) {x : String} (hx : x ∈ a.reads) :
    x ∈ pre.map Assignment.target := by
  obtain ⟨pre', rest, hsorted, rfl, hrest⟩ := List.map_eq_append_iff.1 heq
  obtain ⟨node, post', rfl, rfl, rfl⟩ := List.map_eq_cons_iff.1 hrest
  obtain ⟨e, he, rfl⟩ := List.mem_map.1 hx
  obtain ⟨pin, _, hwire⟩ := List.mem_filterMap.1 he
  obtain ⟨hmem, htgt⟩ := inputWire_some hwire
  rw [targets_eq]
  exact h.sources pre' node post' hsorted e hmem htgt

/-- The values of the gates in the order are a solution. -/
theorem exists_solves (h : GateOrder graph sorted) :
    graph.SolvesBy f (Assignment.run (sorted.map (graph.valueAssignment f)) fun _ => false) := by
  intro node hnode gateType hkind
  rw [← gateType_eq hkind]
  show Assignment.run _ _ (graph.valueAssignment f node).target = (graph.valueAssignment f node).value _
  apply Assignment.run_solves
  · rw [targets_eq]
    exact h.nodup
  · intro pre a post heq x hx hmem
    have hpre := h.reads heq hx
    have hnodup := h.nodup
    rw [← targets_eq f graph, heq, List.map_append, List.nodup_append] at hnodup
    exact hnodup.2.2 x hpre x hmem rfl
  · exact List.mem_map.2 ⟨node, (h.mem_iff node).2 hnode, rfl⟩

end GateOrder

namespace GateNetwork

variable {graph : FbdGraph}

/-- **An acyclic network has values.** -/
theorem exists_solves (h : GateNetwork graph) (f : List Bool → GateType → Bool) : ∃ val, graph.SolvesBy f val := by
  obtain ⟨ids, _, horder⟩ := h.order
  exact ⟨_, horder.exists_solves⟩

end GateNetwork

/-! ## The program of a network -/

namespace FbdGraph

/-- The operands of a gate, in the order of its pins. -/
def gateInputs (graph : FbdGraph) (node : BaseNode) : List String := node.inputPorts.map (graph.inputValue node "FALSE")

/-- A gate as an assignment to the variable that it stores to. -/
def storeAssignment (graph : FbdGraph) (node : BaseNode) : Assignment String Bool :=
  gateAssignment (graph.gateInputs node) (graph.outLabel node.id) node.gateType

theorem inputValue_eq (graph : FbdGraph) (node : BaseNode) (unconnected : String) (pin : Pin) :
    graph.inputValue node unconnected pin = match graph.inputWire node pin with
      | some e => (graph.wireLabels e.id).getD unconnected
      | none => unconnected := by
  have hwire : (graph.incomingEdges node.id).find? (·.targetPortName == pin.name) = graph.inputWire node pin := by
    unfold incomingEdges inputWire
    rw [List.find?_filter]
    congr 1
    funext e
    rw [Bool.and_eq_decide]
  exact congrArg (fun wire : Option BaseEdge => match wire with
    | some e => (graph.wireLabels e.id).getD unconnected
    | none => unconnected) hwire

variable {graph : FbdGraph}

theorem inputValue_some (h : graph.UniqueIds) {node : BaseNode} {pin : Pin} {e : BaseEdge} {k : Nat}
    (hwire : graph.inputWire node pin = some e) (he : graph.edges[k]? = some e) (unconnected : String) :
    graph.inputValue node unconnected pin = graph.wireName e k := by
  rw [inputValue_eq, hwire]
  dsimp only
  rw [wireLabels_eq h he]
  rfl

theorem inputValue_none {node : BaseNode} {pin : Pin} (hwire : graph.inputWire node pin = none) (unconnected : String) :
    graph.inputValue node unconnected pin = unconnected := by
  rw [inputValue_eq, hwire]

theorem outLabel_some (h : graph.UniqueIds) {nodeId : String} {e : BaseEdge} {k : Nat}
    (hout : graph.findOutgoingEdge nodeId = some e) (he : graph.edges[k]? = some e) :
    graph.outLabel nodeId = graph.wireName e k := by
  unfold outLabel
  rw [hout]
  dsimp only
  rw [wireLabels_eq h he]
  rfl

theorem outLabel_none {nodeId : String} (hout : graph.findOutgoingEdge nodeId = none) :
    graph.outLabel nodeId = gateOut nodeId := by
  unfold outLabel
  rw [hout]

theorem findOutgoingEdge_some {nodeId : String} {e : BaseEdge} (h : graph.findOutgoingEdge nodeId = some e) :
    e ∈ graph.edges ∧ e.sourceId = nodeId := by
  refine ⟨List.mem_of_find?_eq_some h, ?_⟩
  have hsource : (e.sourceId == nodeId) = true := List.find?_some (p := fun e : BaseEdge => e.sourceId == nodeId) h
  exact beq_iff_eq.1 hsource

/-- The operand of an input stands for the value at the input. -/
theorem valueOf_inputValue (h : graph.UniqueIds) (val : String → Bool) (node : BaseNode) (pin : Pin) :
    valueOf (graph.valueAt val) (graph.inputValue node "FALSE" pin) = graph.inputOf val node pin := by
  rw [inputOf_eq]
  cases hwire : graph.inputWire node pin with
  | none =>
    rw [inputValue_none hwire]
    exact if_pos rfl
  | some e =>
    obtain ⟨k, he⟩ := List.mem_iff_getElem?.1 (inputWire_some hwire).1
    rw [inputValue_some h hwire he]
    exact (if_neg (graph.wireName_ne_false e k)).trans (valueAt_wireName val he)

/-- The variable that a gate stores to stands for its value. -/
theorem valueAt_outLabel (h : graph.UniqueIds) (val : String → Bool) {node : BaseNode} (hnode : node ∈ graph.nodes) :
    graph.valueAt val (graph.outLabel node.id) = val node.id := by
  cases hout : graph.findOutgoingEdge node.id with
  | none =>
    rw [outLabel_none hout]
    exact valueAt_gateOut val hnode
  | some e =>
    obtain ⟨hmem, hsource⟩ := findOutgoingEdge_some hout
    obtain ⟨k, he⟩ := List.mem_iff_getElem?.1 hmem
    rw [outLabel_some h hout he, valueAt_wireName val he, hsource]

end FbdGraph

theorem mux_append_inj {nodeId nodeId' tail : String} (h : "mux_" ++ nodeId ++ tail = "mux_" ++ nodeId' ++ tail) :
    nodeId = nodeId' := by
  have hlist := congrArg String.toList h
  rw [String.toList_append, String.toList_append, String.toList_append, String.toList_append] at hlist
  exact String.toList_injective (List.append_cancel_left (List.append_cancel_right hlist))

theorem muxSel0_ne_muxEnd (nodeId nodeId' : String) : muxSel0 nodeId ≠ muxEnd nodeId' := by
  have hsel0 : (muxSel0 nodeId).toList.getLast? = some '0' := by
    unfold muxSel0
    rw [String.toList_append, List.getLast?_append_of_ne_nil _ (by decide)]
    decide
  have hend : (muxEnd nodeId').toList.getLast? = some 'd' := by
    unfold muxEnd
    rw [String.toList_append, List.getLast?_append_of_ne_nil _ (by decide)]
    decide
  intro h
  rw [h, hend] at hsel0
  exact absurd hsel0 (by decide)

/-- The labels of different multiplexers are different. -/
theorem ownLabels_gates {sorted : List BaseNode} (h : (sorted.map (·.id)).Nodup) (inputs : BaseNode → List String)
    (out : BaseNode → String) :
    OwnLabels (sorted.flatMap fun node => valueLines node.id (inputs node) node.gateType ++ [IlLine.st (out node)]) := by
  have hlabels : ∀ node : BaseNode, (valueLines node.id (inputs node) node.gateType ++ [IlLine.st (out node)]).filterMap
      IlLine.labelName = if node.gateType = .mux then [muxSel0 node.id, muxEnd node.id] else [] := by
    intro node
    rw [List.filterMap_append, labels_valueLines]
    exact List.append_nil _
  unfold OwnLabels
  rw [List.filterMap_flatMap, List.nodup_flatMap]
  constructor
  · intro node _
    rw [hlabels]
    split
    · rw [List.nodup_cons, List.mem_singleton]
      exact ⟨muxSel0_ne_muxEnd _ _, List.nodup_singleton _⟩
    · exact List.nodup_nil
  · apply (List.pairwise_map.1 h).imp
    intro node node' hne
    show List.Disjoint _ _
    dsimp only
    rw [hlabels, hlabels]
    intro name hname hname'
    split at hname
    · split at hname'
      · rw [List.mem_cons, List.mem_singleton] at hname hname'
        rcases hname with rfl | rfl
        · rcases hname' with heq | heq
          · exact hne (mux_append_inj heq)
          · exact muxSel0_ne_muxEnd _ _ heq
        · rcases hname' with heq | heq
          · exact muxSel0_ne_muxEnd _ _ heq.symm
          · exact hne (mux_append_inj heq)
      · cases hname'
    · cases hname

/-- **The program runs** as the assignments of its gates. -/
theorem GateNetwork.run {graph : FbdGraph} (h : GateNetwork graph) (hpins : graph.Pinned) :
    ∃ result sorted, convertGraphToIl graph = some result ∧ GateOrder graph sorted ∧
      ∀ mem, Ends result.lines mem (Assignment.run (sorted.map graph.storeAssignment) mem) := by
  obtain ⟨ids, hids, horder⟩ := h.order
  refine ⟨_, _, by rw [convertGraphToIl, hids, Option.map_some], horder, ?_⟩
  intro mem
  dsimp only
  have hlines : ((ids.filterMap graph.nodeById).flatMap fun node => (emitNode graph node).lines) =
      (ids.filterMap graph.nodeById).flatMap fun node =>
        valueLines node.id (graph.gateInputs node) node.gateType ++ [.st (graph.outLabel node.id)] := by
    apply List.flatMap_congr
    intro node hnode
    unfold emitNode
    rw [h.kind_eq ((horder.mem_iff node).1 hnode)]
    rfl
  rw [hlines]
  have hlabels := ownLabels_gates horder.nodup graph.gateInputs fun node => graph.outLabel node.id
  have harity : ∀ node ∈ ids.filterMap graph.nodeById, node.gateType.arity (graph.gateInputs node).length := by
    intro node hnode
    have hmem := (horder.mem_iff node).1 hnode
    have harity := (hpins node hmem _ (h.kind_eq hmem)).arity
    rw [List.length_map] at harity
    unfold FbdGraph.gateInputs
    rw [List.length_map]
    exact harity
  obtain ⟨n, acc, hrun⟩ := gates_run hlabels _ harity (.whole _) false mem
  rw [Nat.zero_add] at hrun
  exact ⟨n, acc, hrun⟩

/-! ## What the program computes -/

/-- A program that ends leaves one memory. -/
theorem Ends.unique {prog : List IlLine} {mem mem₁ mem₂ : String → Bool} (h₁ : Ends prog mem mem₁)
    (h₂ : Ends prog mem mem₂) : mem₁ = mem₂ := by
  have hstopped : ∀ acc mem, next prog ⟨prog.length, acc, mem⟩ = none := by
    intro acc mem
    unfold next
    rw [List.getElem?_eq_none (Nat.le_refl _)]
  obtain ⟨n₁, acc₁, hrun₁⟩ := h₁
  obtain ⟨n₂, acc₂, hrun₂⟩ := h₂
  have hlen : n₁ = n₂ :=
    Nat.le_antisymm (hrun₁.le_of_stopped hrun₂ (hstopped ..)) (hrun₂.le_of_stopped hrun₁ (hstopped ..))
  rw [hlen] at hrun₁
  exact congrArg MachineState.mem (hrun₁.det hrun₂)

namespace FbdGraph

variable {graph : FbdGraph}

/-- No gate drives two wires: each wire is the first one out of its gate. -/
theorem nodup_sources_iff (h : graph.UniqueIds) :
    (graph.edges.map (·.sourceId)).Nodup ↔ ∀ e ∈ graph.edges, graph.findOutgoingEdge e.sourceId = some e := by
  rw [List.nodup_map_iff_inj_on (List.Nodup.of_map _ h.2)]
  constructor
  · intro hinj e he
    cases hfind : graph.findOutgoingEdge e.sourceId with
    | none =>
      have hnone := List.find?_eq_none.1 hfind e he
      exact absurd (beq_self_eq_true _) hnone
    | some e' =>
      obtain ⟨hmem, hsource⟩ := findOutgoingEdge_some hfind
      rw [hinj e' hmem e he hsource]
  · intro hfirst e he e' he' hsource
    have hfind := hfirst e he
    rw [hsource, hfirst e' he', Option.some.injEq] at hfind
    exact hfind.symm

/-- The variable of a wire that is not the first one out of its gate is never stored to. -/
theorem wireName_not_target (h : graph.UniqueIds) {sorted : List BaseNode} {e : BaseEdge} {k : Nat}
    (he : graph.edges[k]? = some e) (hother : graph.findOutgoingEdge e.sourceId ≠ some e) :
    graph.wireName e k ∉ (sorted.map graph.storeAssignment).map Assignment.target := by
  intro hmem
  rw [List.map_map] at hmem
  obtain ⟨node, _, htarget⟩ := List.mem_map.1 hmem
  have hlabel : graph.outLabel node.id = graph.wireName e k := htarget
  cases hout : graph.findOutgoingEdge node.id with
  | none =>
    rw [outLabel_none hout] at hlabel
    exact graph.wireName_ne_gateOut e k node.id hlabel.symm
  | some e' =>
    obtain ⟨hmem', hsource⟩ := findOutgoingEdge_some hout
    obtain ⟨k', he'⟩ := List.mem_iff_getElem?.1 hmem'
    rw [outLabel_some h hout he'] at hlabel
    rw [wireName_inj hlabel, he, Option.some.injEq] at he'
    apply hother
    rw [he', hsource]
    exact hout

/-- A gate reads the variables of gates before it. -/
theorem GateOrder.stored (h : graph.UniqueIds) (hfirst : ∀ e ∈ graph.edges, graph.findOutgoingEdge e.sourceId = some e)
    {sorted : List BaseNode} (horder : GateOrder graph sorted) {pre post : List (Assignment String Bool)}
    {a : Assignment String Bool} (heq : sorted.map graph.storeAssignment = pre ++ a :: post) {x : String}
    (hx : x ∈ a.reads) : x ∈ pre.map Assignment.target := by
  obtain ⟨pre', rest, hsorted, rfl, hrest⟩ := List.map_eq_append_iff.1 heq
  obtain ⟨node, post', rfl, rfl, rfl⟩ := List.map_eq_cons_iff.1 hrest
  obtain ⟨hinput, hne⟩ := List.mem_filter.1 hx
  obtain ⟨pin, _, rfl⟩ := List.mem_map.1 hinput
  cases hwire : graph.inputWire node pin with
  | none => exact absurd (inputValue_none hwire _) (of_decide_eq_true hne)
  | some e =>
    obtain ⟨hmem, htgt⟩ := inputWire_some hwire
    obtain ⟨k, he⟩ := List.mem_iff_getElem?.1 hmem
    obtain ⟨driver, hdriver, hid⟩ := List.mem_map.1 (horder.sources pre' node post' hsorted e hmem htgt)
    rw [inputValue_some h hwire he, List.map_map]
    apply List.mem_map.2
    refine ⟨driver, hdriver, ?_⟩
    show graph.outLabel driver.id = _
    rw [hid]
    exact outLabel_some h (hfirst e hmem) he

end FbdGraph

namespace GateNetwork

open FbdGraph

variable {graph : FbdGraph}

/-- A second wire out of a gate keeps what its variable held before. -/
theorem nodup_of_computes (h : GateNetwork graph) (hpins : graph.Pinned) (hcomputes : graph.ComputesGates) :
    (graph.edges.map (·.sourceId)).Nodup := by
  obtain ⟨result, sorted, hresult, horder, hrun⟩ := h.run hpins
  obtain ⟨val, result', hval, hresult', hends⟩ := hcomputes
  rw [hresult, Option.some.injEq] at hresult'
  rw [← hresult'] at hends
  rw [nodup_sources_iff h.unique]
  intro e he
  by_contra hother
  -- start where the variable holds the wrong value
  obtain ⟨mem, hmem, hagrees⟩ := hends fun _ => !val e.sourceId
  obtain ⟨k, hk⟩ := List.mem_iff_getElem?.1 he
  obtain ⟨name, hname, hvalue⟩ := hagrees.wires e he
  rw [wireLabels_eq h.unique hk, Option.some.injEq] at hname
  rw [← hname, hmem.unique (hrun _), Assignment.run_of_not_mem (wireName_not_target h.unique hk hother)] at hvalue
  exact Bool.not_ne_self _ hvalue

/-- With one wire out of every gate, the variables end with the values that the lines of the gates make of each other. -/
theorem run_eq_valueAt (h : GateNetwork graph) (hfirst : ∀ e ∈ graph.edges, graph.findOutgoingEdge e.sourceId = some e)
    {sorted : List BaseNode} (horder : GateOrder graph sorted) {val : String → Bool}
    (hval : graph.SolvesBy GateType.emitted val) (mem : String → Bool) {node : BaseNode} (hnode : node ∈ graph.nodes) :
    Assignment.run (sorted.map graph.storeAssignment) mem (graph.outLabel node.id) = val node.id := by
  rw [← valueAt_outLabel h.unique val hnode]
  apply Assignment.run_agrees
  · intro a ha
    obtain ⟨gate, hgate, rfl⟩ := List.mem_map.1 ha
    have hmem := (horder.mem_iff gate).1 hgate
    have hinputs : (graph.gateInputs gate).map (valueOf (graph.valueAt val)) =
        gate.inputPorts.map (graph.inputOf val gate) := by
      unfold gateInputs
      rw [List.map_map]
      apply List.map_congr_left
      intro pin _
      exact valueOf_inputValue h.unique val gate pin
    show graph.valueAt val (graph.outLabel gate.id) = gate.gateType.emitted _
    rw [valueAt_outLabel h.unique val hmem, hval gate hmem _ (h.kind_eq hmem), ← hinputs]
  · exact fun pre a post heq x hx => Or.inl (GateOrder.stored h.unique hfirst horder heq hx)
  · rw [List.map_map]
    exact List.mem_map.2 ⟨node, (horder.mem_iff node).2 hnode, rfl⟩

/-- Values of the network are values that the lines make of each other where every `XOR` is even behind its second input. -/
theorem solvesBy_emitted_iff {val : String → Bool} (hval : graph.Solves val) :
    graph.SolvesBy GateType.emitted val ↔ graph.EvenBehind val := by
  constructor
  · intro hemitted node hnode hkind
    exact (GateType.emitted_eq_iff _ _).1 ((hemitted node hnode _ hkind).symm.trans (hval node hnode _ hkind)) rfl
  · intro heven node hnode gateType hkind
    rw [(GateType.emitted_eq_iff _ gateType).2]
    · exact hval node hnode gateType hkind
    · rintro rfl
      exact heven node hnode hkind

/-- The variable that a gate stores to has its value where the network is computed. -/
theorem stored_of_agrees (h : GateNetwork graph) {val mem : String → Bool} (hagrees : graph.Agrees val mem)
    {node : BaseNode} (hnode : node ∈ graph.nodes) : mem (graph.outLabel node.id) = val node.id := by
  cases hout : graph.findOutgoingEdge node.id with
  | none =>
    rw [outLabel_none hout]
    exact hagrees.outputs node hnode hout
  | some e =>
    obtain ⟨he, hsource⟩ := findOutgoingEdge_some hout
    obtain ⟨k, hk⟩ := List.mem_iff_getElem?.1 he
    obtain ⟨name, hname, hvalue⟩ := hagrees.wires e he
    rw [wireLabels_eq h.unique hk, Option.some.injEq] at hname
    rw [outLabel_some h.unique hout hk, hname, hvalue, hsource]

/-- Two valuations that agree on the gates agree on their inputs. -/
theorem inputOf_congr (h : GateNetwork graph) {val val' : String → Bool}
    (hsame : ∀ node ∈ graph.nodes, val node.id = val' node.id)
    (node : BaseNode) (pin : Pin) : graph.inputOf val node pin = graph.inputOf val' node pin := by
  rw [inputOf_eq, inputOf_eq]
  cases hwire : graph.inputWire node pin with
  | none => rfl
  | some e =>
    obtain ⟨source, hsource, hid⟩ := List.mem_map.1 (h.joined.sources e (inputWire_some hwire).1)
    dsimp only
    rw [← hid]
    exact hsame source hsource

/-- A computed network is even behind the second inputs: there the lines have made the value that is due. -/
theorem even_of_computes (h : GateNetwork graph) (hpins : graph.Pinned) (hcomputes : graph.ComputesGates) :
    ∃ val, graph.Solves val ∧ graph.EvenBehind val := by
  have hfirst := (nodup_sources_iff h.unique).1 (h.nodup_of_computes hpins hcomputes)
  obtain ⟨result, sorted, hresult, horder, hrun⟩ := h.run hpins
  obtain ⟨val, result', hval, hresult', hends⟩ := hcomputes
  rw [hresult, Option.some.injEq] at hresult'
  rw [← hresult'] at hends
  obtain ⟨val', hval'⟩ := h.exists_solves GateType.emitted
  obtain ⟨mem, hmem, hagrees⟩ := hends fun _ => false
  have hsame : ∀ node ∈ graph.nodes, val node.id = val' node.id := by
    intro node hnode
    rw [← h.stored_of_agrees hagrees hnode, hmem.unique (hrun _)]
    exact h.run_eq_valueAt hfirst horder hval' _ hnode
  refine ⟨val, hval, (solvesBy_emitted_iff hval).1 fun node hnode gateType hkind => ?_⟩
  rw [hsame node hnode, hval' node hnode gateType hkind]
  congr 1
  exact List.map_congr_left fun pin _ => (h.inputOf_congr hsame node pin).symm

/-- One wire at most for every gate: the list then computes every gate. -/
theorem computes_of_nodup (h : GateNetwork graph) (hpins : graph.Pinned)
    (hnodup : (graph.edges.map (·.sourceId)).Nodup) (heven : ∃ val, graph.Solves val ∧ graph.EvenBehind val) :
    graph.ComputesGates := by
  obtain ⟨result, sorted, hresult, horder, hrun⟩ := h.run hpins
  obtain ⟨val, hval, heven⟩ := heven
  have hfirst := (nodup_sources_iff h.unique).1 hnodup
  refine ⟨val, result, hval, hresult, ?_⟩
  intro mem
  have hstored : ∀ node ∈ graph.nodes,
      Assignment.run (sorted.map graph.storeAssignment) mem (graph.outLabel node.id) = val node.id :=
    fun _ hnode => h.run_eq_valueAt hfirst horder ((solvesBy_emitted_iff hval).2 heven) mem hnode
  refine ⟨_, hrun mem, ?_, ?_⟩
  · intro e he
    obtain ⟨k, hk⟩ := List.mem_iff_getElem?.1 he
    obtain ⟨node, _, hnode, _⟩ := h.sources e he
    obtain ⟨hid, hmem⟩ := findNode_id hnode
    have hvalue := hstored node hmem
    rw [hid, outLabel_some h.unique (hfirst e he) hk] at hvalue
    exact ⟨graph.wireName e k, wireLabels_eq h.unique hk, hvalue⟩
  · intro node hnode hout
    rw [← outLabel_none hout]
    exact hstored node hnode

end GateNetwork

/-- **Networks of gates**, with the pins of their types, **are computed** exactly where no gate drives two wires and, in the
values of the network, the inputs of every `XOR` behind its second one have even parity. -/
theorem computesGates_iff {graph : FbdGraph} (h : GateNetwork graph) (hpins : graph.Pinned) :
    graph.ComputesGates ↔
      (graph.edges.map (·.sourceId)).Nodup ∧ ∃ val, graph.Solves val ∧ graph.EvenBehind val := by
  constructor
  · intro hcomputes
    exact ⟨h.nodup_of_computes hpins hcomputes, h.even_of_computes hpins hcomputes⟩
  · rintro ⟨hnodup, heven⟩
    exact h.computes_of_nodup hpins hnodup heven

end Audesys.FbdEditor

/-! ## One gate, two wires -/

namespace Audesys.FbdEditor

open Audesys.Lib

/-- A `NOT` and an `AND`, with wires between them. -/
def notAnd (edges : List BaseEdge) : FbdGraph :=
  ⟨"graph", [createGate "gate-1" .not ⟨0, 0⟩, createGate "gate-2" .and ⟨200, 0⟩], edges⟩

def firstWire : BaseEdge := ⟨"signal-3", "gate-1", "OUT", "gate-2", "IN1"⟩
def secondWire : BaseEdge := ⟨"signal-4", "gate-1", "OUT", "gate-2", "IN2"⟩

example : (convertGraphToIl (notAnd [firstWire])).map (·.ilText) =
    some "LDN FALSE  (* NOT gate-1 *)\nST  tmp_OUT_0\nLD  tmp_OUT_0  (* AND gate-2 *)\nAND FALSE\nST  gate_out_gate-2" := by
  decide +kernel

/-- A NOT in front of an AND, with one wire, both or none. -/
theorem network_notAnd {edges : List BaseEdge} (hedges : edges.Sublist [firstWire, secondWire]) :
    GateNetwork (notAnd edges) where
  gates := by
    intro node hnode
    rcases List.mem_cons.1 hnode with rfl | hnode
    · exact ⟨.not, rfl⟩
    · rw [List.mem_singleton.1 hnode]
      exact ⟨.and, rfl⟩
  unique := by
    refine ⟨(by decide : ["gate-1", "gate-2"].Nodup), ?_⟩
    exact (hedges.map BaseEdge.id).nodup (by decide)
  sources := by
    intro e he
    have hsource : e.sourceId = "gate-1" ∧ e.sourcePortName = "OUT" := by
      rcases List.mem_cons.1 (hedges.subset he) with rfl | he
      · exact ⟨rfl, rfl⟩
      · rw [List.mem_singleton.1 he]
        exact ⟨rfl, rfl⟩
    rw [hsource.1, hsource.2]
    exact ⟨createGate "gate-1" .not ⟨0, 0⟩, outputPin "OUT" "BOOL", rfl, by decide +kernel⟩
  targets := by
    intro e he
    have htarget : e.targetId = "gate-2" ∧ e.targetPortName ∈ ["IN1", "IN2"] := by
      rcases List.mem_cons.1 (hedges.subset he) with rfl | he
      · exact ⟨rfl, by decide⟩
      · rw [List.mem_singleton.1 he]
        exact ⟨rfl, by decide⟩
    rw [htarget.1]
    refine ⟨createGate "gate-2" .and ⟨200, 0⟩, inputPin e.targetPortName "BOOL", rfl, ?_⟩
    rcases List.mem_cons.1 htarget.2 with hname | hname
    · rw [hname]
      decide +kernel
    · rw [List.mem_singleton.1 hname]
      decide +kernel
  single := (hedges.map _).nodup (by decide)
  acyclic := by
    apply @FlowGraph.acyclic_of_rank _ _ (notAnd edges).flow fun id => if id = "gate-2" then 1 else 0
    intro e he
    have hends : e.sourceId = "gate-1" ∧ e.targetId = "gate-2" := by
      rcases List.mem_cons.1 (hedges.subset he) with rfl | he
      · exact ⟨rfl, rfl⟩
      · rw [List.mem_singleton.1 he]
        exact ⟨rfl, rfl⟩
    show (if e.sourceId = "gate-2" then 1 else 0) < if e.targetId = "gate-2" then 1 else 0
    rw [hends.1, hends.2]
    decide

theorem pinned_notAnd (edges : List BaseEdge) : (notAnd edges).Pinned := by
  intro node hnode gateType hkind
  rcases List.mem_cons.1 hnode with rfl | hnode
  · cases hkind
    rfl
  · rw [List.mem_singleton.1 hnode] at hkind ⊢
    cases hkind
    exact Nat.succ_pos 1

/-- With one wire the network is computed. -/
theorem computesGates_one_wire : (notAnd [firstWire]).ComputesGates := by
  have hnetwork := @network_notAnd [firstWire] (by decide)
  obtain ⟨val, hval⟩ := hnetwork.exists_solves GateType.eval
  refine (computesGates_iff hnetwork (pinned_notAnd _)).2 ⟨by decide, val, hval, fun node hnode hkind => ?_⟩
  -- there is no `XOR`
  rcases List.mem_cons.1 hnode with rfl | hnode
  · cases hkind
  · rw [List.mem_singleton.1 hnode] at hkind
    cases hkind

/-- With two wires the second input of the `AND` is never stored. -/
theorem computesGates_fail :
    GateNetwork (notAnd [firstWire, secondWire]) ∧ (notAnd [firstWire, secondWire]).Pinned ∧
      ¬ (notAnd [firstWire, secondWire]).ComputesGates := by
  have hnetwork := network_notAnd (List.Sublist.refl [firstWire, secondWire])
  refine ⟨hnetwork, pinned_notAnd _, ?_⟩
  intro hcomputes
  exact absurd (hnetwork.nodup_of_computes (pinned_notAnd _) hcomputes) (by decide)

end Audesys.FbdEditor
