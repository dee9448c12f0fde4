import Audesys.FbdEditor.Model

/-!
# `FbdEditor.Operations` — the operations on function block diagrams

`fbd-operation-handler.ts`. An operation works on a session: the graph and the number of ids that were generated so far.
Every check that throws comes before the first id is generated.
-/

namespace Audesys.FbdEditor

open Audesys.Lib Audesys.Editor

variable {s : Session} {elementId : String} {node : BaseNode}

/-- The graph, and the counter of `generateId`. -/
structure Session where
  nextId : Nat
  graph : FbdGraph
  deriving DecidableEq

/-- `snapToGrid`; `Math.round` rounds a half up. -/
def snapToGrid (p : Point) : Point := ⟨(p.x / 20 + 1 / 2).floor * 20, (p.y / 20 + 1 / 2).floor * 20⟩

structure ConnectPinsParams where
  sourceNodeId : String
  sourcePortName : String
  targetNodeId : String
  targetPortName : String
  deriving DecidableEq

/-- The operations of the handler with their parameters. -/
inductive Operation where
  | createGate (gateType : GateType) (position : Point)
  | createFunctionBlock (fbType : String) (position : Point)
  | deleteElement (elementId : String)
  | connectPins (params : ConnectPinsParams)
  | disconnectPin (nodeId portName : String)
  | moveElement (elementId : String) (newPosition : Point)
  | changeGateType (elementId : String) (newGateType : GateType)
  | changeFbType (fbId newFbType : String)
  deriving DecidableEq

namespace BaseEdge

/-- The wire touches a node. -/
def touches (e : BaseEdge) (nodeId : String) : Bool := e.sourceId == nodeId || e.targetId == nodeId

/-- The wire touches a pin. -/
def atPin (e : BaseEdge) (nodeId portName : String) : Bool :=
  e.sourceId == nodeId && e.sourcePortName == portName || e.targetId == nodeId && e.targetPortName == portName

/-- The wire connects the two pins. -/
def connects (e : BaseEdge) (params : ConnectPinsParams) : Bool :=
  e.sourceId == params.sourceNodeId && e.sourcePortName == params.sourcePortName &&
    e.targetId == params.targetNodeId && e.targetPortName == params.targetPortName

end BaseEdge

def PinDirection.text : PinDirection → String
  | output => "Output"
  | input => "Input"
  | bidi => "Bidi"

def NodeKind.text : NodeKind → String
  | gate _ => "node:gate"
  | fb _ => "node:fb"

/-- `validatePin`. -/
def validatePin (graph : FbdGraph) (nodeId portName role : String) : Except String Pin :=
  match graph.findNode nodeId with
  | none => .error (role ++ " node not found: " ++ nodeId)
  | some node =>
    match findPin node portName with
    | none => .error (role ++ " port \"" ++ portName ++ "\" not found on " ++ node.kind.text ++ " \"" ++ nodeId ++ "\"")
    | some pin => .ok pin

/-- The checks of `connectPins`. -/
def checkPins (graph : FbdGraph) (params : ConnectPinsParams) : Except String Unit := do
  let srcPin ← validatePin graph params.sourceNodeId params.sourcePortName "source"
  let tgtPin ← validatePin graph params.targetNodeId params.targetPortName "target"
  if srcPin.direction ≠ .output ∧ srcPin.direction ≠ .bidi then
    .error ("Source pin \"" ++ params.sourcePortName ++ "\" is " ++ srcPin.direction.text ++ ", must be Output/Bidi")
  else if tgtPin.direction ≠ .input ∧ tgtPin.direction ≠ .bidi then
    .error ("Target pin \"" ++ params.targetPortName ++ "\" is " ++ tgtPin.direction.text ++ ", must be Input/Bidi")
  else if srcPin.dataType ≠ tgtPin.dataType ∧ ¬ (srcPin.dataType = "INT" ∧ tgtPin.dataType = "REAL") then
    .error ("Type mismatch: " ++ srcPin.dataType ++ " → " ++ tgtPin.dataType)
  else .ok ()

/-- A new definition for the first node with the id. -/
def FbdGraph.setNode (graph : FbdGraph) (nodeId : String) (node : BaseNode) : FbdGraph :=
  { graph with nodes := updateFirst (·.id == nodeId) (fun _ => node) graph.nodes }

namespace Session

variable [CaseMap]

def createGate (s : Session) (gateType : GateType) (position : Point) : Session :=
  let gate := FbdEditor.createGate (numberedId "gate" (s.nextId + 1)) gateType (snapToGrid position)
  ⟨s.nextId + 1, { s.graph with nodes := s.graph.nodes ++ [gate] }⟩

def createFunctionBlock (s : Session) (fbType : String) (position : Point) : Session :=
  let fb := createFbWithPins (numberedId "fb" (s.nextId + 1)) fbType (snapToGrid position)
  ⟨s.nextId + 1, { s.graph with nodes := s.graph.nodes ++ [fb] }⟩

def deleteElement (s : Session) (elementId : String) : Except String Session :=
  if (s.graph.findNode elementId).isNone then .error ("Element not found: " ++ elementId)
  else
    .ok { s with graph := { s.graph with
      nodes := s.graph.nodes.filter fun n => n.id != elementId
      edges := s.graph.edges.filter fun e => !e.touches elementId } }

/-- The wire that an operation draws. -/
def newEdge (s : Session) (params : ConnectPinsParams) : BaseEdge :=
  { id := numberedId "signal" (s.nextId + 1)
    sourceId := params.sourceNodeId, sourcePortName := params.sourcePortName
    targetId := params.targetNodeId, targetPortName := params.targetPortName }

def connectPins (s : Session) (params : ConnectPinsParams) : Except String Session := do
  checkPins s.graph params
  -- a wire that is there already is not drawn again
  if s.graph.edges.any (·.connects params) then .ok s
  else
    .ok ⟨s.nextId + 1, { s.graph with edges := s.graph.edges ++ [s.newEdge params] }⟩

def disconnectPin (s : Session) (nodeId portName : String) : Except String Session :=
  if (s.graph.findNode nodeId).isNone then .error ("Node not found: " ++ nodeId)
  else .ok { s with graph := { s.graph with edges := s.graph.edges.filter fun e => !e.atPin nodeId portName } }

def moveElement (s : Session) (elementId : String) (newPosition : Point) : Except String Session :=
  match s.graph.findNode elementId with
  | none => .error ("Element not found: " ++ elementId)
  | some node =>
    .ok { s with graph := s.graph.setNode elementId { node with position := snapToGrid newPosition } }

/-- The new gate takes an id of its own, which is thrown away for that of the old one. -/
def changeGateType (s : Session) (elementId : String) (newGateType : GateType) : Except String Session :=
  match s.graph.findNode elementId with
  | none => .error ("Not a gate: " ++ elementId)
  | some node =>
    match node.kind with
    | .fb _ => .error ("Not a gate: " ++ elementId)
    | .gate gateType =>
      if gateType = newGateType then .ok s
      else .ok ⟨s.nextId + 1, s.graph.setNode elementId (FbdEditor.createGate elementId newGateType node.position)⟩

/-- The wires of a block that end at pins the new one has. -/
def keepsPin (newFb : BaseNode) (e : BaseEdge) : Bool :=
  let validPins := (newFb.inputPorts ++ newFb.outputPorts).map Pin.name
  !(e.sourceId == newFb.id && !validPins.contains e.sourcePortName) &&
    !(e.targetId == newFb.id && !validPins.contains e.targetPortName)

/-- The wires to pins that the new block does not have are removed. -/
def changeFbType (s : Session) (fbId newFbType : String) : Except String Session :=
  match s.graph.findNode fbId with
  | none => .error ("Not an FB: " ++ fbId)
  | some node =>
    match node.kind with
    | .gate _ => .error ("Not an FB: " ++ fbId)
    | .fb fbType =>
      if fbType = newFbType then .ok s
      else
        let newFb := createFbWithPins fbId newFbType node.position
        let graph := s.graph.setNode fbId newFb
        .ok ⟨s.nextId + 1, { graph with edges := graph.edges.filter (keepsPin newFb) }⟩

/-- The call of an operation. -/
def call (s : Session) : Operation → Except String Session
  | .createGate gateType position => .ok (s.createGate gateType position)
  | .createFunctionBlock fbType position => .ok (s.createFunctionBlock fbType position)
  | .deleteElement elementId => s.deleteElement elementId
  | .connectPins params => s.connectPins params
  | .disconnectPin nodeId portName => s.disconnectPin nodeId portName
  | .moveElement elementId newPosition => s.moveElement elementId newPosition
  | .changeGateType elementId newGateType => s.changeGateType elementId newGateType
  | .changeFbType fbId newFbType => s.changeFbType fbId newFbType

/-- A call that throws leaves the session as it was. -/
def step (s : Session) (op : Operation) : Session :=
  match s.call op with
  | .ok s' => s'
  | .error _ => s

/-! ## What a step does -/

theorem step_deleteElement_none (h : s.graph.findNode elementId = none) :
    s.step (.deleteElement elementId) = s := by
  unfold step call deleteElement
  dsimp only
  rw [h]
  rfl

theorem step_deleteElement (h : s.graph.findNode elementId = some node) : s.step (.deleteElement elementId) =
      { s with graph := { s.graph with
        nodes := s.graph.nodes.filter fun n => n.id != elementId
        edges := s.graph.edges.filter fun e => !e.touches elementId } } := by
  unfold step call deleteElement
  dsimp only
  rw [h]
  rfl

/-- The operation draws a wire. -/
def Draws (s : Session) (params : ConnectPinsParams) : Bool :=
  (checkPins s.graph params).isOk && !s.graph.edges.any (·.connects params)

theorem step_connectPins (s : Session) (params : ConnectPinsParams) : s.step (.connectPins params) =
    if s.Draws params then ⟨s.nextId + 1, { s.graph with edges := s.graph.edges ++ [s.newEdge params] }⟩ else s := by
  unfold step call connectPins Draws
  dsimp only
  cases checkPins s.graph params with
  | error e => rfl
  | ok _ =>
    by_cases hdup : s.graph.edges.any (·.connects params) = true
    · simp [bind, Except.bind, hdup, Except.isOk, Except.toBool]
    · rw [Bool.not_eq_true] at hdup
      simp [bind, Except.bind, hdup, Except.isOk, Except.toBool]

theorem step_disconnectPin_none {nodeId portName : String} (h : s.graph.findNode nodeId = none) :
    s.step (.disconnectPin nodeId portName) = s := by
  unfold step call disconnectPin
  dsimp only
  rw [h]
  rfl

theorem step_disconnectPin {nodeId portName : String}
    (h : s.graph.findNode nodeId = some node) : s.step (.disconnectPin nodeId portName) =
      { s with graph := { s.graph with edges := s.graph.edges.filter fun e => !e.atPin nodeId portName } } := by
  unfold step call disconnectPin
  dsimp only
  rw [h]
  rfl

theorem step_moveElement_none {newPosition : Point}
    (h : s.graph.findNode elementId = none) : s.step (.moveElement elementId newPosition) = s := by
  unfold step call moveElement
  dsimp only
  rw [h]

theorem step_moveElement {newPosition : Point}
    (h : s.graph.findNode elementId = some node) : s.step (.moveElement elementId newPosition) =
      { s with graph := s.graph.setNode elementId { node with position := snapToGrid newPosition } } := by
  unfold step call moveElement
  dsimp only
  rw [h]

/-- The element is a gate of another type. -/
def OtherGate (s : Session) (elementId : String) (newGateType : GateType) (node : BaseNode) : Prop :=
  s.graph.findNode elementId = some node ∧ ∃ gateType, node.kind = .gate gateType ∧ gateType ≠ newGateType

theorem step_changeGateType_none {newGateType : GateType}
    (h : ∀ node, ¬ s.OtherGate elementId newGateType node) : s.step (.changeGateType elementId newGateType) = s := by
  unfold step call changeGateType
  dsimp only
  cases hfind : s.graph.findNode elementId with
  | none => rfl
  | some node =>
    dsimp only
    cases hkind : node.kind with
    | fb _ => rfl
    | gate gateType =>
      have hsame : gateType = newGateType := by
        by_contra hne
        exact h node ⟨hfind, gateType, hkind, hne⟩
      dsimp only
      rw [if_pos hsame]

theorem step_changeGateType {newGateType : GateType}
    (h : s.OtherGate elementId newGateType node) : s.step (.changeGateType elementId newGateType) =
      ⟨s.nextId + 1, s.graph.setNode elementId (FbdEditor.createGate elementId newGateType node.position)⟩ := by
  obtain ⟨hfind, gateType, hkind, hne⟩ := h
  unfold step call changeGateType
  dsimp only
  rw [hfind]
  dsimp only
  rw [hkind]
  dsimp only
  rw [if_neg hne]

/-- The element is a function block of another type. -/
def OtherFb (s : Session) (fbId newFbType : String) (node : BaseNode) : Prop :=
  s.graph.findNode fbId = some node ∧ ∃ fbType, node.kind = .fb fbType ∧ fbType ≠ newFbType

theorem step_changeFbType_none {fbId newFbType : String}
    (h : ∀ node, ¬ s.OtherFb fbId newFbType node) : s.step (.changeFbType fbId newFbType) = s := by
  unfold step call changeFbType
  dsimp only
  cases hfind : s.graph.findNode fbId with
  | none => rfl
  | some node =>
    dsimp only
    cases hkind : node.kind with
    | gate _ => rfl
    | fb fbType =>
      have hsame : fbType = newFbType := by
        by_contra hne
        exact h node ⟨hfind, fbType, hkind, hne⟩
      dsimp only
      rw [if_pos hsame]

theorem step_changeFbType {fbId newFbType : String}
    (h : s.OtherFb fbId newFbType node) : s.step (.changeFbType fbId newFbType) =
      ⟨s.nextId + 1, { s.graph.setNode fbId (createFbWithPins fbId newFbType node.position) with
        edges := s.graph.edges.filter (keepsPin (createFbWithPins fbId newFbType node.position)) }⟩ := by
  obtain ⟨hfind, fbType, hkind, hne⟩ := h
  unfold step call changeFbType
  dsimp only
  rw [hfind]
  dsimp only
  rw [hkind]
  dsimp only
  rw [if_neg hne]
  rfl

end Session

end Audesys.FbdEditor
