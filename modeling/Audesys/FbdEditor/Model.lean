import Audesys.Editor.Ids
import Audesys.Lib.Text

/-!
# `FbdEditor.Model` — function block diagrams

The graph model of the function block editor: nodes with input and output pins, and wires between pins. Sizes and the
positions of pins are left out, which only the canvas reads.
-/

namespace Audesys.FbdEditor

open Audesys.Lib Audesys.Editor

inductive GateType where
  | and | or | xor | not | mux
  deriving DecidableEq

inductive PinDirection where
  | output | input | bidi
  deriving DecidableEq

structure Pin where
  name : String
  dataType : String
  direction : PinDirection
  deriving DecidableEq

structure Point where
  x : Rat
  y : Rat
  deriving DecidableEq

/-- What a node is: `node:gate` or `node:fb`. -/
inductive NodeKind where
  | gate (gateType : GateType)
  | fb (fbType : String)
  deriving DecidableEq

structure BaseNode where
  id : String
  kind : NodeKind
  inputPorts : List Pin
  outputPorts : List Pin
  position : Point
  deriving DecidableEq

structure BaseEdge where
  id : String
  sourceId : String
  sourcePortName : String
  targetId : String
  targetPortName : String
  deriving DecidableEq

structure FbdGraph where
  id : String
  nodes : List BaseNode
  edges : List BaseEdge
  deriving DecidableEq

/-- `findPin`. -/
def findPin (node : BaseNode) (pinName : String) : Option Pin :=
  (node.inputPorts ++ node.outputPorts).find? (·.name == pinName)

def FbdGraph.findNode (graph : FbdGraph) (nodeId : String) : Option BaseNode := graph.nodes.find? (·.id == nodeId)

/-! ## Factories -/

def inputPin (name dataType : String) : Pin := ⟨name, dataType, .input⟩
def outputPin (name dataType : String) : Pin := ⟨name, dataType, .output⟩

/-- `getDefaultInputPinNames`. -/
def getDefaultInputPinNames : GateType → List String
  | .not => ["IN"]
  | .mux => ["SEL", "IN0", "IN1"]
  | .and | .or | .xor => ["IN1", "IN2"]

/-- `createGate`, with the id that was generated for it. -/
def createGate (id : String) (gateType : GateType) (position : Point) : BaseNode :=
  { id, kind := .gate gateType
    inputPorts := (getDefaultInputPinNames gateType).map fun name => inputPin name "BOOL"
    outputPorts := [outputPin "OUT" "BOOL"]
    position }

/-- `createFB`, with the id that was generated for it. -/
def createFB (id fbType : String) (inputPins outputPins : List Pin) (position : Point) : BaseNode :=
  { id, kind := .fb fbType, inputPorts := inputPins, outputPorts := outputPins, position }

/-! ## The registry of function blocks -/

/-- The pins of a function block: the input pins, then the output pins. -/
structure FbDef where
  inputs : List Pin
  outputs : List Pin

def fbDef (inputs outputs : List (String × String)) : FbDef :=
  ⟨inputs.map fun p => inputPin p.1 p.2, outputs.map fun p => outputPin p.1 p.2⟩

def timerDef : FbDef := fbDef [("IN", "BOOL"), ("PT", "TIME")] [("Q", "BOOL"), ("ET", "TIME")]
def edgeDef : FbDef := fbDef [("CLK", "BOOL")] [("Q", "BOOL")]
def arithmeticDef : FbDef := fbDef [("IN1", "INT"), ("IN2", "INT")] [("OUT", "INT")]
def comparisonDef : FbDef := fbDef [("IN1", "INT"), ("IN2", "INT")] [("OUT", "BOOL")]

/-- `REGISTRY`. -/
def registry : List (String × FbDef) :=
  [("TON", timerDef), ("TOF", timerDef), ("TP", timerDef),
    ("CTU", fbDef [("CU", "BOOL"), ("R", "BOOL"), ("PV", "INT")] [("Q", "BOOL"), ("CV", "INT")]),
    ("CTD", fbDef [("CD", "BOOL"), ("LD", "BOOL"), ("PV", "INT")] [("Q", "BOOL"), ("CV", "INT")]),
    ("CTUD", fbDef [("CU", "BOOL"), ("CD", "BOOL"), ("R", "BOOL"), ("LD", "BOOL"), ("PV", "INT")]
      [("QU", "BOOL"), ("QD", "BOOL"), ("CV", "INT")]),
    ("SR", fbDef [("S1", "BOOL"), ("R", "BOOL")] [("Q1", "BOOL")]),
    ("RS", fbDef [("S", "BOOL"), ("R1", "BOOL")] [("Q1", "BOOL")]),
    ("R_TRIG", edgeDef), ("F_TRIG", edgeDef),
    ("ADD", arithmeticDef), ("SUB", arithmeticDef), ("MUL", arithmeticDef), ("DIV", arithmeticDef),
    ("MOVE", fbDef [("IN", "INT")] [("OUT", "INT")]),
    ("EQ", comparisonDef), ("GT", comparisonDef), ("LT", comparisonDef), ("GE", comparisonDef), ("LE", comparisonDef),
    ("SEL", fbDef [("G", "BOOL"), ("IN0", "INT"), ("IN1", "INT")] [("OUT", "INT")])]

/-- `getFbDef`. -/
def getFbDef [CaseMap] (fbType : String) : Option FbDef :=
  registry.lookup (String.ofList (toUppercase fbType.toList))

/-- The pins of a block of an unknown type. -/
def genericDef : FbDef := fbDef [("IN1", "BOOL"), ("IN2", "BOOL")] [("Q1", "BOOL"), ("Q2", "BOOL")]

/-- `createFbWithPins`. -/
def createFbWithPins [CaseMap] (id fbType : String) (position : Point) : BaseNode :=
  let pins := (getFbDef fbType).getD genericDef
  createFB id fbType pins.inputs pins.outputs position

/-! ## Names of pins -/

/-- The names that output pins have. -/
def isOutputName (name : String) : Bool := ["Q", "ET", "CV", "QU", "QD", "Q1", "Q2", "OUT"].contains name

/-- No pin name is used on both sides. -/
structure FbDef.Typed (pins : FbDef) : Prop where
  inputs : ∀ pin ∈ pins.inputs, pin.direction = .input ∧ isOutputName pin.name = false
  outputs : ∀ pin ∈ pins.outputs, pin.direction = .output ∧ isOutputName pin.name = true

theorem typed_genericDef : genericDef.Typed := ⟨by decide, by decide⟩

theorem typed_of_registry {entry : String × FbDef} (h : entry ∈ registry) : entry.2.Typed := by
  have hinputs : ∀ entry ∈ registry, ∀ pin ∈ entry.2.inputs,
      pin.direction = .input ∧ isOutputName pin.name = false := by decide
  have houtputs : ∀ entry ∈ registry, ∀ pin ∈ entry.2.outputs,
      pin.direction = .output ∧ isOutputName pin.name = true := by decide
  exact ⟨hinputs entry h, houtputs entry h⟩

theorem typed_getFbDef [CaseMap] (fbType : String) : ((getFbDef fbType).getD genericDef).Typed := by
  unfold getFbDef
  cases hlookup : registry.lookup (String.ofList (toUppercase fbType.toList)) with
  | none => exact typed_genericDef
  | some pins =>
    obtain ⟨l₁, l₂, h, _⟩ := List.lookup_eq_some_iff.1 hlookup
    have hmem : (String.ofList (toUppercase fbType.toList), pins) ∈ registry := by
      rw [h]
      exact List.mem_append_right _ (List.mem_cons_self ..)
    exact typed_of_registry hmem

end Audesys.FbdEditor
