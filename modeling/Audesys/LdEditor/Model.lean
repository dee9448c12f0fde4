import Audesys.Editor.Ids
import Audesys.Lib.Text

/-!
# `LdEditor.Model` — ladder diagrams

The graph model of the ladder editor: contacts, coils, function blocks and the two power rails, wires between them, and
rungs that list their elements from left to right, with the parallel branches that hang off contacts. Sizes and the
positions of pins are left out, which only the canvas reads.
-/

namespace Audesys.LdEditor

open Audesys.Lib Audesys.Editor

inductive ContactType where
  | no | nc | p | n
  deriving DecidableEq

inductive CoilType where
  | normal | negated | set | reset
  deriving DecidableEq

inductive PowerRailSide where
  | left | right
  deriving DecidableEq

inductive ComparisonOperator where
  | eq | gt | lt | ge | le
  deriving DecidableEq

structure Pin where
  name : String
  dataType : String
  deriving DecidableEq

structure Point where
  x : Rat
  y : Rat
  deriving DecidableEq

/-- What a node is, with the fields of its kind: `node:contact`, `node:coil`, `node:powerrail`, `node:fb` or
`node:comparison`. -/
inductive NodeKind where
  | contact (contactType : ContactType) (variableName : String) (comment : Option String)
  | coil (coilType : CoilType) (variableName : String) (comment : Option String)
  | powerRail (side : PowerRailSide)
  | fb (fbType : String) (inputPins outputPins : List Pin)
  | comparison (operator : ComparisonOperator) (operandA operandB : String)
  deriving DecidableEq

namespace NodeKind

def isContact : NodeKind → Bool
  | contact .. => true
  | _ => false

def isCoil : NodeKind → Bool
  | coil .. => true
  | _ => false

def isFb : NodeKind → Bool
  | fb .. => true
  | _ => false

def isRail : NodeKind → Bool
  | powerRail _ => true
  | _ => false

def isComparison : NodeKind → Bool
  | comparison .. => true
  | _ => false

/-- The discriminator `type`. -/
def text : NodeKind → String
  | contact .. => "node:contact"
  | coil .. => "node:coil"
  | powerRail _ => "node:powerrail"
  | fb .. => "node:fb"
  | comparison .. => "node:comparison"

end NodeKind

structure BaseNode where
  id : String
  kind : NodeKind
  position : Point
  deriving DecidableEq

/-- A wire between two elements, before it has an id. -/
structure Wire where
  sourceId : String
  targetId : String
  sourcePin : Option String := none
  targetPin : Option String := none
  routingPoints : Option (List Point) := none
  deriving DecidableEq

structure BaseEdge extends Wire where
  id : String
  deriving DecidableEq

structure ParallelBranch where
  id : String
  rungId : String
  anchorId : String
  elementIds : List String
  x : Rat
  deriving DecidableEq

/-- A rung; a file without `branches` has none. -/
structure Rung where
  id : String
  rungNumber : Nat
  comment : Option String
  title : Option String
  elementIds : List String
  branches : List ParallelBranch
  deriving DecidableEq

structure LdGraph where
  nodes : List BaseNode
  edges : List BaseEdge
  rungs : List Rung
  deriving DecidableEq

/-- `createLdGraph`. -/
def createLdGraph : LdGraph := ⟨[], [], []⟩

namespace LdGraph

def findNode (graph : LdGraph) (nodeId : String) : Option BaseNode := graph.nodes.find? (·.id == nodeId)

def findEdge (graph : LdGraph) (edgeId : String) : Option BaseEdge := graph.edges.find? (·.id == edgeId)

/-- What a map from ids to nodes holds: the last node with the id. -/
def lastNode (graph : LdGraph) (nodeId : String) : Option BaseNode := graph.nodes.reverse.find? (·.id == nodeId)

def findRung (graph : LdGraph) (rungId : String) : Except String Rung :=
  match graph.rungs.find? (·.id == rungId) with
  | some rung => .ok rung
  | none => .error ("Rung not found: " ++ rungId)

def findCoilOnRung (graph : LdGraph) (rung : Rung) : Option BaseNode :=
  rung.elementIds.findSome? fun elemId => (graph.findNode elemId).filter (·.kind.isCoil)

/-- `findLeftRailOnRung` and `findRightRailOnRung`: the rails are those of all rungs. -/
def findRail (graph : LdGraph) (side : PowerRailSide) : Option BaseNode :=
  graph.nodes.find? (·.kind == .powerRail side)

def findBranch (graph : LdGraph) (branchId : String) : Except String (Rung × ParallelBranch) :=
  match graph.rungs.findSome? fun rung => (rung.branches.find? (·.id == branchId)).map (rung, ·) with
  | some found => .ok found
  | none => .error ("Branch not found: " ++ branchId)

end LdGraph

/-- The element behind the anchor. -/
def seriesSuccessor (rung : Rung) (anchorId : String) : Option String :=
  if anchorId ∈ rung.elementIds then rung.elementIds[rung.elementIds.idxOf anchorId + 1]? else none

/-! ## Factories

Each with the id that was generated for it. -/

def createContact (id : String) (contactType : ContactType) (variableName : String) (position : Point) : BaseNode :=
  ⟨id, .contact contactType variableName none, position⟩

def createCoil (id : String) (coilType : CoilType) (variableName : String) : BaseNode :=
  ⟨id, .coil coilType variableName none, ⟨0, 0⟩⟩

def createPowerRail (id : String) (side : PowerRailSide) (position : Point) : BaseNode :=
  ⟨id, .powerRail side, position⟩

def createFb (id fbType : String) (inputPins outputPins : List Pin) : BaseNode :=
  ⟨id, .fb fbType inputPins outputPins, ⟨0, 0⟩⟩

def createRung (id : String) (rungNumber : Nat) (comment : Option String) : Rung :=
  ⟨id, rungNumber, comment, none, [], []⟩

def createBranch (id rungId anchorId : String) (x : Rat) : ParallelBranch := ⟨id, rungId, anchorId, [], x⟩

/-! ## The catalog of function blocks -/

/-- The pins of a function block: the input pins, then the output pins. -/
structure FbDefinition where
  inputs : List Pin
  outputs : List Pin

def fbDefinition (inputs outputs : List (String × String)) : FbDefinition :=
  ⟨inputs.map fun p => ⟨p.1, p.2⟩, outputs.map fun p => ⟨p.1, p.2⟩⟩

def timerDefinition : FbDefinition := fbDefinition [("IN", "BOOL"), ("PT", "TIME")] [("Q", "BOOL"), ("ET", "TIME")]
def comparisonDefinition : FbDefinition := fbDefinition [("IN1", "ANY"), ("IN2", "ANY")] [("Q", "BOOL")]
def arithmeticDefinition : FbDefinition := fbDefinition [("IN1", "ANY_NUM"), ("IN2", "ANY_NUM")] [("OUT", "ANY_NUM")]

/-- `FB_DEFINITIONS`. -/
def fbDefinitions : List (String × FbDefinition) :=
  [("TON", timerDefinition), ("TOF", timerDefinition), ("TP", timerDefinition),
    ("CTU", fbDefinition [("CU", "BOOL"), ("R", "BOOL"), ("PV", "INT")] [("Q", "BOOL"), ("CV", "INT")]),
    ("CTD", fbDefinition [("CD", "BOOL"), ("LD", "BOOL"), ("PV", "INT")] [("Q", "BOOL"), ("CV", "INT")]),
    ("EQ", comparisonDefinition), ("GT", comparisonDefinition), ("LT", comparisonDefinition),
    ("GE", comparisonDefinition), ("LE", comparisonDefinition), ("NE", comparisonDefinition),
    ("ADD", fbDefinition [("IN1", "ANY_NUM"), ("IN2", "ANY_NUM"), ("IN3", "ANY_NUM")] [("OUT", "ANY_NUM")]),
    ("SUB", arithmeticDefinition), ("MUL", arithmeticDefinition), ("DIV", arithmeticDefinition),
    ("MOD", arithmeticDefinition)]

/-- `getFbPins`: the pins of the type behind `EN` and `ENO`. -/
def getFbPins (fbType : String) : Option (List Pin × List Pin) :=
  (fbDefinitions.lookup fbType).map fun pins => (⟨"EN", "BOOL"⟩ :: pins.inputs, ⟨"ENO", "BOOL"⟩ :: pins.outputs)

/-! ## Layout -/

/-- What a map holds that was filled by the calls of `set`. -/
def mapGet {α : Type} (entries : List (String × α)) (key : String) : Option α := entries.reverse.lookup key

/-- `effectiveWidth`; a coil does not advance the cursor. -/
def effectiveWidth : Option NodeKind → Rat
  | some (.comparison ..) => 84
  | some (.fb ..) => 180
  | some (.coil ..) => 0
  | _ => 40

/-- The main row of a rung, from the cursor on. Coils have a fixed place. -/
def seriesRow (graph : LdGraph) : Rat → List String → List (String × Point)
  | _, [] => []
  | cursor, elemId :: rest =>
    let kind := (graph.lastNode elemId).map (·.kind)
    let x := if kind.any (·.isCoil) then 600 else cursor
    (elemId, ⟨x, 40⟩) :: seriesRow graph (cursor + effectiveWidth kind) rest

/-- `layoutRung`. -/
def layoutRung (rung : Rung) (graph : LdGraph) : List (String × Point) :=
  let row := seriesRow graph 40 rung.elementIds
  let seriesX := row.filter fun entry => !((graph.lastNode entry.1).map (·.kind)).any (·.isCoil)
  rung.branches.foldl
    (fun positions branch =>
      let anchorX := (((mapGet seriesX branch.anchorId).or (mapGet positions branch.anchorId)).map (·.x)).getD 40
      positions ++ branch.elementIds.mapIdx fun idx memberId => (memberId, ⟨anchorX, 120 + idx * 40⟩))
    row

end Audesys.LdEditor
