import Audesys.FbdEditor.Cycles
import Audesys.FbdEditor.Operations

/-!
# `FbdEditor.Validate` — checks of function block diagrams

`validateGraph` of `serialization.ts`, which reports the cycles of `FbdGraph.detectCycles`, and `validate` of the handler.
-/

namespace Audesys.FbdEditor

inductive ValidationSeverity where
  | error | warning
  deriving DecidableEq

structure ValidationFinding where
  severity : ValidationSeverity
  message : String
  deriving DecidableEq

structure ValidationResult where
  valid : Bool
  findings : List ValidationFinding
  deriving DecidableEq

/-! ## Findings -/

def quoted (s : String) : String := "\"" ++ s ++ "\""

/-- The last node with the id: `nodeById.get`. -/
def lastNode (graph : FbdGraph) (nodeId : String) : Option BaseNode := graph.nodes.reverse.find? (·.id == nodeId)

/-- Dangling references of a wire to nodes. -/
def danglingNodes (graph : FbdGraph) (e : BaseEdge) : List ValidationFinding :=
  let missing (role nodeId : String) : ValidationFinding :=
    ⟨.error, "Dangling edge " ++ role ++ ": " ++ quoted e.id ++ " references non-existent " ++ role ++ " node " ++
      quoted nodeId⟩
  (if (lastNode graph e.sourceId).isNone then [missing "source" e.sourceId] else []) ++
    if (lastNode graph e.targetId).isNone then [missing "target" e.targetId] else []

/-- What is wrong with one end of a wire. -/
def portFindings (e : BaseEdge) (node : BaseNode) (role portName : String) (allowed : PinDirection) (verb isA mustBe : String) :
    List ValidationFinding :=
  match findPin node portName with
  | none =>
    [⟨.error, "Dangling " ++ role ++ " port: edge " ++ quoted e.id ++ " references non-existent port " ++ quoted portName ++
      " on node " ++ quoted node.id ++ " (type: " ++ node.kind.text ++ ")"⟩]
  | some pin =>
    if pin.direction ≠ allowed ∧ pin.direction ≠ .bidi then
      [⟨.error, "Invalid " ++ role ++ " pin direction: edge " ++ quoted e.id ++ " " ++ verb ++ " " ++ quoted portName ++
        " on " ++ quoted node.id ++ " which is an " ++ isA ++ " pin (must be " ++ mustBe ++ " or Bidi)"⟩]
    else []

/-- A warning about the types of the ends, also where an `INT` is widened. -/
def typeFindings (e : BaseEdge) (sourceNode targetNode : BaseNode) : List ValidationFinding :=
  match findPin sourceNode e.sourcePortName, findPin targetNode e.targetPortName with
  | some sourcePin, some targetPin =>
    if sourcePin.dataType ≠ targetPin.dataType then
      [⟨.warning, "Type mismatch: edge " ++ quoted e.id ++ " connects " ++ sourcePin.dataType ++ " (" ++
        quoted e.sourcePortName ++ " on " ++ quoted sourceNode.id ++ ") to " ++ targetPin.dataType ++ " (" ++
        quoted e.targetPortName ++ " on " ++ quoted targetNode.id ++ ")"⟩]
    else []
  | _, _ => []

def wireFindings (graph : FbdGraph) (e : BaseEdge) : List ValidationFinding :=
  let sourceNode := lastNode graph e.sourceId
  let targetNode := lastNode graph e.targetId
  (match sourceNode with
    | some node => portFindings e node "source" e.sourcePortName .output "sources from" "Input" "Output"
    | none => []) ++
  (match targetNode with
    | some node => portFindings e node "target" e.targetPortName .input "targets" "Output" "Input"
    | none => []) ++
  match sourceNode, targetNode with
  | some source, some target => typeFindings e source target
  | _, _ => []

/-- `validateGraph`. -/
def validateGraph (graph : FbdGraph) : Option ValidationResult := do
  let feedbackLoops ← graph.detectCycles
  let loops : List ValidationFinding := feedbackLoops.map fun cycle =>
    ⟨.error, "Feedback loop detected: " ++ " → ".intercalate cycle⟩
  let disconnected : List ValidationFinding := (graph.nodes.filter fun n => !graph.edges.any (·.touches n.id)).map fun n =>
    ⟨.warning, "Disconnected node: " ++ quoted n.id ++ " (type: " ++ n.kind.text ++ ") has no connections"⟩
  let findings := graph.edges.flatMap (danglingNodes graph) ++ graph.edges.flatMap (wireFindings graph) ++ loops ++ disconnected
  some ⟨!findings.any (·.severity = .error), findings⟩

/-- `validate`: outputs without wires are warned of. -/
def validate (graph : FbdGraph) : Option ValidationResult := do
  let result ← validateGraph graph
  let unconnected : List ValidationFinding := graph.nodes.flatMap fun node =>
    (node.outputPorts.filter fun pin =>
      !graph.edges.any fun e => e.sourceId == node.id && e.sourcePortName == pin.name).map fun pin =>
        ⟨.warning, "Unconnected output: " ++ quoted pin.name ++ " on " ++ node.kind.text ++ " " ++ quoted node.id⟩
  some ⟨result.valid, result.findings ++ unconnected⟩

/-- Two gates in a ring are a feedback loop. -/
example : (validate ⟨"graph", [createGate "a" .not ⟨0, 0⟩, createGate "b" .not ⟨0, 0⟩],
    [⟨"e", "a", "OUT", "b", "IN"⟩, ⟨"f", "b", "OUT", "a", "IN"⟩]⟩).map (·.findings) =
    some [⟨.error, "Feedback loop detected: a → b → a"⟩] := by
  decide +kernel

end Audesys.FbdEditor
