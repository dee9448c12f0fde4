import Audesys.LdEditor.Operations
import Mathlib.Data.List.Infix

/-!
# `LdEditor.Validate` — checks of ladder diagrams

`validateGraph` of `serialization.ts`, and `validate` of the handler, which adds the rules of rungs and leaves the errors
out that name the type of the power rails.
-/

namespace Audesys.LdEditor

open Audesys.Lib Audesys.Editor

/-- The errors with what they name. -/
inductive GraphError where
  | orphanNode (node : BaseNode)
  | danglingSource (edge : BaseEdge)
  | danglingTarget (edge : BaseEdge)
  | rungReference (rung : Rung) (elemId : String)
  | branchAnchor (branch : ParallelBranch)
  | branchMember (branch : ParallelBranch) (memberId : String)
  | multipleCoils (rung : Rung) (coils : Nat)
  | coilNotLast (rung : Rung)
  | noContacts (rung : Rung)
  deriving DecidableEq

def quoted (s : String) : String := "\"" ++ s ++ "\""

def GraphError.message : GraphError → String
  | orphanNode node =>
    "Orphan node: " ++ quoted node.id ++ " (type: " ++ node.kind.text ++ ") is not referenced by any rung"
  | danglingSource edge =>
    "Dangling edge source: " ++ quoted edge.id ++ " references non-existent source node " ++ quoted edge.sourceId
  | danglingTarget edge =>
    "Dangling edge target: " ++ quoted edge.id ++ " references non-existent target node " ++ quoted edge.targetId
  | rungReference rung elemId =>
    "Invalid rung reference: rung " ++ quoted rung.id ++ " (rung " ++ toString rung.rungNumber ++
      ") references non-existent node " ++ quoted elemId
  | branchAnchor branch => "Branch " ++ quoted branch.id ++ ": anchor " ++ quoted branch.anchorId ++ " does not exist"
  | branchMember branch memberId => "Branch " ++ quoted branch.id ++ ": member " ++ quoted memberId ++ " does not exist"
  | multipleCoils rung coils =>
    "Rung " ++ toString rung.rungNumber ++ ": multiple coils (" ++ toString coils ++ ") — only one allowed"
  | coilNotLast rung => "Rung " ++ toString rung.rungNumber ++ ": coil must be to the right of all contacts"
  | noContacts rung => "Rung " ++ toString rung.rungNumber ++ ": has a coil but no contacts"

structure ValidationResult where
  valid : Bool
  errors : List GraphError
  warnings : List String
  deriving DecidableEq

/-- The elements of a rung and the members of its branches. -/
def Rung.members (rung : Rung) : List String := rung.elementIds ++ rung.branches.flatMap (·.elementIds)

namespace LdGraph

def nodeIds (graph : LdGraph) : List String := graph.nodes.map (·.id)

/-- The nodes that a rung refers to. -/
def rungNodeIds (graph : LdGraph) : List String := graph.rungs.flatMap Rung.members

end LdGraph

/-- The dangling references of a branch. -/
def branchErrors (graph : LdGraph) (branch : ParallelBranch) : List GraphError :=
  (if graph.nodeIds.contains branch.anchorId then [] else [.branchAnchor branch]) ++
    (branch.elementIds.filter fun id => !graph.nodeIds.contains id).map (.branchMember branch)

def emptyRungWarning (rung : Rung) : String :=
  "Empty rung: " ++ quoted rung.id ++ " (rung " ++ toString rung.rungNumber ++ ") has no elements"

def structuralErrors (graph : LdGraph) : List GraphError :=
  (graph.nodes.filter fun n => !graph.rungNodeIds.contains n.id).map .orphanNode ++
    (graph.edges.flatMap fun e =>
      (if graph.nodeIds.contains e.sourceId then [] else [.danglingSource e]) ++
        if graph.nodeIds.contains e.targetId then [] else [.danglingTarget e]) ++
    (graph.rungs.flatMap fun rung =>
      (rung.elementIds.filter fun id => !graph.nodeIds.contains id).map (.rungReference rung)) ++
    graph.rungs.flatMap fun rung => rung.branches.flatMap (branchErrors graph)

/-- `validateGraph`. -/
def validateGraph (graph : LdGraph) : ValidationResult :=
  let errors := structuralErrors graph
  ⟨errors.isEmpty, errors, (graph.rungs.filter (·.elementIds.isEmpty)).map emptyRungWarning⟩

/-! ## The rules of rungs -/

def LdGraph.rungNodes (graph : LdGraph) (rung : Rung) : List BaseNode := rung.elementIds.filterMap graph.findNode

/-- What is wrong with a rung. -/
def ldErrors (graph : LdGraph) (rung : Rung) : List GraphError :=
  let rungNodes := graph.rungNodes rung
  let coils := rungNodes.filter (·.kind.isCoil)
  let coilIdx := rung.elementIds.findIdx fun id => coils.any (·.id == id)
  let anyAfter := (rung.elementIds.drop (coilIdx + 1)).any fun id => (graph.findNode id).any fun n => !n.kind.isCoil
  (if 1 < coils.length then [.multipleCoils rung coils.length] else []) ++
    (if 0 < coils.length ∧ anyAfter then [.coilNotLast rung] else []) ++
    if 0 < coils.length ∧ ¬ rungNodes.any (·.kind.isContact) ∧ ¬ rungNodes.any (·.kind.isFb) then [.noContacts rung]
    else []

/-- Whether a text names the type of the rails. -/
def namesRail (message : String) : Bool := decide ("node:powerrail".toList <:+: message.toList)

/-- `validate`. -/
def validate (graph : LdGraph) : ValidationResult :=
  let structural := validateGraph graph
  let errors := (structural.errors.filter fun e => !namesRail e.message) ++ graph.rungs.flatMap (ldErrors graph)
  ⟨errors.isEmpty, errors, structural.warnings⟩

end Audesys.LdEditor
