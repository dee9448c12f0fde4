import Audesys.LdEditor.Model
import Audesys.Lib.Patch

/-!
# `LdEditor.Operations` — the operations on ladder diagrams

`ld-operation-handler.ts`. An operation works on a session: the graph and the number of ids that were generated so far.
Every check that throws comes before the first id is generated, so an operation that throws leaves the session as it was.
-/

namespace Audesys.LdEditor

open Audesys.Lib Audesys.Editor

variable {s s' : Session} {rungId : String}
variable {op : Operation}

/-- The graph, and the counter of `generateId`. -/
structure Session where
  nextId : Nat
  graph : LdGraph
  deriving DecidableEq

/-- `snapToGrid`; `Math.round` rounds a half up. -/
def snapToGrid (p : Point) : Point := ⟨(p.x / 40 + 1 / 2).floor * 40, (p.y / 40 + 1 / 2).floor * 40⟩

/-- White space in a script: that of Unicode without the next line, and the byte order mark. -/
def isSpace (c : Char) : Bool := isWhitespace c && c.toNat != 0x85 || c.toNat == 0xFEFF

/-- `trim` of a script. -/
def trimText (s : String) : String := String.ofList ((s.toList.dropWhile isSpace).rdropWhile isSpace)

/-- A slot between 0 and the number of elements. -/
def clampSlot (slot : Int) (n : Nat) : Nat := (min (max slot 0) n).toNat

/-- The operations of the handler with their parameters. -/
inductive Operation where
  | addContact (position : Option Point) (insertIndex : Option Int) (contactType : ContactType) (rungId : String)
  | addCoil (coilType : CoilType) (rungId : String)
  | deleteElement (elementId : String)
  | reorderElement (elementId : String) (insertIndex : Int)
  | connectWire (sourceId targetId : String) (routingPoints : Option (List Point))
  | disconnectWire (edgeId : String)
  | changeCoilType (elementId : String) (newType : CoilType)
  | setRungTitle (rungId title : String)
  | setRungComment (rungId comment : String)
  | setElementComment (elementId comment : String)
  | changeContactType (elementId : String) (newType : ContactType)
  | addRung
  | deleteRung (rungId : String)
  | moveRung (rungId : String) (newIndex : Int)
  | addPowerRail (side : PowerRailSide)
  | addFb (position : Option Point) (insertIndex : Option Int) (fbType rungId : String)
  | renameVariable (elementId variableName : String)
  | openBranch (rungId anchorId : String)
  | addBranchContact (branchId : String) (contactType : Option ContactType)
  | closeBranch (branchId : String)
  | deleteBranch (branchId : String)
  | pasteElements (elementIds : List String) (rungId : String) (insertIndex : Int)
  | replaceElement (targetId : String) (replacement : BaseNode)
  deriving DecidableEq

/-- `splice`, which puts elements into a list. -/
def splice {α : Type} (elements : List α) (slot : Nat) (added : List α) : List α :=
  elements.take slot ++ (added ++ elements.drop slot)

theorem splice_perm {α : Type} (elements : List α) (slot : Nat) (added : List α) :
    (splice elements slot added).Perm (added ++ elements) := by
  unfold splice
  apply (List.perm_append_comm_assoc ..).trans
  rw [List.take_append_drop]

theorem splice_length {α : Type} (elements added : List α) :
    splice elements elements.length added = elements ++ added := by
  unfold splice
  rw [List.take_length, List.drop_length, List.append_nil]

/-- The rung with new elements in its main row. -/
def Rung.insert (rung : Rung) (slot : Nat) (ids : List String) : Rung :=
  { rung with elementIds := splice rung.elementIds slot ids }

namespace BaseEdge

/-- The wire touches one of the nodes. -/
def touches (e : BaseEdge) (nodeIds : List String) : Bool := nodeIds.contains e.sourceId || nodeIds.contains e.targetId

end BaseEdge

namespace LdGraph

/-- The slot of a new element: the one that is asked for, or in front of the first element to the right of the position,
or at the end. -/
def insertSlot (graph : LdGraph) (rung : Rung) (insertIndex : Option Int) (position : Option Point) : Nat :=
  match insertIndex, position with
  | some slot, _ => clampSlot slot rung.elementIds.length
  | none, some p =>
    rung.elementIds.findIdx fun elemId => (graph.findNode elemId).any fun n => (snapToGrid p).x < n.position.x
  | none, none => rung.elementIds.length

/-- Whether `addContact` refuses the place: behind the slot of the coil, or not to the left of it. -/
def rightOfCoil (graph : LdGraph) (rung : Rung) (insertIndex : Option Int) (position : Option Point) : Bool :=
  match graph.findCoilOnRung rung, insertIndex, position with
  | some coil, some slot, _ => coil.id ∈ rung.elementIds && (rung.elementIds.idxOf coil.id : Int) < slot
  | some coil, none, some p => coil.position.x ≤ (snapToGrid p).x
  | _, _, _ => false

/-- The wires of a new contact: from the element before it or the left rail, and if it is the last one, to the coil that
the rung had or to the right rail. -/
def contactWires (graph : LdGraph) (coilNode : Option BaseNode) (updated : Rung) (slot : Nat) (id : String) : List Wire :=
  let prevId := if 0 < slot then updated.elementIds[slot - 1]? else (graph.findRail .left).map (·.id)
  let nextTarget :=
    if slot + 1 = updated.elementIds.length then (coilNode.or (graph.findRail .right)).map (·.id) else none
  (prevId.toList.map fun prev => { sourceId := prev, targetId := id }) ++
    nextTarget.toList.map fun target => { sourceId := id, targetId := target }

/-- The wires of a new function block: from the element before it or the left rail, to the element behind it, the coil or
the right rail. -/
def fbWires (graph : LdGraph) (updated : Rung) (slot : Nat) (id : String) : List Wire :=
  let prevId := if 0 < slot then updated.elementIds[slot - 1]? else (graph.findRail .left).map (·.id)
  let succId := updated.elementIds[slot + 1]?.or
    (((graph.findCoilOnRung updated).or (graph.findRail .right)).map (·.id))
  (prevId.toList.map fun prev => { sourceId := prev, targetId := id, targetPin := some "EN" }) ++
    succId.toList.map fun succ => { sourceId := id, targetId := succ, sourcePin := some "ENO" }

/-- The first node with the id is changed. -/
def modifyNode (graph : LdGraph) (nodeId : String) (f : BaseNode → BaseNode) : LdGraph :=
  { graph with nodes := updateFirst (·.id == nodeId) f graph.nodes }

/-- The first rung with the id of the given one becomes it. -/
def setRung (graph : LdGraph) (rung : Rung) : LdGraph :=
  { graph with rungs := updateFirst (·.id == rung.id) (fun _ => rung) graph.rungs }

/-- The wires of the branches of a rung. -/
def branchWires (graph : LdGraph) (rung : Rung) : List Wire :=
  rung.branches.flatMap fun b =>
    match b.elementIds with
    | [] => (seriesSuccessor rung b.anchorId).toList.map fun succ => { sourceId := b.anchorId, targetId := succ }
    | first :: rest =>
      let bus : List Wire := (b.elementIds.zip rest).map fun pair =>
        { sourceId := pair.1, targetId := pair.2, sourcePin := some "bus-out", targetPin := some "bus-in" }
      let target := (seriesSuccessor rung b.anchorId).or ((graph.findRail .right).map (·.id))
      { sourceId := b.anchorId, targetId := first } ::
        (bus ++ target.toList.map fun id => { sourceId := rest.getLast?.getD first, targetId := id })

/-- Whether a wire is one of a branch of the rung: it touches a member, or goes from an anchor to its successor. -/
def isBranchWire (rung : Rung) (e : BaseEdge) : Bool :=
  e.touches (rung.branches.flatMap (·.elementIds)) ||
    rung.branches.any fun b => e.sourceId == b.anchorId && seriesSuccessor rung b.anchorId == some e.targetId

/-- The wires from the element before through the elements of a rung. -/
def chainWires : Option String → List String → List Wire
  | _, [] => []
  | prevId, elemId :: rest =>
    ((prevId.filter (· != elemId)).toList.map fun prev => { sourceId := prev, targetId := elemId }) ++
      chainWires (some elemId) rest

/-- The wires of the main row of a rung: from the left rail through the elements, and from the last one to the coil, or
to the right rail if there is none. -/
def seriesWires (graph : LdGraph) (rung : Rung) : List Wire :=
  let target := ((graph.findCoilOnRung rung).or (graph.findRail .right)).map (·.id)
  chainWires ((graph.findRail .left).map (·.id)) rung.elementIds ++
    match rung.elementIds.getLast? with
    | none => []
    | some last => (target.filter (· != last)).toList.map fun id => { sourceId := last, targetId := id }

end LdGraph

namespace Session

variable [Entropy]

/-- The id that is generated next. -/
def freshId (s : Session) (kind : String) : String := suffixedId kind (s.nextId + 1)

/-- A new node, which took an id. -/
def addNode (s : Session) (node : BaseNode) : Session := ⟨s.nextId + 1, { s.graph with nodes := s.graph.nodes ++ [node] }⟩

/-- `createWire`, and the wire is added. -/
def addWire (s : Session) (wire : Wire) : Session :=
  ⟨s.nextId + 1, { s.graph with edges := s.graph.edges ++ [{ wire with id := s.freshId "wire" }] }⟩

def addWires (s : Session) (wires : List Wire) : Session := wires.foldl addWire s

def dropEdges (s : Session) (p : BaseEdge → Bool) : Session :=
  { s with graph := { s.graph with edges := s.graph.edges.filter fun e => !p e } }

def dropNodes (s : Session) (nodeIds : List String) : Session :=
  { s with graph := { s.graph with nodes := s.graph.nodes.filter fun n => !nodeIds.contains n.id } }

def setRung (s : Session) (rung : Rung) : Session := { s with graph := s.graph.setRung rung }

def setRungs (s : Session) (rungs : List Rung) : Session := { s with graph := { s.graph with rungs } }

def modifyNode (s : Session) (nodeId : String) (f : BaseNode → BaseNode) : Session :=
  { s with graph := s.graph.modifyNode nodeId f }

/-- `rewireRungBranches`. -/
def rewireRungBranches (s : Session) (rung : Rung) : Session :=
  if rung.branches.isEmpty then s
  else (s.dropEdges (LdGraph.isBranchWire rung)).addWires (s.graph.branchWires rung)

/-- `rewireRungSeries`. -/
def rewireRungSeries (s : Session) (rung : Rung) : Session :=
  let rewired := (s.dropEdges (·.touches rung.elementIds)).addWires (s.graph.seriesWires rung)
  if rung.elementIds.isEmpty then rewired else rewired.rewireRungBranches rung

/-! ## Elements -/

def countKind (s : Session) (p : NodeKind → Bool) : Nat := (s.graph.nodes.filter fun n => p n.kind).length

/-- The contact that is added next. -/
def newContact (s : Session) (contactType : ContactType) (position : Point) : BaseNode :=
  createContact (s.freshId "contact") contactType ("IN" ++ toString (s.countKind (·.isContact))) position

/-- The coil that is added next. -/
def newCoil (s : Session) (coilType : CoilType) : BaseNode :=
  createCoil (s.freshId "coil") coilType ("OUT" ++ toString (s.countKind (·.isCoil)))

/-- A new element and its rung. -/
def insertNode (s : Session) (node : BaseNode) (updated : Rung) : Session := (s.addNode node).setRung updated

/-- A new contact in a slot of a rung. -/
def withContact (s : Session) (rung : Rung) (slot : Nat) (contactType : ContactType) : Session :=
  let contact := s.newContact contactType ⟨0, 0⟩
  let updated := rung.insert slot [contact.id]
  let next := s.insertNode contact updated
  let wires := next.graph.contactWires (s.graph.findCoilOnRung rung) updated slot contact.id
  (next.addWires wires).rewireRungBranches updated

def addContact (s : Session) (position : Option Point) (insertIndex : Option Int) (contactType : ContactType)
    (rungId : String) : Except String Session := do
  let rung ← s.graph.findRung rungId
  if s.graph.rightOfCoil rung insertIndex position then .error "Contact must be left of the coil"
  else .ok (s.withContact rung (s.graph.insertSlot rung insertIndex position) contactType)

/-- A new coil at the end of a rung. -/
def withCoil (s : Session) (rung : Rung) (lastContactId : String) (coilType : CoilType) : Session :=
  let coil := s.newCoil coilType
  let updated := { rung with elementIds := rung.elementIds ++ [coil.id] }
  let next := (s.insertNode coil updated).addWires [{ sourceId := lastContactId, targetId := coil.id }]
  let rewired := next.rewireRungBranches updated
  rewired.addWires ((rewired.graph.findRail .right).toList.map fun rail => { sourceId := coil.id, targetId := rail.id })

/-- The coil goes to the end, whatever slot is asked for. -/
def addCoil (s : Session) (coilType : CoilType) (rungId : String) : Except String Session := do
  let rung ← s.graph.findRung rungId
  match (rung.elementIds.filter fun id => (s.graph.findNode id).any (·.kind.isContact)).getLast? with
  | none => .error "Add at least one contact before adding a coil"
  | some lastContactId => .ok (s.withCoil rung lastContactId coilType)

/-- A new function block in a slot of a rung. -/
def withFb (s : Session) (rung : Rung) (slot : Nat) (fbType : String) (pins : List Pin × List Pin) : Session :=
  let fb := createFb (s.freshId "fb") fbType pins.1 pins.2
  let updated := rung.insert slot [fb.id]
  let next := s.insertNode fb updated
  (next.addWires (next.graph.fbWires updated slot fb.id)).rewireRungBranches updated

def addFb (s : Session) (position : Option Point) (insertIndex : Option Int) (fbType rungId : String) :
    Except String Session := do
  let rung ← s.graph.findRung rungId
  match getFbPins fbType with
  | none => .error ("Unknown FB type: " ++ fbType)
  | some pins => .ok (s.withFb rung (s.graph.insertSlot rung insertIndex position) fbType pins)

/-- The members of a branch are stacked below its anchor. -/
def restack (s : Session) (x : Rat) (memberIds : List String) : Session :=
  (memberIds.zipIdx).foldl (fun s entry => s.modifyNode entry.1 fun n => { n with position := ⟨x, 120 + entry.2 * 40⟩ }) s

/-- What `deleteElement` makes of one rung. -/
def pruneRung (elementId : String) (dropNodeIds dropBranchIds : List String) (s : Session) (rung : Rung) :
    Session × Rung :=
  let elementIds := rung.elementIds.filter fun id => !dropNodeIds.contains id
  let kept := rung.branches.filter fun b => !dropBranchIds.contains b.id
  let pruned := kept.filter (·.elementIds.contains elementId)
  let restacked := pruned.foldl (fun s b => s.restack b.x (b.elementIds.filter (· != elementId))) s
  let branches := kept.map fun b => { b with elementIds := b.elementIds.filter (· != elementId) }
  let nonEmpty := branches.filter fun b => !b.elementIds.isEmpty
  if elementIds.length = rung.elementIds.length ∧ pruned = [] ∧ nonEmpty.length = branches.length then (s, rung)
  else
    let updated := { rung with elementIds, branches := nonEmpty }
    (restacked.rewireRungBranches updated, updated)

def pruneRungs (elementId : String) (dropNodeIds dropBranchIds : List String) : Session → List Rung → Session × List Rung
  | s, [] => (s, [])
  | s, rung :: rest =>
    let first := s.pruneRung elementId dropNodeIds dropBranchIds rung
    let others := pruneRungs elementId dropNodeIds dropBranchIds first.1 rest
    (others.1, first.2 :: others.2)

/-- A node goes with the members of the branches that it anchors; another id is that of a wire. -/
def deleteElement (s : Session) (elementId : String) : Except String Session :=
  match s.graph.findNode elementId, s.graph.findEdge elementId with
  | some _, _ =>
    let dropped := (s.graph.rungs.flatMap (·.branches)).filter (·.anchorId == elementId)
    let dropNodeIds := elementId :: dropped.flatMap (·.elementIds)
    let next := (s.dropEdges (·.touches dropNodeIds)).dropNodes dropNodeIds
    let pruned := next.pruneRungs elementId dropNodeIds (dropped.map (·.id)) s.graph.rungs
    .ok (pruned.1.setRungs pruned.2)
  | none, some _ => .ok (s.dropEdges (·.id == elementId))
  | none, none => .error ("Element not found: " ++ elementId)

/-- The list with the element moved to the slot. -/
def reordered (elementIds : List String) (elementId : String) (insertIndex : Int) : List String :=
  let fromIdx := elementIds.idxOf elementId
  let others := elementIds.eraseIdx fromIdx
  let toIdx := clampSlot insertIndex others.length
  splice others (if fromIdx < toIdx then toIdx - 1 else toIdx) [elementId]

/-- A rung with its elements in another order. -/
def withOrder (s : Session) (rung : Rung) (elementIds : List String) : Session :=
  let updated := { rung with elementIds }
  ((s.setRung updated).rewireRungSeries updated).rewireRungBranches updated

def reorderElement (s : Session) (elementId : String) (insertIndex : Int) : Except String Session :=
  match s.graph.rungs.find? (·.elementIds.contains elementId) with
  | none => .error ("Element not on any rung: " ++ elementId)
  | some rung =>
    if (s.graph.findNode elementId).isNone then .error ("Element not found: " ++ elementId)
    else if (s.graph.findCoilOnRung rung).any (·.id == elementId) then
      .error "A coil cannot be reordered — it is pinned to the coil zone"
    else .ok (s.withOrder rung (reordered rung.elementIds elementId insertIndex))

/-! ## Wires -/

def connectWire (s : Session) (sourceId targetId : String) (routingPoints : Option (List Point)) :
    Except String Session :=
  match s.graph.findNode sourceId, s.graph.findNode targetId with
  | none, _ => .error ("Source node not found: " ++ sourceId)
  | some _, none => .error ("Target node not found: " ++ targetId)
  | some source, some target =>
    if source.kind.isRail && target.kind.isRail then .error "Short circuit: power rails cannot connect directly"
    else if source.kind.isCoil then .error "Cannot connect from a coil output"
    -- a wire that is there already is not drawn again
    else if s.graph.edges.any (fun e => e.sourceId == sourceId && e.targetId == targetId) then .ok s
    else .ok (s.addWire { sourceId, targetId, routingPoints })

def disconnectWire (s : Session) (edgeId : String) : Except String Session :=
  match s.graph.findEdge edgeId with
  | none => .error ("Wire not found: " ++ edgeId)
  | some _ => .ok (s.dropEdges (·.id == edgeId))

/-! ## Properties -/

def changeCoilType (s : Session) (elementId : String) (newType : CoilType) : Except String Session :=
  match s.graph.findNode elementId with
  | some ⟨_, .coil coilType variableName comment, _⟩ =>
    if coilType = newType then .ok s
    else .ok (s.modifyNode elementId fun n => { n with kind := .coil newType variableName comment })
  | _ => .error ("Not a coil: " ++ elementId)

def changeContactType (s : Session) (elementId : String) (newType : ContactType) : Except String Session :=
  match s.graph.findNode elementId with
  | some ⟨_, .contact contactType variableName comment, _⟩ =>
    if contactType = newType then .ok s
    else .ok (s.modifyNode elementId fun n => { n with kind := .contact newType variableName comment })
  | _ => .error ("Not a contact: " ++ elementId)

/-- A text that is set to nothing is cleared. -/
def textField (text : String) : Option String := if text = "" then none else some text

/-- Whether a text is already what it shall be. -/
def unchanged (current : Option String) (text : String) : Bool :=
  current == some text || (current.getD "" == "" && text == "")

def setRungTitle (s : Session) (rungId title : String) : Except String Session := do
  let rung ← s.graph.findRung rungId
  let text := trimText title
  if unchanged rung.title text then .ok s else .ok (s.setRung { rung with title := textField text })

def setRungComment (s : Session) (rungId comment : String) : Except String Session := do
  let rung ← s.graph.findRung rungId
  let text := trimText comment
  if unchanged rung.comment text then .ok s else .ok (s.setRung { rung with comment := textField text })

def setElementComment (s : Session) (elementId comment : String) : Except String Session :=
  let text := trimText comment
  match s.graph.findNode elementId with
  | some ⟨_, .contact contactType variableName current, _⟩ =>
    if unchanged current text then .ok s
    else .ok (s.modifyNode elementId fun n => { n with kind := .contact contactType variableName (textField text) })
  | some ⟨_, .coil coilType variableName current, _⟩ =>
    if unchanged current text then .ok s
    else .ok (s.modifyNode elementId fun n => { n with kind := .coil coilType variableName (textField text) })
  | _ => .error ("Not a contact or coil: " ++ elementId)

/-- The checks of `renameVariable` on the new name. -/
def checkName (name : String) : Except String Unit :=
  if name = "" then .error "Variable name cannot be empty"
  else if name.toList.any isSpace then .error "Variable name cannot contain whitespace"
  else .ok ()

def renameVariable (s : Session) (elementId variableName : String) : Except String Session :=
  let name := trimText variableName
  match s.graph.findNode elementId with
  | some ⟨_, .contact contactType current comment, _⟩ => do
    checkName name
    if name = current then .ok s
    else .ok (s.modifyNode elementId fun n => { n with kind := .contact contactType name comment })
  | some ⟨_, .coil coilType current comment, _⟩ => do
    checkName name
    if name = current then .ok s
    else .ok (s.modifyNode elementId fun n => { n with kind := .coil coilType name comment })
  | _ => .error ("Not a contact or coil: " ++ elementId)

/-- The element keeps its id and its place. -/
def replaceElement (s : Session) (targetId : String) (replacement : BaseNode) : Except String Session :=
  match s.graph.findNode targetId with
  | none => .error ("Element not found: " ++ targetId)
  | some target =>
    if replacement.kind.text ≠ target.kind.text then
      .error ("Replacement type mismatch: " ++ replacement.kind.text ++ " != " ++ target.kind.text)
    else .ok (s.modifyNode targetId fun _ => { replacement with id := targetId, position := target.position })

/-! ## Rungs and rails -/

/-- The first rung comes with the two rails. -/
def addRung (s : Session) : Session :=
  let rungNumber := s.graph.rungs.length + 1
  let rung := createRung (s.freshId "rung") rungNumber (if rungNumber = 1 then some "Main" else none)
  let next : Session := ⟨s.nextId + 1, { s.graph with rungs := s.graph.rungs ++ [rung] }⟩
  if rungNumber = 1 then
    let withLeft := next.addNode (createPowerRail (next.freshId "powerrail") .left ⟨0, 0⟩)
    withLeft.addNode (createPowerRail (withLeft.freshId "powerrail") .right ⟨640, 0⟩)
  else next

/-- The rungs numbered from 1 on. -/
def renumbered (rungs : List Rung) : List Rung := rungs.mapIdx fun i rung => { rung with rungNumber := i + 1 }

/-- Without a rung and the elements of its main row. -/
def withoutRung (s : Session) (rung : Rung) : Session :=
  ((s.dropNodes rung.elementIds).dropEdges (·.touches rung.elementIds)).setRungs
    (renumbered (s.graph.rungs.eraseP (·.id == rung.id)))

def deleteRung (s : Session) (rungId : String) : Except String Session := do
  let rung ← s.graph.findRung rungId
  if s.graph.rungs.length ≤ 1 then .error "Cannot delete the last rung"
  else .ok (s.withoutRung rung)

def moveRung (s : Session) (rungId : String) (newIndex : Int) : Except String Session := do
  let rung ← s.graph.findRung rungId
  let rungIdx := s.graph.rungs.findIdx (·.id == rungId)
  let clampedIdx := (max 0 (min newIndex (s.graph.rungs.length - 1))).toNat
  if rungIdx = clampedIdx then .ok s
  else .ok (s.setRungs (renumbered (splice (s.graph.rungs.eraseP (·.id == rungId)) clampedIdx [rung])))

def addPowerRail (s : Session) (side : PowerRailSide) : Session :=
  if (s.graph.findRail side).isSome then s
  else
    s.addNode (createPowerRail (s.freshId "powerrail") side
      (match side with
        | .left => ⟨0, 0⟩
        | .right => ⟨640, 0⟩))

/-! ## Branches -/

def openBranch (s : Session) (rungId anchorId : String) : Except String Session := do
  let rung ← s.graph.findRung rungId
  if !(s.graph.findNode anchorId).any (·.kind.isContact) then .error "Branch anchor must be a contact"
  else if !rung.elementIds.contains anchorId then .error "Anchor is not on this rung"
  else if rung.branches.any (·.anchorId == anchorId) then .error "A branch already exists at this contact"
  else
    let anchorX := ((mapGet (layoutRung rung s.graph) anchorId).map (·.x)).getD 40
    let branch := createBranch (s.freshId "branch") rung.id anchorId anchorX
    .ok { s.setRung { rung with branches := rung.branches ++ [branch] } with nextId := s.nextId + 1 }

def addBranchContact (s : Session) (branchId : String) (contactType : Option ContactType) : Except String Session := do
  let (_, branch) ← s.graph.findBranch branchId
  let rung ← s.graph.findRung branch.rungId
  let anchorX := ((mapGet (layoutRung rung s.graph) branch.anchorId).map (·.x)).getD branch.x
  let contact := s.newContact (contactType.getD .no) ⟨anchorX, 120 + branch.elementIds.length * 40⟩
  let updated := { rung with
    branches := rung.branches.map fun b =>
      if b.id = branch.id then { b with elementIds := b.elementIds ++ [contact.id] } else b }
  .ok ((s.insertNode contact updated).rewireRungBranches updated)

/-- Only a check: a branch is closed for the user, not in the model. -/
def closeBranch (s : Session) (branchId : String) : Except String Session := do
  let (_, branch) ← s.graph.findBranch branchId
  if branch.elementIds.isEmpty then .error "Cannot close an empty branch - add at least one contact" else .ok s

def deleteBranch (s : Session) (branchId : String) : Except String Session := do
  let (rung, branch) ← s.graph.findBranch branchId
  let next := (s.dropNodes branch.elementIds).dropEdges (·.touches branch.elementIds)
  let updated := { rung with branches := rung.branches.filter (·.id != branch.id) }
  let rewired := (next.setRung updated).rewireRungBranches updated
  -- the wire behind the anchor is restored
  let wires : List Wire := (seriesSuccessor updated branch.anchorId).toList.map fun succ =>
    { sourceId := branch.anchorId, targetId := succ }
  .ok (rewired.addWires (wires.filter fun w =>
    !rewired.graph.edges.any fun e => e.sourceId == w.sourceId && e.targetId == w.targetId))

/-! ## Paste -/

/-- The copy of an element, and the counter behind it. The factories take an id of their own, which is thrown away; a
comparison is not copied. -/
def pasteNode (n : Nat) (src : BaseNode) : BaseNode × Nat :=
  let id := suffixedId "paste" (n + 1)
  match src.kind with
  | .contact contactType variableName _ => (createContact id contactType variableName ⟨0, 0⟩, n + 2)
  | .coil coilType variableName _ => (createCoil id coilType variableName, n + 2)
  | .fb fbType inputPins outputPins => (createFb id fbType inputPins outputPins, n + 2)
  | .powerRail _ | .comparison .. => (src, n + 1)

def pasteNodes : Nat → List BaseNode → List BaseNode × Nat
  | n, [] => ([], n)
  | n, src :: rest =>
    let first := pasteNode n src
    let others := pasteNodes first.2 rest
    (first.1 :: others.1, others.2)

/-- What a paste copies. -/
def pasteSources (s : Session) (elementIds : List String) : List BaseNode :=
  (elementIds.filterMap s.graph.findNode).filter (!·.kind.isRail)

/-- Copies of elements in a slot of a rung. -/
def withCopies (s : Session) (rung : Rung) (slot : Nat) (sources : List BaseNode) : Session :=
  let pasted := pasteNodes s.nextId sources
  let updated := rung.insert slot (pasted.1.map (·.id))
  let next : Session := ⟨pasted.2, { s.graph with nodes := s.graph.nodes ++ pasted.1 }⟩
  (next.setRung updated).rewireRungSeries updated

def pasteElements (s : Session) (elementIds : List String) (rungId : String) (insertIndex : Int) :
    Except String Session := do
  let rung ← s.graph.findRung rungId
  if (s.pasteSources elementIds).isEmpty then .error "Nothing to paste"
  else .ok (s.withCopies rung (clampSlot insertIndex rung.elementIds.length) (s.pasteSources elementIds))

/-! ## Steps -/

/-- The call of an operation. -/
def call (s : Session) : Operation → Except String Session
  | .addContact position insertIndex contactType rungId => s.addContact position insertIndex contactType rungId
  | .addCoil coilType rungId => s.addCoil coilType rungId
  | .deleteElement elementId => s.deleteElement elementId
  | .reorderElement elementId insertIndex => s.reorderElement elementId insertIndex
  | .connectWire sourceId targetId routingPoints => s.connectWire sourceId targetId routingPoints
  | .disconnectWire edgeId => s.disconnectWire edgeId
  | .changeCoilType elementId newType => s.changeCoilType elementId newType
  | .setRungTitle rungId title => s.setRungTitle rungId title
  | .setRungComment rungId comment => s.setRungComment rungId comment
  | .setElementComment elementId comment => s.setElementComment elementId comment
  | .changeContactType elementId newType => s.changeContactType elementId newType
  | .addRung => .ok s.addRung
  | .deleteRung rungId => s.deleteRung rungId
  | .moveRung rungId newIndex => s.moveRung rungId newIndex
  | .addPowerRail side => .ok (s.addPowerRail side)
  | .addFb position insertIndex fbType rungId => s.addFb position insertIndex fbType rungId
  | .renameVariable elementId variableName => s.renameVariable elementId variableName
  | .openBranch rungId anchorId => s.openBranch rungId anchorId
  | .addBranchContact branchId contactType => s.addBranchContact branchId contactType
  | .closeBranch branchId => s.closeBranch branchId
  | .deleteBranch branchId => s.deleteBranch branchId
  | .pasteElements elementIds rungId insertIndex => s.pasteElements elementIds rungId insertIndex
  | .replaceElement targetId replacement => s.replaceElement targetId replacement

/-- A call that throws leaves the session as it was. -/
def step (s : Session) (op : Operation) : Session :=
  match s.call op with
  | .ok s' => s'
  | .error _ => s

/-! ## What wires leave alone -/

@[simp] theorem addWires_nodes (s : Session) (wires : List Wire) : (s.addWires wires).graph.nodes = s.graph.nodes := by
  unfold addWires
  induction wires generalizing s with
  | nil => rfl
  | cons w ws ih => exact ih _

@[simp] theorem addWires_rungs (s : Session) (wires : List Wire) : (s.addWires wires).graph.rungs = s.graph.rungs := by
  unfold addWires
  induction wires generalizing s with
  | nil => rfl
  | cons w ws ih => exact ih _

@[simp] theorem rewireRungBranches_nodes (s : Session) (rung : Rung) :
    (s.rewireRungBranches rung).graph.nodes = s.graph.nodes := by
  unfold rewireRungBranches
  by_cases hempty : rung.branches.isEmpty = true
  · rw [if_pos hempty]
  · rw [if_neg hempty, addWires_nodes]
    rfl

@[simp] theorem rewireRungBranches_rungs (s : Session) (rung : Rung) :
    (s.rewireRungBranches rung).graph.rungs = s.graph.rungs := by
  unfold rewireRungBranches
  by_cases hempty : rung.branches.isEmpty = true
  · rw [if_pos hempty]
  · rw [if_neg hempty, addWires_rungs]
    rfl

@[simp] theorem rewireRungSeries_nodes (s : Session) (rung : Rung) :
    (s.rewireRungSeries rung).graph.nodes = s.graph.nodes := by
  unfold rewireRungSeries
  dsimp only
  by_cases hempty : rung.elementIds.isEmpty = true
  · rw [if_pos hempty, addWires_nodes]
    rfl
  · rw [if_neg hempty, rewireRungBranches_nodes, addWires_nodes]
    rfl

@[simp] theorem rewireRungSeries_rungs (s : Session) (rung : Rung) :
    (s.rewireRungSeries rung).graph.rungs = s.graph.rungs := by
  unfold rewireRungSeries
  dsimp only
  by_cases hempty : rung.elementIds.isEmpty = true
  · rw [if_pos hempty, addWires_rungs]
    rfl
  · rw [if_neg hempty, rewireRungBranches_rungs, addWires_rungs]
    rfl

/-! ## Nodes and rungs behind an operation -/

theorem withContact_nodes (s : Session) (rung : Rung) (slot : Nat) (contactType : ContactType) :
    (s.withContact rung slot contactType).graph.nodes = s.graph.nodes ++ [s.newContact contactType ⟨0, 0⟩] := by
  unfold withContact
  rw [rewireRungBranches_nodes, addWires_nodes]
  rfl

theorem withContact_rungs (s : Session) (rung : Rung) (slot : Nat) (contactType : ContactType) :
    (s.withContact rung slot contactType).graph.rungs =
      (s.graph.setRung (rung.insert slot [(s.newContact contactType ⟨0, 0⟩).id])).rungs := by
  unfold withContact
  rw [rewireRungBranches_rungs, addWires_rungs]
  rfl

theorem withCoil_nodes (s : Session) (rung : Rung) (lastContactId : String) (coilType : CoilType) :
    (s.withCoil rung lastContactId coilType).graph.nodes = s.graph.nodes ++ [s.newCoil coilType] := by
  unfold withCoil
  rw [addWires_nodes, rewireRungBranches_nodes, addWires_nodes]
  rfl

theorem withCoil_rungs (s : Session) (rung : Rung) (lastContactId : String) (coilType : CoilType) :
    (s.withCoil rung lastContactId coilType).graph.rungs =
      (s.graph.setRung (rung.insert rung.elementIds.length [(s.newCoil coilType).id])).rungs := by
  unfold withCoil Rung.insert
  rw [addWires_rungs, rewireRungBranches_rungs, addWires_rungs, splice_length]
  rfl

theorem withFb_nodes (s : Session) (rung : Rung) (slot : Nat) (fbType : String) (pins : List Pin × List Pin) :
    (s.withFb rung slot fbType pins).graph.nodes =
      s.graph.nodes ++ [createFb (s.freshId "fb") fbType pins.1 pins.2] := by
  unfold withFb
  rw [rewireRungBranches_nodes, addWires_nodes]
  rfl

theorem withFb_rungs (s : Session) (rung : Rung) (slot : Nat) (fbType : String) (pins : List Pin × List Pin) :
    (s.withFb rung slot fbType pins).graph.rungs = (s.graph.setRung (rung.insert slot [s.freshId "fb"])).rungs := by
  unfold withFb
  rw [rewireRungBranches_rungs, addWires_rungs]
  rfl

theorem withOrder_nodes (s : Session) (rung : Rung) (elementIds : List String) :
    (s.withOrder rung elementIds).graph.nodes = s.graph.nodes := by
  unfold withOrder
  rw [rewireRungBranches_nodes, rewireRungSeries_nodes]
  rfl

theorem withOrder_rungs (s : Session) (rung : Rung) (elementIds : List String) :
    (s.withOrder rung elementIds).graph.rungs = (s.graph.setRung { rung with elementIds }).rungs := by
  unfold withOrder
  rw [rewireRungBranches_rungs, rewireRungSeries_rungs]
  rfl

theorem withCopies_nodes (s : Session) (rung : Rung) (slot : Nat) (sources : List BaseNode) :
    (s.withCopies rung slot sources).graph.nodes = s.graph.nodes ++ (pasteNodes s.nextId sources).1 := by
  unfold withCopies
  rw [rewireRungSeries_nodes]
  rfl

theorem withCopies_rungs (s : Session) (rung : Rung) (slot : Nat) (sources : List BaseNode) :
    (s.withCopies rung slot sources).graph.rungs =
      (s.graph.setRung (rung.insert slot ((pasteNodes s.nextId sources).1.map (·.id)))).rungs := by
  unfold withCopies
  rw [rewireRungSeries_rungs]
  rfl

/-! ## Which calls do not throw -/

theorem addContact_ok {position : Option Point} {insertIndex : Option Int} {contactType : ContactType}
    : s.addContact position insertIndex contactType rungId = .ok s' ↔
      ∃ rung, s.graph.findRung rungId = .ok rung ∧ s.graph.rightOfCoil rung insertIndex position = false ∧
        s.withContact rung (s.graph.insertSlot rung insertIndex position) contactType = s' := by
  unfold addContact
  rw [bind_ok]
  apply exists_congr
  intro rung
  by_cases hright : s.graph.rightOfCoil rung insertIndex position = true
  · rw [if_pos hright, hright]
    exact ⟨fun h => (nomatch h.2), fun h => (nomatch h.2.1)⟩
  · rw [if_neg hright, Except.ok.injEq]
    rw [Bool.not_eq_true] at hright
    rw [hright]
    exact ⟨fun h => ⟨h.1, rfl, h.2⟩, fun h => ⟨h.1, h.2.2⟩⟩

theorem addCoil_ok {coilType : CoilType} : s.addCoil coilType rungId = .ok s' ↔
    ∃ rung lastContactId, s.graph.findRung rungId = .ok rung ∧
      (rung.elementIds.filter fun id => (s.graph.findNode id).any (·.kind.isContact)).getLast? = some lastContactId ∧
        s.withCoil rung lastContactId coilType = s' := by
  unfold addCoil
  rw [bind_ok]
  apply exists_congr
  intro rung
  cases (rung.elementIds.filter fun id => (s.graph.findNode id).any (·.kind.isContact)).getLast? with
  | none => exact ⟨fun h => (nomatch h.2), fun ⟨_, h⟩ => (nomatch h.2.1)⟩
  | some lastContactId =>
    constructor
    · rintro ⟨hrung, hok⟩
      exact ⟨lastContactId, hrung, rfl, Except.ok.inj hok⟩
    · rintro ⟨_, hrung, hlast, hs'⟩
      cases hlast
      exact ⟨hrung, congrArg Except.ok hs'⟩

theorem addFb_ok {position : Option Point} {insertIndex : Option Int} {fbType rungId : String} :
    s.addFb position insertIndex fbType rungId = .ok s' ↔
      ∃ rung pins, s.graph.findRung rungId = .ok rung ∧ getFbPins fbType = some pins ∧
        s.withFb rung (s.graph.insertSlot rung insertIndex position) fbType pins = s' := by
  unfold addFb
  rw [bind_ok]
  apply exists_congr
  intro rung
  cases getFbPins fbType with
  | none => exact ⟨fun h => (nomatch h.2), fun ⟨_, h⟩ => (nomatch h.2.1)⟩
  | some pins =>
    constructor
    · rintro ⟨hrung, hok⟩
      exact ⟨pins, hrung, rfl, Except.ok.inj hok⟩
    · rintro ⟨_, hrung, hpins, hs'⟩
      cases hpins
      exact ⟨hrung, congrArg Except.ok hs'⟩

theorem reorderElement_ok {elementId : String} {insertIndex : Int}
    (h : s.reorderElement elementId insertIndex = .ok s') :
    ∃ rung ∈ s.graph.rungs, elementId ∈ rung.elementIds ∧
      (s.graph.findCoilOnRung rung).any (·.id == elementId) = false ∧
        s.withOrder rung (reordered rung.elementIds elementId insertIndex) = s' := by
  unfold reorderElement at h
  split at h
  · cases h
  next rung hfind =>
  by_cases hnone : (s.graph.findNode elementId).isNone = true
  · rw [if_pos hnone] at h
    cases h
  by_cases hcoil : (s.graph.findCoilOnRung rung).any (·.id == elementId) = true
  · rw [if_neg hnone, if_pos hcoil] at h
    cases h
  rw [if_neg hnone, if_neg hcoil] at h
  rw [Bool.not_eq_true] at hcoil
  have hmem := List.find?_some (p := fun r : Rung => r.elementIds.contains elementId) hfind
  exact ⟨rung, List.mem_of_find?_eq_some hfind, List.contains_iff_mem.1 hmem, hcoil, Except.ok.inj h⟩

omit [Entropy] in
theorem deleteRung_ok : s.deleteRung rungId = .ok s' ↔
    ∃ rung, s.graph.findRung rungId = .ok rung ∧ 1 < s.graph.rungs.length ∧ s.withoutRung rung = s' := by
  unfold deleteRung
  rw [bind_ok]
  apply exists_congr
  intro rung
  by_cases hone : s.graph.rungs.length ≤ 1
  · rw [if_pos hone]
    exact ⟨fun h => (nomatch h.2), fun h => absurd h.2.1 (Nat.not_lt.2 hone)⟩
  · rw [if_neg hone, Except.ok.injEq]
    exact ⟨fun h => ⟨h.1, Nat.not_le.1 hone, h.2⟩, fun h => ⟨h.1, h.2.2⟩⟩

theorem pasteElements_ok {elementIds : List String} {insertIndex : Int} :
    s.pasteElements elementIds rungId insertIndex = .ok s' ↔
      ∃ rung, s.graph.findRung rungId = .ok rung ∧ s.pasteSources elementIds ≠ [] ∧
        s.withCopies rung (clampSlot insertIndex rung.elementIds.length) (s.pasteSources elementIds) = s' := by
  unfold pasteElements
  rw [bind_ok]
  apply exists_congr
  intro rung
  by_cases hempty : (s.pasteSources elementIds).isEmpty = true
  · rw [if_pos hempty]
    exact ⟨fun h => (nomatch h.2), fun h => absurd (List.isEmpty_iff.1 hempty) h.2.1⟩
  · rw [if_neg hempty, Except.ok.injEq]
    exact ⟨fun h => ⟨h.1, fun hnil => hempty (List.isEmpty_iff.2 hnil), h.2⟩, fun h => ⟨h.1, h.2.2⟩⟩

/-! ## Steps, and the calls that throw -/

theorem step_of_ok (h : s.call op = .ok s') : s.step op = s' := by
  unfold step
  rw [h]

theorem step_of_throw {s : Session} (h : ∀ s', s.call op ≠ .ok s') : s.step op = s := by
  unfold step
  cases hcall : s.call op with
  | error e => rfl
  | ok s' => exact absurd hcall (h s')

/-- What holds of the session and of every result of the call holds behind the step. -/
theorem step_induction {P : Session → Prop} {s : Session} (hs : P s)
    (h : ∀ s', s.call op = .ok s' → P s') : P (s.step op) := by
  unfold step
  cases hcall : s.call op with
  | error e => exact hs
  | ok s' => exact h s' hcall

end Session

end Audesys.LdEditor
