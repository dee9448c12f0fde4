import Audesys.Hal.F64
import Audesys.Lib.Settle

/-!
# `LdLayout.Model` — automatic layout of ladder diagrams

The layout engine (`audesys-ld-layout`): rungs are numbered and laid out as rows; contacts and function blocks are
placed from the left, coils at the right end, power rails at the sides, and wires are routed between what was placed.
Each pass walks the element ids of the rungs and writes the positions of nodes, which it finds by their place in the
node list.

Validation comes before the passes and only reports; nothing reads the report. `none` is a panic.
-/

namespace Audesys.LdLayout

open Audesys.Hal Audesys.Lib Audesys.Hal.F64

variable [Target]

/-! ## The graph -/

structure Point where
  x : Target.F64
  y : Target.F64
  deriving DecidableEq

structure Size where
  width : Target.F64
  height : Target.F64
  deriving DecidableEq

/-- A node; of its other fields only `side` is read, where it is a text. -/
structure LayoutNode where
  id : String
  kind : String
  position : Point
  size : Size
  side : Option String
  deriving DecidableEq

structure LayoutEdge where
  id : String
  kind : String
  sourceId : String
  targetId : String
  routingPoints : List Point
  deriving DecidableEq

structure RungDef where
  id : String
  rungNumber : UInt32
  comment : Option String
  elementIds : List String
  deriving DecidableEq

/-- `LayoutInput` and `LayoutOutput`, which have the same fields. -/
structure LayoutGraph where
  id : String
  nodes : List LayoutNode
  edges : List LayoutEdge
  rungs : List RungDef
  deriving DecidableEq

namespace LayoutNode

variable (n other : LayoutNode)

def right : Target.F64 := n.position.x + n.size.width

def bottom : Target.F64 := n.position.y + n.size.height

/-- `overlaps`: both boxes share an inner point. -/
def overlaps : Bool :=
  lt n.position.x other.right && gt n.right other.position.x && lt n.position.y other.bottom &&
    gt n.bottom other.position.y

end LayoutNode

/-! ## Rungs and places -/

/-- `node_map`: the place of each id, the last where an id stands twice. -/
def nodeMap (nodes : List LayoutNode) : String → Option Nat := setAll (nodes.zipIdx.map fun n => (n.1.id, n.2))

def moveTo (position : Point) (n : LayoutNode) : LayoutNode := { n with position := position }

/-- `auto_number`; the number wraps. -/
def autoNumber (rungs : List RungDef) : List RungDef :=
  rungs.mapIdx fun i rung => { rung with rungNumber := .ofNat (i + 1) }

structure RungRow where
  index : Nat
  y : Target.F64

/-- The row of a rung, `rung_rows.iter().find(..)`: its number less one is a `usize`. -/
def rowOf (rungRows : List RungRow) (rung : RungDef) : Option (Option RungRow) :=
  rungRows.findM? fun row => do
    let index ← MachineInt.sub (UInt64.ofNat rung.rungNumber.toNat) 1
    return row.index == index.toNat

/-- What `layout_rungs` returns. -/
structure Frame where
  rungRows : List RungRow
  railY : Target.F64
  railHeight : Target.F64
  coilX : Target.F64
  railRightX : Target.F64

/-- The variables of the loop over the elements of a rung in `layout_contacts`. -/
structure ContactLoop where
  nodes : List LayoutNode
  contactCount : Nat
  fbSeen : Bool
  fbWidthOffset : Target.F64

/-- The variables of the loop over the elements of a rung in `layout_coils`. -/
structure CoilLoop where
  nodes : List LayoutNode
  coilCount : Nat

/-- `for rung in rungs`, with a loop over the elements of each rung that has a row. -/
def overRungs (rungRows : List RungRow) (layoutRung : RungRow → RungDef → List LayoutNode → List LayoutNode) :
    List RungDef → List LayoutNode → Option (List LayoutNode)
  | [], nodes => some nodes
  | rung :: rungs, nodes => do
    match ← rowOf rungRows rung with
    | none => overRungs rungRows layoutRung rungs nodes
    | some row => overRungs rungRows layoutRung rungs (layoutRung row rung nodes)

section
variable [F64Math]

/-! ## Constants -/

def railLeftX : Target.F64 := ofNat 20
def railRightX : Target.F64 := ofNat 920
def railWidth : Target.F64 := ofNat 4
def elementStartX : Target.F64 := railLeftX + railWidth + ofNat 60
def elementSpacingX : Target.F64 := ofNat 40
def rungSpacingY : Target.F64 := ofNat 60
def rungStartY : Target.F64 := ofNat 50
def defaultElementHeight : Target.F64 := ofNat 36

/-! ## Rows -/

/-- `max_element_width`: of all nodes, the rails too. -/
def maxElementWidth (nodes : List LayoutNode) : Target.F64 :=
  (nodes.map (·.size.width)).foldl F64Math.max zero

/-- `coil_x`. -/
def coilX (nodes : List LayoutNode) : Target.F64 :=
  LdLayout.railRightX - railWidth - ofNat 60 - maxElementWidth nodes

def rowAt (i : Nat) : RungRow := ⟨i, rungStartY + ofNat i * (defaultElementHeight + rungSpacingY)⟩

/-- `layout_rungs`. -/
def layoutRungs (nodes : List LayoutNode) (rungs : List RungDef) : Frame :=
  let rungRows := (List.range rungs.length).map rowAt
  let railY := if rungs.isEmpty then rungStartY else rungStartY - ofNat 20
  let railHeight :=
    match rungRows.getLast? with
    | none => ofNat 600
    | some lastRow => (lastRow.y + defaultElementHeight + ofNat 20) - railY
  ⟨rungRows, railY, railHeight, coilX nodes, LdLayout.railRightX⟩

/-! ## Positions -/

/-- One element. The map knows places in the list only. -/
def ContactLoop.place (map : String → Option Nat) (row : RungRow) (s : ContactLoop) (elemId : String) : ContactLoop :=
  match map elemId with
  | none => s
  | some idx =>
    match s.nodes[idx]? with
    | none => s
    | some node =>
      let nodeW := node.size.width
      match node.kind with
      | "node:contact" =>
        let x :=
          if s.fbSeen then
            elementStartX + s.fbWidthOffset + elementSpacingX + ofNat s.contactCount * (nodeW + elementSpacingX)
          else
            elementStartX + ofNat s.contactCount * (nodeW + elementSpacingX)
        { s with nodes := s.nodes.modify idx (moveTo ⟨x, row.y⟩), contactCount := s.contactCount + 1 }
      | "node:fb" =>
        let fbX := elementStartX + ofNat s.contactCount * (nodeW + elementSpacingX)
        { s with nodes := s.nodes.modify idx (moveTo ⟨fbX, row.y⟩), fbSeen := true, fbWidthOffset := nodeW }
      | _ => s

/-- `layout_contacts`. -/
def layoutContacts (map : String → Option Nat) (rungRows : List RungRow) :
    List RungDef → List LayoutNode → Option (List LayoutNode) :=
  overRungs rungRows fun row rung nodes =>
    (rung.elementIds.foldl (ContactLoop.place map row) ⟨nodes, 0, false, zero⟩).nodes

def CoilLoop.place (map : String → Option Nat) (row : RungRow) (coilX : Target.F64) (s : CoilLoop) (elemId : String) :
    CoilLoop :=
  match map elemId with
  | none => s
  | some idx =>
    match s.nodes[idx]? with
    | none => s
    | some node =>
      if node.kind = "node:coil" then
        let x := coilX + ofNat s.coilCount * (node.size.width + elementSpacingX)
        ⟨s.nodes.modify idx (moveTo ⟨x, row.y⟩), s.coilCount + 1⟩
      else s

/-- `layout_coils`. -/
def layoutCoils (map : String → Option Nat) (rungRows : List RungRow) (coilX : Target.F64) :
    List RungDef → List LayoutNode → Option (List LayoutNode) :=
  overRungs rungRows fun row rung nodes =>
    (rung.elementIds.foldl (CoilLoop.place map row coilX) ⟨nodes, 0⟩).nodes

/-- One node of `layout_rails`. -/
def layoutRail (railY railHeight railRightX : Target.F64) (node : LayoutNode) : LayoutNode :=
  if node.kind = "node:powerrail" then
    match node.side.getD "Left" with
    | "Right" => { node with position := ⟨railRightX, railY⟩, size := ⟨railWidth, railHeight⟩ }
    | _ => { node with position := ⟨railLeftX, railY⟩, size := ⟨railWidth, railHeight⟩ }
  else node

/-- `layout_rails`. -/
def layoutRails (railY railHeight railRightX : Target.F64) (nodes : List LayoutNode) : List LayoutNode :=
  nodes.map (layoutRail railY railHeight railRightX)

/-! ## Wires -/

/-- `compute_wire_route`: straight, or with a bend half way. -/
def computeWireRoute (src tgt : LayoutNode) : List Point :=
  let srcCx := src.position.x + src.size.width
  let srcCy := src.position.y + src.size.height / ofNat 2
  let tgtCx := tgt.position.x
  let tgtCy := tgt.position.y + tgt.size.height / ofNat 2
  if lt (F64Math.abs (srcCy - tgtCy)) (ofNat 2) then []
  else
    let midX := (srcCx + tgtCx) / ofNat 2
    [⟨midX, srcCy⟩, ⟨midX, tgtCy⟩]

/-- One edge of `route_wires`; the ends that the map knows are places in the list. -/
def routeWire (nodes : List LayoutNode) (map : String → Option Nat) (edge : LayoutEdge) : LayoutEdge :=
  match (map edge.sourceId).bind (nodes[·]?), (map edge.targetId).bind (nodes[·]?) with
  | some src, some tgt =>
    { edge with routingPoints :=
        match edge.kind with
        | "edge:power" => []
        | "edge:wire" => computeWireRoute src tgt
        | _ => [] }
  | _, _ => edge

/-- `route_wires`. -/
def routeWires (edges : List LayoutEdge) (nodes : List LayoutNode) (map : String → Option Nat) : List LayoutEdge :=
  edges.map (routeWire nodes map)

/-! ## The pipeline -/

/-- `layout_ld`. -/
def layoutLd (input : LayoutGraph) : Option LayoutGraph := do
  let map := nodeMap input.nodes
  let rungs := autoNumber input.rungs
  let frame := layoutRungs input.nodes rungs
  let nodes ← layoutContacts map frame.rungRows rungs input.nodes
  let nodes ← layoutCoils map frame.rungRows frame.coilX rungs nodes
  let nodes := layoutRails frame.railY frame.railHeight frame.railRightX nodes
  return { input with nodes := nodes, edges := routeWires input.edges nodes map, rungs := rungs }

end

end Audesys.LdLayout
