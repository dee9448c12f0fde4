import Audesys.LdLayout.Settled
import Mathlib.Algebra.Order.Ring.Rat

/-!
# `LdLayout.Again` — a layout of a layout

A layout changes positions, the sizes of rails and the numbers of rungs. Of these, one is read by the next layout: the
widths of the rails, for the widest node fixes the place of the coils. Whether a second layout moves anything depends on
that alone (`settlesAtOnce_iff`).
-/

namespace Audesys.LdLayout

open Audesys.Hal Audesys.Lib Audesys.Hal.F64

variable [Target]
variable {before : List Nat}

/-! ## What a layout leaves as it is -/

omit [Target] in
theorem autoNumber_autoNumber (rungs : List RungDef) : autoNumber (autoNumber rungs) = autoNumber rungs := by
  unfold autoNumber
  rw [List.mapIdx_mapIdx]
  rfl

theorem nodeMap_congr {nodes nodes' : List LayoutNode} (h : nodes'.map (·.id) = nodes.map (·.id)) :
    nodeMap nodes' = nodeMap nodes := by
  have hpairs : ∀ ns : List LayoutNode,
      ns.zipIdx.map (fun n => (n.1.id, n.2)) = (ns.map (·.id)).zipIdx := by
    intro ns
    rw [List.zipIdx_map]
    rfl
  unfold nodeMap
  rw [hpairs, hpairs, h]

variable [F64Math]

theorem routeWire_routeWire (nodes : List LayoutNode) (map : String → Option Nat) (edge : LayoutEdge) :
    routeWire nodes map (routeWire nodes map edge) = routeWire nodes map edge := by
  cases hsource : (map edge.sourceId).bind (nodes[·]?) with
  | none =>
    have hroute : routeWire nodes map edge = edge := by
      unfold routeWire
      rw [hsource]
    rw [hroute, hroute]
  | some src =>
    cases htarget : (map edge.targetId).bind (nodes[·]?) with
    | none =>
      have hroute : routeWire nodes map edge = edge := by
        unfold routeWire
        rw [hsource, htarget]
      rw [hroute, hroute]
    | some tgt =>
      unfold routeWire
      simp only [hsource, htarget]

theorem routeWires_routeWires (edges : List LayoutEdge) (nodes : List LayoutNode) (map : String → Option Nat) :
    routeWires (routeWires edges nodes map) nodes map = routeWires edges nodes map := by
  unfold routeWires
  rw [List.map_map]
  exact List.map_congr_left fun edge _ => routeWire_routeWire nodes map edge

theorem layoutRail_layoutRail (railY railHeight railRightX : Target.F64) (n : LayoutNode) :
    layoutRail railY railHeight railRightX (layoutRail railY railHeight railRightX n) =
      layoutRail railY railHeight railRightX n := by
  by_cases hkind : n.kind = "node:powerrail"
  · unfold layoutRail
    simp only [if_pos hkind]
    split
    · next h => simp only [if_pos hkind, h]
    · next h => simp only [if_pos hkind]
  · rw [layoutRail_of_not_rail hkind, layoutRail_of_not_rail hkind]

/-! ## What the next layout reads -/

/-- A rail as wide as a layout makes it. -/
def slim (n : LayoutNode) : LayoutNode :=
  if n.kind = "node:powerrail" then { n with size := ⟨railWidth, n.size.height⟩ } else n

section
variable {g : LayoutGraph} {ls : List Listing} {i : Nat} {n : LayoutNode}

theorem kind_layoutRail (railY railHeight railRightX : Target.F64) (n : LayoutNode) :
    (layoutRail railY railHeight railRightX n).kind = n.kind := by
  unfold layoutRail
  split
  · split
    · rfl
    · rfl
  · rfl

theorem id_layoutRail (railY railHeight railRightX : Target.F64) (n : LayoutNode) :
    (layoutRail railY railHeight railRightX n).id = n.id := by
  unfold layoutRail
  split
  · split
    · rfl
    · rfl
  · rfl

theorem width_layoutRail (railY railHeight railRightX : Target.F64) (n : LayoutNode) :
    (layoutRail railY railHeight railRightX n).size.width = (slim n).size.width := by
  unfold layoutRail slim
  split
  · split
    · rfl
    · rfl
  · rfl

theorem settledNode_of_element (h : n.isElement = true) : g.settledNode ls i n =
      (setAll (ls.map fun l => (l.idx, l)) i).elim n fun l =>
        moveTo ⟨left (coilX g.nodes) g.nodes l.before n, l.y⟩ n := if_pos h

theorem settledNode_of_not_element (h : n.isElement = false) :
    g.settledNode ls i n = layoutRail g.frame.railY g.frame.railHeight g.frame.railRightX n :=
  if_neg (Bool.eq_false_iff.1 h)

theorem shape_settledNode (h : n.isElement = true) : (g.settledNode ls i n).shape = n.shape := by
  rw [settledNode_of_element h]
  cases setAll (ls.map fun l => (l.idx, l)) i with
  | none => rfl
  | some l => rfl

theorem size_settledNode (h : n.isElement = true) : (g.settledNode ls i n).size = n.size :=
  congrArg Prod.snd (shape_settledNode h)

theorem kind_settledNode (g : LayoutGraph) (ls : List Listing) (i : Nat) (n : LayoutNode) :
    (g.settledNode ls i n).kind = n.kind := by
  cases h : n.isElement with
  | true => exact congrArg Prod.fst (shape_settledNode h)
  | false =>
    rw [settledNode_of_not_element h]
    exact kind_layoutRail ..

theorem id_settledNode (g : LayoutGraph) (ls : List Listing) (i : Nat) (n : LayoutNode) :
    (g.settledNode ls i n).id = n.id := by
  cases h : n.isElement with
  | true =>
    rw [settledNode_of_element h]
    cases setAll (ls.map fun l => (l.idx, l)) i with
    | none => rfl
    | some l => rfl
  | false =>
    rw [settledNode_of_not_element h]
    exact id_layoutRail ..

theorem isElement_settledNode (g : LayoutGraph) (ls : List Listing) (i : Nat) (n : LayoutNode) :
    (g.settledNode ls i n).isElement = n.isElement := by
  unfold LayoutNode.isElement LayoutNode.isPlacedFromLeft LayoutNode.isContact LayoutNode.isFb LayoutNode.isCoil
  rw [kind_settledNode]

theorem width_settledNode (g : LayoutGraph) (ls : List Listing) (i : Nat) (n : LayoutNode) :
    (g.settledNode ls i n).size.width = (slim n).size.width := by
  cases h : n.isElement with
  | true =>
    unfold slim
    rw [if_neg (LayoutNode.isElement_not_rail h)]
    exact congrArg Size.width (size_settledNode h)
  | false =>
    rw [settledNode_of_not_element h]
    exact width_layoutRail ..

theorem getElem?_settledNodes (i : Nat) : (g.settledNodes ls)[i]? = g.nodes[i]?.map (g.settledNode ls i) :=
  List.getElem?_mapIdx

theorem map_settledNodes {B : Type} {f : LayoutNode → B} {f' : LayoutNode → B}
    (h : ∀ i n, f (g.settledNode ls i n) = f' n) : (g.settledNodes ls).map f = g.nodes.map f' := by
  apply List.ext_getElem?
  intro i
  rw [List.getElem?_map, getElem?_settledNodes, List.getElem?_map, Option.map_map]
  exact congrArg (Option.map · g.nodes[i]?) (funext (h i))

/-! ## The listings and the counts of the next layout -/

theorem nodeMap_settledNodes : nodeMap (g.settledNodes ls) = nodeMap g.nodes :=
  nodeMap_congr (map_settledNodes (id_settledNode g ls))

theorem frame_settled : (g.settled ls).frame = { g.frame with coilX := coilX (g.settledNodes ls) } := by
  unfold LayoutGraph.frame LayoutGraph.settled layoutRungs
  dsimp only
  rw [autoNumber_autoNumber]

theorem listed_settled : (g.settled ls).listed = g.listed := by
  unfold LayoutGraph.listed LayoutGraph.frame LayoutGraph.settled layoutRungs
  dsimp only
  rw [autoNumber_autoNumber, nodeMap_settledNodes]

theorem count_settledNodes (kind : String) (places : List Nat) :
    count (g.settledNodes ls) (·.kind == kind) places = count g.nodes (·.kind == kind) places := by
  unfold count
  apply congrArg (List.countP · places)
  funext i
  rw [getElem?_settledNodes, Option.any_map]
  apply congrArg (Option.any · g.nodes[i]?)
  funext n
  rw [kind_settledNode]

theorem lastFbWidth_settledNodes (places : List Nat) :
    lastFbWidth (g.settledNodes ls) places = lastFbWidth g.nodes places := by
  induction places using List.reverseRecOn with
  | nil => rfl
  | append_singleton places i ih =>
    rw [lastFbWidth_snoc, lastFbWidth_snoc, ih, getElem?_settledNodes]
    cases g.nodes[i]? with
    | none => rfl
    | some n =>
      rw [Option.map_some, Option.filter_some, Option.filter_some]
      unfold LayoutNode.isFb
      rw [kind_settledNode]
      split
      · next hfb =>
        have helement : n.isElement = true := by
          unfold LayoutNode.isElement LayoutNode.isPlacedFromLeft LayoutNode.isFb
          rw [hfb, Bool.or_true, Bool.true_or]
        rw [Option.map_some, Option.map_some, size_settledNode helement]
      · rfl

/-- The next layout has other coils at most. -/
theorem left_settledNode {coilX : Target.F64} (h : n.isElement = true) :
    left coilX (g.settledNodes ls) before (g.settledNode ls i n) = left coilX g.nodes before n := by
  have hcontact : (g.settledNode ls i n).isContact = n.isContact := congrArg (· == "node:contact") (kind_settledNode ..)
  have hfb : (g.settledNode ls i n).isFb = n.isFb := congrArg (· == "node:fb") (kind_settledNode ..)
  have hcontacts : count (g.settledNodes ls) LayoutNode.isContact before = count g.nodes LayoutNode.isContact before :=
    count_settledNodes "node:contact" before
  have hcoils : count (g.settledNodes ls) LayoutNode.isCoil before = count g.nodes LayoutNode.isCoil before :=
    count_settledNodes "node:coil" before
  unfold left
  rw [hcontact, hfb, size_settledNode h, lastFbWidth_settledNodes, hcontacts, hcoils]

theorem left_of_not_coil {coilX coilX' : Target.F64} {nodes : List LayoutNode}
    (h : n.isPlacedFromLeft = true) : left coilX nodes before n = left coilX' nodes before n := by
  unfold left
  cases hcontact : n.isContact with
  | true => rfl
  | false =>
    unfold LayoutNode.isPlacedFromLeft at h
    rw [hcontact, Bool.false_or] at h
    rw [h]
    rfl

theorem left_of_coil {coilX : Target.F64} {nodes : List LayoutNode} (h : n.isCoil = true) :
    left coilX nodes before n =
      coilX + ofNat (count nodes LayoutNode.isCoil before) * (n.size.width + elementSpacingX) := by
  obtain ⟨hcontact, hfb⟩ := Bool.or_eq_false_iff.1 (LayoutNode.isCoil_not_placedFromLeft h)
  unfold left
  rw [hcontact, hfb, if_neg Bool.false_ne_true, if_neg Bool.false_ne_true]

theorem coilX_settledNodes : coilX (g.settledNodes ls) = coilX (g.nodes.map slim) := by
  unfold coilX maxElementWidth
  rw [List.map_map, map_settledNodes (width_settledNode g ls)]
  rfl

end

/-! ## Twice -/

namespace LayoutGraph

variable (g : LayoutGraph)

/-- The last listing of a node. -/
def lastListing (i : Nat) : Option Listing := g.listed.bind fun ls => setAll (ls.map fun l => (l.idx, l)) i

/-- Each coil that a rung lists, after some others, has the same left edge with the rails as they are as with the rails
as wide as a layout makes them. -/
def CoilsStay : Prop :=
  ∀ i n l, g.nodes[i]? = some n → n.isCoil = true → g.lastListing i = some l →
    coilX (g.nodes.map slim) + ofNat (count g.nodes LayoutNode.isCoil l.before) * (n.size.width + elementSpacingX) =
      coilX g.nodes + ofNat (count g.nodes LayoutNode.isCoil l.before) * (n.size.width + elementSpacingX)

/-- A layout of the layout is the layout. -/
def SettlesAtOnce : Prop := ∃ out, layoutLd g = some out ∧ layoutLd out = some out

variable {g} {ls : List Listing}

/-- A node stays in the next layout unless it is a coil, and a coil stays exactly if its left edge does. -/
theorem settledNode_settled_iff {i : Nat} {n : LayoutNode} (hlisted : g.listed = some ls) :
    (g.settled ls).settledNode ls i (g.settledNode ls i n) = g.settledNode ls i n ↔
      (n.isCoil = true → ∀ l, g.lastListing i = some l →
        left (coilX (g.nodes.map slim)) g.nodes l.before n = left (coilX g.nodes) g.nodes l.before n) := by
  have hlast : g.lastListing i = setAll (ls.map fun l => (l.idx, l)) i := by
    unfold lastListing
    rw [hlisted, Option.bind_some]
  rw [hlast]
  cases helement : n.isElement with
  | false =>
    have hcoil : n.isCoil = false := (Bool.or_eq_false_iff.1 helement).2
    have helement' : (g.settledNode ls i n).isElement = false := by rw [isElement_settledNode, helement]
    rw [settledNode_of_not_element helement', frame_settled, settledNode_of_not_element helement]
    exact iff_of_true (layoutRail_layoutRail ..) fun h => absurd h (Bool.eq_false_iff.1 hcoil)
  | true =>
    have helement' : (g.settledNode ls i n).isElement = true := by rw [isElement_settledNode, helement]
    rw [settledNode_of_element helement']
    cases hset : setAll (ls.map fun l => (l.idx, l)) i with
    | none => exact iff_of_true rfl fun _ l h => absurd h (Option.some_ne_none l).symm
    | some l =>
      have hnode : g.settledNode ls i n = moveTo ⟨left (coilX g.nodes) g.nodes l.before n, l.y⟩ n := by
        rw [settledNode_of_element helement, hset]
        rfl
      have hleft : left (coilX (g.settledNodes ls)) (g.settledNodes ls) l.before (g.settledNode ls i n) =
          left (coilX (g.nodes.map slim)) g.nodes l.before n := by
        rw [left_settledNode helement, coilX_settledNodes]
      show moveTo ⟨left (coilX (g.settledNodes ls)) (g.settledNodes ls) l.before (g.settledNode ls i n), l.y⟩
        (g.settledNode ls i n) = g.settledNode ls i n ↔ _
      rw [hleft, hnode, moveTo_moveTo]
      constructor
      · intro heq _ l' hl'
        rw [← Option.some.inj hl']
        exact congrArg (fun m : LayoutNode => m.position.x) heq
      · intro h
        have hsame : left (coilX (g.nodes.map slim)) g.nodes l.before n = left (coilX g.nodes) g.nodes l.before n := by
          cases hcoil : n.isCoil with
          | true => exact h hcoil l rfl
          | false =>
            unfold LayoutNode.isElement at helement
            rw [hcoil, Bool.or_false] at helement
            exact left_of_not_coil helement
        rw [hsame]

theorem settled_settled_iff (hlisted : g.listed = some ls) :
    (g.settled ls).settled ls = g.settled ls ↔ g.CoilsStay := by
  have hnodes : (g.settled ls).settled ls = g.settled ls ↔ (g.settled ls).settledNodes ls = g.settledNodes ls := by
    constructor
    · exact congrArg LayoutGraph.nodes
    · intro h
      unfold settled at h ⊢
      dsimp only at h ⊢
      rw [h, nodeMap_settledNodes, routeWires_routeWires, autoNumber_autoNumber]
  have htwice : ∀ i : Nat, ((g.settled ls).settledNodes ls)[i]? =
      g.nodes[i]?.map fun n => (g.settled ls).settledNode ls i (g.settledNode ls i n) := by
    intro i
    rw [getElem?_settledNodes]
    show (g.settledNodes ls)[i]?.map _ = _
    rw [getElem?_settledNodes, Option.map_map]
    rfl
  rw [hnodes]
  constructor
  · intro h i n l hget hcoil hl
    have hi := htwice i
    rw [h, getElem?_settledNodes, hget, Option.map_some, Option.map_some] at hi
    have hstays := (settledNode_settled_iff hlisted).1 (Option.some.inj hi).symm hcoil l hl
    rw [left_of_coil hcoil, left_of_coil hcoil] at hstays
    exact hstays
  · intro h
    apply List.ext_getElem?
    intro i
    rw [htwice, getElem?_settledNodes]
    cases hget : g.nodes[i]? with
    | none => rfl
    | some n =>
      refine congrArg some ((settledNode_settled_iff hlisted).2 fun hcoil l hl => ?_)
      rw [left_of_coil hcoil, left_of_coil hcoil]
      exact h i n l hget hcoil hl

/-- **A second layout moves nothing** exactly if the coils stay. -/
theorem settlesAtOnce_iff (g : LayoutGraph) :
    g.SettlesAtOnce ↔ (Target.overflowChecks = true → g.rungs.length < 2 ^ 32) ∧ g.CoilsStay := by
  unfold SettlesAtOnce
  rw [← listed_isSome_iff, layoutLd_settled]
  cases hlisted : g.listed with
  | none => exact iff_of_false (fun ⟨_, h, _⟩ => Option.some_ne_none _ h.symm) fun h => Bool.false_ne_true h.1
  | some ls =>
    rw [← settled_settled_iff hlisted, Option.map_some]
    constructor
    · rintro ⟨out, hout, hagain⟩
      rw [← Option.some.inj hout, layoutLd_settled, listed_settled, hlisted] at hagain
      exact ⟨rfl, Option.some.inj hagain⟩
    · rintro ⟨-, h⟩
      refine ⟨g.settled ls, rfl, ?_⟩
      rw [layoutLd_settled, listed_settled, hlisted]
      exact congrArg some h

end LayoutGraph

end Audesys.LdLayout

/-! ## Exact coordinates -/

namespace Audesys.LdLayout

open Audesys.Hal Audesys.Lib Audesys.Hal.F64

local instance againFractions : Target := fractions
local instance againFractionMath : F64Math := fractionMath

/-- A coil between rails of which one is drawn as a bar 120 units wide. -/
def barGraph : LayoutGraph where
  id := "bar"
  nodes :=
    [⟨"right", "node:powerrail", ⟨(920 : Rat), (30 : Rat)⟩, ⟨(120 : Rat), (600 : Rat)⟩, some "Right"⟩,
      ⟨"lamp", "node:coil", ⟨(0 : Rat), (0 : Rat)⟩, ⟨(36 : Rat), (36 : Rat)⟩, none⟩]
  edges := []
  rungs := [⟨"rung", 1, none, ["lamp"]⟩]

/-- The lamp goes to 736 first, and to 820 then. -/
theorem barGraph_moves : ¬ barGraph.SettlesAtOnce := by
  have hagain : (layoutLd barGraph).bind layoutLd ≠ layoutLd barGraph := by decide +kernel
  rintro ⟨out, hout, hsame⟩
  rw [hout, Option.bind_some] at hagain
  exact hagain hsame

end Audesys.LdLayout
