import Audesys.LdLayout.Model

/-!
# `LdLayout.Settled` — where the passes put the nodes

The loops of the passes count as they walk a rung. What they have counted at an element is a function of the elements
listed before it, and only sizes and kinds of nodes are read, which the passes for elements leave alone. So each element
of the result stands where its last listing puts it (`layoutLd_settled`).
-/

open List

namespace Audesys.LdLayout

open Audesys.Hal Audesys.Lib Audesys.Hal.F64

variable [Target]
variable {n : LayoutNode}

/-! ## Elements listed by rungs -/

namespace LayoutNode

variable (n : LayoutNode)

def isContact : Bool := n.kind == "node:contact"

def isFb : Bool := n.kind == "node:fb"

def isCoil : Bool := n.kind == "node:coil"

/-- What `layout_contacts` places. -/
def isPlacedFromLeft : Bool := n.isContact || n.isFb

/-- The nodes that stand in rungs. -/
def isElement : Bool := n.isPlacedFromLeft || n.isCoil

/-- What the passes read of a node. -/
def shape : String × Size := (n.kind, n.size)

end LayoutNode

/-- An element that a rung lists: its place among the nodes, the places listed before it, and the rung's row. -/
structure Listing where
  before : List Nat
  idx : Nat
  y : Target.F64

/-- The listings of one rung. -/
def rungListings (map : String → Option Nat) (rung : RungDef) (y : Target.F64) : List Listing :=
  (withBefore [] (rung.elementIds.filterMap map)).map fun p => ⟨p.1, p.2, y⟩

/-- The listings of all rungs that have a row. -/
def listings (map : String → Option Nat) (rungRows : List RungRow) : List RungDef → Option (List Listing)
  | [] => some []
  | rung :: rungs => do
    let row ← rowOf rungRows rung
    let rest ← listings map rungRows rungs
    return (row.elim [] fun row => rungListings map rung row.y) ++ rest

/-- Two lists of nodes that differ in positions at most. -/
def Alike (ns nodes : List LayoutNode) : Prop :=
  ∀ i : Nat, ns[i]?.map LayoutNode.shape = nodes[i]?.map LayoutNode.shape

section
variable {ns nodes : List LayoutNode}

theorem moveTo_moveTo (p q : Point) (n : LayoutNode) : moveTo p (moveTo q n) = moveTo p n := rfl

theorem shape_moveTo (p : Point) (n : LayoutNode) : (moveTo p n).shape = n.shape := rfl

theorem Alike.settle (h : Alike ns nodes) (ws : List (Nat × Point)) : Alike (settle moveTo ns ws) nodes := by
  intro i
  rw [← h i]
  exact getElem?_settle_map shape_moveTo ns ws i

theorem Alike.none (h : Alike ns nodes) {i : Nat} (hget : ns[i]? = none) : nodes[i]? = none := by
  have hi := h i
  rw [hget] at hi
  exact Option.map_eq_none_iff.1 hi.symm

theorem Alike.some (h : Alike ns nodes) {i : Nat} (hget : ns[i]? = some n) :
    ∃ n', nodes[i]? = some n' ∧ n'.kind = n.kind ∧ n'.size = n.size := by
  have hi := h i
  rw [hget, Option.map_some] at hi
  obtain ⟨n', hn', heq⟩ := Option.map_eq_some_iff.1 hi.symm
  exact ⟨n', hn', congrArg Prod.fst heq, congrArg Prod.snd heq⟩

end

section
variable (nodes : List LayoutNode)

/-- How many of the nodes at these places are of some kind. -/
def count (of : LayoutNode → Bool) (places : List Nat) : Nat := places.countP fun i => nodes[i]?.any of

/-- The width of the last function block at these places. -/
def lastFbWidth (places : List Nat) : Option Target.F64 :=
  ((places.filterMap (nodes[·]?)).filter LayoutNode.isFb).getLast?.map (·.size.width)

theorem count_snoc (of : LayoutNode → Bool) (places : List Nat) (i : Nat) :
    count nodes of (places ++ [i]) = if nodes[i]?.any of then count nodes of places + 1 else count nodes of places := by
  unfold count
  rw [countP_append, countP_singleton]
  split
  · rfl
  · rfl

theorem lastFbWidth_snoc (places : List Nat) (i : Nat) : lastFbWidth nodes (places ++ [i]) =
      ((nodes[i]?.filter LayoutNode.isFb).map (·.size.width)).or (lastFbWidth nodes places) := by
  unfold lastFbWidth
  rw [filterMap_append, filter_append]
  cases hget : nodes[i]? with
  | none =>
    rw [filterMap_cons_none hget, filterMap_nil, filter_nil, List.append_nil]
    rfl
  | some n =>
    rw [filterMap_cons_some hget, filterMap_nil, filter_cons, filter_nil, Option.filter_some]
    cases n.isFb with
    | true =>
      rw [if_pos rfl, getLast?_concat]
      rfl
    | false =>
      rw [if_neg Bool.false_ne_true, List.append_nil]
      rfl

end

/-! ## Left edges -/

section
variable [F64Math] (coilX : Target.F64) (nodes : List LayoutNode)

/-- The left edge of an element after those at some places of its rung. -/
def left (before : List Nat) (n : LayoutNode) : Target.F64 :=
  if n.isContact then
    match lastFbWidth nodes before with
    | none => elementStartX + ofNat (count nodes LayoutNode.isContact before) * (n.size.width + elementSpacingX)
    | some fbWidth =>
      elementStartX + fbWidth + elementSpacingX +
        ofNat (count nodes LayoutNode.isContact before) * (n.size.width + elementSpacingX)
  else if n.isFb then
    elementStartX + ofNat (count nodes LayoutNode.isContact before) * (n.size.width + elementSpacingX)
  else
    coilX + ofNat (count nodes LayoutNode.isCoil before) * (n.size.width + elementSpacingX)

namespace Listing

variable (l : Listing)

/-- Where a pass for some kinds of nodes puts what is listed. -/
def mark (of : LayoutNode → Bool) : Option Point :=
  (nodes[l.idx]?.filter of).map fun n => ⟨left coilX nodes l.before n, l.y⟩

/-- What a pass for some kinds of nodes writes. -/
def writes (of : LayoutNode → Bool) (ls : List Listing) : List (Nat × Point) :=
  ls.filterMap fun l => (l.mark coilX nodes of).map (l.idx, ·)

variable {coilX nodes l} {of : LayoutNode → Bool}

theorem mark_of_none (h : nodes[l.idx]? = none) : l.mark coilX nodes of = none := by
  unfold mark
  rw [h]
  rfl

theorem mark_of_some (h : nodes[l.idx]? = some n) :
    l.mark coilX nodes of = if of n then some ⟨left coilX nodes l.before n, l.y⟩ else none := by
  unfold mark
  rw [h, Option.filter_some]
  split
  · rfl
  · rfl

end Listing

end

/-! ## The loops -/

section
variable [F64Math] {nodes : List LayoutNode} {coilX : Target.F64} {before : List Nat} {map : String → Option Nat}
  {elemId : String} {i : Nat}

/-- The loop over the elements of a rung after those at some places. -/
structure ContactLoop.At (nodes : List LayoutNode) (before : List Nat) (s : ContactLoop) : Prop where
  alike : Alike s.nodes nodes
  contactCount : s.contactCount = count nodes LayoutNode.isContact before
  fbSeen : s.fbSeen = (lastFbWidth nodes before).isSome
  fbWidthOffset : s.fbWidthOffset = (lastFbWidth nodes before).getD zero

omit [F64Math] in
/-- Nothing happens at other nodes. -/
theorem ContactLoop.At.skip {s : ContactLoop} (h : s.At nodes before)
    (hnot : nodes[i]?.any LayoutNode.isPlacedFromLeft = false) : s.At nodes (before ++ [i]) := by
  have hparts : nodes[i]?.any LayoutNode.isContact = false ∧ nodes[i]?.filter LayoutNode.isFb = none := by
    cases hget : nodes[i]? with
    | none => exact ⟨rfl, rfl⟩
    | some n =>
      rw [hget] at hnot
      obtain ⟨hcontact, hfb⟩ := Bool.or_eq_false_iff.1 (show (n.isContact || n.isFb) = false from hnot)
      exact ⟨hcontact, (Option.filter_some ..).trans (if_neg (Bool.eq_false_iff.1 hfb))⟩
  have hlast : lastFbWidth nodes (before ++ [i]) = lastFbWidth nodes before := by
    rw [lastFbWidth_snoc, hparts.2]
    rfl
  refine ⟨h.alike, ?_, ?_, ?_⟩
  · rw [count_snoc, hparts.1]
    exact h.contactCount
  · rw [hlast]
    exact h.fbSeen
  · rw [hlast]
    exact h.fbWidthOffset

theorem ContactLoop.At.place {s : ContactLoop} (h : s.At nodes before) (hmap : map elemId = some i) (row : RungRow) :
    (s.place map row elemId).At nodes (before ++ [i]) ∧
      (s.place map row elemId).nodes =
        settle moveTo s.nodes (Listing.writes coilX nodes LayoutNode.isPlacedFromLeft [⟨before, i, row.y⟩]) := by
  unfold ContactLoop.place Listing.writes
  rw [hmap, filterMap_cons, filterMap_nil]
  dsimp only
  cases hget : s.nodes[i]? with
  | none =>
    have hnone := h.alike.none hget
    rw [Listing.mark_of_none hnone]
    exact ⟨h.skip (hnone ▸ rfl), rfl⟩
  | some n =>
    obtain ⟨n', hn', hkind, hsize⟩ := h.alike.some hget
    rw [Listing.mark_of_some hn']
    dsimp only
    rw [← hkind, ← hsize]
    split
    · next hcontact =>
      have hisContact : n'.isContact = true := beq_iff_eq.2 hcontact
      have hisFb : n'.isFb = false := beq_eq_false_iff_ne.2 (hcontact ▸ by decide)
      have hlast : lastFbWidth nodes (before ++ [i]) = lastFbWidth nodes before := by
        rw [lastFbWidth_snoc, hn', Option.filter_some, if_neg (Bool.eq_false_iff.1 hisFb)]
        rfl
      refine ⟨⟨?_, ?_, ?_, ?_⟩, ?_⟩
      · exact h.alike.settle [(i, _)]
      · rw [count_snoc, hn', Option.any_some, if_pos hisContact, ← h.contactCount]
      · rw [hlast]
        exact h.fbSeen
      · rw [hlast]
        exact h.fbWidthOffset
      · unfold left LayoutNode.isPlacedFromLeft
        rw [hisContact, Bool.true_or, if_pos rfl, if_pos rfl, h.contactCount, h.fbSeen, h.fbWidthOffset]
        cases lastFbWidth nodes before with
        | none => rfl
        | some fbWidth => rfl
    · next hfb =>
      have hisContact : n'.isContact = false := beq_eq_false_iff_ne.2 (hfb ▸ by decide)
      have hisFb : n'.isFb = true := beq_iff_eq.2 hfb
      have hlast : lastFbWidth nodes (before ++ [i]) = some n'.size.width := by
        rw [lastFbWidth_snoc, hn', Option.filter_some, if_pos hisFb]
        rfl
      refine ⟨⟨?_, ?_, ?_, ?_⟩, ?_⟩
      · exact h.alike.settle [(i, _)]
      · rw [count_snoc, hn', Option.any_some, hisContact]
        exact h.contactCount
      · rw [hlast]
        rfl
      · rw [hlast]
        rfl
      · unfold left LayoutNode.isPlacedFromLeft
        rw [hisContact, hisFb, Bool.false_or, if_pos rfl, if_neg Bool.false_ne_true, if_pos rfl, h.contactCount]
        rfl
    · next hcontact hfb =>
      have hnot : n'.isPlacedFromLeft = false :=
        Bool.or_eq_false_iff.2 ⟨beq_eq_false_iff_ne.2 hcontact, beq_eq_false_iff_ne.2 hfb⟩
      rw [hnot]
      exact ⟨h.skip (by rw [hn']; exact hnot), rfl⟩

/-- The loop of `layout_coils` after the elements at some places. -/
structure CoilLoop.At (nodes : List LayoutNode) (before : List Nat) (s : CoilLoop) : Prop where
  alike : Alike s.nodes nodes
  coilCount : s.coilCount = count nodes LayoutNode.isCoil before

theorem CoilLoop.At.place {s : CoilLoop} (h : s.At nodes before) (hmap : map elemId = some i) (row : RungRow) :
    (s.place map row coilX elemId).At nodes (before ++ [i]) ∧
      (s.place map row coilX elemId).nodes =
        settle moveTo s.nodes (Listing.writes coilX nodes LayoutNode.isCoil [⟨before, i, row.y⟩]) := by
  unfold CoilLoop.place Listing.writes
  rw [hmap, filterMap_cons, filterMap_nil]
  dsimp only
  cases hget : s.nodes[i]? with
  | none =>
    have hnone := h.alike.none hget
    rw [Listing.mark_of_none hnone]
    refine ⟨⟨h.alike, ?_⟩, rfl⟩
    rw [count_snoc, hnone]
    exact h.coilCount
  | some n =>
    obtain ⟨n', hn', hkind, hsize⟩ := h.alike.some hget
    rw [Listing.mark_of_some hn']
    dsimp only
    rw [← hkind, ← hsize]
    split
    · next hcoil =>
      have hisContact : n'.isContact = false := beq_eq_false_iff_ne.2 (hcoil ▸ by decide)
      have hisFb : n'.isFb = false := beq_eq_false_iff_ne.2 (hcoil ▸ by decide)
      have hisCoil : n'.isCoil = true := beq_iff_eq.2 hcoil
      refine ⟨⟨h.alike.settle [(i, _)], ?_⟩, ?_⟩
      · rw [count_snoc, hn', Option.any_some, if_pos hisCoil, ← h.coilCount]
      · unfold left
        rw [hisContact, hisFb, hisCoil, if_pos rfl, if_neg Bool.false_ne_true, if_neg Bool.false_ne_true, h.coilCount]
        rfl
    · next hcoil =>
      have hisCoil : n'.isCoil = false := beq_eq_false_iff_ne.2 hcoil
      refine ⟨⟨h.alike, ?_⟩, ?_⟩
      · rw [count_snoc, hn', Option.any_some, hisCoil]
        exact h.coilCount
      · rw [hisCoil]
        rfl

/-- A loop over the elements of a rung makes one write for each listing that it places. -/
theorem foldl_place {S : Type} (At : List Nat → S → Prop) (nodesOf : S → List LayoutNode) {place : S → String → S}
    {of : LayoutNode → Bool} {y : Target.F64} (hskip : ∀ s elemId, map elemId = none → place s elemId = s)
    (hplace : ∀ before s elemId i, At before s → map elemId = some i → At (before ++ [i]) (place s elemId) ∧
      nodesOf (place s elemId) = settle moveTo (nodesOf s) (Listing.writes coilX nodes of [⟨before, i, y⟩]))
    {s : S} (h : At before s) (elementIds : List String) : nodesOf (elementIds.foldl place s) =
      settle moveTo (nodesOf s) (Listing.writes coilX nodes of
        ((withBefore before (elementIds.filterMap map)).map fun p => ⟨p.1, p.2, y⟩)) := by
  induction elementIds generalizing s before with
  | nil => rfl
  | cons elemId rest ih =>
    rw [foldl_cons]
    cases hmap : map elemId with
    | none =>
      rw [hskip s elemId hmap, filterMap_cons_none hmap]
      exact ih h
    | some i =>
      obtain ⟨hat, hnodes⟩ := hplace before s elemId i h hmap
      rw [ih hat, hnodes, ← settle_append, filterMap_cons_some hmap, withBefore, map_cons]
      unfold Listing.writes
      rw [← filterMap_append]
      rfl

end

/-! ## The passes -/

section
variable [F64Math] {nodes ns : List LayoutNode} {coilX : Target.F64} {map : String → Option Nat}
  {rungRows : List RungRow}

/-- A pass over the rungs writes what the listings say, where its loop does so in each rung. -/
theorem overRungs_eq {layoutRung : RungRow → RungDef → List LayoutNode → List LayoutNode} {of : LayoutNode → Bool}
    (hrung : ∀ row rung ns, Alike ns nodes →
      layoutRung row rung ns = settle moveTo ns (Listing.writes coilX nodes of (rungListings map rung row.y)))
    (h : Alike ns nodes) (rungs : List RungDef) : overRungs rungRows layoutRung rungs ns =
      (listings map rungRows rungs).map fun ls => settle moveTo ns (Listing.writes coilX nodes of ls) := by
  induction rungs generalizing ns with
  | nil => rfl
  | cons rung rungs ih =>
    unfold overRungs listings
    cases hrow : rowOf rungRows rung with
    | none => rfl
    | some row =>
      cases row with
      | none =>
        dsimp only [Option.bind_eq_bind, Option.bind_some]
        rw [ih h]
        cases listings map rungRows rungs with
        | none => rfl
        | some ls => rfl
      | some row =>
        dsimp only [Option.bind_eq_bind, Option.bind_some]
        rw [hrung row rung ns h, ih (h.settle _)]
        cases listings map rungRows rungs with
        | none => rfl
        | some ls =>
          refine congrArg some ?_
          show settle moveTo (settle moveTo ns _) _ = settle moveTo ns _
          unfold Listing.writes
          rw [← settle_append, Option.elim_some, filterMap_append]

theorem layoutContacts_eq (coilX : Target.F64) (h : Alike ns nodes) (rungs : List RungDef) :
    layoutContacts map rungRows rungs ns =
      (listings map rungRows rungs).map fun ls =>
        settle moveTo ns (Listing.writes coilX nodes LayoutNode.isPlacedFromLeft ls) := by
  apply overRungs_eq _ h
  intro row rung ns h
  apply foldl_place (ContactLoop.At nodes) ContactLoop.nodes
  · intro s elemId hmap
    unfold ContactLoop.place
    rw [hmap]
  · intro before s elemId i hs hmap
    exact hs.place hmap row
  · exact ⟨h, rfl, rfl, rfl⟩

theorem layoutCoils_eq (h : Alike ns nodes) (rungs : List RungDef) : layoutCoils map rungRows coilX rungs ns =
      (listings map rungRows rungs).map fun ls =>
        settle moveTo ns (Listing.writes coilX nodes LayoutNode.isCoil ls) := by
  apply overRungs_eq _ h
  intro row rung ns h
  apply foldl_place (CoilLoop.At nodes) CoilLoop.nodes
  · intro s elemId hmap
    unfold CoilLoop.place
    rw [hmap]
  · intro before s elemId i hs hmap
    exact hs.place hmap row
  · exact ⟨h, rfl⟩

end

/-! ## The result -/

section
variable [F64Math] (g : LayoutGraph) (ls : List Listing)

namespace LayoutGraph

/-- Rows, rails and coils of a graph. -/
def frame : Frame := layoutRungs g.nodes (autoNumber g.rungs)

/-- The listings of a graph; `none` where the number of a rung panics. -/
def listed : Option (List Listing) := listings (nodeMap g.nodes) g.frame.rungRows (autoNumber g.rungs)

/-- Where a node ends: an element by its last listing, a rail at its side. -/
def settledNode (i : Nat) (n : LayoutNode) : LayoutNode :=
  if n.isElement then
    (setAll (ls.map fun l => (l.idx, l)) i).elim n fun l => moveTo ⟨left (coilX g.nodes) g.nodes l.before n, l.y⟩ n
  else layoutRail g.frame.railY g.frame.railHeight g.frame.railRightX n

def settledNodes : List LayoutNode := g.nodes.mapIdx (g.settledNode ls)

def settled : LayoutGraph :=
  { g with
    nodes := g.settledNodes ls
    edges := routeWires g.edges (g.settledNodes ls) (nodeMap g.nodes)
    rungs := autoNumber g.rungs }

end LayoutGraph

variable {nodes : List LayoutNode} {of : LayoutNode → Bool} {i : Nat}

/-- What a pass leaves at a node is written by the node's last listing. -/
theorem getElem?_settle_writes {coilX : Target.F64} (xs : List LayoutNode) (h : nodes[i]? = some n) :
    (settle moveTo xs (Listing.writes coilX nodes of ls))[i]? =
      xs[i]?.map fun x => if of n then
          (setAll (ls.map fun l => (l.idx, l)) i).elim x fun l => moveTo ⟨left coilX nodes l.before n, l.y⟩ x
        else x := by
  have hmark : ∀ l ∈ ls, ∀ l' ∈ ls, l.idx = l'.idx →
      (l.mark coilX nodes of).isSome = (l'.mark coilX nodes of).isSome := by
    intro l _ l' _ hidx
    unfold Listing.mark
    rw [hidx, Option.isSome_map, Option.isSome_map]
  rw [getElem?_settle moveTo_moveTo]
  apply congrArg (Option.map · xs[i]?)
  funext x
  unfold Listing.writes
  rw [setAll_filterMap hmark]
  cases hlast : setAll (ls.map fun l => (l.idx, l)) i with
  | none => exact (ite_self x).symm
  | some l =>
    obtain ⟨l', -, heq⟩ := mem_map.1 (mem_of_setAll hlast)
    rw [Prod.mk.injEq] at heq
    have hidx : nodes[l.idx]? = some n := by
      rw [← heq.2, heq.1]
      exact h
    rw [Option.bind_some, Listing.mark_of_some hidx]
    split
    · rfl
    · rfl

theorem layoutRail_of_not_rail {railY railHeight railRightX : Target.F64}
    (h : n.kind ≠ "node:powerrail") : layoutRail railY railHeight railRightX n = n := if_neg h

omit [F64Math] in
theorem LayoutNode.isElement_not_rail (h : n.isElement = true) : n.kind ≠ "node:powerrail" := by
  intro hkind
  unfold LayoutNode.isElement LayoutNode.isPlacedFromLeft LayoutNode.isContact LayoutNode.isFb LayoutNode.isCoil at h
  rw [hkind] at h
  exact absurd h (by decide)

omit [F64Math] in
theorem LayoutNode.isCoil_not_placedFromLeft (h : n.isCoil = true) : n.isPlacedFromLeft = false := by
  unfold LayoutNode.isPlacedFromLeft LayoutNode.isContact LayoutNode.isFb
  rw [beq_iff_eq.1 h]
  decide

/-- The three passes over the nodes. -/
theorem settledNodes_eq : layoutRails g.frame.railY g.frame.railHeight g.frame.railRightX
      (settle moveTo (settle moveTo g.nodes (Listing.writes (coilX g.nodes) g.nodes LayoutNode.isPlacedFromLeft ls))
        (Listing.writes (coilX g.nodes) g.nodes LayoutNode.isCoil ls)) = g.settledNodes ls := by
  apply ext_getElem?
  intro i
  unfold layoutRails LayoutGraph.settledNodes
  rw [getElem?_map, getElem?_mapIdx]
  cases hget : g.nodes[i]? with
  | none =>
    rw [getElem?_settle moveTo_moveTo, getElem?_settle moveTo_moveTo, hget]
    rfl
  | some n =>
    rw [getElem?_settle_writes ls _ hget, getElem?_settle_writes ls _ hget, hget]
    apply congrArg some
    unfold LayoutGraph.settledNode LayoutNode.isElement
    dsimp only [Function.comp_apply]
    -- the pass for rails leaves what the others place
    have hstays : n.isElement = true → ∀ o : Option Listing,
        layoutRail g.frame.railY g.frame.railHeight g.frame.railRightX
          (o.elim n fun l => moveTo ⟨left (coilX g.nodes) g.nodes l.before n, l.y⟩ n) =
        o.elim n fun l => moveTo ⟨left (coilX g.nodes) g.nodes l.before n, l.y⟩ n := by
      intro h o
      cases o with
      | none => exact layoutRail_of_not_rail (LayoutNode.isElement_not_rail h)
      | some l => exact layoutRail_of_not_rail (LayoutNode.isElement_not_rail h)
    unfold LayoutNode.isElement at hstays
    cases hcoil : n.isCoil with
    | true =>
      rw [LayoutNode.isCoil_not_placedFromLeft hcoil, Bool.false_or, if_neg Bool.false_ne_true, if_pos rfl, if_pos rfl]
      exact hstays (by rw [hcoil, Bool.or_true]) _
    | false =>
      rw [Bool.or_false, if_neg Bool.false_ne_true]
      cases hleft : n.isPlacedFromLeft with
      | true =>
        rw [if_pos rfl, if_pos rfl]
        exact hstays (by rw [hleft, Bool.true_or]) _
      | false => rw [if_neg Bool.false_ne_true, if_neg Bool.false_ne_true]

/-- **Where the passes put the nodes.** -/
theorem layoutLd_settled : layoutLd g = g.listed.map g.settled := by
  have halike : Alike g.nodes g.nodes := fun _ => rfl
  have hcontacts : layoutContacts (nodeMap g.nodes) g.frame.rungRows (autoNumber g.rungs) g.nodes = g.listed.map _ :=
    layoutContacts_eq (coilX g.nodes) halike (autoNumber g.rungs)
  unfold layoutLd
  show (layoutContacts (nodeMap g.nodes) g.frame.rungRows (autoNumber g.rungs) g.nodes).bind _ = _
  rw [hcontacts]
  cases hlisted : g.listed with
  | none => rfl
  | some ls =>
    have hcoils : layoutCoils (nodeMap g.nodes) g.frame.rungRows (coilX g.nodes) (autoNumber g.rungs) _ =
        g.listed.map _ :=
      layoutCoils_eq (halike.settle (Listing.writes (coilX g.nodes) g.nodes LayoutNode.isPlacedFromLeft ls))
        (autoNumber g.rungs)
    rw [hlisted] at hcoils
    rw [Option.map_some, Option.bind_some]
    show (layoutCoils (nodeMap g.nodes) g.frame.rungRows (coilX g.nodes) (autoNumber g.rungs) _).bind _ = _
    rw [hcoils, Option.map_some, Option.bind_some, Option.map_some]
    unfold LayoutGraph.settled
    rw [← settledNodes_eq]
    rfl

end

/-! ## Rows -/

section
variable {rungRows : List RungRow} {rung : RungDef}

theorem rowOf_of_index {index : UInt64} (h : MachineInt.sub (UInt64.ofNat rung.rungNumber.toNat) 1 = some index) :
    rowOf rungRows rung = some (rungRows.find? fun row => row.index == index.toNat) := by
  unfold rowOf
  rw [h]
  exact findM?_pure ..

theorem rowOf_of_panic (h : MachineInt.sub (UInt64.ofNat rung.rungNumber.toNat) 1 = none) (hrows : rungRows ≠ []) :
    rowOf rungRows rung = none := by
  cases rungRows with
  | nil => exact absurd rfl hrows
  | cons row rows =>
    unfold rowOf
    rw [h]
    rfl

/-- A rung is numbered from one; the number zero is one that has wrapped. -/
theorem index_of_number (h : rung.rungNumber ≠ 0) :
    MachineInt.sub (UInt64.ofNat rung.rungNumber.toNat) 1 = some (.ofNat (rung.rungNumber.toNat - 1)) := by
  have hpos : 0 < rung.rungNumber.toNat := Nat.pos_of_ne_zero fun h0 => h (UInt32.toNat_inj.1 h0)
  have hlt : rung.rungNumber.toNat < 2 ^ 32 := rung.rungNumber.toNat_lt
  have hto : (UInt64.ofNat rung.rungNumber.toNat).toNat = rung.rungNumber.toNat :=
    UInt64.toNat_ofNat_of_lt' (hlt.trans (by decide))
  have hsub : MachineInt.toInt (UInt64.ofNat rung.rungNumber.toNat) - MachineInt.toInt (1 : UInt64) =
      ((rung.rungNumber.toNat - 1 : Nat) : Int) := by
    show ((UInt64.ofNat rung.rungNumber.toNat).toNat : Int) - 1 = _
    rw [hto]
    omega
  have hrange : MachineInt.InRange UInt64 ((rung.rungNumber.toNat - 1 : Nat) : Int) := by
    constructor
    · exact Int.natCast_nonneg _
    · show ((rung.rungNumber.toNat - 1 : Nat) : Int) ≤ 2 ^ 64 - 1
      omega
  have hmod : (((rung.rungNumber.toNat - 1 : Nat) : Int) % 2 ^ 64).toNat = rung.rungNumber.toNat - 1 := by omega
  unfold MachineInt.sub
  rw [hsub, MachineInt.checked_of_inRange hrange]
  show some (UInt64.ofNat (((rung.rungNumber.toNat - 1 : Nat) : Int) % 2 ^ 64).toNat) = _
  rw [hmod]

theorem index_of_zero (h : rung.rungNumber = 0) :
    (MachineInt.sub (UInt64.ofNat rung.rungNumber.toNat) 1 : Option UInt64).isSome ↔ Target.overflowChecks = false := by
  rw [h]
  unfold MachineInt.sub MachineInt.checked
  rw [if_neg (by decide)]
  cases Target.overflowChecks with
  | true => exact iff_of_false Bool.false_ne_true Bool.true_eq_false_eq_False
  | false => exact iff_of_true rfl rfl

theorem rowOf_isSome_iff (hrows : rungRows ≠ []) :
    (rowOf rungRows rung).isSome ↔ (Target.overflowChecks = true → rung.rungNumber ≠ 0) := by
  by_cases hzero : rung.rungNumber = 0
  · cases hindex : (MachineInt.sub (UInt64.ofNat rung.rungNumber.toNat) 1 : Option UInt64) with
    | none =>
      have hchecks : Target.overflowChecks = true := by
        rw [← Bool.not_eq_false, ← index_of_zero hzero, hindex]
        exact Bool.false_ne_true
      rw [rowOf_of_panic hindex hrows]
      exact iff_of_false Bool.false_ne_true fun h => h hchecks hzero
    | some index =>
      have hchecks : Target.overflowChecks = false := by
        rw [← index_of_zero hzero, hindex]
        rfl
      rw [rowOf_of_index hindex]
      exact iff_of_true rfl fun h => absurd h (Bool.eq_false_iff.1 hchecks)
  · rw [rowOf_of_index (index_of_number hzero)]
    exact iff_of_true rfl fun _ => hzero

theorem listings_isSome_iff {map : String → Option Nat} {rungs : List RungDef} :
    (listings map rungRows rungs).isSome ↔ ∀ rung ∈ rungs, (rowOf rungRows rung).isSome := by
  induction rungs with
  | nil => exact iff_of_true rfl fun _ h => absurd h not_mem_nil
  | cons rung rungs ih =>
    rw [forall_mem_cons, ← ih, listings]
    cases rowOf rungRows rung with
    | none => exact iff_of_false Bool.false_ne_true fun h => Bool.false_ne_true h.1
    | some row =>
      dsimp only [Option.bind_eq_bind, Option.bind_some]
      cases listings map rungRows rungs with
      | none => exact iff_of_false Bool.false_ne_true fun h => Bool.false_ne_true h.2
      | some ls => exact iff_of_true rfl ⟨rfl, rfl⟩

omit [Target] in
theorem length_autoNumber (rungs : List RungDef) : (autoNumber rungs).length = rungs.length := length_mapIdx

omit [Target] in
theorem getElem?_autoNumber (rungs : List RungDef) (i : Nat) :
    (autoNumber rungs)[i]? = rungs[i]?.map fun rung => { rung with rungNumber := .ofNat (i + 1) } :=
  getElem?_mapIdx

theorem rungRows_frame [F64Math] (g : LayoutGraph) : g.frame.rungRows = (List.range g.rungs.length).map rowAt := by
  rw [← length_autoNumber g.rungs]
  rfl

theorem rungRows_ne_nil [F64Math] {g : LayoutGraph} {i : Nat} (h : i < g.rungs.length) : g.frame.rungRows ≠ [] := by
  rw [rungRows_frame]
  intro hnil
  have hlen := congrArg List.length hnil
  rw [length_map, length_range, length_nil] at hlen
  omega

/-- **A layout panics** exactly where overflow is checked and the number of a rung wraps to zero. -/
theorem listed_isSome_iff [F64Math] (g : LayoutGraph) :
    g.listed.isSome ↔ (Target.overflowChecks = true → g.rungs.length < 2 ^ 32) := by
  unfold LayoutGraph.listed
  rw [listings_isSome_iff]
  constructor
  · intro h hchecks
    by_contra hge
    have hi : 2 ^ 32 - 1 < g.rungs.length := by omega
    have hmem := mem_of_getElem? ((getElem?_autoNumber g.rungs (2 ^ 32 - 1)).trans
      (congrArg (Option.map _) (getElem?_eq_getElem hi)))
    have hrows : g.frame.rungRows ≠ [] := rungRows_ne_nil hi
    exact (rowOf_isSome_iff hrows).1 (h _ hmem) hchecks (show UInt32.ofNat (2 ^ 32 - 1 + 1) = 0 by decide)
  · intro h rung hmem
    obtain ⟨i, hi⟩ := mem_iff_getElem?.1 hmem
    rw [getElem?_autoNumber] at hi
    obtain ⟨rung', hrung', rfl⟩ := Option.map_eq_some_iff.1 hi
    have hlt : i < g.rungs.length := (List.getElem?_eq_some_iff.1 hrung').1
    have hrows : g.frame.rungRows ≠ [] := rungRows_ne_nil hlt
    rw [rowOf_isSome_iff hrows]
    intro hchecks hzero
    have hbound := h hchecks
    have hto := congrArg UInt32.toNat hzero
    rw [UInt32.toNat_ofNat'] at hto
    have : (0 : UInt32).toNat = 0 := rfl
    omega

end

end Audesys.LdLayout
