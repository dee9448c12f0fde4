import Audesys.LdEditor.Rows

/-!
# `LdEditor.Wires` — the wires of a main row

The wires of a rung mirror its main row: from the left rail through the elements to the right rail. `addContact`,
`addCoil`, `addFb` and `deleteElement` patch the wires next to an element and get them right only where the element is
alone in its rung; `reorderElement` and `pasteElements` build the row again, without the pins of function blocks and
without the wire behind a coil.
-/

open List

namespace Audesys.LdEditor

open Audesys.Lib Audesys.Editor

variable {left right : BaseNode} {ids : List String} {id : String} {rung : Rung} {added : List BaseNode}
variable {dropped : List String} {elementId : String}
    {side : PowerRailSide} {rail : BaseNode} {node : BaseNode} {graph : LdGraph} {rungId : String}

/-- The wire touches one of the nodes. -/
def Wire.touches (wire : Wire) (ids : List String) : Bool := ids.contains wire.sourceId || ids.contains wire.targetId

theorem Wire.touches_iff {wire : Wire} :
    wire.touches ids = true ↔ wire.sourceId ∈ ids ∨ wire.targetId ∈ ids := by
  unfold Wire.touches
  rw [Bool.or_eq_true, contains_iff_mem, contains_iff_mem]

/-- A wire between two ends through a row touches nothing else. -/
theorem Wire.touches_eq_false {wire : Wire} {left right : String} {ids others : List String}
    (hends : (wire.sourceId = left ∨ wire.sourceId ∈ ids) ∧ (wire.targetId = right ∨ wire.targetId ∈ ids))
    (hleft : left ∉ others) (hright : right ∉ others) (hids : ∀ id ∈ ids, id ∉ others) :
    wire.touches others = false := by
  rw [← Bool.not_eq_true, Wire.touches_iff, not_or]
  constructor
  · rcases hends.1 with hsource | hsource
    · rw [hsource]
      exact hleft
    · exact hids _ hsource
  · rcases hends.2 with htarget | htarget
    · rw [htarget]
      exact hright
    · exact hids _ htarget

namespace LdGraph

/-- The wires without their ids. -/
def wires (graph : LdGraph) : List Wire := graph.edges.map (·.toWire)

/-- The node is a function block. -/
def isFb (graph : LdGraph) (id : String) : Bool := (graph.findNode id).any (·.kind.isFb)

/-- A wire of a main row: into a block at `EN`, and out of one at `ENO`. -/
def rowWire (graph : LdGraph) (source target : String) : Wire where
  sourceId := source
  targetId := target
  sourcePin := if graph.isFb source then some "ENO" else none
  targetPin := if graph.isFb target then some "EN" else none

/-- The wires of a main row between two ends. -/
def rowWires (graph : LdGraph) (left right : String) : List String → List Wire
  | [] => [graph.rowWire left right]
  | id :: rest => graph.rowWire left id :: rowWires graph id right rest

/-- The wires at the elements of a row, if there are any, are those from the left rail through the elements to the right
rail. -/
def Mirrors (graph : LdGraph) (elementIds : List String) : Prop :=
  elementIds ≠ [] → ∃ left right, graph.findRail .left = some left ∧ graph.findRail .right = some right ∧
    (graph.wires.filter (·.touches elementIds)).Perm (graph.rowWires left.id right.id elementIds)

/-- The wires mirror the main rows of all rungs. -/
def Mirrored (graph : LdGraph) : Prop := ∀ rung ∈ graph.rungs, graph.Mirrors rung.elementIds

/-- All elements are contacts. -/
def OnlyContacts (graph : LdGraph) (elementIds : List String) : Prop :=
  ∀ id ∈ elementIds, (graph.findNode id).any (·.kind.isContact) = true

/-! ## Main rows -/

variable {graph' : LdGraph}

theorem rowWires_ends {left right : String} {w : Wire} (hw : w ∈ graph.rowWires left right ids) :
    (w.sourceId = left ∨ w.sourceId ∈ ids) ∧ (w.targetId = right ∨ w.targetId ∈ ids) := by
  induction ids generalizing left with
  | nil =>
    rw [mem_singleton.1 hw]
    exact ⟨Or.inl rfl, Or.inl rfl⟩
  | cons id rest ih =>
    rcases mem_cons.1 hw with rfl | hw
    · exact ⟨Or.inl rfl, Or.inr (mem_cons_self ..)⟩
    · obtain ⟨hsource, htarget⟩ := ih hw
      refine ⟨Or.inr (mem_cons.2 hsource), ?_⟩
      rcases htarget with htarget | htarget
      · exact Or.inl htarget
      · exact Or.inr (mem_cons_of_mem _ htarget)

/-- A wire of a row with elements touches one of them. -/
theorem rowWires_touches {left right : String} (hids : ids ≠ []) {w : Wire}
    (hw : w ∈ graph.rowWires left right ids) : w.touches ids = true := by
  rw [Wire.touches_iff]
  cases ids with
  | nil => exact absurd rfl hids
  | cons id rest =>
    rcases mem_cons.1 hw with rfl | hw
    · exact Or.inr (mem_cons_self ..)
    · exact Or.inl (mem_cons.2 (rowWires_ends hw).1)

/-- What is a block decides the pins. -/
theorem rowWires_congr {left right : String}
    (hfb : ∀ id ∈ left :: right :: ids, graph'.isFb id = graph.isFb id) :
    graph'.rowWires left right ids = graph.rowWires left right ids := by
  have hwire : ∀ source target, graph'.isFb source = graph.isFb source → graph'.isFb target = graph.isFb target →
      graph'.rowWire source target = graph.rowWire source target := by
    intro source target hsource htarget
    unfold rowWire
    rw [hsource, htarget]
  induction ids generalizing left with
  | nil =>
    apply congrArg (fun w => [w])
    exact hwire _ _ (hfb _ (by simp)) (hfb _ (by simp))
  | cons id rest ih =>
    unfold rowWires
    rw [hwire left id (hfb _ (by simp)) (hfb _ (by simp))]
    apply congrArg (List.cons _)
    apply ih
    intro id' hid'
    apply hfb
    simp only [mem_cons] at hid' ⊢
    tauto

/-- A row of contacts is built as a chain. -/
theorem chainWires_eq {left right : String} (hnodup : (left :: ids).Nodup)
    (hfb : ∀ id ∈ left :: right :: ids, graph.isFb id = false) :
    chainWires (some left) ids ++ [{ sourceId := ids.getLast?.getD left, targetId := right }] =
      graph.rowWires left right ids := by
  have hwire : ∀ source ∈ left :: right :: ids, ∀ target ∈ left :: right :: ids,
      graph.rowWire source target = { sourceId := source, targetId := target } := by
    intro source hsource target htarget
    unfold rowWire
    rw [hfb source hsource, hfb target htarget]
    rfl
  induction ids generalizing left with
  | nil => exact congrArg (fun w => [w]) (hwire left (by simp) right (by simp)).symm
  | cons id rest ih =>
    obtain ⟨hleft, hrest⟩ := nodup_cons.1 hnodup
    have hne : left ≠ id := fun heq => hleft (heq ▸ mem_cons_self ..)
    have hsub : ∀ {x}, x ∈ id :: right :: rest → x ∈ left :: right :: id :: rest := by
      intro x hx
      simp only [mem_cons] at hx ⊢
      tauto
    have hchain := ih hrest (fun x hx => hfb x (hsub hx)) fun x hx y hy => hwire x (hsub hx) y (hsub hy)
    have hlast : (id :: rest).getLast?.getD left = rest.getLast?.getD id := by
      rw [getLast?_cons]
      rfl
    unfold chainWires rowWires
    rw [hlast, List.append_assoc, hchain, hwire left (by simp) id (by simp), Option.filter_some,
      if_pos (bne_iff_ne.2 hne)]
    rfl

/-! ## Nodes that come and go -/

theorem findNode_append (hnodes : graph'.nodes = graph.nodes ++ added)
    (hid : id ∈ graph.nodeIds) : graph'.findNode id = graph.findNode id := by
  obtain ⟨node, hnode, rfl⟩ := mem_map.1 hid
  unfold findNode
  rw [hnodes, find?_append]
  apply Option.or_of_isSome
  rw [find?_isSome]
  exact ⟨node, hnode, beq_self_eq_true _⟩

theorem findRail_append (hnodes : graph'.nodes = graph.nodes ++ added)
    (hrail : graph.findRail side = some rail) : graph'.findRail side = some rail := by
  unfold findRail at hrail ⊢
  rw [hnodes, find?_append, hrail]
  rfl

/-- What is found is found among what is kept, if it is kept. -/
theorem find?_filter_of_kept {α : Type} {l : List α} {p q : α → Bool} (h : ∀ a ∈ l.find? p, q a = true) :
    (l.filter q).find? p = l.find? p := by
  induction l with
  | nil => rfl
  | cons x xs ih =>
    by_cases hp : p x = true
    · rw [find?_cons_of_pos hp] at h ⊢
      rw [filter_cons_of_pos (h x rfl), find?_cons_of_pos hp]
    · rw [find?_cons_of_neg hp] at h ⊢
      by_cases hq : q x = true
      · rw [filter_cons_of_pos hq, find?_cons_of_neg hp]
        exact ih h
      · rw [filter_cons_of_neg hq]
        exact ih h

theorem findNode_filter (hnodes : graph'.nodes = graph.nodes.filter fun n => !dropped.contains n.id)
    (hid : id ∉ dropped) : graph'.findNode id = graph.findNode id := by
  unfold findNode
  rw [hnodes]
  apply find?_filter_of_kept
  intro node hnode
  have hsame := find?_some (p := fun n : BaseNode => n.id == id) hnode
  rw [← beq_iff_eq.1 hsame] at hid
  exact not_contains_iff.2 hid

theorem findRail_filter (hnodes : graph'.nodes = graph.nodes.filter fun n => !dropped.contains n.id)
    (hrail : graph.findRail side = some rail) (hkept : rail.id ∉ dropped) :
    graph'.findRail side = some rail := by
  rw [← hrail]
  unfold findRail at hrail ⊢
  rw [hnodes]
  apply find?_filter_of_kept
  intro node hnode
  rw [hrail] at hnode
  cases hnode
  exact not_contains_iff.2 hkept

/-! ## Rows that an operation leaves alone -/

/-- The wires at a row end at the rails and at its elements. -/
theorem Mirrors.ends (hm : graph.Mirrors ids)
    (hleft : graph.findRail .left = some left) (hright : graph.findRail .right = some right) {w : Wire}
    (hw : w ∈ graph.wires) (htouches : w.touches ids = true) :
    (w.sourceId = left.id ∨ w.sourceId ∈ ids) ∧ (w.targetId = right.id ∨ w.targetId ∈ ids) := by
  have hne : ids ≠ [] := by
    rintro rfl
    rcases Wire.touches_iff.1 htouches with hmem | hmem <;> cases hmem
  obtain ⟨left', right', hleft', hright', hperm⟩ := hm hne
  rw [hleft, Option.some.injEq] at hleft'
  rw [hright, Option.some.injEq] at hright'
  rw [← hleft', ← hright'] at hperm
  exact rowWires_ends (hperm.subset (mem_filter.2 ⟨hw, htouches⟩))

/-- Where wires go that touch other elements only, those at a row stay. -/
theorem Mirrors.kept {ids others : List String} (hm : graph.Mirrors ids)
    (hleft : graph.findRail .left = some left) (hright : graph.findRail .right = some right) (hl : left.id ∉ others)
    (hr : right.id ∉ others) (hids : ∀ id ∈ ids, id ∉ others) :
    (graph.wires.filter fun w => !w.touches others).filter (·.touches ids) = graph.wires.filter (·.touches ids) := by
  rw [filter_filter]
  apply filter_congr
  intro w hw
  by_cases htouches : w.touches ids = true
  · rw [htouches, Wire.touches_eq_false (hm.ends hleft hright hw htouches) hl hr hids]
    rfl
  · rw [Bool.not_eq_true] at htouches
    rw [htouches]
    rfl

/-- A row with the same rails, blocks and wires. -/
theorem Mirrors.frame (hm : graph.Mirrors ids) (hrails : ∀ {side rail}, graph.findRail side = some rail →
      graph'.findRail side = some rail ∧ graph'.isFb rail.id = graph.isFb rail.id)
    (hfb : ∀ id ∈ ids, graph'.isFb id = graph.isFb id)
    (hwires : ∀ left right, graph.findRail .left = some left → graph.findRail .right = some right →
      graph'.wires.filter (·.touches ids) = graph.wires.filter (·.touches ids)) : graph'.Mirrors ids := by
  intro hne
  obtain ⟨left, right, hleft, hright, hperm⟩ := hm hne
  refine ⟨left, right, (hrails hleft).1, (hrails hright).1, ?_⟩
  rw [hwires left right hleft hright, rowWires_congr]
  · exact hperm
  · intro id hid
    rcases mem_cons.1 hid with rfl | hid
    · exact (hrails hleft).2
    rcases mem_cons.1 hid with rfl | hid
    · exact (hrails hright).2
    · exact hfb id hid

/-- **Elements are taken out** with their wires. Rungs that are left have none of them. -/
theorem Mirrored.remove (hm : graph.Mirrored)
    (hnodes : graph'.nodes = graph.nodes.filter fun n => !dropped.contains n.id)
    (hwires : graph'.wires = graph.wires.filter fun w => !w.touches dropped)
    (hrungs : ∀ r' ∈ graph'.rungs, r'.elementIds ≠ [] →
      ∃ r ∈ graph.rungs, r'.elementIds = r.elementIds ∧ ∀ id ∈ r.elementIds, id ∉ dropped)
    (hrails : (∃ r' ∈ graph'.rungs, r'.elementIds ≠ []) →
      ∀ side rail, graph.findRail side = some rail → rail.id ∉ dropped) : graph'.Mirrored := by
  intro r' hr' hne
  obtain ⟨r, hr, heq, hkept⟩ := hrungs r' hr' hne
  have hrail := hrails ⟨r', hr', hne⟩
  have hold : ∀ id, id ∉ dropped → graph'.isFb id = graph.isFb id := by
    intro id hid
    unfold isFb
    rw [findNode_filter hnodes hid]
  rw [heq] at hne ⊢
  refine Mirrors.frame (hm r hr) ?_ (fun id hid => hold id (hkept id hid)) ?_ hne
  · exact fun {side rail} hfind =>
      ⟨findRail_filter hnodes hfind (hrail side rail hfind), hold _ (hrail side rail hfind)⟩
  · intro left right hleft hright
    rw [hwires]
    exact (hm r hr).kept hleft hright (hrail _ _ hleft) (hrail _ _ hright) hkept

end LdGraph

section
variable [Entropy] {s s' : Session}

/-- A rail is in no rung. -/
theorem Sound.rail_not_element (h : Sound s)
    (hrail : s.graph.findRail side = some rail) (hrung : rung ∈ s.graph.rungs) : rail.id ∉ rung.elementIds := by
  intro hid
  have howner := (h.owned.owner rail.id).1 (mem_flatMap.2 ⟨rung, hrung, mem_append_left _ hid⟩)
  obtain ⟨node, hnode, hkind, hsame⟩ := mem_elementNodeIds.1 howner
  rw [inj_on_of_nodup_map h.owned.nodeIds hnode (mem_of_find?_eq_some hrail) hsame] at hkind
  have hside := find?_some (p := fun n : BaseNode => n.kind == .powerRail side) hrail
  rw [beq_iff_eq.1 hside] at hkind
  cases hkind

/-- A rail is no block. -/
theorem Sound.isFb_rail (h : Sound s)
    (hrail : s.graph.findRail side = some rail) : s.graph.isFb rail.id = false := by
  have hside := find?_some (p := fun n : BaseNode => n.kind == .powerRail side) hrail
  unfold LdGraph.isFb
  rw [h.findNode (mem_of_find?_eq_some hrail), Option.any_some, beq_iff_eq.1 hside]
  rfl

/-- An element of a rung is in no other rung. -/
theorem Sound.not_element (h : Sound s) {r rung : Rung} (hr : r ∈ s.graph.rungs) (hrung : rung ∈ s.graph.rungs)
    (hne : r.id ≠ rung.id) (hid : id ∈ rung.elementIds) : id ∉ r.elementIds := by
  intro hmem
  apply hne
  rw [h.owned.same_rung hr hrung (mem_append_left _ hmem) (mem_append_left _ hid)]

/-! ## Operations on one rung -/

/-- **One rung is wired anew.** Its elements are old ones of the rung and new ones, all their wires are dropped, and the
wires of the row are added. -/
theorem InSeries.mirrored_update (h : InSeries s) (hm : s.graph.Mirrored) {rung updated : Rung}
    (hrung : rung ∈ s.graph.rungs) (hid : updated.id = rung.id)
    (hleft : s.graph.findRail .left = some left) (hright : s.graph.findRail .right = some right)
    (hnodes : s'.graph.nodes = s.graph.nodes ++ added) (hrungs : s'.graph.rungs = (s.graph.setRung updated).rungs)
    (hids : ∀ id ∈ updated.elementIds, id ∈ rung.elementIds ∨ id ∉ s.graph.nodeIds)
    (hwires : s'.graph.wires = (s.graph.wires.filter fun w => !w.touches updated.elementIds) ++
      s'.graph.rowWires left.id right.id updated.elementIds) : s'.graph.Mirrored := by
  have hupdate : (s.graph.setRung updated).rungs =
      s.graph.rungs.map fun r => if r.id = updated.id then updated else r :=
    (map_ite_eq_updateFirst h.sound.owned.rungIds).symm
  intro r' hr'
  rw [hrungs, hupdate] at hr'
  obtain ⟨r, hr, rfl⟩ := mem_map.1 hr'
  by_cases hsame : r.id = updated.id
  · -- the rung itself has only the new wires
    rw [if_pos hsame]
    intro hne
    refine ⟨left, right, LdGraph.findRail_append hnodes hleft, LdGraph.findRail_append hnodes hright, ?_⟩
    have hnone : s.graph.wires.filter (fun w => w.touches updated.elementIds && !w.touches updated.elementIds) = [] := by
      apply filter_eq_nil_iff.2
      intro w _
      rw [Bool.and_not_self]
      exact Bool.false_ne_true
    rw [hwires, filter_append, filter_filter, hnone, nil_append,
      filter_eq_self.2 fun w hw => LdGraph.rowWires_touches hne hw]
  · -- another rung keeps its wires
    rw [if_neg hsame]
    rw [hid] at hsame
    have hdisjoint : ∀ id ∈ r.elementIds, id ∉ updated.elementIds := by
      intro id hmem hupdated
      rcases hids id hupdated with hold | hnew
      · exact h.sound.not_element hr hrung hsame hold hmem
      · exact hnew (h.sound.owned.node_of_member hr (mem_append_left _ hmem))
    have hrail : ∀ {side rail}, s.graph.findRail side = some rail → rail.id ∉ updated.elementIds := by
      intro side rail hrail hupdated
      rcases hids _ hupdated with hold | hnew
      · exact h.sound.rail_not_element hrail hrung hold
      · exact hnew (LdGraph.findRail_mem hrail)
    have hold : ∀ id ∈ s.graph.nodeIds, s'.graph.isFb id = s.graph.isFb id := by
      intro id hmem
      unfold LdGraph.isFb
      rw [LdGraph.findNode_append hnodes hmem]
    apply (hm r hr).frame
    · exact fun hrail => ⟨LdGraph.findRail_append hnodes hrail, hold _ (LdGraph.findRail_mem hrail)⟩
    · exact fun id hmem => hold id (h.sound.owned.node_of_member hr (mem_append_left _ hmem))
    · intro _ _ _ _
      have hnew : (s'.graph.rowWires left.id right.id updated.elementIds).filter (·.touches r.elementIds) = [] := by
        apply filter_eq_nil_iff.2
        intro w hw
        rw [Wire.touches_eq_false (LdGraph.rowWires_ends hw) (h.sound.rail_not_element hleft hr)
          (h.sound.rail_not_element hright hr) fun id hupdated hmem => hdisjoint id hmem hupdated]
        exact Bool.false_ne_true
      rw [hwires, filter_append, (hm r hr).kept hleft hright (hrail hleft) (hrail hright) hdisjoint, hnew,
        List.append_nil]

/-! ## Wires behind an operation -/

@[simp] theorem Session.addWires_wires (s : Session) (ws : List Wire) :
    (s.addWires ws).graph.wires = s.graph.wires ++ ws := by
  unfold Session.addWires
  induction ws generalizing s with
  | nil => exact (List.append_nil _).symm
  | cons w ws ih =>
    have hfirst : (s.addWire w).graph.wires = s.graph.wires ++ [w] := map_append
    rw [foldl_cons, ih, hfirst, List.append_assoc]
    rfl

omit [Entropy] in
@[simp] theorem Session.dropEdges_wires (s : Session) (ids : List String) :
    (s.dropEdges (·.touches ids)).graph.wires = s.graph.wires.filter fun w => !w.touches ids :=
  (filter_map (f := fun e : BaseEdge => e.toWire) (p := fun w => !w.touches ids)).symm

theorem Session.rewireRungBranches_series (s : Session) (h : rung.branches = []) :
    s.rewireRungBranches rung = s := by
  unfold Session.rewireRungBranches
  rw [h]
  rfl

theorem Session.rewireRungSeries_series (s : Session) (h : rung.branches = []) :
    s.rewireRungSeries rung = (s.dropEdges (·.touches rung.elementIds)).addWires (s.graph.seriesWires rung) := by
  unfold Session.rewireRungSeries
  dsimp only
  rw [Session.rewireRungBranches_series _ h, ite_self]

/-! ## An element alone in its rung -/

theorem Sound.issued (h : Sound s) (hid : id ∈ s.graph.nodeIds) : Issued s.nextId id := by
  obtain ⟨node, hnode, rfl⟩ := mem_map.1 hid
  exact h.owned.nodesIssued node hnode

theorem Sound.not_mem_of_freshId (h : Sound s) {kind : String} (hkind : Plain kind) : s.freshId kind ∉ s.graph.nodeIds :=
  fun hmem => (Sound.freshId s kind hkind).not_issued (h.issued hmem)

/-- No wire touches a new node. -/
theorem Sound.untouched (h : Sound s) (hid : id ∉ s.graph.nodeIds) :
    s.graph.wires.filter (fun w => !w.touches [id]) = s.graph.wires := by
  apply filter_eq_self.2
  intro w hw
  obtain ⟨e, he, rfl⟩ := mem_map.1 hw
  rw [Bool.not_eq_true', ← Bool.not_eq_true, Wire.touches_iff, not_or, mem_singleton, mem_singleton]
  constructor
  · intro heq
    exact hid (heq ▸ (h.wired e he).1)
  · intro heq
    exact hid (heq ▸ (h.wired e he).2)

/-- A new element in an empty rung gets the wires of its row. -/
theorem InSeries.mirrored_alone (h : InSeries s) (hm : s.graph.Mirrored) (h' : Sound s')
    (hrung : rung ∈ s.graph.rungs) (hempty : rung.elementIds = [])
    (hleft : s.graph.findRail .left = some left) (hright : s.graph.findRail .right = some right)
    {slot : Nat} (hfresh : node.id ∉ s.graph.nodeIds) (hnodes : s'.graph.nodes = s.graph.nodes ++ [node])
    (hrungs : s'.graph.rungs = (s.graph.setRung (rung.insert slot [node.id])).rungs)
    (hwires : s'.graph.wires = s.graph.wires ++
      [{ sourceId := left.id, targetId := node.id, targetPin := if node.kind.isFb then some "EN" else none },
        { sourceId := node.id, targetId := right.id, sourcePin := if node.kind.isFb then some "ENO" else none }]) :
    s'.graph.Mirrored := by
  have hids : (rung.insert slot [node.id]).elementIds = [node.id] := by
    unfold Rung.insert splice
    dsimp only
    rw [hempty, take_nil, drop_nil]
    rfl
  have hnode : s'.graph.isFb node.id = node.kind.isFb := by
    have hmem : node ∈ s'.graph.nodes := by
      rw [hnodes]
      exact mem_append_right _ (mem_cons_self ..)
    unfold LdGraph.isFb
    rw [h'.findNode hmem]
    rfl
  have hl := h'.isFb_rail (LdGraph.findRail_append hnodes hleft)
  have hr := h'.isFb_rail (LdGraph.findRail_append hnodes hright)
  have hsame : (rung.insert slot [node.id]).id = rung.id := rfl
  apply h.mirrored_update hm hrung hsame hleft hright hnodes hrungs
  · intro id hid
    rw [hids] at hid
    rw [mem_singleton.1 hid]
    exact Or.inr hfresh
  · rw [hids, h.sound.untouched hfresh, hwires]
    unfold LdGraph.rowWires LdGraph.rowWires LdGraph.rowWire
    rw [hnode, hl, hr]
    rfl

section
omit [Entropy]

/-- An empty rung has one slot. -/
theorem LdGraph.insertSlot_empty (hempty : rung.elementIds = []) (insertIndex : Option Int)
    (position : Option Point) : graph.insertSlot rung insertIndex position = 0 := by
  unfold LdGraph.insertSlot
  rw [hempty]
  cases insertIndex with
  | some slot =>
    show clampSlot slot 0 = 0
    unfold clampSlot
    omega
  | none => cases position <;> rfl

theorem Rung.insert_empty (hempty : rung.elementIds = []) (slot : Nat) (ids : List String) :
    (rung.insert slot ids).elementIds = ids := by
  unfold Rung.insert splice
  dsimp only
  rw [hempty, take_nil, drop_nil, List.append_nil]
  rfl

theorem LdGraph.contactWires_alone {updated : Rung}
    (hids : updated.elementIds = [id]) (hleft : graph.findRail .left = some left)
    (hright : graph.findRail .right = some right) : graph.contactWires none updated 0 id =
      [{ sourceId := left.id, targetId := id }, { sourceId := id, targetId := right.id }] := by
  unfold LdGraph.contactWires
  rw [hids, hleft, hright]
  rfl

theorem LdGraph.fbWires_alone {updated : Rung} {left right node : BaseNode}
    (hids : updated.elementIds = [id]) (hleft : graph.findRail .left = some left)
    (hright : graph.findRail .right = some right) (hnode : graph.findNode id = some node)
    (hkind : node.kind.isCoil = false) : graph.fbWires updated 0 id =
      [{ sourceId := left.id, targetId := id, targetPin := some "EN" },
        { sourceId := id, targetId := right.id, sourcePin := some "ENO" }] := by
  have hcoil : graph.findCoilOnRung updated = none := by
    unfold LdGraph.findCoilOnRung
    rw [hids, findSome?_singleton, hnode, Option.filter_some, hkind]
    rfl
  unfold LdGraph.fbWires
  rw [hcoil, hids, hleft, hright]
  rfl

end

theorem InSeries.mirrored_addContact (h : InSeries s) (hm : s.graph.Mirrored) {position : Option Point}
    {insertIndex : Option Int} {contactType : ContactType}
    (hcall : s.addContact position insertIndex contactType rungId = .ok s')
    (hleft : s.graph.findRail .left = some left) (hright : s.graph.findRail .right = some right)
    (hempty : ∀ rung, s.graph.findRung rungId = .ok rung → rung.elementIds = []) : s'.graph.Mirrored := by
  have hsound := h.sound.addContact hcall
  obtain ⟨rung, hok, _, rfl⟩ := Session.addContact_ok.1 hcall
  have hempty := hempty rung hok
  have hrung := mem_of_find?_eq_some (LdGraph.findRung_ok hok).1
  apply h.mirrored_alone hm hsound hrung hempty hleft hright (h.sound.not_mem_of_freshId (by decide))
    (Session.withContact_nodes ..) (Session.withContact_rungs ..)
  have hcoil : s.graph.findCoilOnRung rung = none := by
    unfold LdGraph.findCoilOnRung
    rw [hempty]
    rfl
  let contact := s.newContact contactType ⟨0, 0⟩
  let updated := rung.insert 0 [contact.id]
  let next := s.insertNode contact updated
  have hnodes : next.graph.nodes = s.graph.nodes ++ [contact] := rfl
  have hseries : updated.branches = [] := h.series rung hrung
  rw [LdGraph.insertSlot_empty hempty]
  unfold Session.withContact
  rw [hcoil]
  show ((next.addWires (next.graph.contactWires none updated 0 contact.id)).rewireRungBranches updated).graph.wires = _
  rw [Session.rewireRungBranches_series _ hseries, Session.addWires_wires]
  apply congrArg (s.graph.wires ++ ·)
  exact LdGraph.contactWires_alone (Rung.insert_empty hempty ..) (LdGraph.findRail_append hnodes hleft)
    (LdGraph.findRail_append hnodes hright)

theorem InSeries.mirrored_addFb (h : InSeries s) (hm : s.graph.Mirrored) {position : Option Point}
    {insertIndex : Option Int} {fbType rungId : String}
    (hcall : s.addFb position insertIndex fbType rungId = .ok s')
    (hleft : s.graph.findRail .left = some left) (hright : s.graph.findRail .right = some right)
    (hempty : ∀ rung, s.graph.findRung rungId = .ok rung → rung.elementIds = []) : s'.graph.Mirrored := by
  have hsound := h.sound.addFb hcall
  obtain ⟨rung, pins, hok, _, rfl⟩ := Session.addFb_ok.1 hcall
  have hempty := hempty rung hok
  have hrung := mem_of_find?_eq_some (LdGraph.findRung_ok hok).1
  have hfresh : s.freshId "fb" ∉ s.graph.nodeIds := h.sound.not_mem_of_freshId (by decide)
  apply h.mirrored_alone hm hsound hrung hempty hleft hright hfresh (Session.withFb_nodes ..) (Session.withFb_rungs ..)
  let fb := createFb (s.freshId "fb") fbType pins.1 pins.2
  let updated := rung.insert 0 [fb.id]
  let next := s.insertNode fb updated
  have hnodes : next.graph.nodes = s.graph.nodes ++ [fb] := rfl
  have hnext : Sound next :=
    (h.sound.insertNode (LdGraph.findRung_ok hok).1 0 fb (Sound.freshId s _ (by decide)) ⟨rfl, rfl⟩).1
  have hmem : fb ∈ next.graph.nodes := mem_append_right _ (mem_cons_self ..)
  have hseries : updated.branches = [] := h.series rung hrung
  rw [LdGraph.insertSlot_empty hempty]
  show ((next.addWires (next.graph.fbWires updated 0 fb.id)).rewireRungBranches updated).graph.wires = _
  rw [Session.rewireRungBranches_series _ hseries, Session.addWires_wires]
  apply congrArg (s.graph.wires ++ ·)
  exact LdGraph.fbWires_alone (Rung.insert_empty hempty ..) (LdGraph.findRail_append hnodes hleft)
    (LdGraph.findRail_append hnodes hright) (hnext.findNode hmem) rfl

/-! ## Rows that are built again -/

omit [Entropy] in
/-- A row of contacts is built again as it shall be. -/
theorem LdGraph.seriesWires_eq
    (hleft : graph.findRail .left = some left) (hright : graph.findRail .right = some right)
    (hne : rung.elementIds ≠ []) (hnodup : rung.elementIds.Nodup) (hl : left.id ∉ rung.elementIds)
    (hr : right.id ∉ rung.elementIds) (hfb : ∀ id ∈ left.id :: right.id :: rung.elementIds, graph.isFb id = false)
    (hcontacts : graph.OnlyContacts rung.elementIds) :
    graph.seriesWires rung = graph.rowWires left.id right.id rung.elementIds := by
  have hcoil : graph.findCoilOnRung rung = none := by
    apply findSome?_eq_none_iff.2
    intro id hid
    have hcontact := hcontacts id hid
    cases hfind : graph.findNode id with
    | none => rfl
    | some node =>
      rw [hfind] at hcontact
      rw [Option.filter_some, (NodeKind.of_isContact hcontact).1]
      rfl
  have hlast := getLast?_eq_some_getLast hne
  generalize rung.elementIds.getLast hne = last at hlast
  have htarget : right.id ≠ last := fun heq => hr (heq ▸ mem_of_getLast? hlast)
  rw [← LdGraph.chainWires_eq (nodup_cons.2 ⟨hl, hnodup⟩) hfb]
  unfold LdGraph.seriesWires
  dsimp only
  rw [hcoil, hleft, hright, hlast]
  show _ ++ ((some right.id).filter (· != last)).toList.map _ = _
  rw [Option.filter_some, if_pos (bne_iff_ne.2 htarget)]
  rfl

/-- **A row is built again.** If all its elements are contacts, its wires are those of the row. -/
theorem InSeries.mirrored_rewire (h : InSeries s) (hm : s.graph.Mirrored) {base : Session} {rung updated : Rung}
    (hrung : rung ∈ s.graph.rungs) (hid : updated.id = rung.id) (hbranches : updated.branches = [])
    (hne : updated.elementIds ≠ []) (hleft : s.graph.findRail .left = some left)
    (hright : s.graph.findRail .right = some right)
    (hnodes : base.graph.nodes = s.graph.nodes ++ added) (hrungs : base.graph.rungs = (s.graph.setRung updated).rungs)
    (hedges : base.graph.edges = s.graph.edges) (h' : Sound (base.rewireRungSeries updated))
    (hids : ∀ id ∈ updated.elementIds, id ∈ rung.elementIds ∨ id ∉ s.graph.nodeIds)
    (hcontacts : base.graph.OnlyContacts updated.elementIds) : (base.rewireRungSeries updated).graph.Mirrored := by
  have hsame : ∀ id, (base.rewireRungSeries updated).graph.findNode id = base.graph.findNode id := by
    intro id
    unfold LdGraph.findNode
    rw [Session.rewireRungSeries_nodes]
  have hfind : s.graph.rungs.find? (·.id == updated.id) = some rung := by
    rw [hid]
    exact h.sound.find?_rung hrung
  have hmem : updated ∈ (base.rewireRungSeries updated).graph.rungs := by
    rw [Session.rewireRungSeries_rungs, hrungs]
    exact mem_updateFirst_self hfind _
  have hnodes' : (base.rewireRungSeries updated).graph.nodes = s.graph.nodes ++ added :=
    (Session.rewireRungSeries_nodes base updated).trans hnodes
  have hl := LdGraph.findRail_append hnodes' hleft
  have hr := LdGraph.findRail_append hnodes' hright
  have hfb : ∀ id ∈ left.id :: right.id :: updated.elementIds, (base.rewireRungSeries updated).graph.isFb id = false := by
    intro id hid
    rcases mem_cons.1 hid with rfl | hid
    · exact h'.isFb_rail hl
    rcases mem_cons.1 hid with rfl | hid
    · exact h'.isFb_rail hr
    · have hcontact := hcontacts id hid
      unfold LdGraph.isFb
      rw [hsame]
      cases hfind : base.graph.findNode id with
      | none => rfl
      | some node =>
        rw [hfind] at hcontact
        exact (NodeKind.of_isContact hcontact).2
  have hbase : ∀ id, (base.rewireRungSeries updated).graph.isFb id = base.graph.isFb id := by
    intro id
    unfold LdGraph.isFb
    rw [hsame]
  apply h.mirrored_update hm hrung hid hleft hright hnodes'
    ((Session.rewireRungSeries_rungs base updated).trans hrungs) hids
  have hedges : base.graph.wires = s.graph.wires := congrArg (List.map BaseEdge.toWire) hedges
  have hseries := LdGraph.seriesWires_eq (LdGraph.findRail_append hnodes hleft) (LdGraph.findRail_append hnodes hright) hne
    (h'.elementIds_nodup hmem) (h'.rail_not_element hl hmem) (h'.rail_not_element hr hmem)
    (fun id hid => (hbase id).symm.trans (hfb id hid)) hcontacts
  rw [LdGraph.rowWires_congr fun id _ => hbase id, ← hseries, ← hedges]
  rw [Session.rewireRungSeries_series _ hbranches, Session.addWires_wires, Session.dropEdges_wires]

theorem InSeries.mirrored_reorderElement (h : InSeries s) (hm : s.graph.Mirrored)
    {insertIndex : Int} (hcall : s.reorderElement elementId insertIndex = .ok s')
    (hcontacts : ∀ rung ∈ s.graph.rungs, elementId ∈ rung.elementIds →
      (s.graph.findCoilOnRung rung).any (·.id == elementId) = false → s.graph.OnlyContacts rung.elementIds) :
    s'.graph.Mirrored := by
  have hsound := h.sound.reorderElement hcall
  obtain ⟨rung, hrung, hid, hother, rfl⟩ := Session.reorderElement_ok hcall
  have hcontacts := hcontacts rung hrung hid hother
  have hperm := Sound.reordered_perm hid insertIndex
  let updated : Rung := { rung with elementIds := Session.reordered rung.elementIds elementId insertIndex }
  obtain ⟨left, right, hleft, hright, _⟩ := hm rung hrung (ne_nil_of_mem hid)
  have hbranches : updated.branches = [] := h.series rung hrung
  have horder : s.withOrder rung updated.elementIds = (s.setRung updated).rewireRungSeries updated :=
    Session.rewireRungBranches_series _ hbranches
  rw [horder] at hsound ⊢
  refine h.mirrored_rewire hm hrung rfl hbranches (ne_nil_of_mem (hperm.mem_iff.2 hid)) hleft hright
    (List.append_nil _).symm rfl rfl hsound ?_ ?_
  · exact fun id hmem => Or.inl (hperm.subset hmem)
  · exact fun id hmem => hcontacts id (hperm.subset hmem)

/-- An element is in a rung, and its wires come from the rails. -/
theorem InSeries.rails (h : InSeries s) (hm : s.graph.Mirrored) (hnode : node ∈ s.graph.nodes)
    (hrail : node.kind.isRail = false) :
    ∃ left right, s.graph.findRail .left = some left ∧ s.graph.findRail .right = some right := by
  have howner := (h.sound.owned.owner node.id).2 (mem_elementNodeIds.2 ⟨node, hnode, hrail, rfl⟩)
  obtain ⟨rung, hrung, hid⟩ := mem_flatMap.1 howner
  unfold Rung.members at hid
  rw [h.series rung hrung, flatMap_nil, List.append_nil] at hid
  obtain ⟨left, right, hleft, hright, _⟩ := hm rung hrung (ne_nil_of_mem hid)
  exact ⟨left, right, hleft, hright⟩

theorem InSeries.mirrored_pasteElements (h : InSeries s) (hm : s.graph.Mirrored) {elementIds : List String}
    {insertIndex : Int} (hcall : s.pasteElements elementIds rungId insertIndex = .ok s')
    (hsources : ∀ src ∈ s.pasteSources elementIds, src.kind.isContact = true)
    (hcontacts : ∀ rung, s.graph.findRung rungId = .ok rung → s.graph.OnlyContacts rung.elementIds) :
    s'.graph.Mirrored := by
  have hsound := h.sound.pasteElements hcall
  obtain ⟨rung, hok, hsome, rfl⟩ := Session.pasteElements_ok.1 hcall
  have hcontacts := hcontacts rung hok
  have hrung := mem_of_find?_eq_some (LdGraph.findRung_ok hok).1
  let pasted := Session.pasteNodes s.nextId (s.pasteSources elementIds)
  let updated := rung.insert (clampSlot insertIndex rung.elementIds.length) (pasted.1.map (·.id))
  let base := Session.setRung ⟨pasted.2, { s.graph with nodes := s.graph.nodes ++ pasted.1 }⟩ updated
  -- the rung has the old elements and the copies
  have hmem : ∀ id, id ∈ updated.elementIds ↔ id ∈ pasted.1.map (·.id) ∨ id ∈ rung.elementIds := fun id =>
    (splice_perm ..).mem_iff.trans mem_append
  have hcopies : pasted.1.map (fun node => node.kind.isContact) = _ :=
    map_kind_pasteNodes NodeKind.isContact_eq s.nextId (s.pasteSources elementIds)
  have hcontact : ∀ node ∈ pasted.1, node.kind.isContact = true := by
    rw [← forall_mem_map (P := fun b => b = true), hcopies, forall_mem_map]
    exact hsources
  -- a source is an element of the network, which has its rails
  obtain ⟨src, hsrc⟩ := exists_mem_of_ne_nil _ hsome
  obtain ⟨hnode, hrail, _⟩ := h.sound.pasteSources_kind elementIds hsrc
  obtain ⟨left, right, hleft, hright⟩ := h.rails hm hnode hrail
  have hne : updated.elementIds ≠ [] := by
    obtain ⟨node, hpasted⟩ : ∃ node, node ∈ pasted.1 := by
      apply exists_mem_of_ne_nil
      intro hnil
      rw [hnil, map_nil] at hcopies
      exact hsome (map_eq_nil_iff.1 hcopies.symm)
    exact ne_nil_of_mem ((hmem _).2 (Or.inl (mem_map_of_mem hpasted)))
  have hnodes : base.graph.nodes = s.graph.nodes ++ pasted.1 := rfl
  have hbase : Sound (base.rewireRungSeries updated) := hsound
  refine h.mirrored_rewire hm hrung rfl (h.series rung hrung) hne hleft hright hnodes rfl rfl hsound ?_ ?_
  -- an element of the rung is new, or was in it
  · intro id hid
    rcases (hmem id).1 hid with hnew | hold
    · right
      intro hissued
      obtain ⟨node, hnode, rfl⟩ := mem_map.1 hnew
      have hissued := h.sound.issued hissued
      exact ((Sound.pasteNodes_fresh fun src hsrc => (h.sound.pasteSources_kind elementIds hsrc).2).2.2 node
        hnode).1.not_issued hissued
    · exact Or.inl hold
  · intro id hid
    rcases (hmem id).1 hid with hnew | hold
    · obtain ⟨node, hnode, rfl⟩ := mem_map.1 hnew
      have hfind : base.graph.findNode node.id = some node := by
        have hmem : node ∈ (base.rewireRungSeries updated).graph.nodes := by
          rw [Session.rewireRungSeries_nodes]
          exact mem_append_right _ hnode
        have hfound := hbase.findNode hmem
        unfold LdGraph.findNode at hfound
        rw [Session.rewireRungSeries_nodes] at hfound
        exact hfound
      rw [hfind]
      exact hcontact node hnode
    · rw [LdGraph.findNode_append hnodes (h.sound.owned.node_of_member hrung (mem_append_left _ hold))]
      exact hcontacts id hold

/-! ## Elements that are taken out -/

/-- `deleteElement` on rungs without branches. -/
theorem Session.pruneRungs_series (s : Session) (elementId : String) (dropNodeIds dropBranchIds : List String)
    {rungs : List Rung} (h : ∀ rung ∈ rungs, rung.branches = []) :
    s.pruneRungs elementId dropNodeIds dropBranchIds rungs =
      (s, rungs.map fun rung => { rung with elementIds := rung.elementIds.filter fun id => !dropNodeIds.contains id }) := by
  induction rungs with
  | nil => rfl
  | cons rung rest ih =>
    have hfirst : s.pruneRung elementId dropNodeIds dropBranchIds rung =
        (s, { rung with elementIds := rung.elementIds.filter fun id => !dropNodeIds.contains id }) := by
      have hbranches := h rung (mem_cons_self ..)
      cases rung
      cases hbranches
      unfold Session.pruneRung
      dsimp only
      split
      next hsame => rw [filter_eq_self.2 (length_filter_eq_length_iff.1 hsame.1)]
      · rfl
    unfold Session.pruneRungs
    rw [hfirst]
    dsimp only
    rw [ih fun r hr => h r (mem_cons_of_mem _ hr)]
    rfl

theorem InSeries.deleteElement_eq (h : InSeries s) (hnode : s.graph.findNode elementId = some node) :
    s.deleteElement elementId = .ok (((s.dropEdges (·.touches [elementId])).dropNodes [elementId]).setRungs
      (s.graph.rungs.map fun rung =>
        { rung with elementIds := rung.elementIds.filter fun id => !([elementId].contains id) })) := by
  have hnone : s.graph.rungs.flatMap (·.branches) = [] := flatMap_eq_nil_iff.2 h.series
  unfold Session.deleteElement
  rw [hnode, hnone]
  dsimp only
  rw [Session.pruneRungs_series _ _ _ _ h.series]
  rfl

theorem InSeries.mirrored_deleteElement (h : InSeries s) (hm : s.graph.Mirrored)
    (hnode : s.graph.findNode elementId = some node) (hcall : s.deleteElement elementId = .ok s')
    (hrow : ∀ rung ∈ s.graph.rungs, elementId ∈ rung.elementIds → rung.elementIds = [elementId])
    (hrail : ∀ side rail, s.graph.findRail side = some rail → rail.id = elementId →
      ∀ rung ∈ s.graph.rungs, rung.elementIds = []) : s'.graph.Mirrored := by
  rw [h.deleteElement_eq hnode, Except.ok.injEq] at hcall
  subst hcall
  -- a rung that is left with elements had no others
  have hrungs : ∀ r ∈ s.graph.rungs, r.elementIds.filter (fun id => !([elementId].contains id)) ≠ [] →
      elementId ∉ r.elementIds := by
    intro r hr hne hid
    rw [hrow r hr hid] at hne
    apply hne
    rw [filter_singleton, contains_iff_mem.2 (mem_cons_self ..)]
    rfl
  refine hm.remove rfl (Session.dropEdges_wires s [elementId]) ?_ ?_
  · intro r' hr' hne
    obtain ⟨r, hr, rfl⟩ := mem_map.1 hr'
    have hnot : ∀ id ∈ r.elementIds, id ∉ [elementId] := by
      intro id hid hsame
      rw [mem_singleton.1 hsame] at hid
      exact hrungs r hr hne hid
    exact ⟨r, hr, filter_eq_self.2 fun id hid => not_contains_iff.2 (hnot id hid), hnot⟩
  · rintro ⟨r', hr', hne⟩ side rail hfind hid
    obtain ⟨r, hr, rfl⟩ := mem_map.1 hr'
    apply hne
    dsimp only
    rw [hrail side rail hfind (mem_singleton.1 hid) r hr]
    rfl

/-! ## Operations on rungs -/

theorem mirrored_addRung (hm : s.graph.Mirrored) : s.addRung.graph.Mirrored := by
  intro r' hr'
  rcases (addRung_shape s).2 r' hr' with hr | ⟨hnil, _⟩
  · have hsome : s.graph.rungs.length + 1 ≠ 1 := by
      have hpos := length_pos_of_mem hr
      omega
    unfold Session.addRung
    dsimp only
    rw [if_neg hsome]
    exact (hm r' hr).frame (fun hrail => ⟨hrail, rfl⟩) (fun _ _ => rfl) fun _ _ _ _ => rfl
  · exact fun hne => absurd hnil hne

omit [Entropy] in
theorem mirrored_moveRung (hm : s.graph.Mirrored) {newIndex : Int}
    (hcall : s.moveRung rungId newIndex = .ok s') : s'.graph.Mirrored := by
  rcases Sound.moveRung_ok hcall with rfl | ⟨rungs, hperm, rfl⟩
  · exact hm
  · intro r' hr'
    obtain ⟨r, hr, k, rfl⟩ := mem_renumbered hr'
    exact (hm r (hperm.subset hr)).frame (fun hrail => ⟨hrail, rfl⟩) (fun _ _ => rfl) fun _ _ _ _ => rfl

theorem InSeries.mirrored_deleteRung (h : InSeries s) (hm : s.graph.Mirrored)
    (hcall : s.deleteRung rungId = .ok s') : s'.graph.Mirrored := by
  obtain ⟨rung, hrung, _, rfl⟩ := Session.deleteRung_ok.1 hcall
  obtain ⟨hfind, _⟩ := LdGraph.findRung_ok hrung
  have hmem := mem_of_find?_eq_some hfind
  have hperm := perm_cons_eraseP hfind
  have hids : ((rung :: s.graph.rungs.eraseP (·.id == rung.id)).map (·.id)).Nodup :=
    (hperm.map _).nodup_iff.1 h.sound.owned.rungIds
  refine hm.remove rfl (Session.dropEdges_wires s rung.elementIds) ?_ ?_
  · intro r' hr' _
    obtain ⟨r, hr, k, rfl⟩ := mem_renumbered hr'
    have hr₀ : r ∈ s.graph.rungs := eraseP_subset hr
    refine ⟨r, hr₀, rfl, fun id hid hdropped => ?_⟩
    apply h.sound.not_element hr₀ hmem _ hdropped hid
    intro heq
    have hin : r.id ∈ (s.graph.rungs.eraseP (·.id == rung.id)).map (·.id) := mem_map_of_mem hr
    rw [heq] at hin
    exact (nodup_cons.1 hids).1 hin
  · exact fun _ side rail hrail => h.sound.rail_not_element hrail hmem

end

end Audesys.LdEditor
