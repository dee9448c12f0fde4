import Audesys.LdEditor.Ownership

/-!
# `LdEditor.Sound` — edits keep ladder diagrams valid

A sound session owns its elements (`Owned`), and every wire ends at nodes. Every operation keeps sessions sound but
one: `deleteRung` forgets the members of the branches of the rung. The graph stays valid exactly as long as no rung
with members is deleted (`valid_iff`).
-/

open List

namespace Audesys.LdEditor

open Audesys.Lib Audesys.Editor

variable {rung : Rung} {rungId : String} {w : Wire}
variable {id : String} {s : Session}

/-- Both ends of a wire are nodes. -/
def Wire.EndsIn (wire : Wire) (ids : List String) : Prop := wire.sourceId ∈ ids ∧ wire.targetId ∈ ids

/-- A sound session. -/
structure Sound [Entropy] (s : Session) : Prop where
  owned : Owned s.nextId s.graph.nodes s.graph.rungs
  wired : ∀ e ∈ s.graph.edges, e.EndsIn s.graph.nodeIds

/-- The elements of a rung and the anchors of its branches are there. -/
structure Rung.Inside (rung : Rung) (ids : List String) : Prop where
  members : ∀ id ∈ rung.members, id ∈ ids
  anchors : ∀ b ∈ rung.branches, b.anchorId ∈ rung.elementIds

namespace Rung.Inside

variable {ids : List String}

theorem element (h : rung.Inside ids) (hid : id ∈ rung.elementIds) : id ∈ ids :=
  h.members id (mem_append_left _ hid)

theorem member (h : rung.Inside ids) {b : ParallelBranch} (hb : b ∈ rung.branches)
    (hid : id ∈ b.elementIds) : id ∈ ids :=
  h.members id (mem_append_right _ (mem_flatMap.2 ⟨b, hb, hid⟩))

end Rung.Inside

theorem seriesSuccessor_mem {anchorId succ : String} (h : seriesSuccessor rung anchorId = some succ) :
    succ ∈ rung.elementIds := by
  unfold seriesSuccessor at h
  by_cases hmem : anchorId ∈ rung.elementIds
  · rw [if_pos hmem] at h
    exact mem_of_getElem? h
  · rw [if_neg hmem] at h
    cases h

namespace LdGraph

variable {graph : LdGraph}

theorem findRail_mem {side : PowerRailSide} {rail : BaseNode} (h : graph.findRail side = some rail) :
    rail.id ∈ graph.nodeIds := mem_map_of_mem (mem_of_find?_eq_some h)

theorem findNode_id {nodeId : String} {node : BaseNode} (h : graph.findNode nodeId = some node) :
    node.id = nodeId ∧ node ∈ graph.nodes := by
  refine ⟨?_, mem_of_find?_eq_some h⟩
  have hid : (node.id == nodeId) = true := find?_some (p := fun n : BaseNode => n.id == nodeId) h
  exact beq_iff_eq.1 hid

theorem findNode_mem {nodeId : String} {node : BaseNode} (h : graph.findNode nodeId = some node) :
    nodeId ∈ graph.nodeIds := by
  obtain ⟨rfl, hmem⟩ := findNode_id h
  exact mem_map_of_mem hmem

/-- The coil of a rung is the first of its elements that is one. -/
theorem findCoilOnRung_some {coil : BaseNode} (h : graph.findCoilOnRung rung = some coil) :
    coil.id ∈ rung.elementIds ∧ coil.kind.isCoil = true ∧ coil ∈ graph.nodes := by
  obtain ⟨elemId, helem, hfilter⟩ := exists_of_findSome?_eq_some h
  obtain ⟨hfind, hcoil⟩ := Option.filter_eq_some_iff.1 hfilter
  obtain ⟨rfl, hmem⟩ := findNode_id hfind
  exact ⟨helem, hcoil, hmem⟩

theorem findRung_ok (h : graph.findRung rungId = .ok rung) :
    graph.rungs.find? (·.id == rung.id) = some rung ∧ rung.id = rungId := by
  unfold findRung at h
  cases hfind : graph.rungs.find? (·.id == rungId) with
  | none =>
    rw [hfind] at h
    cases h
  | some found =>
    rw [hfind] at h
    cases h
    have hid : (rung.id == rungId) = true := find?_some (p := fun r : Rung => r.id == rungId) hfind
    rw [beq_iff_eq] at hid
    rw [hid]
    exact ⟨hfind, rfl⟩

theorem findRung_of_find? (h : graph.rungs.find? (·.id == rung.id) = some rung) :
    graph.findRung rung.id = .ok rung := by
  unfold findRung
  rw [h]

/-! ## Where the wires of a rung end -/

theorem branchWires_ends (h : rung.Inside graph.nodeIds) (hw : w ∈ graph.branchWires rung) :
    w.EndsIn graph.nodeIds := by
  obtain ⟨b, hb, hw⟩ := mem_flatMap.1 hw
  have hanchor := h.element (h.anchors b hb)
  cases hmembers : b.elementIds with
  | nil =>
    rw [hmembers] at hw
    obtain ⟨succ, hsucc, rfl⟩ := mem_map.1 hw
    exact ⟨hanchor, h.element (seriesSuccessor_mem (Option.mem_toList.1 hsucc))⟩
  | cons first rest =>
    have hmember : ∀ id ∈ first :: rest, id ∈ graph.nodeIds := fun id hid => h.member hb (hmembers ▸ hid)
    rw [hmembers] at hw
    rcases mem_cons.1 hw with rfl | hw
    · exact ⟨hanchor, hmember first (mem_cons_self ..)⟩
    rcases mem_append.1 hw with hw | hw
    · obtain ⟨pair, hpair, rfl⟩ := mem_map.1 hw
      have hzip := of_mem_zip hpair
      exact ⟨hmember _ hzip.1, hmember _ (mem_cons_of_mem _ hzip.2)⟩
    · obtain ⟨target, htarget, rfl⟩ := mem_map.1 hw
      constructor
      · show rest.getLast?.getD first ∈ graph.nodeIds
        cases hlast : rest.getLast? with
        | none => exact hmember first (mem_cons_self ..)
        | some last => exact hmember last (mem_cons_of_mem _ (mem_of_getLast? hlast))
      · rcases Option.or_eq_some_iff.1 (Option.mem_toList.1 htarget) with hsucc | ⟨_, hrail⟩
        · exact h.element (seriesSuccessor_mem hsucc)
        · obtain ⟨rail, hfind, rfl⟩ := Option.map_eq_some_iff.1 hrail
          exact findRail_mem hfind

theorem chainWires_ends {ids : List String} {prevId : Option String} (hprev : ∀ id ∈ prevId, id ∈ ids)
    {elements : List String} (h : ∀ id ∈ elements, id ∈ ids) (hw : w ∈ chainWires prevId elements) :
    w.EndsIn ids := by
  induction elements generalizing prevId with
  | nil => cases hw
  | cons elemId rest ih =>
    have helem := h elemId (mem_cons_self ..)
    rcases mem_append.1 hw with hw | hw
    · obtain ⟨prev, hmem, rfl⟩ := mem_map.1 hw
      exact ⟨hprev prev (Option.filter_eq_some_iff.1 (Option.mem_toList.1 hmem)).1, helem⟩
    · apply ih _ (fun id hid => h id (mem_cons_of_mem _ hid)) hw
      intro id hid
      cases hid
      exact helem

/-- The coil of a rung or the right rail is a node. -/
theorem coilOrRail_mem
    (h : ((graph.findCoilOnRung rung).or (graph.findRail .right)).map (·.id) = some id) : id ∈ graph.nodeIds := by
  obtain ⟨node, hnode, rfl⟩ := Option.map_eq_some_iff.1 h
  rcases Option.or_eq_some_iff.1 hnode with hcoil | ⟨_, hrail⟩
  · exact mem_map_of_mem (findCoilOnRung_some hcoil).2.2
  · exact findRail_mem hrail

theorem railId_mem {side : PowerRailSide} (h : (graph.findRail side).map (·.id) = some id) :
    id ∈ graph.nodeIds := by
  obtain ⟨rail, hfind, rfl⟩ := Option.map_eq_some_iff.1 h
  exact findRail_mem hfind

theorem seriesWires_ends (h : ∀ id ∈ rung.elementIds, id ∈ graph.nodeIds)
    (hw : w ∈ graph.seriesWires rung) : w.EndsIn graph.nodeIds := by
  rcases mem_append.1 hw with hw | hw
  · exact chainWires_ends (fun id hid => railId_mem hid) h hw
  · cases hlast : rung.elementIds.getLast? with
    | none =>
      rw [hlast] at hw
      cases hw
    | some last =>
      rw [hlast] at hw
      obtain ⟨target, htarget, rfl⟩ := mem_map.1 hw
      have htarget := (Option.filter_eq_some_iff.1 (Option.mem_toList.1 htarget)).1
      exact ⟨h last (mem_of_getLast? hlast), coilOrRail_mem htarget⟩

end LdGraph

/-! ## Rewiring -/

/-- Only wires, kinds and positions differ, and the new wires end at nodes. -/
structure Rewired (s s' : Session) : Prop where
  tags : s'.graph.nodes.map BaseNode.tag = s.graph.nodes.map BaseNode.tag
  rungs : s'.graph.rungs = s.graph.rungs
  counter : s.nextId ≤ s'.nextId
  wires : ∀ e ∈ s'.graph.edges, e ∈ s.graph.edges ∨ e.EndsIn s.graph.nodeIds

namespace Rewired

theorem nodeIds {s s' : Session} (h : Rewired s s') : s'.graph.nodeIds = s.graph.nodeIds := by
  have hfst := congrArg (List.map Prod.fst) h.tags
  rw [map_map, map_map] at hfst
  exact hfst

theorem refl (s : Session) : Rewired s s := ⟨rfl, rfl, Nat.le_refl _, fun _ he => Or.inl he⟩

theorem trans {s₁ s₂ s₃ : Session} (h : Rewired s₁ s₂) (h' : Rewired s₂ s₃) : Rewired s₁ s₃ where
  tags := h'.tags.trans h.tags
  rungs := h'.rungs.trans h.rungs
  counter := Nat.le_trans h.counter h'.counter
  wires e he := by
    rcases h'.wires e he with he | hends
    · exact h.wires e he
    · rw [h.nodeIds] at hends
      exact Or.inr hends

theorem dropEdges (s : Session) (p : BaseEdge → Bool) : Rewired s (s.dropEdges p) :=
  ⟨rfl, rfl, Nat.le_refl _, fun _ he => Or.inl (mem_filter.1 he).1⟩

variable [Entropy]

theorem addWire (h : w.EndsIn s.graph.nodeIds) : Rewired s (s.addWire w) where
  tags := rfl
  rungs := rfl
  counter := Nat.le_succ _
  wires e he := by
    rcases mem_append.1 he with he | he
    · exact Or.inl he
    · rw [mem_singleton.1 he]
      exact Or.inr h

theorem addWires (ws : List Wire) (h : ∀ w ∈ ws, w.EndsIn s.graph.nodeIds) : Rewired s (s.addWires ws) := by
  induction ws generalizing s with
  | nil => exact refl s
  | cons w ws ih =>
    have hfirst := addWire (h w (mem_cons_self ..))
    apply hfirst.trans (ih _)
    intro w' hw'
    rw [hfirst.nodeIds]
    exact h w' (mem_cons_of_mem _ hw')

/-- `rewireRungBranches` of a rung whose elements are there. -/
theorem rewireRungBranches (h : rung.Inside s.graph.nodeIds) : Rewired s (s.rewireRungBranches rung) := by
  unfold Session.rewireRungBranches
  by_cases hempty : rung.branches.isEmpty = true
  · rw [if_pos hempty]
    exact refl s
  · rw [if_neg hempty]
    exact (dropEdges s _).trans (addWires _ fun w hw => LdGraph.branchWires_ends h hw)

theorem rewireRungSeries (h : rung.Inside s.graph.nodeIds) : Rewired s (s.rewireRungSeries rung) := by
  have hseries := (dropEdges s (·.touches rung.elementIds)).trans
    (addWires _ fun w hw => LdGraph.seriesWires_ends (fun _ hid => h.element hid) hw)
  unfold Session.rewireRungSeries
  dsimp only
  by_cases hempty : rung.elementIds.isEmpty = true
  · rw [if_pos hempty]
    exact hseries
  · rw [if_neg hempty]
    apply hseries.trans (Rewired.rewireRungBranches _)
    rw [hseries.nodeIds]
    exact h

end Rewired

namespace Sound

variable [Entropy] {s' : Session}

theorem rewired (h : Sound s) (hs' : Rewired s s') : Sound s' := by
  constructor
  · rw [hs'.rungs]
    exact (h.owned.of_tags hs'.tags).mono hs'.counter
  · intro e he
    rw [hs'.nodeIds]
    rcases hs'.wires e he with he | hends
    · exact h.wired e he
    · exact hends

theorem inside (h : Sound s) (hrung : rung ∈ s.graph.rungs) : rung.Inside s.graph.nodeIds :=
  ⟨fun _ hid => h.owned.node_of_member hrung hid, fun b hb => (h.owned.anchors rung hrung b hb).2⟩

/-- **New elements** in a rung that is found. -/
theorem insert (h : Sound s) (s' : Session) (added : List BaseNode) {rung updated : Rung} {newBranches : List String}
    (hnodes : s'.graph.nodes = s.graph.nodes ++ added) (hrungs : s'.graph.rungs = (s.graph.setRung updated).rungs)
    (hedges : s'.graph.edges = s.graph.edges) (hcounter : s.nextId ≤ s'.nextId) (hnodup : (added.map (·.id)).Nodup)
    (hfresh : ∀ node ∈ added, IssuedBetween s.nextId s'.nextId node.id)
    (hkind : ∀ node ∈ added, node.kind.isRail = false ∧ node.kind.isComparison = false)
    (hfind : s.graph.rungs.find? (·.id == rung.id) = some rung)
    (hext : Owned.Extends s.nextId s'.nextId rung updated (added.map (·.id)) newBranches) :
    Sound s' ∧ updated.Inside s'.graph.nodeIds := by
  rw [← hext.sameId] at hfind
  have howned := h.owned.insert hcounter added hnodup hfresh hkind hfind hext
  have hsound : Sound s' := by
    constructor
    · rw [hnodes, hrungs]
      exact howned
    · intro e he
      rw [hedges] at he
      unfold LdGraph.nodeIds
      rw [hnodes, map_append]
      exact ⟨mem_append_left _ (h.wired e he).1, mem_append_left _ (h.wired e he).2⟩
  refine ⟨hsound, hsound.inside ?_⟩
  rw [hrungs]
  exact mem_updateFirst_self hfind _

/-- The main row of a rung with new elements. -/
theorem extends_insert (h : Sound s) (hfind : s.graph.rungs.find? (·.id == rung.id) = some rung) (m slot : Nat)
    (ids : List String) : Owned.Extends s.nextId m rung (rung.insert slot ids) ids [] := by
  have hrung := mem_of_find?_eq_some hfind
  refine ⟨rfl, ?_, List.Perm.refl _, nodup_nil, fun _ hid => absurd hid not_mem_nil, ?_⟩
  · unfold Rung.members
    rw [← List.append_assoc]
    exact (splice_perm rung.elementIds slot ids).append_right _
  · intro b hb
    obtain ⟨hid, hanchor⟩ := h.owned.anchors rung hrung b hb
    exact ⟨hid, (splice_perm rung.elementIds slot ids).mem_iff.2 (mem_append_right _ hanchor)⟩

/-- One new element in the main row of a rung. -/
theorem insertNode (h : Sound s) (hfind : s.graph.rungs.find? (·.id == rung.id) = some rung) (slot : Nat)
    (node : BaseNode) (hfresh : IssuedBetween s.nextId (s.nextId + 1) node.id)
    (hkind : node.kind.isRail = false ∧ node.kind.isComparison = false) :
    Sound (s.insertNode node (rung.insert slot [node.id])) ∧
      (rung.insert slot [node.id]).Inside (s.insertNode node (rung.insert slot [node.id])).graph.nodeIds := by
  refine h.insert _ [node] rfl rfl rfl (Nat.le_succ _) (nodup_singleton _) ?_ ?_ hfind
    (h.extends_insert hfind _ slot [node.id])
  · intro node' hnode
    rw [mem_singleton.1 hnode]
    exact hfresh
  · intro node' hnode
    rw [mem_singleton.1 hnode]
    exact hkind

end Sound

/-! ## The wires of new elements -/

namespace LdGraph

variable {graph : LdGraph} {updated : Rung} {slot : Nat}

/-- The element before the slot or the left rail is a node. -/
theorem prevId_mem (h : updated.Inside graph.nodeIds) {prev : String}
    (hprev : (if 0 < slot then updated.elementIds[slot - 1]? else (graph.findRail .left).map (·.id)) = some prev) :
    prev ∈ graph.nodeIds := by
  by_cases hslot : 0 < slot
  · rw [if_pos hslot] at hprev
    exact h.element (mem_of_getElem? hprev)
  · rw [if_neg hslot] at hprev
    exact railId_mem hprev

theorem contactWires_ends (h : updated.Inside graph.nodeIds) (hid : id ∈ graph.nodeIds) {coilNode : Option BaseNode}
    (hcoil : ∀ coil ∈ coilNode, coil.id ∈ graph.nodeIds)
    (hw : w ∈ graph.contactWires coilNode updated slot id) : w.EndsIn graph.nodeIds := by
  rcases mem_append.1 hw with hw | hw
  · obtain ⟨prev, hprev, rfl⟩ := mem_map.1 hw
    exact ⟨prevId_mem h (Option.mem_toList.1 hprev), hid⟩
  · obtain ⟨target, htarget, rfl⟩ := mem_map.1 hw
    refine ⟨hid, ?_⟩
    have htarget := Option.mem_toList.1 htarget
    by_cases hslot : slot + 1 = updated.elementIds.length
    · rw [if_pos hslot] at htarget
      obtain ⟨node, hnode, rfl⟩ := Option.map_eq_some_iff.1 htarget
      rcases Option.or_eq_some_iff.1 hnode with hnode | ⟨_, hrail⟩
      · exact hcoil node hnode
      · exact findRail_mem hrail
    · rw [if_neg hslot] at htarget
      cases htarget

theorem fbWires_ends (h : updated.Inside graph.nodeIds) (hid : id ∈ graph.nodeIds)
    (hw : w ∈ graph.fbWires updated slot id) : w.EndsIn graph.nodeIds := by
  rcases mem_append.1 hw with hw | hw
  · obtain ⟨prev, hprev, rfl⟩ := mem_map.1 hw
    exact ⟨prevId_mem h (Option.mem_toList.1 hprev), hid⟩
  · obtain ⟨succ, hsucc, rfl⟩ := mem_map.1 hw
    refine ⟨hid, ?_⟩
    rcases Option.or_eq_some_iff.1 (Option.mem_toList.1 hsucc) with hsucc | ⟨_, htarget⟩
    · exact h.element (mem_of_getElem? hsucc)
    · exact coilOrRail_mem htarget

end LdGraph

/-! ## New elements -/

namespace Sound

variable [Entropy] {s' : Session}

theorem freshId (s : Session) (kind : String) (hkind : Plain kind) :
    IssuedBetween s.nextId (s.nextId + 1) (s.freshId kind) :=
  issuedBetween_suffixedId hkind (Nat.lt_succ_self _) (Nat.le_refl _)

/-- New wires, and the wires of the branches again. -/
theorem rewireBranches (h : Sound s) {updated : Rung} (hinside : updated.Inside s.graph.nodeIds) {ws : List Wire}
    (hws : ∀ w ∈ ws, w.EndsIn s.graph.nodeIds) : Sound ((s.addWires ws).rewireRungBranches updated) := by
  have hwires := Rewired.addWires ws hws
  apply h.rewired (hwires.trans (Rewired.rewireRungBranches _))
  rw [hwires.nodeIds]
  exact hinside

omit [Entropy] in
theorem id_mem_insertNode (s : Session) (node : BaseNode) (updated : Rung) :
    node.id ∈ (s.insertNode node updated).graph.nodeIds :=
  mem_map_of_mem (mem_append_right _ (mem_cons_self ..))

theorem addContact (h : Sound s) {position : Option Point} {insertIndex : Option Int} {contactType : ContactType}
    (hcall : s.addContact position insertIndex contactType rungId = .ok s') : Sound s' := by
  obtain ⟨rung, hrung, _, rfl⟩ := Session.addContact_ok.1 hcall
  obtain ⟨hfind, _⟩ := LdGraph.findRung_ok hrung
  obtain ⟨hnext, hinside⟩ := h.insertNode hfind (s.graph.insertSlot rung insertIndex position)
    (s.newContact contactType ⟨0, 0⟩) (freshId s _ (by decide)) ⟨rfl, rfl⟩
  apply hnext.rewireBranches hinside
  intro w hw
  apply LdGraph.contactWires_ends hinside (id_mem_insertNode s _ _) _ hw
  intro coil hcoil
  apply hinside.element
  exact (splice_perm ..).mem_iff.2 (mem_append_right _ (LdGraph.findCoilOnRung_some hcoil).1)

theorem addCoil (h : Sound s) {coilType : CoilType} (hcall : s.addCoil coilType rungId = .ok s') :
    Sound s' := by
  obtain ⟨rung, lastContactId, hrung, hlast, rfl⟩ := Session.addCoil_ok.1 hcall
  obtain ⟨hfind, _⟩ := LdGraph.findRung_ok hrung
  obtain ⟨hnext, hinside⟩ := h.insertNode hfind rung.elementIds.length (s.newCoil coilType)
    (freshId s _ (by decide)) ⟨rfl, rfl⟩
  unfold Rung.insert at hnext hinside
  rw [splice_length] at hnext hinside
  have hcontact := (mem_filter.1 (mem_of_getLast? hlast)).1
  have hid := id_mem_insertNode s (s.newCoil coilType)
    { rung with elementIds := rung.elementIds ++ [(s.newCoil coilType).id] }
  have hwire := Rewired.addWires [{ sourceId := lastContactId, targetId := (s.newCoil coilType).id }]
    fun w hw => by
      rw [mem_singleton.1 hw]
      exact ⟨hinside.element (mem_append_left _ hcontact), hid⟩
  have hbranches := hwire.trans (Rewired.rewireRungBranches (hwire.nodeIds ▸ hinside))
  apply hnext.rewired (hbranches.trans (Rewired.addWires _ _))
  intro w hw
  obtain ⟨rail, hrail, rfl⟩ := mem_map.1 hw
  refine ⟨?_, LdGraph.findRail_mem (Option.mem_toList.1 hrail)⟩
  rw [hbranches.nodeIds]
  exact hid

theorem addFb (h : Sound s) {position : Option Point} {insertIndex : Option Int} {fbType rungId : String}
    (hcall : s.addFb position insertIndex fbType rungId = .ok s') : Sound s' := by
  obtain ⟨rung, pins, hrung, _, rfl⟩ := Session.addFb_ok.1 hcall
  obtain ⟨hfind, _⟩ := LdGraph.findRung_ok hrung
  obtain ⟨hnext, hinside⟩ := h.insertNode hfind (s.graph.insertSlot rung insertIndex position)
    (createFb (s.freshId "fb") fbType pins.1 pins.2) (freshId s _ (by decide)) ⟨rfl, rfl⟩
  apply hnext.rewireBranches hinside
  exact fun w hw => LdGraph.fbWires_ends hinside (id_mem_insertNode s _ _) hw

/-! ## Copies -/

/-- What the copies of elements are. -/
theorem pasteNodes_fresh {n : Nat} {sources : List BaseNode}
    (h : ∀ src ∈ sources, src.kind.isRail = false ∧ src.kind.isComparison = false) :
    n ≤ (Session.pasteNodes n sources).2 ∧ ((Session.pasteNodes n sources).1.map (·.id)).Nodup ∧
      ∀ node ∈ (Session.pasteNodes n sources).1, IssuedBetween n (Session.pasteNodes n sources).2 node.id ∧
        node.kind.isRail = false ∧ node.kind.isComparison = false := by
  induction sources generalizing n with
  | nil => exact ⟨Nat.le_refl n, nodup_nil, fun _ hnode => absurd hnode not_mem_nil⟩
  | cons src rest ih =>
    have hsrc := h src (mem_cons_self ..)
    have hfirst : (Session.pasteNode n src).1.id = suffixedId "paste" (n + 1) ∧ (Session.pasteNode n src).2 = n + 2 ∧
        (Session.pasteNode n src).1.kind.isRail = false ∧ (Session.pasteNode n src).1.kind.isComparison = false := by
      unfold Session.pasteNode
      cases hkind : src.kind with
      | powerRail side =>
        rw [hkind] at hsrc
        cases hsrc.1
      | comparison operator operandA operandB =>
        rw [hkind] at hsrc
        cases hsrc.2
      | _ => exact ⟨rfl, rfl, rfl, rfl⟩
    obtain ⟨hid, hcounter, hkind⟩ := hfirst
    obtain ⟨hle, hnodup, hrest⟩ := ih (n := n + 2) fun src hsrc => h src (mem_cons_of_mem _ hsrc)
    unfold Session.pasteNodes
    dsimp only
    rw [hcounter]
    have hissued : Issued (n + 2) (suffixedId "paste" (n + 1)) := ⟨"paste", n + 1, by decide, by omega, rfl⟩
    refine ⟨by omega, ?_, ?_⟩
    · rw [map_cons, nodup_cons, hid]
      refine ⟨?_, hnodup⟩
      intro hmem
      obtain ⟨node, hnode, heq⟩ := mem_map.1 hmem
      have hfresh := (hrest node hnode).1
      rw [heq] at hfresh
      exact hfresh.not_issued hissued
    · intro node hnode
      rcases mem_cons.1 hnode with rfl | hnode
      · refine ⟨?_, hkind⟩
        rw [hid]
        exact issuedBetween_suffixedId (by decide) (Nat.lt_succ_self n) (by omega)
      · obtain ⟨⟨kind, k, hplain, hk, hk', heq⟩, hnodeKind⟩ := hrest node hnode
        exact ⟨⟨kind, k, hplain, by omega, hk', heq⟩, hnodeKind⟩

theorem pasteSources_kind (h : Sound s) (elementIds : List String) {src : BaseNode}
    (hsrc : src ∈ s.pasteSources elementIds) :
    src ∈ s.graph.nodes ∧ src.kind.isRail = false ∧ src.kind.isComparison = false := by
  obtain ⟨hmem, hrail⟩ := mem_filter.1 hsrc
  obtain ⟨id, _, hfind⟩ := mem_filterMap.1 hmem
  have hnode := (LdGraph.findNode_id hfind).2
  rw [Bool.not_eq_true'] at hrail
  exact ⟨hnode, hrail, h.owned.compared src hnode⟩

theorem pasteElements (h : Sound s) {elementIds : List String} {insertIndex : Int}
    (hcall : s.pasteElements elementIds rungId insertIndex = .ok s') : Sound s' := by
  obtain ⟨rung, hrung, _, rfl⟩ := Session.pasteElements_ok.1 hcall
  obtain ⟨hfind, _⟩ := LdGraph.findRung_ok hrung
  obtain ⟨hle, hnodup, hpasted⟩ := pasteNodes_fresh (n := s.nextId) fun src hsrc =>
    (h.pasteSources_kind elementIds hsrc).2
  obtain ⟨hnext, hinside⟩ := h.insert
    (Session.setRung ⟨(Session.pasteNodes s.nextId (s.pasteSources elementIds)).2,
      { s.graph with nodes := s.graph.nodes ++ (Session.pasteNodes s.nextId (s.pasteSources elementIds)).1 }⟩ _)
    (Session.pasteNodes s.nextId (s.pasteSources elementIds)).1 rfl rfl rfl hle hnodup (fun node hnode => (hpasted node hnode).1) (fun node hnode => (hpasted node hnode).2) hfind
    (h.extends_insert hfind _ (clampSlot insertIndex rung.elementIds.length) _)
  exact hnext.rewired (Rewired.rewireRungSeries hinside)

end Sound

end Audesys.LdEditor
