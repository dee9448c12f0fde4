import Audesys.LdEditor.BranchWires
import Audesys.LdEditor.Valid

/-!
# `LdEditor.Branches` — a branch that is built and deleted

`openBranch` records a branch, each `addBranchContact` adds a member and wires the branches of the rung again, and
`deleteBranch` takes the members away, wires the branches that are left and puts the wire behind the anchor back. The
nodes and the rungs are as they were. The wires are exactly if none of those that were drawn again entered a function
block at a pin (`branchUndone_iff`).
-/

open List

namespace Audesys.LdEditor

open Audesys.Lib Audesys.Editor

variable {left right : BaseNode} {rung : Rung} {elementId : String} {graph : LdGraph}
variable {w : Wire}

/-- A rung with one more branch, which has the members. -/
def Rung.withBranch (rung : Rung) (branch : ParallelBranch) (memberIds : List String) : Rung :=
  { rung with branches := rung.branches ++ [{ branch with elementIds := memberIds }] }

/-- A session whose nodes, rungs and branches have distinct ids, with each element in one place and one branch at most
at a contact. -/
structure WellPlaced [Entropy] (s : Session) : Prop where
  nodeIds : s.graph.nodeIds.Nodup
  rungIds : (s.graph.rungs.map (·.id)).Nodup
  branchIds : (s.graph.rungs.flatMap Rung.branchIds).Nodup
  members : (s.graph.rungs.flatMap Rung.members).Nodup
  elements : ∀ id ∈ s.graph.rungs.flatMap Rung.members, ∃ node ∈ s.graph.nodes, node.kind.isRail = false ∧ node.id = id
  anchors : ∀ rung ∈ s.graph.rungs, ∀ b ∈ rung.branches, b.rungId = rung.id ∧ b.anchorId ∈ rung.elementIds ∧
    (s.graph.findNode b.anchorId).any (·.kind.isContact) = true
  oneEach : ∀ rung ∈ s.graph.rungs, (rung.branches.map (·.anchorId)).Nodup
  wired : ∀ e ∈ s.graph.edges, e.EndsIn s.graph.nodeIds
  /-- The ids that are generated later are new. -/
  unused : ∀ m id, IssuedBetween s.nextId m id →
    id ∉ s.graph.nodeIds ∧ id ∉ s.graph.rungs.flatMap Rung.branchIds

/-- The sessions of the editor are so, where branches hang off contacts, one each. -/
theorem Sound.wellPlaced [Entropy] {s : Session} (h : Sound s)
    (hanchors : ∀ rung ∈ s.graph.rungs, ∀ b ∈ rung.branches,
      (s.graph.findNode b.anchorId).any (·.kind.isContact) = true)
    (honeEach : ∀ rung ∈ s.graph.rungs, (rung.branches.map (·.anchorId)).Nodup) : WellPlaced s where
  nodeIds := h.owned.nodeIds
  rungIds := h.owned.rungIds
  branchIds := h.owned.branchIds
  members := h.owned.members
  elements id hid := mem_elementNodeIds.1 ((h.owned.owner id).1 hid)
  anchors rung hrung b hb :=
    ⟨(h.owned.anchors rung hrung b hb).1, (h.owned.anchors rung hrung b hb).2, hanchors rung hrung b hb⟩
  oneEach := honeEach
  wired := h.wired
  unused m id hid := by
    constructor
    · intro hnode
      obtain ⟨node, hmem, rfl⟩ := mem_map.1 hnode
      exact hid.not_issued (h.owned.nodesIssued node hmem)
    · exact fun hbranch => hid.not_issued (h.owned.branchesIssued id hbranch)

namespace Session

variable [Entropy]

/-- `addBranchContact` for one contact type after the other. -/
def addBranchContacts (s : Session) (branchId : String) (contactTypes : List (Option ContactType)) :
    Except String Session := contactTypes.foldlM (fun s contactType => s.addBranchContact branchId contactType) s

/-- A branch is opened at a contact, contacts are added to it, and it is deleted. -/
def buildAndDelete (s : Session) (rungId anchorId : String) (contactTypes : List (Option ContactType)) :
    Except String Session := do
  let opened ← s.openBranch rungId anchorId
  let built ← opened.addBranchContacts (s.freshId "branch") contactTypes
  built.deleteBranch (s.freshId "branch")

/-- The nodes and the rungs are as they were, and up to their ids and order, the wires. -/
structure RestoredBy (s s' : Session) : Prop where
  nodes : s'.graph.nodes = s.graph.nodes
  rungs : s'.graph.rungs = s.graph.rungs
  links : s'.graph.links.Perm s.graph.links

end Session

/-! ## Wires that are drawn again -/

namespace LdGraph

variable {graph' : LdGraph}

theorem branchWires_withBranch (graph : LdGraph) (rung : Rung) (branch : ParallelBranch) (memberIds : List String) :
    graph.branchWires (rung.withBranch branch memberIds) =
      graph.branchWires rung ++ graph.drawnWires rung { branch with elementIds := memberIds } := by
  have hsame : graph.drawnWires (rung.withBranch branch memberIds) = graph.drawnWires rung := rfl
  rw [branchWires_eq, branchWires_eq, hsame]
  unfold Rung.withBranch
  rw [flatMap_append, flatMap_singleton]

theorem atBranch_withBranch {branch : ParallelBranch} {memberIds : List String} :
    atBranch (rung.withBranch branch memberIds) w = true ↔ atBranch rung w = true ∨ w.touches memberIds = true ∨
      w.sourceId = branch.anchorId ∧ seriesSuccessor rung branch.anchorId = some w.targetId := by
  have htouches : w.touches ((rung.withBranch branch memberIds).branches.flatMap (·.elementIds)) = true ↔
      w.touches (rung.branches.flatMap (·.elementIds)) = true ∨ w.touches memberIds = true := by
    unfold Rung.withBranch
    rw [flatMap_append, flatMap_singleton, Wire.touches_iff, Wire.touches_iff, Wire.touches_iff,
      mem_append, mem_append]
    exact or_or_or_comm ..
  have hanchors : (∃ b ∈ (rung.withBranch branch memberIds).branches, w.sourceId = b.anchorId ∧
        seriesSuccessor (rung.withBranch branch memberIds) b.anchorId = some w.targetId) ↔
      (∃ b ∈ rung.branches, w.sourceId = b.anchorId ∧ seriesSuccessor rung b.anchorId = some w.targetId) ∨
        w.sourceId = branch.anchorId ∧ seriesSuccessor rung branch.anchorId = some w.targetId := by
    constructor
    · rintro ⟨b, hb, hsource, hsucc⟩
      rcases mem_append.1 hb with hb | hb
      · exact .inl ⟨b, hb, hsource, hsucc⟩
      · rw [mem_singleton.1 hb] at hsource hsucc
        exact .inr ⟨hsource, hsucc⟩
    · rintro (⟨b, hb, hsource, hsucc⟩ | ⟨hsource, hsucc⟩)
      · exact ⟨b, mem_append_left _ hb, hsource, hsucc⟩
      · exact ⟨_, mem_append_right _ (mem_singleton_self _), hsource, hsucc⟩
  rw [atBranch_iff, atBranch_iff, htouches, hanchors]
  exact or_or_or_comm ..

/-- The wires of a branch with members touch them. -/
theorem drawnWires_touches {b : ParallelBranch} (hne : b.elementIds ≠ [])
    (hw : w ∈ graph.drawnWires rung b) : w.touches b.elementIds = true := by
  unfold drawnWires at hw
  cases hmembers : b.elementIds with
  | nil => exact absurd hmembers hne
  | cons first rest =>
    rw [hmembers] at hw
    rw [Wire.touches_iff]
    rcases mem_cons.1 hw with rfl | hw
    · exact .inr (mem_cons_self ..)
    rcases mem_append.1 hw with hbus | hlast
    · exact .inl (busWires_ends hbus).1
    · obtain ⟨id, _, rfl⟩ := mem_map.1 hlast
      exact .inl (getLastD_mem first rest)

/-- What is drawn for the branches of a rung is dropped when they are wired again. -/
theorem branchWires_atBranch (hw : w ∈ graph.branchWires rung) : atBranch rung w = true := by
  rw [branchWires_eq] at hw
  obtain ⟨b, hb, hw⟩ := mem_flatMap.1 hw
  rw [atBranch_iff]
  by_cases hne : b.elementIds = []
  · unfold drawnWires at hw
    rw [hne] at hw
    obtain ⟨succ, hsucc, rfl⟩ := mem_map.1 hw
    exact .inr ⟨b, hb, rfl, Option.mem_toList.1 hsucc⟩
  · exact .inl (touches_mono (drawnWires_touches hne hw) (elementIds_subset hb))

/-- Behind a rung with one more branch the branches of the rung are wired again: what was kept is kept, and what was
drawn is drawn again. -/
theorem filter_rewired (links : List Wire) (rung : Rung) (branch : ParallelBranch) :
    (((links.filter fun w => !atBranch (rung.withBranch branch []) w) ++ graph.branchWires rung).filter fun w =>
        !atBranch rung w) ++ graph.branchWires rung =
      (links.filter fun w => !atBranch (rung.withBranch branch []) w) ++ graph.branchWires rung := by
  have hkept : ((links.filter fun w => !atBranch (rung.withBranch branch []) w).filter fun w => !atBranch rung w) =
      links.filter fun w => !atBranch (rung.withBranch branch []) w := by
    apply filter_eq_self.2
    intro w hmem
    have hnot := (mem_filter.1 hmem).2
    rw [Bool.not_eq_true', ← Bool.not_eq_true] at hnot ⊢
    exact fun hbranch => hnot (atBranch_withBranch.2 (.inl hbranch))
  have hnone : ((graph.branchWires rung).filter fun w => !atBranch rung w) = [] := by
    rw [filter_eq_nil_iff]
    intro w hmem hnot
    rw [branchWires_atBranch hmem] at hnot
    cases hnot
  rw [filter_append, hkept, hnone, List.append_nil]

/-- Whether two elements are connected. -/
theorem any_edges_iff {source target : String} :
    graph.edges.any (fun e => e.sourceId == source && e.targetId == target) = true ↔
      ∃ w ∈ graph.links, w.sourceId = source ∧ w.targetId = target := by
  unfold links wires
  simp only [any_eq_true, map_map, mem_map, Bool.and_eq_true, beq_iff_eq]
  constructor
  · rintro ⟨e, he, hends⟩
    exact ⟨_, ⟨e, he, rfl⟩, hends⟩
  · rintro ⟨_, ⟨e, he, rfl⟩, hends⟩
    exact ⟨e, he, hends⟩

theorem branchWires_bare (graph : LdGraph) (rung : Rung) :
    (graph.branchWires rung).map Wire.bare = graph.branchWires rung := by
  have hbare : ∀ w ∈ graph.branchWires rung, w.bare = id w := by
    intro w hw
    rw [branchWires_eq] at hw
    obtain ⟨b, _, hw⟩ := mem_flatMap.1 hw
    unfold drawnWires at hw
    split at hw
    · obtain ⟨_, _, rfl⟩ := mem_map.1 hw
      rfl
    · rcases mem_cons.1 hw with rfl | hw
      · rfl
      rcases mem_append.1 hw with hbus | hlast
      · obtain ⟨_, _, rfl⟩ := mem_map.1 hbus
        rfl
      · obtain ⟨_, _, rfl⟩ := mem_map.1 hlast
        rfl
  rw [map_congr_left hbare, map_id]

/-- A contact is no block. -/
theorem isFb_contact {id : String} (hid : (graph.findNode id).any (·.kind.isContact) = true) :
    graph.isFb id = false := by
  unfold isFb
  cases hfind : graph.findNode id with
  | none => rfl
  | some node =>
    rw [hfind] at hid
    exact (NodeKind.of_isContact hid).2

theorem branchWires_congr (h : graph'.findRail .right = graph.findRail .right) (rung : Rung) :
    graph'.branchWires rung = graph.branchWires rung := by
  unfold branchWires
  rw [h]

end LdGraph

namespace Session

variable [Entropy]

@[simp] theorem addWires_links (s : Session) (ws : List Wire) :
    (s.addWires ws).graph.links = s.graph.links ++ ws.map Wire.bare := by
  unfold LdGraph.links
  rw [addWires_wires, map_append]

omit [Entropy] in
/-- Wires are dropped for what they connect. -/
theorem dropEdges_links (s : Session) {q : Wire → Bool} (hq : ∀ w, q (Wire.bare w) = q w) :
    (s.dropEdges fun e => q e.toWire).graph.links = s.graph.links.filter fun w => !q w := by
  have hwires : (s.dropEdges fun e => q e.toWire).graph.wires = s.graph.wires.filter fun w => !q w :=
    (filter_map (f := fun e : BaseEdge => e.toWire) (p := fun w => !q w)).symm
  have hbare : (fun w => !q w) ∘ Wire.bare = fun w => !q w := by
    funext w
    exact congrArg not (hq w)
  unfold LdGraph.links
  rw [hwires, filter_map, hbare]

theorem rewireRungBranches_links (s : Session) (rung : Rung) : (s.rewireRungBranches rung).graph.links =
    (s.graph.links.filter fun w => !LdGraph.atBranch rung w) ++ s.graph.branchWires rung := by
  unfold rewireRungBranches
  by_cases hempty : rung.branches.isEmpty = true
  · have hnil := isEmpty_iff.1 hempty
    have hall : (s.graph.links.filter fun w => !LdGraph.atBranch rung w) = s.graph.links := by
      apply filter_eq_self.2
      intro w _
      unfold LdGraph.atBranch Wire.touches
      rw [hnil]
      rfl
    unfold LdGraph.branchWires
    rw [if_pos hempty, hall, hnil]
    exact (List.append_nil _).symm
  · rw [if_neg hempty, addWires_links, LdGraph.branchWires_bare]
    exact congrArg (· ++ _) (s.dropEdges_links (q := LdGraph.atBranch rung) fun _ => rfl)

theorem le_addWires (s : Session) (ws : List Wire) : s.nextId ≤ (s.addWires ws).nextId := by
  unfold addWires
  induction ws generalizing s with
  | nil => exact Nat.le_refl _
  | cons w ws ih => exact Nat.le_trans (Nat.le_succ _) (ih (s.addWire w))

theorem le_rewireRungBranches (s : Session) (rung : Rung) : s.nextId ≤ (s.rewireRungBranches rung).nextId := by
  unfold rewireRungBranches
  by_cases hempty : rung.branches.isEmpty = true
  · rw [if_pos hempty]
  · rw [if_neg hempty]
    exact le_addWires (s.dropEdges _) _

end Session

section
variable [Entropy] {s : Session}

namespace WellPlaced

theorem findNode (h : WellPlaced s) {node : BaseNode} (hnode : node ∈ s.graph.nodes) :
    s.graph.findNode node.id = some node := find?_of_nodup_map h.nodeIds hnode

theorem find?_rung (h : WellPlaced s) (hrung : rung ∈ s.graph.rungs) :
    s.graph.rungs.find? (·.id == rung.id) = some rung := find?_of_nodup_map h.rungIds hrung

theorem rail_not_member (h : WellPlaced s) {side : PowerRailSide} {rail : BaseNode}
    (hrail : s.graph.findRail side = some rail) (hrung : rung ∈ s.graph.rungs) : rail.id ∉ rung.members := by
  intro hid
  obtain ⟨node, hnode, hkind, hsame⟩ := h.elements rail.id (mem_flatMap.2 ⟨rung, hrung, hid⟩)
  have hside := find?_some (p := fun n : BaseNode => n.kind == .powerRail side) hrail
  rw [inj_on_of_nodup_map h.nodeIds hnode (mem_of_find?_eq_some hrail) hsame, beq_iff_eq.1 hside] at hkind
  cases hkind

theorem isFb_rail (h : WellPlaced s) {side : PowerRailSide} {rail : BaseNode}
    (hrail : s.graph.findRail side = some rail) : s.graph.isFb rail.id = false := by
  have hside := find?_some (p := fun n : BaseNode => n.kind == .powerRail side) hrail
  unfold LdGraph.isFb
  rw [h.findNode (mem_of_find?_eq_some hrail), Option.any_some, beq_iff_eq.1 hside]
  rfl

theorem inside (h : WellPlaced s) (hrung : rung ∈ s.graph.rungs) : rung.Inside s.graph.nodeIds where
  members id hid := by
    obtain ⟨node, hnode, _, rfl⟩ := h.elements id (mem_flatMap.2 ⟨rung, hrung, hid⟩)
    exact mem_map_of_mem hnode
  anchors b hb := (h.anchors rung hrung b hb).2.1

theorem woven (h : WellPlaced s) (hrung : rung ∈ s.graph.rungs)
    (hleft : s.graph.findRail .left = some left) (hright : s.graph.findRail .right = some right) :
    s.graph.Woven left right rung where
  leftRail := h.rail_not_member hleft hrung
  rightRail := hright
  rightEnd := ⟨h.rail_not_member hright hrung, h.isFb_rail hright⟩
  members := (nodup_flatMap.1 h.members).1 rung hrung
  anchors b hb :=
    have hanchor := h.anchors rung hrung b hb
    ⟨hanchor.2.1, LdGraph.isFb_contact hanchor.2.2⟩
  oneEach := h.oneEach rung hrung

/-- No wire touches what is generated later. -/
theorem not_touches (h : WellPlaced s) (hw : w ∈ s.graph.links) {m : Nat} {ids : List String}
    (hids : ∀ id ∈ ids, IssuedBetween s.nextId m id) : w.touches ids = false := by
  obtain ⟨wire, hwire, rfl⟩ := mem_map.1 hw
  obtain ⟨e, he, rfl⟩ := mem_map.1 hwire
  rw [← Bool.not_eq_true, Wire.touches_iff]
  rintro (hsource | htarget)
  · exact (h.unused m _ (hids _ hsource)).1 (h.wired e he).1
  · exact (h.unused m _ (hids _ htarget)).1 (h.wired e he).2

end WellPlaced

omit [Entropy] in
/-- A rung with one more branch, without members, at a contact that has none. -/
theorem LdGraph.Woven.withBranch
    (h : graph.Woven left right rung) {branch : ParallelBranch} (hanchor : branch.anchorId ∈ rung.elementIds)
    (hcontact : graph.isFb branch.anchorId = false) (hfree : ∀ b ∈ rung.branches, b.anchorId ≠ branch.anchorId) :
    graph.Woven left right (rung.withBranch branch []) ∧
      (rung.withBranch branch []).members = rung.members ∧
      ∀ join, graph.rungWires join left.id right.id (rung.withBranch branch []) =
        graph.rungWires join left.id right.id rung := by
  have hmembers : (rung.withBranch branch []).members = rung.members := by
    unfold Rung.members Rung.withBranch
    rw [flatMap_append, flatMap_singleton, List.append_nil]
  refine ⟨⟨hmembers ▸ h.leftRail, h.rightRail, ⟨hmembers ▸ h.rightEnd.1, h.rightEnd.2⟩, hmembers ▸ h.members, ?_, ?_⟩,
    hmembers, ?_⟩
  · intro b hb
    rcases mem_append.1 hb with hb | hb
    · exact h.anchors b hb
    · rw [mem_singleton.1 hb]
      exact ⟨hanchor, hcontact⟩
  · unfold Rung.withBranch
    rw [map_append, map_singleton]
    apply List.Nodup.append h.oneEach (nodup_singleton _)
    intro id hid hsame
    obtain ⟨b, hb, rfl⟩ := mem_map.1 hid
    exact hfree b hb (mem_singleton.1 hsame)
  · intro join
    have hbypassed : ∀ w, LdGraph.isBypassed (rung.withBranch branch []) w = LdGraph.isBypassed rung w := by
      intro w
      unfold LdGraph.isBypassed Rung.withBranch
      rw [any_append]
      exact Bool.or_false _
    have hsame : graph.bypassWires join right.id (rung.withBranch branch []) = graph.bypassWires join right.id rung :=
      rfl
    unfold LdGraph.rungWires
    simp only [hbypassed, hsame]
    unfold Rung.withBranch
    rw [flatMap_append, flatMap_singleton]
    exact congrArg _ (List.append_nil _)

/-! ## The run -/

/-- A branch is being built: the nodes are the old ones and its members, its rung has it, and once it has a member, the
branches of the rung were wired again. -/
structure Building (s : Session) (rung : Rung) (branch : ParallelBranch) (memberIds : List String) (t : Session) :
    Prop where
  nodes : ∃ contacts : List BaseNode, contacts.map (·.id) = memberIds ∧ t.graph.nodes = s.graph.nodes ++ contacts
  rungs : t.graph.rungs = (s.graph.setRung (rung.withBranch branch memberIds)).rungs
  issued : ∀ id ∈ memberIds, IssuedBetween s.nextId t.nextId id
  counter : s.nextId ≤ t.nextId
  links : t.graph.links =
    if memberIds = [] then s.graph.links
    else (s.graph.links.filter fun w => !LdGraph.atBranch (rung.withBranch branch []) w) ++
      s.graph.branchWires (rung.withBranch branch memberIds)

/-- A new branch of a rung. -/
structure NewBranch (s : Session) (rung : Rung) (branch : ParallelBranch) : Prop where
  mem : rung ∈ s.graph.rungs
  rungId : branch.rungId = rung.id
  fresh : branch.id ∉ s.graph.rungs.flatMap Rung.branchIds
  anchor : branch.anchorId ∈ rung.elementIds
  right : ∃ right, s.graph.findRail .right = some right

variable {t : Session} {branch : ParallelBranch} {memberIds : List String}

/-- What stays of the old wires when the branches are wired again. -/
theorem WellPlaced.kept_links (h : WellPlaced s) {m : Nat} (hids : ∀ id ∈ memberIds, IssuedBetween s.nextId m id) :
    (s.graph.links.filter fun w => !LdGraph.atBranch (rung.withBranch branch memberIds) w) =
      s.graph.links.filter fun w => !LdGraph.atBranch (rung.withBranch branch []) w := by
  apply filter_congr
  intro w hw
  have htouches := h.not_touches hw hids
  have hnone : w.touches [] = false := rfl
  have hiff : LdGraph.atBranch (rung.withBranch branch memberIds) w = true ↔
      LdGraph.atBranch (rung.withBranch branch []) w = true := by
    rw [LdGraph.atBranch_withBranch, LdGraph.atBranch_withBranch, htouches, hnone]
  rw [Bool.eq_iff_iff.2 hiff]

section
omit [Entropy]

theorem NewBranch.id_ne (h : NewBranch s rung branch) {r : Rung} (hr : r ∈ s.graph.rungs) {b : ParallelBranch}
    (hb : b ∈ r.branches) : b.id ≠ branch.id := by
  intro hid
  apply h.fresh
  rw [← hid]
  exact mem_flatMap.2 ⟨r, hr, mem_map_of_mem hb⟩

/-- The rung when a member is added to the branch. -/
theorem NewBranch.with_member (h : NewBranch s rung branch) {id : String} :
    { rung.withBranch branch memberIds with branches := (rung.withBranch branch memberIds).branches.map fun b =>
        if b.id = branch.id then { b with elementIds := b.elementIds ++ [id] } else b } =
      rung.withBranch branch (memberIds ++ [id]) := by
  have hothers : rung.branches.map (fun b =>
      if b.id = branch.id then { b with elementIds := b.elementIds ++ [id] } else b) = rung.branches.map fun b => b :=
    map_congr_left fun b hb => if_neg (h.id_ne h.mem hb)
  unfold Rung.withBranch
  dsimp only
  rw [map_append, hothers, map_id', map_singleton, if_pos rfl]

/-- The rung without the branch is the old one. -/
theorem NewBranch.without_branch (h : NewBranch s rung branch) : { rung.withBranch branch memberIds with
      branches := (rung.withBranch branch memberIds).branches.filter (·.id != branch.id) } = rung := by
  have hothers : rung.branches.filter (·.id != branch.id) = rung.branches :=
    filter_eq_self.2 fun b hb => bne_iff_ne.2 (h.id_ne h.mem hb)
  have hself : [{ branch with elementIds := memberIds }].filter (·.id != branch.id) = [] := by
    rw [filter_cons_of_neg (by simp), filter_nil]
  unfold Rung.withBranch
  dsimp only
  rw [filter_append, hothers, hself, List.append_nil]

/-- The wire behind the anchor is none of another branch. -/
theorem NewBranch.not_atBranch (hn : NewBranch s rung branch)
    (hw : s.graph.Woven left right rung) (hfree : ∀ b ∈ rung.branches, b.anchorId ≠ branch.anchorId)
    (hsource : w.sourceId = branch.anchorId)
    (hsucc : seriesSuccessor rung branch.anchorId = some w.targetId) : LdGraph.atBranch rung w = false := by
  rw [← Bool.not_eq_true, LdGraph.atBranch_iff, Wire.touches_iff, hsource]
  rintro ((hmember | hmember) | ⟨b, hb, hanchor, _⟩)
  · exact hw.not_member hn.anchor hmember
  · exact hw.not_member (seriesSuccessor_mem hsucc) hmember
  · exact hfree b hb hanchor.symm

end

namespace Building

theorem findRail (hb : Building s rung branch memberIds t) (hn : NewBranch s rung branch) :
    t.graph.findRail .right = s.graph.findRail .right := by
  obtain ⟨contacts, _, hnodes⟩ := hb.nodes
  obtain ⟨right, hright⟩ := hn.right
  rw [hright]
  exact LdGraph.findRail_append hnodes hright

/-- The branch is found in its rung. -/
theorem findBranch (hb : Building s rung branch memberIds t) (h : WellPlaced s) (hn : NewBranch s rung branch) :
    t.graph.findBranch branch.id =
      .ok (rung.withBranch branch memberIds, { branch with elementIds := memberIds }) := by
  have hnone : ∀ r ∈ s.graph.rungs, r.branches.find? (·.id == branch.id) = none := by
    intro r hr
    rw [find?_eq_none]
    exact fun b hbranch hid => hn.id_ne hr hbranch (beq_iff_eq.1 hid)
  obtain ⟨l₁, l₂, hsplit, hupdate⟩ := updateFirst_split (h.find?_rung hn.mem) fun _ => rung.withBranch branch memberIds
  have hfront : (l₁.findSome? fun r => (r.branches.find? (·.id == branch.id)).map (r, ·)) = none := by
    rw [findSome?_eq_none_iff]
    intro r hr
    rw [hnone r (by rw [hsplit]; exact mem_append_left _ hr)]
    rfl
  have hself : (rung.withBranch branch memberIds).branches.find? (·.id == branch.id) =
      some { branch with elementIds := memberIds } := by
    unfold Rung.withBranch
    rw [find?_append, hnone rung hn.mem, find?_cons_of_pos (by exact beq_self_eq_true branch.id)]
    rfl
  have hrungs : t.graph.rungs = l₁ ++ rung.withBranch branch memberIds :: l₂ := hb.rungs.trans hupdate
  unfold LdGraph.findBranch
  rw [hrungs, findSome?_append, hfront, Option.none_or, findSome?_cons, hself]
  rfl

theorem findRung (hb : Building s rung branch memberIds t) (h : WellPlaced s) (hn : NewBranch s rung branch) :
    t.graph.findRung rung.id = .ok (rung.withBranch branch memberIds) := by
  have hfind := find?_updateFirst (p := fun r : Rung => r.id == rung.id)
    (f := fun _ => rung.withBranch branch memberIds) (l := s.graph.rungs) fun _ _ => beq_self_eq_true _
  rw [h.find?_rung hn.mem] at hfind
  have hfound : t.graph.rungs.find? (·.id == (rung.withBranch branch memberIds).id) =
      some (rung.withBranch branch memberIds) := by
    rw [hb.rungs]
    exact hfind
  exact LdGraph.findRung_of_find? hfound

/-- Behind one more member all but these is drawn again. -/
theorem dropped_links (hb : Building s rung branch memberIds t) (h : WellPlaced s) {id : String} {m : Nat}
    (hids : ∀ i ∈ memberIds ++ [id], IssuedBetween s.nextId m i) :
    (t.graph.links.filter fun w => !LdGraph.atBranch (rung.withBranch branch (memberIds ++ [id])) w) =
      s.graph.links.filter fun w => !LdGraph.atBranch (rung.withBranch branch []) w := by
  rw [hb.links]
  split
  · exact h.kept_links hids
  · have hdrawn : ((s.graph.branchWires (rung.withBranch branch memberIds)).filter fun w =>
        !LdGraph.atBranch (rung.withBranch branch (memberIds ++ [id])) w) = [] := by
      rw [filter_eq_nil_iff]
      intro w hw hnot
      rw [Bool.not_eq_true', ← Bool.not_eq_true] at hnot
      apply hnot
      rw [LdGraph.atBranch_withBranch]
      rcases LdGraph.atBranch_withBranch.1 (LdGraph.branchWires_atBranch hw) with hother | htouches | hbehind
      · exact .inl hother
      · exact .inr (.inl (LdGraph.touches_mono htouches (subset_append_left ..)))
      · exact .inr (.inr hbehind)
    have hkept : (s.graph.links.filter fun w => !LdGraph.atBranch (rung.withBranch branch (memberIds ++ [id])) w) =
        s.graph.links.filter fun w => !LdGraph.atBranch (rung.withBranch branch []) w := h.kept_links hids
    rw [filter_append, hdrawn, List.append_nil, ← hkept,
      filter_filter]
    simp only [Bool.and_self]

/-- **A member is added.** -/
theorem addBranchContact (hb : Building s rung branch memberIds t) (h : WellPlaced s) (hn : NewBranch s rung branch)
    (contactType : Option ContactType) : ∃ t' id, t.addBranchContact branch.id contactType = .ok t' ∧
      Building s rung branch (memberIds ++ [id]) t' := by
  have hissued : ∀ i ∈ memberIds ++ [t.freshId "contact"], IssuedBetween s.nextId (t.nextId + 1) i := by
    intro i hi
    rcases mem_append.1 hi with hi | hi
    · obtain ⟨kind, k, hkind, hk, hle, hid⟩ := hb.issued i hi
      exact ⟨kind, k, hkind, hk, Nat.le_succ_of_le hle, hid⟩
    · rw [mem_singleton.1 hi]
      exact issuedBetween_suffixedId (by decide) (Nat.lt_succ_of_le hb.counter) (Nat.le_refl _)
  have hright := hb.findRail hn
  obtain ⟨contacts, hcontacts, hnodes⟩ := hb.nodes
  unfold Session.addBranchContact
  rw [hb.findBranch h hn]
  show ∃ t' id, (t.graph.findRung branch.rungId >>= _) = _ ∧ _
  rw [hn.rungId, hb.findRung h hn]
  refine ⟨_, t.freshId "contact", rfl, ?_⟩
  -- the contact, and the rung with it
  generalize hcontact : t.newContact (contactType.getD .no) _ = contact
  have hid : contact.id = t.freshId "contact" := congrArg BaseNode.id hcontact.symm
  have hupdated : { rung.withBranch branch memberIds with
      branches := (rung.withBranch branch memberIds).branches.map fun b =>
        if b.id = branch.id then { b with elementIds := b.elementIds ++ [contact.id] } else b } =
      rung.withBranch branch (memberIds ++ [t.freshId "contact"]) := by
    rw [hid]
    exact hn.with_member
  dsimp only
  rw [hupdated]
  have hgraph : ∀ r, (t.insertNode contact r).graph.branchWires r = s.graph.branchWires r := by
    intro r
    apply LdGraph.branchWires_congr
    rw [← hright]
    obtain ⟨right, hrail⟩ := hn.right
    rw [hright, hrail]
    have happend : (t.insertNode contact r).graph.nodes = s.graph.nodes ++ (contacts ++ [contact]) := by
      rw [← List.append_assoc, ← hnodes]
      rfl
    exact LdGraph.findRail_append happend hrail
  constructor
  case nodes =>
    refine ⟨contacts ++ [contact], ?_, ?_⟩
    · rw [map_append, hcontacts, map_singleton, hid]
    · rw [Session.rewireRungBranches_nodes, ← List.append_assoc, ← hnodes]
      rfl
  case rungs =>
    rw [Session.rewireRungBranches_rungs]
    show updateFirst _ _ t.graph.rungs = _
    rw [hb.rungs]
    exact updateFirst_updateFirst fun _ _ => beq_self_eq_true _
  case issued =>
    intro i hi
    obtain ⟨kind, k, hkind, hk, hle, hissued⟩ := hissued i hi
    exact ⟨kind, k, hkind, hk, Nat.le_trans hle (Session.le_rewireRungBranches (t.insertNode contact _) _), hissued⟩
  case counter =>
    exact Nat.le_trans (Nat.le_succ_of_le hb.counter) (Session.le_rewireRungBranches (t.insertNode contact _) _)
  case links =>
    rw [Session.rewireRungBranches_links, hgraph, if_neg (append_ne_nil_of_right_ne_nil _ (cons_ne_nil _ _))]
    exact congrArg (· ++ _) (hb.dropped_links h hissued)

/-- The nodes without the members are the old ones. -/
theorem dropNodes (hb : Building s rung branch memberIds t) (h : WellPlaced s) :
    (t.dropNodes memberIds).graph.nodes = s.graph.nodes := by
  obtain ⟨contacts, rfl, hnodes⟩ := hb.nodes
  have hold : (s.graph.nodes.filter fun n => !(contacts.map (·.id)).contains n.id) = s.graph.nodes := by
    apply filter_eq_self.2
    intro node hnode
    rw [not_contains_iff]
    exact fun hmem => (h.unused _ _ (hb.issued _ hmem)).1 (mem_map_of_mem hnode)
  have hnew : (contacts.filter fun n => !(contacts.map (·.id)).contains n.id) = [] := by
    apply filter_eq_nil_iff.2
    intro node hnode hnot
    exact not_contains_iff.1 hnot (mem_map_of_mem hnode)
  show t.graph.nodes.filter _ = _
  rw [hnodes, filter_append, hold, hnew, List.append_nil]

/-- The wires that are left without those at the members. -/
theorem dropEdges_links (hb : Building s rung branch memberIds t) (h : WellPlaced s) (hn : NewBranch s rung branch) :
    ((t.dropNodes memberIds).dropEdges (·.touches memberIds)).graph.links =
      if memberIds = [] then s.graph.links
      else (s.graph.links.filter fun w => !LdGraph.atBranch (rung.withBranch branch []) w) ++
        s.graph.branchWires rung := by
  have hold : ∀ w ∈ s.graph.links, (!w.touches memberIds) = true := fun w hw =>
    congrArg not (h.not_touches hw hb.issued)
  have hlinks : ((t.dropNodes memberIds).dropEdges (·.touches memberIds)).graph.links =
      t.graph.links.filter fun w => !w.touches memberIds :=
    Session.dropEdges_links (t.dropNodes memberIds) (q := fun w => w.touches memberIds) fun _ => rfl
  rw [hlinks, hb.links]
  by_cases hempty : memberIds = []
  · rw [if_pos hempty, if_pos hempty]
    exact filter_eq_self.2 hold
  rw [if_neg hempty, if_neg hempty, filter_append, LdGraph.branchWires_withBranch, filter_append]
  -- the wires of the branch touch its members, and no others do
  have hown : ((s.graph.drawnWires rung { branch with elementIds := memberIds }).filter fun w =>
      !w.touches memberIds) = [] := by
    rw [filter_eq_nil_iff]
    intro w hw hnot
    rw [LdGraph.drawnWires_touches (b := { branch with elementIds := memberIds }) hempty hw] at hnot
    cases hnot
  have hothers : ((s.graph.branchWires rung).filter fun w => !w.touches memberIds) = s.graph.branchWires rung := by
    apply filter_eq_self.2
    intro w hw
    obtain ⟨hsource, htarget⟩ := LdGraph.branchWires_ends (h.inside hn.mem) hw
    rw [Bool.not_eq_true', ← Bool.not_eq_true, Wire.touches_iff]
    rintro (hmem | hmem)
    · exact (h.unused _ _ (hb.issued _ hmem)).1 hsource
    · exact (h.unused _ _ (hb.issued _ hmem)).1 htarget
  rw [hown, hothers, List.append_nil]
  congr 1
  exact filter_eq_self.2 fun w hw => hold w (mem_filter.1 hw).1

/-- **The branch is deleted.** If it had members, the wires at all branches and at its anchor are drawn again, else
those at the other branches. -/
theorem deleteBranch (hb : Building s rung branch memberIds t) (h : WellPlaced s) (hn : NewBranch s rung branch)
    (hw : s.graph.Woven left right rung)
    (hfree : ∀ b ∈ rung.branches, b.anchorId ≠ branch.anchorId) {succ : String}
    (hsucc : seriesSuccessor rung branch.anchorId = some succ)
    (hwire : ∃ w ∈ s.graph.links, w.sourceId = branch.anchorId ∧ w.targetId = succ) :
    ∃ s', t.deleteBranch branch.id = .ok s' ∧ s'.graph.nodes = s.graph.nodes ∧ s'.graph.rungs = s.graph.rungs ∧
      ∀ r, r = (if memberIds = [] then rung else rung.withBranch branch []) →
        s'.graph.links = (s.graph.links.filter fun w => !LdGraph.atBranch r w) ++ s.graph.branchWires r := by
  unfold Session.deleteBranch
  rw [hb.findBranch h hn]
  dsimp only [bind, Except.bind]
  rw [hn.without_branch]
  generalize hnext : (t.dropNodes memberIds).dropEdges (·.touches memberIds) = next
  have hnodes : next.graph.nodes = s.graph.nodes := by
    rw [← hnext]
    exact hb.dropNodes h
  have hrungs : (next.setRung rung).graph.rungs = s.graph.rungs := by
    rw [← hnext]
    show updateFirst _ _ t.graph.rungs = _
    rw [hb.rungs]
    have htwice := updateFirst_updateFirst (p := fun r : Rung => r.id == rung.id)
      (f := fun _ => rung.withBranch branch memberIds) (g := fun _ => rung) (l := s.graph.rungs)
      fun _ _ => beq_self_eq_true _
    exact htwice.trans (updateFirst_of_find? (h.find?_rung hn.mem))
  have hlinks := hb.dropEdges_links h hn
  rw [hnext] at hlinks
  have hdrawn : (next.setRung rung).graph.branchWires rung = s.graph.branchWires rung := by
    apply LdGraph.branchWires_congr
    unfold LdGraph.findRail
    exact congrArg (List.find? _) hnodes
  -- the wires behind the rewiring
  have hrewired := Session.rewireRungBranches_links (next.setRung rung) rung
  rw [hdrawn] at hrewired
  have hsame : (next.setRung rung).graph.links = next.graph.links := rfl
  rw [hsame, hlinks] at hrewired
  generalize hs' : (next.setRung rung).rewireRungBranches rung = rewired at hrewired
  refine ⟨_, rfl, ?_, ?_, ?_⟩
  · rw [Session.addWires_nodes, ← hs', Session.rewireRungBranches_nodes]
    exact hnodes
  · rw [Session.addWires_rungs, ← hs', Session.rewireRungBranches_rungs]
    exact hrungs
  rintro r rfl
  rw [Session.addWires_links, hsucc]
  show _ ++ (([_] : List Wire).filter _).map Wire.bare = _
  by_cases hempty : memberIds = []
  · -- the wire behind the anchor is still there
    rw [if_pos hempty] at hrewired ⊢
    have hthere : rewired.graph.edges.any (fun e => e.sourceId == branch.anchorId && e.targetId == succ) = true := by
      rw [LdGraph.any_edges_iff, hrewired]
      obtain ⟨w, hmem, hsource, htarget⟩ := hwire
      refine ⟨w, mem_append_left _ (mem_filter.2 ⟨hmem, ?_⟩), hsource, htarget⟩
      rw [hn.not_atBranch hw hfree hsource (htarget ▸ hsucc)]
      rfl
    rw [hrewired, filter_cons_of_neg (by rw [hthere]; decide)]
    exact List.append_nil _
  · rw [if_neg hempty] at hrewired ⊢
    rw [LdGraph.filter_rewired] at hrewired
    have hgone : ¬ rewired.graph.edges.any (fun e => e.sourceId == branch.anchorId && e.targetId == succ) = true := by
      rw [LdGraph.any_edges_iff, hrewired]
      rintro ⟨w, hmem, hsource, rfl⟩
      rcases mem_append.1 hmem with hold | hdrawn
      · have hnot := (mem_filter.1 hold).2
        rw [LdGraph.atBranch_withBranch.2 (.inr (.inr ⟨hsource, hsucc⟩))] at hnot
        cases hnot
      · have hbranch := LdGraph.branchWires_atBranch hdrawn
        rw [hn.not_atBranch hw hfree hsource hsucc] at hbranch
        cases hbranch
    have hadded : s.graph.drawnWires rung { branch with elementIds := [] } =
        [{ sourceId := branch.anchorId, targetId := succ }] := by
      unfold LdGraph.drawnWires
      dsimp only
      rw [hsucc]
      rfl
    rw [filter_cons_of_pos (by rw [Bool.not_eq_true', ← Bool.not_eq_true]; exact hgone), hrewired,
      LdGraph.branchWires_withBranch, hadded, List.append_assoc]
    rfl

/-- **Contacts are added** one after the other. -/
theorem addBranchContacts (hb : Building s rung branch memberIds t) (h : WellPlaced s) (hn : NewBranch s rung branch)
    (contactTypes : List (Option ContactType)) : ∃ t' added, t.addBranchContacts branch.id contactTypes = .ok t' ∧
      (added = [] ↔ contactTypes = []) ∧ Building s rung branch (memberIds ++ added) t' := by
  induction contactTypes generalizing t memberIds with
  | nil => exact ⟨t, [], rfl, iff_of_true rfl rfl, (List.append_nil memberIds).symm ▸ hb⟩
  | cons contactType rest ih =>
    obtain ⟨next, id, hnext, hb⟩ := hb.addBranchContact h hn contactType
    obtain ⟨t', added, hrest, _, hb⟩ := ih hb
    refine ⟨t', id :: added, ?_, iff_of_false (cons_ne_nil _ _) (cons_ne_nil _ _), ?_⟩
    · unfold Session.addBranchContacts at hrest ⊢
      rw [foldlM_cons, hnext]
      exact hrest
    · rw [List.append_assoc] at hb
      exact hb

end Building

/-- **The branch is opened** at a contact that has none. -/
theorem WellPlaced.openBranch (h : WellPlaced s) (hrung : rung ∈ s.graph.rungs) {anchorId : String}
    (hanchor : anchorId ∈ rung.elementIds) (hcontact : (s.graph.findNode anchorId).any (·.kind.isContact) = true)
    (hfree : ∀ b ∈ rung.branches, b.anchorId ≠ anchorId) (hright : ∃ right, s.graph.findRail .right = some right) :
    ∃ t branch, s.openBranch rung.id anchorId = .ok t ∧ branch.id = s.freshId "branch" ∧ branch.anchorId = anchorId ∧
      NewBranch s rung branch ∧ Building s rung branch [] t := by
  have hnone : ¬ rung.branches.any (·.anchorId == anchorId) = true := by
    rw [any_eq_true]
    rintro ⟨b, hb, hid⟩
    exact hfree b hb (beq_iff_eq.1 hid)
  have hon : ¬ (!rung.elementIds.contains anchorId) = true := by
    rw [not_contains_iff]
    exact not_not_intro hanchor
  have hcheck : ¬ (!(s.graph.findNode anchorId).any (·.kind.isContact)) = true := by
    rw [hcontact]
    decide
  unfold Session.openBranch
  rw [LdGraph.findRung_of_find? (h.find?_rung hrung)]
  dsimp only [bind, Except.bind]
  rw [if_neg hcheck, if_neg hon, if_neg hnone]
  have hfresh := (h.unused (s.nextId + 1) _ (Sound.freshId s "branch" (by decide))).2
  generalize ((mapGet (layoutRung rung s.graph) anchorId).map (·.x)).getD 40 = x
  refine ⟨_, createBranch (s.freshId "branch") rung.id anchorId x, rfl, rfl, rfl, ?_, ?_⟩
  · exact ⟨hrung, rfl, hfresh, hanchor, hright⟩
  · exact ⟨⟨[], rfl, (List.append_nil _).symm⟩, rfl, fun _ hid => absurd hid not_mem_nil, Nat.le_succ _, rfl⟩

omit [Entropy] in
/-- The wire behind an element is there, if no branch hangs off it. -/
theorem LdGraph.link_behind {join : Option String}
    (hm : (graph.links.filter (·.touches rung.members)).Perm (graph.rungWires join left.id right.id rung))
    {anchorId succ : String} (hfree : ∀ b ∈ rung.branches, b.anchorId ≠ anchorId)
    (hsucc : seriesSuccessor rung anchorId = some succ) :
    ∃ w ∈ graph.links, w.sourceId = anchorId ∧ w.targetId = succ := by
  have hrow : graph.rowWire anchorId succ ∈ graph.rungWires join left.id right.id rung := by
    refine mem_append_left _ (mem_filter.2 ⟨LdGraph.successor_mem_rowWires hsucc, ?_⟩)
    rw [Bool.not_eq_true', ← Bool.not_eq_true, LdGraph.isBypassed_iff]
    rintro ⟨b, hb, _, hsource, _⟩
    exact hfree b hb hsource.symm
  exact ⟨_, (mem_filter.1 (hm.symm.subset hrow)).1, rfl, rfl⟩

/-- **A branch is built and deleted.** The wires are those of a rung whose branches were wired again, with the new one
among them if it had members. -/
theorem WellPlaced.buildAndDelete (h : WellPlaced s) (hrung : rung ∈ s.graph.rungs) {join : Option String}
    (hm : s.graph.MirrorsRung join rung) {anchorId succ : String}
    (hcontact : (s.graph.findNode anchorId).any (·.kind.isContact) = true)
    (hfree : ∀ b ∈ rung.branches, b.anchorId ≠ anchorId) (hsucc : seriesSuccessor rung anchorId = some succ)
    (contactTypes : List (Option ContactType)) :
    ∃ s' branch, s.buildAndDelete rung.id anchorId contactTypes = .ok s' ∧ s'.graph.nodes = s.graph.nodes ∧
      s'.graph.rungs = s.graph.rungs ∧ branch.anchorId = anchorId ∧
      ∀ r, r = (if contactTypes = [] then rung else rung.withBranch branch []) →
        s'.graph.links = (s.graph.links.filter fun w => !LdGraph.atBranch r w) ++ s.graph.branchWires r := by
  have hanchor := LdGraph.seriesSuccessor_anchor hsucc
  obtain ⟨left, right, hleft, hright, hperm⟩ := hm (ne_nil_of_mem hanchor)
  have hw := h.woven hrung hleft hright
  obtain ⟨opened, branch, hopen, hid, rfl, hn, hb⟩ := h.openBranch hrung hanchor hcontact hfree ⟨right, hright⟩
  obtain ⟨built, added, hadd, hempty, hb⟩ := hb.addBranchContacts h hn contactTypes
  obtain ⟨s', hdelete, hnodes, hrungs, hlinks⟩ :=
    hb.deleteBranch h hn hw hfree hsucc (LdGraph.link_behind hperm hfree hsucc)
  refine ⟨s', branch, ?_, hnodes, hrungs, rfl, ?_⟩
  · unfold Session.buildAndDelete
    rw [hopen, ← hid]
    show (opened.addBranchContacts branch.id contactTypes >>= _) = _
    rw [hadd]
    exact hdelete
  · intro r hr
    apply hlinks r
    rw [hr, nil_append]
    exact if_congr hempty.symm rfl rfl

/-- **Deleting a branch undoes building it** exactly if no wire that is drawn again entered a function block at a pin:
the element behind its anchor is no block or no contact was added, and no other branch of the rung stands in front of a
block, unless it has members whose wire into the block has no pin. -/
theorem branchUndone_iff (s : Session) (join : Option String) (rung : Rung) (anchorId succ : String)
    (contactTypes : List (Option ContactType)) (h : WellPlaced s)
    (hm : ∀ r ∈ s.graph.rungs, s.graph.MirrorsRung join r) (hrung : rung ∈ s.graph.rungs)
    (hcontact : (s.graph.findNode anchorId).any (·.kind.isContact) = true)
    (hfree : ∀ b ∈ rung.branches, b.anchorId ≠ anchorId) (hsucc : seriesSuccessor rung anchorId = some succ) :
    (∃ s', s.buildAndDelete rung.id anchorId contactTypes = .ok s' ∧ s.RestoredBy s') ↔
      (∀ b ∈ rung.branches, s.graph.blockBehind rung b.anchorId = true → b.elementIds ≠ [] ∧ join = none) ∧
        (contactTypes = [] ∨ s.graph.isFb succ = false) := by
  have hanchor := LdGraph.seriesSuccessor_anchor hsucc
  obtain ⟨left, right, hleft, hright, hperm⟩ := hm rung hrung (ne_nil_of_mem hanchor)
  have hw := h.woven hrung hleft hright
  obtain ⟨s', branch, hok, hnodes, hrungs, rfl, hlinks⟩ :=
    h.buildAndDelete hrung (hm rung hrung) hcontact hfree hsucc contactTypes
  have hrestored : (∃ s', s.buildAndDelete rung.id branch.anchorId contactTypes = .ok s' ∧ s.RestoredBy s') ↔
      s'.graph.links.Perm s.graph.links := by
    constructor
    · rintro ⟨_, hok', hrestored⟩
      rw [hok] at hok'
      cases hok'
      exact hrestored.links
    · exact fun hlinks => ⟨s', hok, hnodes, hrungs, hlinks⟩
  rw [hrestored]
  by_cases hnone : contactTypes = []
  · rw [if_pos hnone] at hlinks
    rw [hlinks rung rfl, hw.rewired_perm_iff hperm, and_iff_left (.inl hnone)]
  · -- the new branch counts as one without members
    rw [if_neg hnone] at hlinks
    obtain ⟨hw', hmembers, hwires⟩ := hw.withBranch hanchor (LdGraph.isFb_contact hcontact) hfree
    rw [← hmembers, ← hwires] at hperm
    rw [hlinks _ rfl, hw'.rewired_perm_iff hperm, or_iff_right hnone]
    have hbehind : s.graph.blockBehind rung branch.anchorId = s.graph.isFb succ := by
      unfold LdGraph.blockBehind
      rw [hsucc, Option.any_some]
    constructor
    · intro hall
      refine ⟨fun b hb => hall b (mem_append_left _ hb), ?_⟩
      rw [← hbehind, ← Bool.not_eq_true]
      exact fun hblock => (hall _ (mem_append_right _ (mem_singleton_self _)) hblock).1 rfl
    · rintro ⟨hothers, hsuccessor⟩ b hb hblock
      rcases mem_append.1 hb with hb | hb
      · exact hothers b hb hblock
      · rw [mem_singleton.1 hb] at hblock
        rw [← hbehind] at hsuccessor
        exact absurd (hblock.symm.trans hsuccessor) (by decide)

end

end Audesys.LdEditor

/-! ## A branch in front of a timer, and one in front of a coil -/

namespace Audesys.LdEditor

open Audesys.Lib Audesys.Editor

local instance branchSuffix : Entropy := ⟨fun _ => "x4k9q"⟩

/-- A contact, whose wire to the right rail is taken out, and another element behind it. -/
def contactThen (op : Operation) : List Operation :=
  [.addRung, .addContact none none .no "rung-1-x4k9q", .disconnectWire "wire-6-x4k9q", op]

def timerRun : Session := (contactThen (.addFb none none "TON" "rung-1-x4k9q")).foldl Session.step ⟨0, createLdGraph⟩

def coilRun : Session := (contactThen (.addCoil .normal "rung-1-x4k9q")).foldl Session.step ⟨0, createLdGraph⟩

theorem contactThen_sound {op : Operation} (hop : ∀ s, KeepsMembers s op) :
    Sound ((contactThen op).foldl Session.step ⟨0, createLdGraph⟩) := by
  have hkeeps : EveryStep Session.step KeepsMembers ⟨0, createLdGraph⟩ (contactThen op) := by
    unfold contactThen
    rw [everyStep_cons, everyStep_cons, everyStep_cons, everyStep_cons]
    exact ⟨trivial, trivial, trivial, hop _, everyStep_nil⟩
  exact hkeeps.always (fun _ _ h hstep => h.step hstep) (Sound.start 0) _ (prefix_refl _)

/-- The rung of the contact and the other element. -/
def pairRung (elementId : String) : Rung :=
  ⟨"rung-1-x4k9q", 1, some "Main", none, ["contact-4-x4k9q", elementId], []⟩

def leftRail : BaseNode := createPowerRail "powerrail-2-x4k9q" .left ⟨0, 0⟩

def rightRail : BaseNode := createPowerRail "powerrail-3-x4k9q" .right ⟨640, 0⟩

/-- The contact and the other element, wired between the rails. -/
def WiredPair (graph : LdGraph) (elementId : String) : Prop :=
  graph.rungs = [pairRung elementId] ∧ graph.findRail .left = some leftRail ∧
    graph.findRail .right = some rightRail ∧
    (graph.links.filter (·.touches (pairRung elementId).members)).Perm
      (graph.rungWires (some "EN") leftRail.id rightRail.id (pairRung elementId)) ∧
    (graph.findNode "contact-4-x4k9q").any (·.kind.isContact) = true

instance (graph : LdGraph) (elementId : String) : Decidable (WiredPair graph elementId) :=
  inferInstanceAs (Decidable (_ ∧ _ ∧ _ ∧ _ ∧ _))

theorem WiredPair.wellPlaced {s : Session} (h : WiredPair s.graph elementId) (hsound : Sound s) :
    WellPlaced s := by
  have hnone : ∀ rung ∈ s.graph.rungs, rung.branches = [] := by
    intro rung hrung
    rw [h.1, mem_singleton] at hrung
    rw [hrung]
    rfl
  apply hsound.wellPlaced
  · intro rung hrung b hb
    rw [hnone rung hrung] at hb
    cases hb
  · intro rung hrung
    rw [hnone rung hrung]
    exact nodup_nil

theorem WiredPair.mirrors (h : WiredPair graph elementId) :
    ∀ r ∈ graph.rungs, graph.MirrorsRung (some "EN") r := by
  intro r hr _
  rw [h.1, mem_singleton] at hr
  subst hr
  exact ⟨leftRail, rightRail, h.2.1, h.2.2.1, h.2.2.2.1⟩

theorem WiredPair.mem (h : WiredPair graph elementId) : pairRung elementId ∈ graph.rungs := by
  rw [h.1]
  exact mem_singleton_self _

theorem pairRung_successor : seriesSuccessor (pairRung elementId) "contact-4-x4k9q" = some elementId := by
  unfold seriesSuccessor pairRung
  rw [if_pos (mem_cons_self ..), idxOf_cons_self]
  rfl

theorem runs_wired : WiredPair timerRun.graph "fb-7-x4k9q" ∧ WiredPair coilRun.graph "coil-7-x4k9q" := by
  decide +kernel

/-- The wire from the contact into the timer comes back without its pin. -/
theorem timerBranch_not_undone :
    WellPlaced timerRun ∧ (∀ r ∈ timerRun.graph.rungs, timerRun.graph.MirrorsRung (some "EN") r) ∧
      pairRung "fb-7-x4k9q" ∈ timerRun.graph.rungs ∧
      (timerRun.graph.findNode "contact-4-x4k9q").any (·.kind.isContact) = true ∧
      (∀ b ∈ (pairRung "fb-7-x4k9q").branches, b.anchorId ≠ "contact-4-x4k9q") ∧
      seriesSuccessor (pairRung "fb-7-x4k9q") "contact-4-x4k9q" = some "fb-7-x4k9q" ∧
      ¬ ∃ s', timerRun.buildAndDelete "rung-1-x4k9q" "contact-4-x4k9q" [none] = .ok s' ∧ timerRun.RestoredBy s' := by
  have hwired := runs_wired.1
  refine ⟨hwired.wellPlaced (contactThen_sound fun _ => trivial), hwired.mirrors, hwired.mem, hwired.2.2.2.2,
    fun _ hb => absurd hb not_mem_nil, pairRung_successor, ?_⟩
  rintro ⟨s', hok, hrestored⟩
  have hlost : (timerRun.buildAndDelete "rung-1-x4k9q" "contact-4-x4k9q" [none]).toOption.all
      (fun s => !s.graph.links.isPerm timerRun.graph.links) = true := by decide +kernel
  rw [hok] at hlost
  have hperm := isPerm_iff.2 hrestored.links
  dsimp only [Except.toOption, Option.all_some] at hlost
  rw [hperm] at hlost
  cases hlost

/-- In front of a coil all is as it was. -/
theorem coilBranch_undone : ∃ s', coilRun.buildAndDelete "rung-1-x4k9q" "contact-4-x4k9q" [none, some .nc] = .ok s' ∧
    coilRun.RestoredBy s' :=
  have hwired := runs_wired.2
  (branchUndone_iff coilRun (some "EN") (pairRung "coil-7-x4k9q") "contact-4-x4k9q" "coil-7-x4k9q" [none, some .nc]
    (hwired.wellPlaced (contactThen_sound fun _ => trivial)) hwired.mirrors hwired.mem hwired.2.2.2.2
    (fun _ hb => absurd hb not_mem_nil) pairRung_successor).2
    ⟨fun _ hb => absurd hb not_mem_nil, .inr (by decide +kernel)⟩

end Audesys.LdEditor
