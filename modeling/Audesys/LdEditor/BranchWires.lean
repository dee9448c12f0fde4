import Audesys.LdEditor.Wires
import Mathlib.Data.List.Perm.Basic

/-!
# `LdEditor.BranchWires` — the wires of a rung with branches

Where a branch has members, the wire behind its anchor gives way to wires through them. `rewireRungBranches` drops the
wires at the branches of a rung and draws them again, all but those along the bus without pins. They are as they were
exactly if none of them entered a function block at a pin (`rewired_perm_iff`). At which pin the last member of a branch
enters a block is left open here: at `EN` as the wires of the main row do, or at none as it is drawn.
-/

open List

namespace Audesys.LdEditor

open Audesys.Lib Audesys.Editor

variable {rung : Rung} {left right : BaseNode} {b : ParallelBranch} {w : Wire}

/-- What a wire connects, and at which pins. -/
def Wire.bare (wire : Wire) : Wire := { wire with routingPoints := none }

namespace LdGraph

/-- The wires without their ids and their bends. -/
def links (graph : LdGraph) : List Wire := graph.wires.map Wire.bare

/-- A function block stands behind the anchor. -/
def blockBehind (graph : LdGraph) (rung : Rung) (anchorId : String) : Bool :=
  (seriesSuccessor rung anchorId).any graph.isFb

/-- Whether a wire of the main row gives way to the members of a branch. -/
def isBypassed (rung : Rung) (w : Wire) : Bool :=
  rung.branches.any fun b =>
    !b.elementIds.isEmpty && (w.sourceId == b.anchorId && seriesSuccessor rung b.anchorId == some w.targetId)

/-- The wires along the bus through the members of a branch. -/
def busWires (memberIds : List String) : List Wire :=
  (memberIds.zip memberIds.tail).map fun pair =>
    { sourceId := pair.1, targetId := pair.2, sourcePin := some "bus-out", targetPin := some "bus-in" }

/-- The wires through the members of a branch: from the anchor, along the bus, and to the element behind the anchor, a
block at the pin `join`, or to the right rail. -/
def bypassWires (graph : LdGraph) (join : Option String) (right : String) (rung : Rung) (b : ParallelBranch) :
    List Wire :=
  match b.elementIds with
  | [] => []
  | first :: rest =>
    let target := (seriesSuccessor rung b.anchorId).getD right
    { sourceId := b.anchorId, targetId := first } :: (busWires (first :: rest) ++
      [{ sourceId := rest.getLast?.getD first, targetId := target,
         targetPin := if graph.isFb target then join else none }])

/-- The wires of a rung between two ends. -/
def rungWires (graph : LdGraph) (join : Option String) (left right : String) (rung : Rung) : List Wire :=
  ((graph.rowWires left right rung.elementIds).filter fun w => !isBypassed rung w) ++
    rung.branches.flatMap (graph.bypassWires join right rung)

/-- The wires at a rung, if it has elements, are those of its main row and its branches. -/
def MirrorsRung (graph : LdGraph) (join : Option String) (rung : Rung) : Prop :=
  rung.elementIds ≠ [] → ∃ left right, graph.findRail .left = some left ∧ graph.findRail .right = some right ∧
    (graph.links.filter (·.touches rung.members)).Perm (graph.rungWires join left.id right.id rung)

/-- Whether a wire is one of a branch of the rung: `isBranchWire`. -/
def atBranch (rung : Rung) (w : Wire) : Bool :=
  w.touches (rung.branches.flatMap (·.elementIds)) ||
    rung.branches.any fun b => w.sourceId == b.anchorId && seriesSuccessor rung b.anchorId == some w.targetId

theorem atBranch_iff : atBranch rung w = true ↔
    w.touches (rung.branches.flatMap (·.elementIds)) = true ∨
      ∃ b ∈ rung.branches, w.sourceId = b.anchorId ∧ seriesSuccessor rung b.anchorId = some w.targetId := by
  unfold atBranch
  rw [Bool.or_eq_true, any_eq_true]
  simp only [Bool.and_eq_true, beq_iff_eq]

theorem isBypassed_iff : isBypassed rung w = true ↔
    ∃ b ∈ rung.branches, b.elementIds ≠ [] ∧ w.sourceId = b.anchorId ∧
      seriesSuccessor rung b.anchorId = some w.targetId := by
  unfold isBypassed
  rw [any_eq_true]
  simp only [Bool.and_eq_true, beq_iff_eq, Bool.not_eq_true', isEmpty_eq_false_iff]

/-! ## Main rows -/

variable {graph : LdGraph} {join : Option String}

theorem rowWires_sources (left right : String) (ids : List String) :
    (graph.rowWires left right ids).map (·.sourceId) = left :: ids := by
  induction ids generalizing left with
  | nil => rfl
  | cons id rest ih => exact congrArg (List.cons left) (ih id)

/-- What a wire of a row connects decides its pins. -/
theorem eq_rowWire {left right : String} {ids : List String} (hw : w ∈ graph.rowWires left right ids) :
    w = graph.rowWire w.sourceId w.targetId := by
  induction ids generalizing left with
  | nil =>
    rw [mem_singleton.1 hw]
    rfl
  | cons id rest ih =>
    rcases mem_cons.1 hw with rfl | hw
    · rfl
    · exact ih hw

/-- Elements next to each other are connected. -/
theorem rowWire_mem {left right source target : String} {ids : List String} (hsource : source ∈ ids)
    (htarget : ids[ids.idxOf source + 1]? = some target) :
    graph.rowWire source target ∈ graph.rowWires left right ids := by
  induction ids generalizing left with
  | nil => cases hsource
  | cons id rest ih =>
    refine mem_cons_of_mem _ ?_
    by_cases hid : id = source
    · subst hid
      rw [idxOf_cons_self, Nat.zero_add, getElem?_cons_succ] at htarget
      cases rest with
      | nil => cases htarget
      | cons next others =>
        rw [getElem?_cons_zero, Option.some.injEq] at htarget
        rw [htarget]
        exact mem_cons_self ..
    · rw [idxOf_cons_ne _ hid, getElem?_cons_succ] at htarget
      exact ih (mem_of_ne_of_mem (Ne.symm hid) hsource) htarget

/-- What stands in front of an element is in the row. -/
theorem seriesSuccessor_anchor {anchorId succ : String} (h : seriesSuccessor rung anchorId = some succ) :
    anchorId ∈ rung.elementIds := by
  by_contra hmem
  unfold seriesSuccessor at h
  rw [if_neg hmem] at h
  cases h

theorem successor_mem_rowWires {left right source target : String}
    (h : seriesSuccessor rung source = some target) :
    graph.rowWire source target ∈ graph.rowWires left right rung.elementIds := by
  have hmem := seriesSuccessor_anchor h
  unfold seriesSuccessor at h
  rw [if_pos hmem] at h
  exact rowWire_mem hmem h

/-! ## Branches -/

/-- A rung whose main row and branches share no element, with one branch at most at an anchor, which is no block. -/
structure Woven (graph : LdGraph) (left right : BaseNode) (rung : Rung) : Prop where
  leftRail : left.id ∉ rung.members
  rightRail : graph.findRail .right = some right
  rightEnd : right.id ∉ rung.members ∧ graph.isFb right.id = false
  members : rung.members.Nodup
  anchors : ∀ b ∈ rung.branches, b.anchorId ∈ rung.elementIds ∧ graph.isFb b.anchorId = false
  oneEach : (rung.branches.map (·.anchorId)).Nodup

namespace Woven


theorem not_member (h : graph.Woven left right rung) {id : String} (hid : id ∈ rung.elementIds) :
    id ∉ rung.branches.flatMap (·.elementIds) := disjoint_of_nodup_append h.members hid

/-- A wire of the main row touches no member of a branch. -/
theorem row_not_member (h : graph.Woven left right rung)
    (hw : w ∈ graph.rowWires left.id right.id rung.elementIds) :
    w.touches (rung.branches.flatMap (·.elementIds)) = false :=
  Wire.touches_eq_false (rowWires_ends hw) (fun hmem => h.leftRail (mem_append_right _ hmem))
    (fun hmem => h.rightEnd.1 (mem_append_right _ hmem)) fun _ hid => h.not_member hid

theorem rowWires_nodup (h : graph.Woven left right rung) :
    (graph.rowWires left.id right.id rung.elementIds).Nodup := by
  apply List.Nodup.of_map (·.sourceId)
  rw [rowWires_sources]
  exact nodup_cons.2
    ⟨fun hmem => h.leftRail (mem_append_left _ hmem), h.members.of_append_left⟩

theorem same_anchor (h : graph.Woven left right rung) {b b' : ParallelBranch} (hb : b ∈ rung.branches)
    (hb' : b' ∈ rung.branches) (hsame : b.anchorId = b'.anchorId) : b = b' :=
  inj_on_of_nodup_map h.oneEach hb hb' hsame

end Woven

/-- The wire of the main row behind the anchor of a branch without members. -/
def openWires (graph : LdGraph) (rung : Rung) (b : ParallelBranch) : List Wire :=
  match b.elementIds with
  | [] => (seriesSuccessor rung b.anchorId).toList.map (graph.rowWire b.anchorId)
  | _ :: _ => []

theorem mem_openWires : w ∈ graph.openWires rung b ↔
    b.elementIds = [] ∧ ∃ succ, seriesSuccessor rung b.anchorId = some succ ∧ w = graph.rowWire b.anchorId succ := by
  unfold openWires
  cases b.elementIds with
  | nil =>
    rw [mem_map]
    simp only [Option.mem_toList, true_and]
    exact exists_congr fun succ => and_congr_right fun _ => eq_comm
  | cons first rest => exact ⟨fun h => (nomatch h), fun h => (nomatch h.1)⟩

/-- The wires of the main row that `rewireRungBranches` drops. -/
theorem Woven.row_perm (h : graph.Woven left right rung) :
    (((graph.rowWires left.id right.id rung.elementIds).filter fun w => !isBypassed rung w).filter
      (atBranch rung)).Perm (rung.branches.flatMap (graph.openWires rung)) := by
  rw [perm_ext_iff_of_nodup ((h.rowWires_nodup.filter _).filter _)]
  · intro w
    rw [mem_filter, mem_filter, mem_flatMap, Bool.not_eq_true', ← Bool.not_eq_true, isBypassed_iff]
    constructor
    · rintro ⟨⟨hrow, hbypassed⟩, hat⟩
      rcases atBranch_iff.1 hat with hmember | ⟨b, hb, hsource, hsucc⟩
      · rw [h.row_not_member hrow] at hmember
        cases hmember
      refine ⟨b, hb, mem_openWires.2 ⟨?_, w.targetId, hsucc, ?_⟩⟩
      · by_contra hne
        exact hbypassed ⟨b, hb, hne, hsource, hsucc⟩
      · rw [← hsource]
        exact eq_rowWire hrow
    · rintro ⟨b, hb, hopen⟩
      obtain ⟨hempty, succ, hsucc, rfl⟩ := mem_openWires.1 hopen
      refine ⟨⟨successor_mem_rowWires hsucc, ?_⟩, atBranch_iff.2 (.inr ⟨b, hb, rfl, hsucc⟩)⟩
      rintro ⟨b', hb', hne, hsource, _⟩
      rw [← h.same_anchor hb hb' hsource] at hne
      exact hne hempty
  · -- the wires of two branches have two sources
    rw [nodup_flatMap]
    constructor
    · intro b _
      unfold openWires
      cases b.elementIds with
      | nil => cases seriesSuccessor rung b.anchorId <;> simp
      | cons first rest => exact nodup_nil
    · refine (pairwise_map.1 h.oneEach).imp ?_
      intro b b' hne w hw hw'
      obtain ⟨_, _, _, rfl⟩ := mem_openWires.1 hw
      obtain ⟨_, _, _, hsame⟩ := mem_openWires.1 hw'
      exact hne (congrArg Wire.sourceId hsame)

/-- A wire along the bus goes from a member to a member. -/
theorem busWires_ends {memberIds : List String} (hw : w ∈ busWires memberIds) :
    w.sourceId ∈ memberIds ∧ w.targetId ∈ memberIds := by
  obtain ⟨pair, hpair, rfl⟩ := mem_map.1 hw
  have hmem := of_mem_zip (a := pair.1) (b := pair.2) hpair
  exact ⟨hmem.1, mem_of_mem_tail hmem.2⟩

theorem getLastD_mem (first : String) (rest : List String) : rest.getLast?.getD first ∈ first :: rest := by
  cases hlast : rest.getLast? with
  | none => exact mem_cons_self ..
  | some last => exact mem_cons_of_mem _ (mem_of_getLast? hlast)

/-- The wires through a branch: into a member, or from one to the element behind the anchor. -/
theorem bypassWires_cases {right : String}
    (hw : w ∈ graph.bypassWires join right rung b) : w.targetId ∈ b.elementIds ∨
      w.sourceId ∈ b.elementIds ∧ w.targetPin = if graph.isFb w.targetId then join else none := by
  unfold bypassWires at hw
  split at hw
  · cases hw
  next first rest hmembers =>
  rw [hmembers]
  rcases mem_cons.1 hw with rfl | hw
  · exact .inl (mem_cons_self ..)
  rcases mem_append.1 hw with hbus | hlast
  · exact .inl (busWires_ends hbus).2
  · rw [mem_singleton.1 hlast]
    exact .inr ⟨getLastD_mem first rest, rfl⟩

theorem bypassWires_touches {right : String}
    (hw : w ∈ graph.bypassWires join right rung b) : w.touches b.elementIds = true := by
  rcases bypassWires_cases hw with htarget | ⟨hsource, _⟩
  · exact Wire.touches_iff.2 (.inr htarget)
  · exact Wire.touches_iff.2 (.inl hsource)

theorem touches_mono {ids ids' : List String} (h : w.touches ids = true) (hsub : ids ⊆ ids') :
    w.touches ids' = true :=
  Wire.touches_iff.2 ((Wire.touches_iff.1 h).imp (fun hmem => hsub hmem) fun hmem => hsub hmem)

theorem elementIds_subset (hb : b ∈ rung.branches) :
    b.elementIds ⊆ rung.branches.flatMap (·.elementIds) := fun _ hid => mem_flatMap.2 ⟨b, hb, hid⟩

/-- A wire at a branch touches the rung. -/
theorem Woven.atBranch_touches (h : graph.Woven left right rung)
    (hw : atBranch rung w = true) : w.touches rung.members = true := by
  rcases atBranch_iff.1 hw with hmember | ⟨b, hb, hsource, _⟩
  · exact touches_mono hmember (subset_append_right ..)
  · rw [Wire.touches_iff, hsource]
    exact .inl (mem_append_left _ (h.anchors b hb).1)

/-- The wires at the branches of a rung that is wired as it shall be. -/
theorem Woven.branch_perm (h : graph.Woven left right rung) :
    ((graph.rungWires join left.id right.id rung).filter (atBranch rung)).Perm
      (rung.branches.flatMap fun b => graph.openWires rung b ++ graph.bypassWires join right.id rung b) := by
  have hall : (rung.branches.flatMap (graph.bypassWires join right.id rung)).filter (atBranch rung) =
      rung.branches.flatMap (graph.bypassWires join right.id rung) := by
    apply filter_eq_self.2
    intro w hw
    obtain ⟨b, hb, hw⟩ := mem_flatMap.1 hw
    exact atBranch_iff.2 (.inl (touches_mono (bypassWires_touches hw) (elementIds_subset hb)))
  unfold rungWires
  rw [filter_append, hall]
  exact (h.row_perm.append_right _).trans (flatMap_append_perm ..)

/-- What `rewireRungBranches` draws for a branch. -/
def drawnWires (graph : LdGraph) (rung : Rung) (b : ParallelBranch) : List Wire :=
  match b.elementIds with
  | [] => (seriesSuccessor rung b.anchorId).toList.map fun succ => { sourceId := b.anchorId, targetId := succ }
  | first :: rest =>
    let target := (seriesSuccessor rung b.anchorId).or ((graph.findRail .right).map (·.id))
    { sourceId := b.anchorId, targetId := first } :: (busWires (first :: rest) ++
      target.toList.map fun id => { sourceId := rest.getLast?.getD first, targetId := id })

theorem branchWires_eq (graph : LdGraph) (rung : Rung) :
    graph.branchWires rung = rung.branches.flatMap (graph.drawnWires rung) := by
  unfold branchWires
  congr 1
  funext b
  unfold drawnWires
  cases b.elementIds <;> rfl

/-- The wires of a branch are drawn as they shall be, unless a block behind the anchor takes a pin. -/
theorem Woven.drawnWires_eq (h : graph.Woven left right rung)
    (hb : b ∈ rung.branches) (hpin : graph.blockBehind rung b.anchorId = true → b.elementIds ≠ [] ∧ join = none) :
    graph.drawnWires rung b = graph.openWires rung b ++ graph.bypassWires join right.id rung b := by
  have hsource := (h.anchors b hb).2
  unfold blockBehind at hpin
  unfold drawnWires openWires bypassWires
  rw [h.rightRail]
  cases hmembers : b.elementIds with
  | nil =>
    cases hsucc : seriesSuccessor rung b.anchorId with
    | none => rfl
    | some succ =>
      have hfree : graph.isFb succ = false := by
        rw [← Bool.not_eq_true]
        intro hblock
        rw [hsucc] at hpin
        exact (hpin hblock).1 hmembers
      show [_] = [graph.rowWire b.anchorId succ]
      unfold rowWire
      rw [hsource, hfree]
      rfl
  | cons first rest =>
    cases hsucc : seriesSuccessor rung b.anchorId with
    | none =>
      dsimp only [Option.getD_none]
      rw [h.rightEnd.2]
      rfl
    | some succ =>
      have hnone : (if graph.isFb succ then join else none) = none := by
        rw [hsucc, Option.any_some] at hpin
        split
        next hblock => exact (hpin hblock).2
        · rfl
      dsimp only [Option.getD_some]
      rw [hnone]
      rfl

/-- The wire to the element behind the anchor is drawn without a pin. -/
theorem drawnWires_last (graph : LdGraph) {succ : String}
    (hsucc : seriesSuccessor rung b.anchorId = some succ) :
    ∃ w ∈ graph.drawnWires rung b, w.targetId = succ ∧ w.targetPin = none ∧
      (b.elementIds = [] ∧ w.sourceId = b.anchorId ∨ w.sourceId ∈ b.elementIds) := by
  unfold drawnWires
  rw [hsucc]
  cases b.elementIds with
  | nil => exact ⟨_, mem_singleton_self _, rfl, rfl, .inl ⟨rfl, rfl⟩⟩
  | cons first rest =>
    exact ⟨_, mem_cons_of_mem _ (mem_append_right _ (mem_singleton_self _)), rfl, rfl,
      .inr (getLastD_mem first rest)⟩

/-- Into a block of the main row a wire goes at `EN` from an element of the row, and at `join` from a member. -/
theorem Woven.enters (h : graph.Woven left right rung)
    (hw : w ∈ graph.rungWires join left.id right.id rung) (htarget : w.targetId ∈ rung.elementIds)
    (hblock : graph.isFb w.targetId = true) :
    w.targetPin = some "EN" ∧ w.sourceId ∉ rung.branches.flatMap (·.elementIds) ∨
      w.targetPin = join ∧ w.sourceId ∈ rung.branches.flatMap (·.elementIds) := by
  rcases mem_append.1 hw with hrow | hbranch
  · have hrow := (mem_filter.1 hrow).1
    left
    constructor
    · rw [eq_rowWire hrow]
      exact if_pos hblock
    · intro hmember
      have htouches := Wire.touches_iff.2 (.inl hmember)
      rw [h.row_not_member hrow] at htouches
      cases htouches
  · obtain ⟨b, hb, hw⟩ := mem_flatMap.1 hbranch
    rcases bypassWires_cases hw with hmember | ⟨hsource, hpin⟩
    · exact absurd (elementIds_subset hb hmember) (h.not_member htarget)
    · rw [if_pos hblock] at hpin
      exact .inr ⟨hpin, elementIds_subset hb hsource⟩

/-- **The branches of a rung are wired again** as they were exactly if no wire at them entered a block at a pin. -/
theorem Woven.rewired_perm_iff (h : graph.Woven left right rung)
    (hm : (graph.links.filter (·.touches rung.members)).Perm (graph.rungWires join left.id right.id rung)) :
    ((graph.links.filter fun w => !atBranch rung w) ++ graph.branchWires rung).Perm graph.links ↔
      ∀ b ∈ rung.branches, graph.blockBehind rung b.anchorId = true → b.elementIds ≠ [] ∧ join = none := by
  constructor
  · intro hperm b hb hblock
    unfold blockBehind at hblock
    obtain ⟨succ, hsucc, hblock⟩ := (Option.any_eq_true _ _).1 hblock
    -- the wire into the block has no pin, and was there before
    obtain ⟨w, hw, rfl, hpin, hsource⟩ := drawnWires_last graph hsucc
    have hdrawn : w ∈ graph.branchWires rung := by
      rw [branchWires_eq]
      exact mem_flatMap.2 ⟨b, hb, hw⟩
    have hrow := seriesSuccessor_mem hsucc
    have htouches : w.touches rung.members = true := Wire.touches_iff.2 (.inr (mem_append_left _ hrow))
    have hold := hperm.subset (mem_append_right _ hdrawn)
    rcases h.enters (hm.subset (mem_filter.2 ⟨hold, htouches⟩)) hrow hblock with ⟨hen, _⟩ | ⟨hjoin, hmember⟩
    · rw [hpin] at hen
      cases hen
    rcases hsource with ⟨_, hanchor⟩ | hsource
    · rw [hanchor] at hmember
      exact absurd hmember (h.not_member (h.anchors b hb).1)
    · exact ⟨ne_nil_of_mem hsource, hjoin.symm.trans hpin⟩
  · intro hpins
    have hdrawn : graph.branchWires rung =
        rung.branches.flatMap fun b => graph.openWires rung b ++ graph.bypassWires join right.id rung b := by
      rw [branchWires_eq]
      exact flatMap_congr fun b hb => h.drawnWires_eq hb (hpins b hb)
    have hat : (graph.links.filter (·.touches rung.members)).filter (atBranch rung) =
        graph.links.filter (atBranch rung) := by
      rw [filter_filter]
      apply filter_congr
      intro w _
      by_cases hw : atBranch rung w = true
      · rw [hw, h.atBranch_touches hw]
        rfl
      · rw [Bool.not_eq_true] at hw
        rw [hw]
        rfl
    have hthere : (graph.links.filter (atBranch rung)).Perm (graph.branchWires rung) := by
      rw [← hat, hdrawn]
      exact (hm.filter _).trans h.branch_perm
    apply (hthere.symm.append_left _).trans
    exact perm_append_comm.trans (filter_append_perm ..)

end LdGraph

end Audesys.LdEditor
