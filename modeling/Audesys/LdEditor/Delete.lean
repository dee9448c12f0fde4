import Audesys.LdEditor.Sound
import Mathlib.Data.List.Flatten

/-!
# `LdEditor.Delete` — what deletions leave behind

`deleteElement` takes an element out with the branches that it anchors, `deleteBranch` takes out the members of a branch,
and `deleteRung` the elements of the main row. The first two keep sessions sound; the last one does where the branches
of the rung have no members.
-/

open List

namespace Audesys.LdEditor

open Audesys.Lib Audesys.Editor

variable {elementId : String} {rung : Rung}
variable {dropNodeIds dropBranchIds : List String}

/-! ## One rung -/

/-- What the parameters of `pruneRung` have to do with a rung and the nodes that are left. -/
structure PruneRung (elementId : String) (dropNodeIds dropBranchIds : List String) (ids : List String) (rung : Rung) :
    Prop where
  anchors : ∀ b ∈ rung.branches, b.rungId = rung.id ∧ b.anchorId ∈ rung.elementIds
  element : elementId ∈ dropNodeIds
  branch : ∀ b ∈ rung.branches, b.id ∈ dropBranchIds ↔ b.anchorId = elementId
  cascade : ∀ b ∈ rung.branches, b.anchorId = elementId → ∀ id ∈ b.elementIds, id ∈ dropNodeIds
  member : ∀ b ∈ rung.branches, b.anchorId ≠ elementId → ∀ id ∈ b.elementIds, id ∈ dropNodeIds ↔ id = elementId
  anchor : ∀ b ∈ rung.branches, b.anchorId ∈ dropNodeIds → b.anchorId = elementId
  left : ∀ id ∈ rung.members, id ∉ dropNodeIds → id ∈ ids

/-- The branches that are left of a rung. -/
def prunedBranches (elementId : String) (dropBranchIds : List String) (branches : List ParallelBranch) :
    List ParallelBranch :=
  ((branches.filter fun b => !dropBranchIds.contains b.id).map fun b =>
    { b with elementIds := b.elementIds.filter (· != elementId) }).filter fun b => !b.elementIds.isEmpty

theorem mem_prunedBranches {dropBranchIds : List String} {branches : List ParallelBranch}
    {b : ParallelBranch} (h : b ∈ prunedBranches elementId dropBranchIds branches) :
    ∃ b₀ ∈ branches, b₀.id ∉ dropBranchIds ∧ b.rungId = b₀.rungId ∧ b.anchorId = b₀.anchorId := by
  obtain ⟨b₀, hb₀, rfl⟩ := mem_map.1 (mem_filter.1 h).1
  obtain ⟨hmem, hkept⟩ := mem_filter.1 hb₀
  exact ⟨b₀, hmem, not_contains_iff.1 hkept, rfl, rfl⟩

theorem branchIds_prunedBranches (elementId : String) (dropBranchIds : List String) (branches : List ParallelBranch) :
    ((prunedBranches elementId dropBranchIds branches).map (·.id)).Sublist (branches.map (·.id)) := by
  have hfilter := filter_sublist (l := (branches.filter fun b => !dropBranchIds.contains b.id).map fun b =>
    { b with elementIds := b.elementIds.filter (· != elementId) }) (p := fun b => !b.elementIds.isEmpty)
  apply (hfilter.map _).trans
  rw [map_map]
  exact filter_sublist.map _

namespace PruneRung

variable {ids : List String}

/-- The members that are left. -/
theorem members (h : PruneRung elementId dropNodeIds dropBranchIds ids rung) :
    (prunedBranches elementId dropBranchIds rung.branches).flatMap (·.elementIds) =
      (rung.branches.flatMap (·.elementIds)).filter fun id => !dropNodeIds.contains id := by
  have hbranch := h.branch
  have hcascade := h.cascade
  have hmember := h.member
  clear h
  generalize rung.branches = branches at hbranch hcascade hmember
  induction branches with
  | nil => rfl
  | cons b rest ih =>
    have hrest := ih (fun b hb => hbranch b (mem_cons_of_mem _ hb)) (fun b hb => hcascade b (mem_cons_of_mem _ hb))
      (fun b hb => hmember b (mem_cons_of_mem _ hb))
    have hb := mem_cons_self (a := b) (l := rest)
    rw [flatMap_cons, filter_append, ← hrest]
    unfold prunedBranches
    by_cases hanchor : b.anchorId = elementId
    · -- the branch goes, and all its members are dropped
      have hdropped : dropBranchIds.contains b.id = true := contains_iff_mem.2 ((hbranch b hb).2 hanchor)
      have hnone : b.elementIds.filter (fun id => !dropNodeIds.contains id) = [] := by
        apply filter_eq_nil_iff.2
        intro id hid
        rw [contains_iff_mem.2 (hcascade b hb hanchor id hid)]
        exact Bool.false_ne_true
      rw [filter_cons_of_neg (by rw [hdropped]; exact Bool.false_ne_true), hnone]
      rfl
    · have hdropped : dropBranchIds.contains b.id = false := by
        rw [← Bool.not_eq_true, contains_iff_mem]
        exact fun hmem => hanchor ((hbranch b hb).1 hmem)
      have hsame : b.elementIds.filter (fun id => !dropNodeIds.contains id) = b.elementIds.filter (· != elementId) := by
        apply filter_congr
        intro id hid
        rw [Bool.eq_iff_iff, Bool.not_eq_true', ← Bool.not_eq_true, contains_iff_mem, hmember b hb hanchor id hid,
          bne_iff_ne]
      rw [filter_cons_of_pos (by rw [hdropped]; rfl), map_cons, hsame]
      by_cases hempty : (b.elementIds.filter (· != elementId)).isEmpty = true
      · rw [filter_cons_of_neg (by dsimp only; rw [hempty]; exact Bool.false_ne_true), isEmpty_iff.1 hempty]
        rfl
      · rw [filter_cons_of_pos (by dsimp only; rw [Bool.not_eq_true] at hempty; rw [hempty]; rfl), flatMap_cons]

/-- **The pruned rung.** -/
theorem pruned (h : PruneRung elementId dropNodeIds dropBranchIds ids rung) :
    Owned.Pruned dropNodeIds rung { rung with
      elementIds := rung.elementIds.filter fun id => !dropNodeIds.contains id
      branches := prunedBranches elementId dropBranchIds rung.branches } where
  sameId := rfl
  branches := branchIds_prunedBranches _ _ _
  members := by
    unfold Rung.members
    dsimp only
    rw [filter_append, h.members]
  anchors b hb := by
    obtain ⟨b₀, hb₀, hkept, hrungId, hanchorId⟩ := mem_prunedBranches hb
    obtain ⟨hid, hanchor⟩ := h.anchors b₀ hb₀
    refine ⟨hrungId.trans hid, ?_⟩
    rw [hanchorId]
    refine mem_filter.2 ⟨hanchor, not_contains_iff.2 ?_⟩
    exact fun hdropped => hkept ((h.branch b₀ hb₀).2 (h.anchor b₀ hb₀ hdropped))

/-- A rung that has lost nothing. -/
theorem unchanged (h : PruneRung elementId dropNodeIds dropBranchIds ids rung)
    (helements : (rung.elementIds.filter fun id => !dropNodeIds.contains id).length = rung.elementIds.length)
    (hmembers : (rung.branches.filter fun b => !dropBranchIds.contains b.id).filter (·.elementIds.contains elementId) = []) :
    Owned.Pruned dropNodeIds rung rung where
  sameId := rfl
  branches := List.Sublist.refl _
  anchors := h.anchors
  members := by
    have hkept : ∀ id ∈ rung.elementIds, id ∉ dropNodeIds := by
      intro id hid
      exact not_contains_iff.1 (length_filter_eq_length_iff.1 helements id hid)
    symm
    apply filter_eq_self.2
    intro id hid
    apply not_contains_iff.2
    rcases mem_append.1 hid with hid | hid
    · exact hkept id hid
    · obtain ⟨b, hb, hid⟩ := mem_flatMap.1 hid
      have hanchor : b.anchorId ≠ elementId := by
        intro heq
        exact hkept b.anchorId (h.anchors b hb).2 (heq ▸ h.element)
      rw [h.member b hb hanchor id hid]
      rintro rfl
      have hnot := filter_eq_nil_iff.1 hmembers b (mem_filter.2 ⟨hb, ?_⟩)
      · exact hnot (contains_iff_mem.2 hid)
      · exact not_contains_iff.2 fun hmem => hanchor ((h.branch b hb).1 hmem)

end PruneRung

/-! ## Restacking -/

/-- A change that leaves id and type alone. -/
theorem Rewired.modifyNode (s : Session) (nodeId : String) {f : BaseNode → BaseNode}
    (h : ∀ node ∈ s.graph.nodes, node.id = nodeId → (f node).tag = node.tag) : Rewired s (s.modifyNode nodeId f) where
  tags := map_updateFirst fun node hnode hid => h node hnode (beq_iff_eq.1 hid)
  rungs := rfl
  counter := Nat.le_refl _
  wires _ he := Or.inl he

theorem Rewired.restack (s : Session) (x : Rat) (memberIds : List String) : Rewired s (s.restack x memberIds) := by
  unfold Session.restack
  generalize memberIds.zipIdx = entries
  induction entries generalizing s with
  | nil => exact .refl s
  | cons entry rest ih =>
    apply Rewired.trans _ (ih _)
    exact Rewired.modifyNode s entry.1 fun _ _ _ => rfl

theorem Rewired.restackAll (s : Session) (elementId : String) (branches : List ParallelBranch) :
    Rewired s (branches.foldl (fun s b => s.restack b.x (b.elementIds.filter (· != elementId))) s) := by
  induction branches generalizing s with
  | nil => exact .refl s
  | cons b rest ih => exact (Rewired.restack s b.x _).trans (ih _)

section
variable [Entropy]

/-! ## All rungs -/

theorem pruneRung_spec {s : Session} (h : PruneRung elementId dropNodeIds dropBranchIds s.graph.nodeIds rung) :
    Rewired s (s.pruneRung elementId dropNodeIds dropBranchIds rung).1 ∧
      Owned.Pruned dropNodeIds rung (s.pruneRung elementId dropNodeIds dropBranchIds rung).2 := by
  unfold Session.pruneRung
  dsimp only
  split
  next hsame => exact ⟨.refl s, h.unchanged hsame.1 hsame.2.1⟩
  · have hrestacked := Rewired.restackAll s elementId
      ((rung.branches.filter fun b => !dropBranchIds.contains b.id).filter (·.elementIds.contains elementId))
    have hpruned := h.pruned
    refine ⟨hrestacked.trans (Rewired.rewireRungBranches ?_), hpruned⟩
    rw [hrestacked.nodeIds]
    refine ⟨?_, fun b hb => (hpruned.anchors b hb).2⟩
    intro id hid
    have hid : id ∈ rung.members.filter fun id => !dropNodeIds.contains id := hpruned.members ▸ hid
    obtain ⟨hmem, hkept⟩ := mem_filter.1 hid
    exact h.left id hmem (not_contains_iff.1 hkept)

/-- **The pruned rungs.** -/
theorem pruneRungs_spec (s : Session) (rungs : List Rung)
    (h : ∀ rung ∈ rungs, PruneRung elementId dropNodeIds dropBranchIds s.graph.nodeIds rung) :
    Rewired s (s.pruneRungs elementId dropNodeIds dropBranchIds rungs).1 ∧
      List.Forall₂ (Owned.Pruned dropNodeIds) rungs (s.pruneRungs elementId dropNodeIds dropBranchIds rungs).2 := by
  induction rungs generalizing s with
  | nil => exact ⟨.refl s, .nil⟩
  | cons rung rest ih =>
    obtain ⟨hfirst, hpruned⟩ := pruneRung_spec (h rung (mem_cons_self ..))
    obtain ⟨hrest, hall⟩ := ih (s.pruneRung elementId dropNodeIds dropBranchIds rung).1 fun r hr => by
      rw [hfirst.nodeIds]
      exact h r (mem_cons_of_mem _ hr)
    exact ⟨hfirst.trans hrest, .cons hpruned hall⟩

end

/-! ## Deletions -/

namespace Sound

variable [Entropy] {s s' : Session}

omit [Entropy] in
/-- The nodes that are left. -/
theorem mem_dropNodes {dropped : List String} {id : String} (hid : id ∈ s.graph.nodeIds) (hkept : id ∉ dropped) :
    id ∈ (s.dropNodes dropped).graph.nodeIds := by
  obtain ⟨node, hnode, rfl⟩ := mem_map.1 hid
  apply mem_map_of_mem
  exact mem_filter.2 ⟨hnode, not_contains_iff.2 hkept⟩

/-- The wires that are left. -/
theorem wired_of_dropped (h : Sound s) {dropped : List String} {e : BaseEdge}
    (he : e ∈ s.graph.edges.filter fun e => !e.touches dropped) : e.EndsIn (s.dropNodes dropped).graph.nodeIds := by
  obtain ⟨hmem, htouches⟩ := mem_filter.1 he
  unfold BaseEdge.touches at htouches
  rw [Bool.not_eq_true', Bool.or_eq_false_iff] at htouches
  obtain ⟨hsource, htarget⟩ := htouches
  rw [← Bool.not_eq_true, contains_iff_mem] at hsource htarget
  exact ⟨mem_dropNodes (h.wired e hmem).1 hsource, mem_dropNodes (h.wired e hmem).2 htarget⟩

/-- What `deleteElement` drops, for each rung. -/
theorem pruneRung (h : Sound s) (elementId : String) (hrung : rung ∈ s.graph.rungs) :
    let dropped := (s.graph.rungs.flatMap (·.branches)).filter (·.anchorId == elementId)
    let dropNodeIds := elementId :: dropped.flatMap (·.elementIds)
    PruneRung elementId dropNodeIds (dropped.map (·.id)) (s.dropNodes dropNodeIds).graph.nodeIds rung := by
  intro dropped dropNodeIds
  -- the branches that go are those of all rungs on the element
  have hdropped : ∀ b, b ∈ dropped ↔ ∃ r ∈ s.graph.rungs, b ∈ r.branches ∧ b.anchorId = elementId := by
    intro b
    rw [mem_filter, mem_flatMap, beq_iff_eq]
    constructor
    · rintro ⟨⟨r, hr, hb⟩, hanchor⟩
      exact ⟨r, hr, hb, hanchor⟩
    · rintro ⟨r, hr, hb, hanchor⟩
      exact ⟨⟨r, hr, hb⟩, hanchor⟩
  have hids : ∀ id, id ∈ dropNodeIds ↔ id = elementId ∨ ∃ b ∈ dropped, id ∈ b.elementIds := by
    intro id
    rw [mem_cons, mem_flatMap]
  refine ⟨h.owned.anchors rung hrung, mem_cons_self .., ?_, ?_, ?_, ?_, ?_⟩
  · intro b hb
    constructor
    · intro hid
      obtain ⟨b', hb', hsame⟩ := mem_map.1 hid
      obtain ⟨r, hr, hb', hanchor⟩ := (hdropped b').1 hb'
      rw [h.owned.branch_of_id hrung hr hb hb' hsame.symm]
      exact hanchor
    · intro hanchor
      exact mem_map_of_mem ((hdropped b).2 ⟨rung, hrung, hb, hanchor⟩)
  · intro b hb hanchor id hid
    exact (hids id).2 (Or.inr ⟨b, (hdropped b).2 ⟨rung, hrung, hb, hanchor⟩, hid⟩)
  · intro b hb hanchor id hid
    rw [hids id]
    constructor
    · rintro (heq | ⟨b', hb', hid'⟩)
      · exact heq
      · obtain ⟨r, hr, hb', hanchor'⟩ := (hdropped b').1 hb'
        rw [h.owned.same_branch hrung hr hb hb' hid hid'] at hanchor
        exact absurd hanchor' hanchor
    · exact Or.inl
  · intro b hb hid
    rcases (hids _).1 hid with heq | ⟨b', hb', hid'⟩
    · exact heq
    · obtain ⟨r, hr, hb', _⟩ := (hdropped b').1 hb'
      exact absurd hid' (h.owned.not_in_branch hrung hr (h.owned.anchors rung hrung b hb).2 hb')
  · intro id hid hkept
    exact mem_dropNodes (h.owned.node_of_member hrung hid) hkept

theorem deleteElement (h : Sound s) (hcall : s.deleteElement elementId = .ok s') : Sound s' := by
  unfold Session.deleteElement at hcall
  split at hcall
  · -- the element is a node
    cases hcall
    let dropped := (s.graph.rungs.flatMap (·.branches)).filter (·.anchorId == elementId)
    let dropNodeIds := elementId :: dropped.flatMap (·.elementIds)
    let next := (s.dropEdges (·.touches dropNodeIds)).dropNodes dropNodeIds
    obtain ⟨hrewired, hpruned⟩ := pruneRungs_spec next s.graph.rungs fun _ hrung =>
      h.pruneRung elementId hrung
    constructor
    · exact ((h.owned.prune hpruned).of_tags hrewired.tags).mono hrewired.counter
    · intro e he
      show e.EndsIn (next.pruneRungs _ _ _ _).1.graph.nodeIds
      rw [hrewired.nodeIds]
      rcases hrewired.wires e he with he | hends
      · exact h.wired_of_dropped he
      · exact hends
  · -- the element is a wire
    cases hcall
    exact h.rewired (.dropEdges s _)
  · cases hcall

omit [Entropy] in
theorem findBranch_ok {branchId : String} {branch : ParallelBranch}
    (hfind : s.graph.findBranch branchId = .ok (rung, branch)) :
    rung ∈ s.graph.rungs ∧ rung.branches.find? (·.id == branch.id) = some branch := by
  unfold LdGraph.findBranch at hfind
  split at hfind
  next found hfound =>
    cases hfind
    obtain ⟨r, hr, hmap⟩ := exists_of_findSome?_eq_some hfound
    obtain ⟨b, hb, heq⟩ := Option.map_eq_some_iff.1 hmap
    cases heq
    have hid := find?_some (p := fun b : ParallelBranch => b.id == branchId) hb
    rw [← beq_iff_eq.1 hid] at hb
    exact ⟨hr, hb⟩
  · cases hfind

/-- A rung is the first one with its id. -/
theorem find?_rung (h : Sound s) (hrung : rung ∈ s.graph.rungs) :
    s.graph.rungs.find? (·.id == rung.id) = some rung :=
  find?_of_nodup_map h.owned.rungIds hrung

/-- What `deleteBranch` leaves of the rungs. -/
theorem prune_branch (h : Sound s) {branch : ParallelBranch} (hrung : rung ∈ s.graph.rungs)
    (hbranch : branch ∈ rung.branches) : List.Forall₂ (Owned.Pruned branch.elementIds) s.graph.rungs
      (s.graph.setRung { rung with branches := rung.branches.filter (·.id != branch.id) }).rungs := by
  have hupdate : (s.graph.setRung { rung with branches := rung.branches.filter (·.id != branch.id) }).rungs =
      s.graph.rungs.map fun r =>
        if r.id = rung.id then { rung with branches := rung.branches.filter (·.id != branch.id) } else r :=
    (map_ite_eq_updateFirst h.owned.rungIds).symm
  rw [hupdate, forall₂_map_right_iff, forall₂_same]
  intro r hr
  by_cases hid : r.id = rung.id
  · have hsame := h.owned.rung_of_id hr hrung hid
    subst hsame
    rw [if_pos hid]
    refine ⟨rfl, filter_sublist.map _, ?_, fun b hb => h.owned.anchors r hr b (mem_filter.1 hb).1⟩
    have helements : r.elementIds.filter (fun id => !branch.elementIds.contains id) = r.elementIds :=
      filter_eq_self.2 fun id hmem => not_contains_iff.2 (h.owned.not_in_branch hr hr hmem hbranch)
    unfold Rung.members
    dsimp only
    rw [filter_append, helements]
    have hdisjoint : ∀ b ∈ r.branches, ∀ id ∈ b.elementIds, id ∈ branch.elementIds → b.id = branch.id := by
      intro b hb id hmem hmem'
      rw [h.owned.same_branch hr hr hb hbranch hmem hmem']
    have hown : ∀ b ∈ r.branches, b.id = branch.id → b = branch := fun b hb heq =>
      h.owned.branch_of_id hr hr hb hbranch heq
    -- the branch loses all its members, and the others none
    generalize r.branches = branches at hdisjoint hown
    congr 1
    induction branches with
    | nil => rfl
    | cons b rest ih =>
      have hrest := ih (fun b hb => hdisjoint b (mem_cons_of_mem _ hb)) (fun b hb => hown b (mem_cons_of_mem _ hb))
      have hb := mem_cons_self (a := b) (l := rest)
      rw [flatMap_cons, filter_append, ← hrest]
      by_cases heq : b.id = branch.id
      · have hnone : b.elementIds.filter (fun id => !branch.elementIds.contains id) = [] := by
          rw [hown b hb heq]
          apply filter_eq_nil_iff.2
          exact fun id hmem hnot => not_contains_iff.1 hnot hmem
        rw [filter_cons_of_neg (p := fun x : ParallelBranch => x.id != branch.id) (fun hne => bne_iff_ne.1 hne heq),
          hnone]
        rfl
      · have hall : b.elementIds.filter (fun id => !branch.elementIds.contains id) = b.elementIds :=
          filter_eq_self.2 fun id hmem => not_contains_iff.2 fun hmem' => heq (hdisjoint b hb id hmem hmem')
        rw [filter_cons_of_pos (p := fun x : ParallelBranch => x.id != branch.id) (bne_iff_ne.2 heq), hall,
          flatMap_cons]
  · rw [if_neg hid]
    refine ⟨rfl, List.Sublist.refl _, ?_, h.owned.anchors r hr⟩
    symm
    apply filter_eq_self.2
    intro id hmem
    apply not_contains_iff.2
    intro hmem'
    have hmember : id ∈ rung.members := mem_append_right _ (mem_flatMap.2 ⟨branch, hbranch, hmem'⟩)
    rw [h.owned.same_rung hr hrung hmem hmember] at hid
    exact hid rfl

theorem deleteBranch (h : Sound s) {branchId : String} (hcall : s.deleteBranch branchId = .ok s') : Sound s' := by
  obtain ⟨⟨rung, branch⟩, hfind, hcall⟩ := bind_ok.1 hcall
  obtain ⟨hrung, hbranch⟩ := findBranch_ok hfind
  have hbranch := mem_of_find?_eq_some hbranch
  cases hcall
  let updated : Rung := { rung with branches := rung.branches.filter (·.id != branch.id) }
  let next := ((s.dropNodes branch.elementIds).dropEdges (·.touches branch.elementIds)).setRung updated
  have hnext : Sound next := by
    constructor
    · exact h.owned.prune (h.prune_branch hrung hbranch)
    · exact fun e he => h.wired_of_dropped he
  have hupdated : updated ∈ next.graph.rungs := mem_updateFirst_self (h.find?_rung hrung) _
  have hinside := hnext.inside hupdated
  have hrewired := Rewired.rewireRungBranches hinside
  apply hnext.rewired (hrewired.trans (Rewired.addWires _ _))
  rw [hrewired.nodeIds]
  intro w hw
  obtain ⟨succ, hsucc, rfl⟩ := mem_map.1 (mem_filter.1 hw).1
  have hanchor := (h.owned.anchors rung hrung branch hbranch).2
  exact ⟨hinside.element hanchor, hinside.element (seriesSuccessor_mem (Option.mem_toList.1 hsucc))⟩

/-- A rung whose branches have no members is deleted with all its elements. -/
theorem deleteRung (h : Sound s) {rungId : String} (hcall : s.deleteRung rungId = .ok s')
    (hmembers : ∀ rung, s.graph.findRung rungId = .ok rung → ∀ b ∈ rung.branches, b.elementIds = []) : Sound s' := by
  obtain ⟨rung, hrung, _, rfl⟩ := Session.deleteRung_ok.1 hcall
  obtain ⟨hfind, _⟩ := LdGraph.findRung_ok hrung
  have hown : rung.members = rung.elementIds := by
    have hnone : rung.branches.flatMap (·.elementIds) = [] := flatMap_eq_nil_iff.2 (hmembers rung hrung)
    unfold Rung.members
    rw [hnone, List.append_nil]
  have hrung := mem_of_find?_eq_some hfind
  obtain ⟨found, l₁, l₂, _, hfound, hsplit, herase⟩ :=
    exists_of_eraseP (p := fun r : Rung => r.id == rung.id) hrung (beq_self_eq_true _)
  have hsame : found = rung := by
    apply h.owned.rung_of_id _ hrung (beq_iff_eq.1 hfound)
    rw [hsplit]
    exact mem_append_right _ (mem_cons_self ..)
  rw [hsame] at hsplit
  have howned : Owned s.nextId (s.graph.nodes.filter fun n => !rung.elementIds.contains n.id) (l₁ ++ l₂) := by
    have hmiddle : (l₁ ++ l₂).Sublist (l₁ ++ rung :: l₂) := (sublist_cons_self _ _).append_left _
    rw [← hsplit] at hmiddle
    apply h.owned.remove (hmiddle.map _) (hmiddle.flatMap _)
    · have hnodup := h.owned.members
      rw [hsplit, flatMap_append, flatMap_cons, hown] at hnodup
      obtain ⟨_, hright, hleft⟩ := nodup_append'.1 hnodup
      obtain ⟨_, _, hrest⟩ := nodup_append'.1 hright
      have h₁ : (l₁.flatMap Rung.members).filter (fun id => !rung.elementIds.contains id) = l₁.flatMap Rung.members :=
        filter_eq_self.2 fun id hmem => not_contains_iff.2 fun hmem' => hleft hmem (mem_append_left _ hmem')
      have h₂ : (l₂.flatMap Rung.members).filter (fun id => !rung.elementIds.contains id) = l₂.flatMap Rung.members :=
        filter_eq_self.2 fun id hmem => not_contains_iff.2 fun hmem' => hrest hmem' hmem
      have h₀ : rung.elementIds.filter (fun id => !rung.elementIds.contains id) = [] :=
        filter_eq_nil_iff.2 fun id hmem hnot => not_contains_iff.1 hnot hmem
      rw [hsplit, flatMap_append, flatMap_append, flatMap_cons, filter_append, filter_append, hown,
        h₁, h₂, h₀]
      rfl
    · exact fun r hr => h.owned.anchors r (hmiddle.subset hr)
  constructor
  · rw [← herase] at howned
    exact howned.renumbered
  · exact fun e he => h.wired_of_dropped he

end Sound

end Audesys.LdEditor
