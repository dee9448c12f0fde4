import Audesys.LdEditor.Delete

/-!
# `LdEditor.Valid` — edits keep ladder diagrams valid

Every operation keeps sessions sound but one: `deleteRung` forgets the members of the branches of the rung, which are
orphans from then on. A diagram is valid throughout a run exactly if no rung with members is deleted (`valid_iff`).
-/

open List

namespace Audesys.LdEditor

open Audesys.Lib Audesys.Editor

namespace Sound

variable [Entropy] {s s' : Session}
variable {elementId : String}

/-! ## Rungs and elements that change -/

/-- A rung that is found becomes one with the same id, branches and, in another order, elements. -/
theorem setRung (h : Sound s) {rung : Rung} (updated : Rung) (hrung : rung ∈ s.graph.rungs) (hid : updated.id = rung.id)
    (helements : updated.elementIds.Perm rung.elementIds) (hbranches : updated.branches = rung.branches) :
    Sound (s.setRung updated) ∧ updated.Inside (s.setRung updated).graph.nodeIds := by
  have hfind := h.find?_rung hrung
  rw [← hid] at hfind
  have hsound : Sound (s.setRung updated) := ⟨h.owned.updateRung hfind hid helements hbranches, h.wired⟩
  exact ⟨hsound, hsound.inside (mem_updateFirst_self hfind _)⟩

/-- An element that keeps its id and its type. -/
theorem modifyNode (h : Sound s) {nodeId : String} {f : BaseNode → BaseNode} {node : BaseNode}
    (hfind : s.graph.findNode nodeId = some node) (hid : ∀ n, n.id = nodeId → (f n).id = nodeId)
    (htext : ∀ n, (f n).kind.text = node.kind.text) : Sound (s.modifyNode nodeId f) := by
  obtain ⟨hnodeId, hnode⟩ := LdGraph.findNode_id hfind
  apply h.rewired (Rewired.modifyNode s nodeId _)
  intro n hn hnid
  have hsame : n = node := inj_on_of_nodup_map h.owned.nodeIds hn hnode (hnid.trans hnodeId.symm)
  unfold BaseNode.tag
  rw [hid n hnid, htext n, hnid, hsame]

omit [Entropy] in
theorem reordered_perm {elementIds : List String} (h : elementId ∈ elementIds) (insertIndex : Int) :
    (Session.reordered elementIds elementId insertIndex).Perm elementIds := by
  unfold Session.reordered
  apply (splice_perm ..).trans
  rw [eraseIdx_idxOf_eq_erase]
  exact (perm_cons_erase h).symm

theorem reorderElement (h : Sound s) {insertIndex : Int}
    (hcall : s.reorderElement elementId insertIndex = .ok s') : Sound s' := by
  obtain ⟨rung, hrung, hmem, _, rfl⟩ := Session.reorderElement_ok hcall
  obtain ⟨hsound, hinside⟩ := h.setRung
    { rung with elementIds := Session.reordered rung.elementIds elementId insertIndex } hrung rfl
    (reordered_perm hmem insertIndex) rfl
  have hseries := Rewired.rewireRungSeries hinside
  apply hsound.rewired (hseries.trans (Rewired.rewireRungBranches _))
  rw [hseries.nodeIds]
  exact hinside

/-! ## Wires -/

theorem connectWire (h : Sound s) {sourceId targetId : String} {routingPoints : Option (List Point)}
    (hcall : s.connectWire sourceId targetId routingPoints = .ok s') : Sound s' := by
  unfold Session.connectWire at hcall
  split at hcall
  · cases hcall
  · cases hcall
  next source target hsource htarget =>
  split at hcall
  · cases hcall
  split at hcall
  · cases hcall
  split at hcall
  · cases hcall
    exact h
  · cases hcall
    exact h.rewired (.addWire ⟨LdGraph.findNode_mem hsource, LdGraph.findNode_mem htarget⟩)

theorem disconnectWire (h : Sound s) {edgeId : String} (hcall : s.disconnectWire edgeId = .ok s') : Sound s' := by
  unfold Session.disconnectWire at hcall
  split at hcall
  · cases hcall
  · cases hcall
    exact h.rewired (.dropEdges s _)

/-! ## Properties -/

theorem changeCoilType (h : Sound s) {newType : CoilType}
    (hcall : s.changeCoilType elementId newType = .ok s') : Sound s' := by
  unfold Session.changeCoilType at hcall
  split at hcall
  next hfind =>
    split at hcall
    · cases hcall
      exact h
    · cases hcall
      exact h.modifyNode hfind (fun _ hid => hid) fun _ => rfl
  · cases hcall

theorem changeContactType (h : Sound s) {newType : ContactType}
    (hcall : s.changeContactType elementId newType = .ok s') : Sound s' := by
  unfold Session.changeContactType at hcall
  split at hcall
  next hfind =>
    split at hcall
    · cases hcall
      exact h
    · cases hcall
      exact h.modifyNode hfind (fun _ hid => hid) fun _ => rfl
  · cases hcall

theorem setRungTitle (h : Sound s) {rungId title : String} (hcall : s.setRungTitle rungId title = .ok s') : Sound s' := by
  obtain ⟨rung, hrung, hcall⟩ := bind_ok.1 hcall
  have hmem := mem_of_find?_eq_some (LdGraph.findRung_ok hrung).1
  dsimp only at hcall
  split at hcall
  · cases hcall
    exact h
  · cases hcall
    refine (h.setRung _ hmem ?_ ?_ ?_).1
    · rfl
    · exact List.Perm.refl _
    · rfl

theorem setRungComment (h : Sound s) {rungId comment : String} (hcall : s.setRungComment rungId comment = .ok s') :
    Sound s' := by
  obtain ⟨rung, hrung, hcall⟩ := bind_ok.1 hcall
  have hmem := mem_of_find?_eq_some (LdGraph.findRung_ok hrung).1
  dsimp only at hcall
  split at hcall
  · cases hcall
    exact h
  · cases hcall
    refine (h.setRung _ hmem ?_ ?_ ?_).1
    · rfl
    · exact List.Perm.refl _
    · rfl

theorem setElementComment (h : Sound s) {elementId comment : String}
    (hcall : s.setElementComment elementId comment = .ok s') : Sound s' := by
  unfold Session.setElementComment at hcall
  dsimp only at hcall
  split at hcall
  next hfind =>
    split at hcall
    · cases hcall
      exact h
    · cases hcall
      exact h.modifyNode hfind (fun _ hid => hid) fun _ => rfl
  next hfind =>
    split at hcall
    · cases hcall
      exact h
    · cases hcall
      exact h.modifyNode hfind (fun _ hid => hid) fun _ => rfl
  · cases hcall

theorem renameVariable (h : Sound s) {elementId variableName : String}
    (hcall : s.renameVariable elementId variableName = .ok s') : Sound s' := by
  unfold Session.renameVariable at hcall
  dsimp only at hcall
  split at hcall
  next hfind =>
    obtain ⟨_, _, hcall⟩ := bind_ok.1 hcall
    split at hcall
    · cases hcall
      exact h
    · cases hcall
      exact h.modifyNode hfind (fun _ hid => hid) fun _ => rfl
  next hfind =>
    obtain ⟨_, _, hcall⟩ := bind_ok.1 hcall
    split at hcall
    · cases hcall
      exact h
    · cases hcall
      exact h.modifyNode hfind (fun _ hid => hid) fun _ => rfl
  · cases hcall

theorem replaceElement (h : Sound s) {targetId : String} {replacement : BaseNode}
    (hcall : s.replaceElement targetId replacement = .ok s') : Sound s' := by
  unfold Session.replaceElement at hcall
  split at hcall
  · cases hcall
  next target hfind =>
  by_cases htext : replacement.kind.text = target.kind.text
  · rw [if_neg (not_not.2 htext)] at hcall
    cases hcall
    exact h.modifyNode hfind (fun _ _ => rfl) fun _ => htext
  · rw [if_pos htext] at hcall
    cases hcall

/-! ## Rungs and rails -/

/-- More nodes. -/
theorem wired_append (h : Sound s) (added : List BaseNode) :
    ∀ e ∈ s.graph.edges, e.EndsIn ((s.graph.nodes ++ added).map (·.id)) := by
  intro e he
  rw [map_append]
  exact ⟨mem_append_left _ (h.wired e he).1, mem_append_left _ (h.wired e he).2⟩

theorem addRail (h : Sound s) (side : PowerRailSide) (position : Point) :
    Sound (s.addNode (createPowerRail (s.freshId "powerrail") side position)) :=
  ⟨h.owned.addRail (Nat.le_succ _) (freshId s _ (by decide)) rfl, h.wired_append _⟩

theorem addRung (h : Sound s) : Sound s.addRung := by
  have hrung (comment : Option String) : Sound ⟨s.nextId + 1, { s.graph with
      rungs := s.graph.rungs ++ [createRung (s.freshId "rung") (s.graph.rungs.length + 1) comment] }⟩ :=
    ⟨h.owned.addRung (Nat.le_succ _) (freshId s _ (by decide)) rfl rfl, h.wired⟩
  unfold Session.addRung
  dsimp only
  by_cases hfirst : s.graph.rungs.length + 1 = 1
  · rw [if_pos hfirst]
    exact ((hrung _).addRail .left _).addRail .right _
  · rw [if_neg hfirst]
    exact hrung _

theorem addPowerRail (h : Sound s) (side : PowerRailSide) : Sound (s.addPowerRail side) := by
  unfold Session.addPowerRail
  by_cases hsome : (s.graph.findRail side).isSome = true
  · rw [if_pos hsome]
    exact h
  · rw [if_neg hsome]
    exact h.addRail side _

omit [Entropy] in
/-- The rungs in another order. -/
theorem moveRung_ok {rungId : String} {newIndex : Int} (hcall : s.moveRung rungId newIndex = .ok s') :
    s' = s ∨ ∃ rungs : List Rung, rungs.Perm s.graph.rungs ∧ s' = s.setRungs (Session.renumbered rungs) := by
  obtain ⟨rung, hrung, hcall⟩ := bind_ok.1 hcall
  obtain ⟨hfind, hid⟩ := LdGraph.findRung_ok hrung
  dsimp only at hcall
  split at hcall
  · exact Or.inl (Except.ok.inj hcall).symm
  · rw [hid] at hfind
    have hperm := (splice_perm (s.graph.rungs.eraseP (·.id == rungId))
      (max 0 (min newIndex (s.graph.rungs.length - 1))).toNat [rung]).trans (perm_cons_eraseP hfind).symm
    exact Or.inr ⟨_, hperm, (Except.ok.inj hcall).symm⟩

theorem moveRung (h : Sound s) {rungId : String} {newIndex : Int} (hcall : s.moveRung rungId newIndex = .ok s') :
    Sound s' := by
  rcases moveRung_ok hcall with rfl | ⟨rungs, hperm, rfl⟩
  · exact h
  · exact ⟨(h.owned.perm hperm).renumbered, h.wired⟩

/-! ## Branches -/

theorem openBranch (h : Sound s) {rungId anchorId : String} (hcall : s.openBranch rungId anchorId = .ok s') : Sound s' := by
  obtain ⟨rung, hrung, hcall⟩ := bind_ok.1 hcall
  obtain ⟨hfind, _⟩ := LdGraph.findRung_ok hrung
  split at hcall
  · cases hcall
  split at hcall
  · cases hcall
  next hanchor =>
  split at hcall
  · cases hcall
  cases hcall
  rw [Bool.not_eq_true, Bool.not_eq_false', contains_iff_mem] at hanchor
  have hfresh := freshId s "branch" (by decide)
  have hrung := mem_of_find?_eq_some hfind
  have hext (x : Rat) : Owned.Extends s.nextId (s.nextId + 1) rung
      { rung with branches := rung.branches ++ [createBranch (s.freshId "branch") rung.id anchorId x] } []
      [s.freshId "branch"] := by
    refine ⟨rfl, ?_, ?_, nodup_singleton _, ?_, ?_⟩
    · -- the new branch has no members
      unfold Rung.members
      rw [flatMap_append]
      show (rung.elementIds ++ (rung.branches.flatMap (fun b : ParallelBranch => b.elementIds) ++ [])).Perm _
      rw [List.append_nil]
      exact List.Perm.refl _
    · unfold Rung.branchIds
      rw [map_append]
      exact perm_append_comm
    · intro id hid
      rw [mem_singleton.1 hid]
      exact hfresh
    · intro b hb
      rcases mem_append.1 hb with hb | hb
      · exact h.owned.anchors rung hrung b hb
      · rw [mem_singleton.1 hb]
        exact ⟨rfl, hanchor⟩
  exact (h.insert ⟨s.nextId + 1, s.graph.setRung _⟩ [] (List.append_nil _).symm rfl rfl (Nat.le_succ _)
    nodup_nil (fun _ hnode => absurd hnode not_mem_nil) (fun _ hnode => absurd hnode not_mem_nil) hfind
    (hext _)).1

/-- A branch of a rung with one more member. -/
theorem extends_branch (h : Sound s) {rung : Rung} (hrung : rung ∈ s.graph.rungs) {branch : ParallelBranch}
    (hbranch : rung.branches.find? (·.id == branch.id) = some branch) (m : Nat) (id : String) :
    Owned.Extends s.nextId m rung { rung with branches := rung.branches.map fun b =>
        if b.id = branch.id then { b with elementIds := b.elementIds ++ [id] } else b } [id] [] := by
  -- the branch is the only one of the rung with its id
  have hids : (rung.branches.map (·.id)).Nodup := (nodup_flatMap.1 h.owned.branchIds).1 rung hrung
  have hupdate : (rung.branches.map fun b =>
      if b.id = branch.id then { b with elementIds := b.elementIds ++ [id] } else b) =
      updateFirst (·.id == branch.id) (fun b => { b with elementIds := b.elementIds ++ [id] }) rung.branches :=
    map_ite_eq_updateFirst (f := fun b : ParallelBranch => { b with elementIds := b.elementIds ++ [id] }) hids
  rw [hupdate]
  refine ⟨rfl, ?_, ?_, nodup_nil, fun _ hid => absurd hid not_mem_nil, ?_⟩
  · have hmember : (branch.elementIds ++ [id]).Perm ([id] ++ branch.elementIds) := perm_append_comm
    have hmembers := flatMap_updateFirst_perm (g := fun b : ParallelBranch => b.elementIds)
      (f := fun b : ParallelBranch => { b with elementIds := b.elementIds ++ [id] }) hbranch hmember
    exact (hmembers.append_left rung.elementIds).trans (perm_append_comm_assoc ..)
  · unfold Rung.branchIds
    have hsame : (updateFirst (·.id == branch.id) (fun b => { b with elementIds := b.elementIds ++ [id] })
        rung.branches).map (·.id) = rung.branches.map (·.id) := map_updateFirst fun _ _ _ => rfl
    rw [hsame]
    exact List.Perm.refl _
  · intro b hb
    rcases mem_updateFirst hb with hb | ⟨b₀, hb₀, _, rfl⟩
    · exact h.owned.anchors rung hrung b hb
    · exact h.owned.anchors rung hrung b₀ hb₀

theorem addBranchContact (h : Sound s) {branchId : String} {contactType : Option ContactType}
    (hcall : s.addBranchContact branchId contactType = .ok s') : Sound s' := by
  obtain ⟨⟨owner, branch⟩, hfound, hcall⟩ := bind_ok.1 hcall
  obtain ⟨rung, hrung, hcall⟩ := bind_ok.1 hcall
  obtain ⟨howner, hbranch⟩ := findBranch_ok hfound
  obtain ⟨hfind, hrungId⟩ := LdGraph.findRung_ok hrung
  have hmem := mem_of_find?_eq_some hfind
  have hsame : owner = rung := by
    apply h.owned.rung_of_id howner hmem
    exact (h.owned.anchors owner howner branch (mem_of_find?_eq_some hbranch)).1.symm.trans hrungId.symm
  subst hsame
  cases hcall
  generalize hnew : s.newContact (contactType.getD .no)
    ⟨((mapGet (layoutRung owner s.graph) branch.anchorId).map (·.x)).getD branch.x,
      120 + branch.elementIds.length * 40⟩ = contact
  have hid : contact.id = s.freshId "contact" := congrArg BaseNode.id hnew.symm
  have hkind : contact.kind.isRail = false ∧ contact.kind.isComparison = false := by
    rw [← hnew]
    exact ⟨rfl, rfl⟩
  obtain ⟨hnext, hinside⟩ := h.insert (s.insertNode contact _) [contact] rfl rfl rfl (Nat.le_succ _)
    (nodup_singleton _)
    (fun node hnode => by
      rw [mem_singleton.1 hnode, hid]
      exact freshId s _ (by decide))
    (fun node hnode => by
      rw [mem_singleton.1 hnode]
      exact hkind) hfind (h.extends_branch hmem hbranch _ contact.id)
  exact hnext.rewired (Rewired.rewireRungBranches hinside)

theorem closeBranch (h : Sound s) {branchId : String} (hcall : s.closeBranch branchId = .ok s') : Sound s' := by
  obtain ⟨⟨_, branch⟩, _, hcall⟩ := bind_ok.1 hcall
  dsimp only at hcall
  split at hcall
  · cases hcall
  · cases hcall
    exact h

end Sound

/-! ## Steps -/

section
variable [Entropy] {s : Session}

/-- The operation does not delete a rung whose branches have members. -/
def KeepsMembers (s : Session) : Operation → Prop
  | .deleteRung rungId => ∀ rung ∈ s.graph.rungs, rung.id = rungId → 1 < s.graph.rungs.length →
      ∀ b ∈ rung.branches, b.elementIds = []
  | _ => True

/-- **A step** that forgets no members keeps the session sound. -/
theorem Sound.step (h : Sound s) {op : Operation} (hkeeps : KeepsMembers s op) : Sound (s.step op) := by
  apply Session.step_induction h
  intro s' hcall
  cases op with
  | addContact position insertIndex contactType rungId => exact h.addContact hcall
  | addCoil coilType rungId => exact h.addCoil hcall
  | deleteElement elementId => exact h.deleteElement hcall
  | reorderElement elementId insertIndex => exact h.reorderElement hcall
  | connectWire sourceId targetId routingPoints => exact h.connectWire hcall
  | disconnectWire edgeId => exact h.disconnectWire hcall
  | changeCoilType elementId newType => exact h.changeCoilType hcall
  | setRungTitle rungId title => exact h.setRungTitle hcall
  | setRungComment rungId comment => exact h.setRungComment hcall
  | setElementComment elementId comment => exact h.setElementComment hcall
  | changeContactType elementId newType => exact h.changeContactType hcall
  | addRung =>
    cases hcall
    exact h.addRung
  | deleteRung rungId =>
    apply h.deleteRung hcall
    intro rung hrung
    obtain ⟨_, _, hmany, _⟩ := Session.deleteRung_ok.1 hcall
    obtain ⟨hfind, hid⟩ := LdGraph.findRung_ok hrung
    exact hkeeps rung (mem_of_find?_eq_some hfind) hid hmany
  | moveRung rungId newIndex => exact h.moveRung hcall
  | addPowerRail side =>
    cases hcall
    exact h.addPowerRail side
  | addFb position insertIndex fbType rungId => exact h.addFb hcall
  | renameVariable elementId variableName => exact h.renameVariable hcall
  | openBranch rungId anchorId => exact h.openBranch hcall
  | addBranchContact branchId contactType => exact h.addBranchContact hcall
  | closeBranch branchId => exact h.closeBranch hcall
  | deleteBranch branchId => exact h.deleteBranch hcall
  | pasteElements elementIds rungId insertIndex => exact h.pasteElements hcall
  | replaceElement targetId replacement => exact h.replaceElement hcall

/-! ## Validity -/

/-- The checks find nothing but rails that are in no rung. -/
def LdGraph.Valid (graph : LdGraph) : Prop :=
  ∀ e ∈ (validateGraph graph).errors, ∃ node ∈ graph.nodes, node.kind.isRail = true ∧ e = .orphanNode node

instance (graph : LdGraph) : Decidable graph.Valid := inferInstanceAs (Decidable (∀ e ∈ _, ∃ node ∈ _, _))

theorem Sound.valid (h : Sound s) : s.graph.Valid := by
  have hmember : ∀ rung ∈ s.graph.rungs, ∀ id ∈ rung.members, (!s.graph.nodeIds.contains id) = false := by
    intro rung hrung id hid
    have hnode : s.graph.nodeIds.contains id = true := contains_iff_mem.2 (h.owned.node_of_member hrung hid)
    rw [hnode]
    rfl
  intro e he
  rcases mem_append.1 he with he | he
  · rcases mem_append.1 he with he | he
    · rcases mem_append.1 he with he | he
      · -- only rails are in no rung
        obtain ⟨node, hnode, rfl⟩ := mem_map.1 he
        obtain ⟨hmem, horphan⟩ := mem_filter.1 hnode
        refine ⟨node, hmem, ?_, rfl⟩
        by_contra hrail
        rw [Bool.not_eq_true] at hrail
        have hid := (h.owned.owner node.id).2 (mem_elementNodeIds.2 ⟨node, hmem, hrail, rfl⟩)
        exact not_contains_iff.1 horphan hid
      · obtain ⟨edge, hedge, he⟩ := mem_flatMap.1 he
        rw [if_pos (contains_iff_mem.2 (h.wired edge hedge).1), if_pos (contains_iff_mem.2 (h.wired edge hedge).2)]
          at he
        cases he
    · obtain ⟨rung, hrung, he⟩ := mem_flatMap.1 he
      obtain ⟨id, hid, rfl⟩ := mem_map.1 he
      obtain ⟨hmem, hmissing⟩ := mem_filter.1 hid
      rw [hmember rung hrung id (mem_append_left _ hmem)] at hmissing
      cases hmissing
  · obtain ⟨rung, hrung, he⟩ := mem_flatMap.1 he
    obtain ⟨b, hb, he⟩ := mem_flatMap.1 he
    have hanchor : b.anchorId ∈ s.graph.nodeIds :=
      h.owned.node_of_member hrung (mem_append_left _ (h.owned.anchors rung hrung b hb).2)
    rcases mem_append.1 he with he | he
    · rw [if_pos (contains_iff_mem.2 hanchor)] at he
      cases he
    · obtain ⟨id, hid, rfl⟩ := mem_map.1 he
      obtain ⟨hmem, hmissing⟩ := mem_filter.1 hid
      have hbranch : id ∈ rung.members := mem_append_right _ (mem_flatMap.2 ⟨b, hb, hmem⟩)
      rw [hmember rung hrung id hbranch] at hmissing
      cases hmissing

/-- **A deleted rung** leaves the members of its branches as orphans. -/
theorem Sound.keepsMembers (h : Sound s) {op : Operation} (hvalid : (s.step op).graph.Valid) : KeepsMembers s op := by
  cases op with
  | deleteRung rungId =>
    intro rung hrung hid hmany b hb
    by_contra hne
    obtain ⟨member, rest, hmembers⟩ := exists_cons_of_ne_nil hne
    have hmember : member ∈ b.elementIds := hmembers ▸ mem_cons_self ..
    have hinRung : member ∈ rung.members := mem_append_right _ (mem_flatMap.2 ⟨b, hb, hmember⟩)
    have hfind := h.find?_rung hrung
    have hstep : s.step (.deleteRung rungId) = s.withoutRung rung := by
      apply Session.step_of_ok
      exact Session.deleteRung_ok.2 ⟨rung, hid ▸ LdGraph.findRung_of_find? hfind, hmany, rfl⟩
    rw [hstep] at hvalid
    obtain ⟨node, hnode, hrail, rfl⟩ := mem_elementNodeIds.1 ((h.owned.owner member).1 (mem_flatMap.2 ⟨rung, hrung, hinRung⟩))
    -- the node is left, and no rung that is left refers to it
    have hleft : node ∈ s.graph.nodes.filter fun n => !rung.elementIds.contains n.id :=
      mem_filter.2 ⟨hnode, not_contains_iff.2 fun hmem => h.owned.not_in_branch hrung hrung hmem hb hmember⟩
    have horphan : node.id ∉ (Session.renumbered (s.graph.rungs.eraseP (·.id == rung.id))).flatMap Rung.members := by
      intro hmem
      obtain ⟨r, hr, hmem⟩ := mem_flatMap.1 hmem
      obtain ⟨r₀, hr₀, k, rfl⟩ := mem_renumbered hr
      have hperm := perm_cons_eraseP hfind
      have hsame := h.owned.same_rung (hperm.symm.subset (mem_cons_of_mem _ hr₀)) hrung hmem hinRung
      have hnodup := hperm.nodup_iff.1 (List.Nodup.of_map _ h.owned.rungIds)
      rw [hsame] at hr₀
      exact (nodup_cons.1 hnodup).1 hr₀
    obtain ⟨rail, _, hrail', heq⟩ := hvalid (.orphanNode node) (by
      apply mem_append_left
      apply mem_append_left
      apply mem_append_left
      exact mem_map_of_mem (mem_filter.2 ⟨hleft, not_contains_iff.2 horphan⟩))
    cases heq
    rw [hrail] at hrail'
    cases hrail'
  | _ => trivial

/-- The session before the first operation. -/
theorem Sound.start (n : Nat) : Sound ⟨n, createLdGraph⟩ where
  owned :=
    { nodeIds := nodup_nil
      nodesIssued := fun _ hnode => absurd hnode not_mem_nil
      compared := fun _ hnode => absurd hnode not_mem_nil
      rungIds := nodup_nil
      rungsIssued := fun _ hrung => absurd hrung not_mem_nil
      branchIds := nodup_nil
      branchesIssued := fun _ hid => absurd hid not_mem_nil
      members := nodup_nil
      owner := fun _ => Iff.rfl
      anchors := fun _ hrung => absurd hrung not_mem_nil }
  wired _ he := absurd he not_mem_nil

/-- **Valid diagrams.** A diagram that is edited from the start on is always valid exactly if no rung is deleted whose
branches have members. -/
theorem valid_iff (n : Nat) (ops : List Operation) :
    Always Session.step (fun s => s.graph.Valid) ⟨n, createLdGraph⟩ ops ↔
      EveryStep Session.step KeepsMembers ⟨n, createLdGraph⟩ ops :=
  always_iff (fun _ h => h.valid) (fun _ _ h hkeeps => h.step hkeeps) (fun _ _ h hvalid => h.keepsMembers hvalid)
    (Sound.start n) ops

end

end Audesys.LdEditor

namespace Audesys.LdEditor

open Audesys.Lib Audesys.Editor

local instance editorSuffix : Entropy := ⟨fun _ => "x4k9q"⟩

/-- Two rungs, the first with a contact and a parallel contact; the first is deleted. -/
def forgottenMember : List Operation :=
  [.addRung, .addRung, .addContact none none .no "rung-1-x4k9q", .openBranch "rung-1-x4k9q" "contact-5-x4k9q",
    .addBranchContact "branch-8-x4k9q" none, .deleteRung "rung-1-x4k9q"]

theorem valid_fail : ¬ ∀ ops, Always Session.step (fun s => s.graph.Valid) ⟨0, createLdGraph⟩ ops := by
  intro h
  have hlast := h forgottenMember forgottenMember (prefix_refl _)
  exact absurd hlast (by decide +kernel)

end Audesys.LdEditor
