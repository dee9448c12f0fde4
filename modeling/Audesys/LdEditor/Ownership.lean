import Audesys.LdEditor.Validate
import Mathlib.Data.List.Nodup
import Mathlib.Data.List.Pairwise

/-!
# `LdEditor.Ownership` — which rung owns which element

Nodes, rungs and branches have distinct ids that the session has generated, and every element is in one place: in the
main row of one rung, or in one branch. `Owned` says so without the wires. The operations put new elements into a rung
(`Owned.insert`), take elements out (`Owned.remove`), add rungs and rails, and reorder the rungs.
-/

open List

namespace Audesys.LdEditor

open Audesys.Lib Audesys.Editor

variable {id : String} {r r' : Rung}
variable {rungs' : List Rung}

/-- The id and the type of a node. -/
def BaseNode.tag (node : BaseNode) : String × String := (node.id, node.kind.text)

/-- The nodes that a rung shall own: all but the rails. -/
def elementNodeIds (nodes : List BaseNode) : List String := (nodes.filter fun n => !n.kind.isRail).map (·.id)

def Rung.branchIds (rung : Rung) : List String := rung.branches.map (·.id)

/-- Distinct ids, and each element in one place. -/
structure Owned [Entropy] (n : Nat) (nodes : List BaseNode) (rungs : List Rung) : Prop where
  nodeIds : (nodes.map (·.id)).Nodup
  nodesIssued : ∀ node ∈ nodes, Issued n node.id
  compared : ∀ node ∈ nodes, node.kind.isComparison = false
  rungIds : (rungs.map (·.id)).Nodup
  rungsIssued : ∀ rung ∈ rungs, Issued n rung.id
  branchIds : (rungs.flatMap Rung.branchIds).Nodup
  branchesIssued : ∀ id ∈ rungs.flatMap Rung.branchIds, Issued n id
  members : (rungs.flatMap Rung.members).Nodup
  owner : ∀ id, id ∈ rungs.flatMap Rung.members ↔ id ∈ elementNodeIds nodes
  anchors : ∀ rung ∈ rungs, ∀ b ∈ rung.branches, b.rungId = rung.id ∧ b.anchorId ∈ rung.elementIds

theorem not_contains_iff {ids : List String} : (!ids.contains id) = true ↔ id ∉ ids := by
  rw [Bool.not_eq_true', ← Bool.not_eq_true, contains_iff_mem]

/-! ## Types of nodes -/

theorem NodeKind.isRail_eq (kind : NodeKind) : kind.isRail = (kind.text == "node:powerrail") := by
  cases kind <;> rfl

theorem NodeKind.isComparison_eq (kind : NodeKind) : kind.isComparison = (kind.text == "node:comparison") := by
  cases kind <;> rfl

theorem elementNodeIds_eq (nodes : List BaseNode) :
    elementNodeIds nodes = ((nodes.map BaseNode.tag).filter (·.2 != "node:powerrail")).map (·.1) := by
  unfold elementNodeIds
  rw [filter_map, map_map]
  have hfilter : (fun n : BaseNode => !n.kind.isRail) = ((fun t : String × String => t.2 != "node:powerrail") ∘ BaseNode.tag) := by
    funext n
    exact congrArg not n.kind.isRail_eq
  rw [hfilter]
  rfl

theorem mem_elementNodeIds {nodes : List BaseNode} :
    id ∈ elementNodeIds nodes ↔ ∃ node ∈ nodes, node.kind.isRail = false ∧ node.id = id := by
  unfold elementNodeIds
  rw [mem_map]
  constructor
  · rintro ⟨node, hnode, hid⟩
    obtain ⟨hmem, hrail⟩ := mem_filter.1 hnode
    exact ⟨node, hmem, Bool.not_eq_true' _ ▸ hrail, hid⟩
  · rintro ⟨node, hmem, hrail, hid⟩
    refine ⟨node, mem_filter.2 ⟨hmem, ?_⟩, hid⟩
    rw [hrail]
    rfl

theorem elementNodeIds_append (nodes added : List BaseNode) :
    elementNodeIds (nodes ++ added) = elementNodeIds nodes ++ elementNodeIds added := by
  unfold elementNodeIds
  rw [filter_append, map_append]

theorem elementNodeIds_filter (nodes : List BaseNode) (dropped : List String) :
    elementNodeIds (nodes.filter fun n => !dropped.contains n.id) =
      (elementNodeIds nodes).filter fun id => !dropped.contains id := by
  unfold elementNodeIds
  rw [filter_map, filter_filter, filter_filter]
  congr 1
  apply filter_congr
  intro n _
  exact Bool.and_comm ..

namespace Owned

variable [Entropy] {n m : Nat} {nodes : List BaseNode} {rungs : List Rung}

theorem mono (h : Owned n nodes rungs) (hnm : n ≤ m) : Owned m nodes rungs :=
  { h with
    nodesIssued := fun node hnode => (h.nodesIssued node hnode).mono hnm
    rungsIssued := fun rung hrung => (h.rungsIssued rung hrung).mono hnm
    branchesIssued := fun id hid => (h.branchesIssued id hid).mono hnm }

/-- A member of a rung is a node. -/
theorem node_of_member (h : Owned n nodes rungs) {rung : Rung} (hrung : rung ∈ rungs)
    (hid : id ∈ rung.members) : id ∈ nodes.map (·.id) := by
  have howner := (h.owner id).1 (mem_flatMap.2 ⟨rung, hrung, hid⟩)
  obtain ⟨node, hnode, _, rfl⟩ := mem_elementNodeIds.1 howner
  exact mem_map_of_mem hnode

theorem member_issued (h : Owned n nodes rungs) (hid : id ∈ rungs.flatMap Rung.members) : Issued n id := by
  obtain ⟨node, hnode, _, rfl⟩ := mem_elementNodeIds.1 ((h.owner id).1 hid)
  exact h.nodesIssued node hnode

/-- The types and the ids of the nodes are all that counts. -/
theorem of_tags (h : Owned n nodes rungs) {nodes' : List BaseNode} (htags : nodes'.map BaseNode.tag = nodes.map BaseNode.tag) :
    Owned n nodes' rungs := by
  have hids : nodes'.map (·.id) = nodes.map (·.id) := by
    have hfst := congrArg (List.map Prod.fst) htags
    rw [map_map, map_map] at hfst
    exact hfst
  have hnode : ∀ node' ∈ nodes', ∃ node ∈ nodes, node.tag = node'.tag := by
    intro node' hmem
    have htag : node'.tag ∈ nodes.map BaseNode.tag := htags ▸ mem_map_of_mem hmem
    exact mem_map.1 htag
  refine { h with nodeIds := ?_, nodesIssued := ?_, compared := ?_, owner := ?_ }
  · rw [hids]
    exact h.nodeIds
  · intro node' hmem
    obtain ⟨node, hmem, htag⟩ := hnode node' hmem
    have hid : node.id = node'.id := congrArg Prod.fst htag
    rw [← hid]
    exact h.nodesIssued node hmem
  · intro node' hmem
    obtain ⟨node, hmem, htag⟩ := hnode node' hmem
    have htext : node.kind.text = node'.kind.text := congrArg Prod.snd htag
    rw [NodeKind.isComparison_eq, ← htext, ← NodeKind.isComparison_eq]
    exact h.compared node hmem
  · intro id
    rw [elementNodeIds_eq, htags, ← elementNodeIds_eq]
    exact h.owner id

/-! ## One place for each element -/

omit [Entropy] in
/-- Lists that are distinct together have no element in common. -/
theorem disjoint_of_nodup_flatMap {α β : Type} {l : List α} {f : α → List β} (h : (l.flatMap f).Nodup) {x y : α}
    (hx : x ∈ l) (hy : y ∈ l) (hne : x ≠ y) : (f x).Disjoint (f y) := by
  have hsymm : Std.Symm (Function.onFun List.Disjoint f) :=
    ⟨fun _ _ hxy _ hb ha => hxy ha hb⟩
  exact (nodup_flatMap.1 h).2.forall hx hy hne

theorem same_rung (h : Owned n nodes rungs) (hr : r ∈ rungs) (hr' : r' ∈ rungs)
    (hid : id ∈ r.members) (hid' : id ∈ r'.members) : r = r' := by
  by_contra hne
  exact disjoint_of_nodup_flatMap h.members hr hr' hne hid hid'

theorem rung_of_id (h : Owned n nodes rungs) (hr : r ∈ rungs) (hr' : r' ∈ rungs) (hid : r.id = r'.id) :
    r = r' := inj_on_of_nodup_map h.rungIds hr hr' hid

/-- An element of a main row is in no branch. -/
theorem not_in_branch (h : Owned n nodes rungs) (hr : r ∈ rungs) (hr' : r' ∈ rungs)
    (hid : id ∈ r.elementIds) {b : ParallelBranch} (hb : b ∈ r'.branches) : id ∉ b.elementIds := by
  intro hmember
  have hmember : id ∈ r'.branches.flatMap (·.elementIds) := mem_flatMap.2 ⟨b, hb, hmember⟩
  have hsame := h.same_rung hr hr' (mem_append_left _ hid) (mem_append_right _ hmember)
  have hnodup : (r.elementIds ++ r.branches.flatMap (·.elementIds)).Nodup := (nodup_flatMap.1 h.members).1 r hr
  rw [← hsame] at hmember
  exact (disjoint_of_nodup_append hnodup) hid hmember

theorem same_branch (h : Owned n nodes rungs) (hr : r ∈ rungs) (hr' : r' ∈ rungs) {b b' : ParallelBranch}
    (hb : b ∈ r.branches) (hb' : b' ∈ r'.branches) (hid : id ∈ b.elementIds) (hid' : id ∈ b'.elementIds) :
    b = b' := by
  have hmember : id ∈ r.branches.flatMap (·.elementIds) := mem_flatMap.2 ⟨b, hb, hid⟩
  have hmember' : id ∈ r'.branches.flatMap (·.elementIds) := mem_flatMap.2 ⟨b', hb', hid'⟩
  have hsame := h.same_rung hr hr' (mem_append_right _ hmember) (mem_append_right _ hmember')
  subst hsame
  by_contra hne
  have hnodup : (r.elementIds ++ r.branches.flatMap (·.elementIds)).Nodup := (nodup_flatMap.1 h.members).1 r hr
  exact disjoint_of_nodup_flatMap hnodup.of_append_right hb hb' hne hid hid'

theorem branch_of_id (h : Owned n nodes rungs) (hr : r ∈ rungs) (hr' : r' ∈ rungs) {b b' : ParallelBranch}
    (hb : b ∈ r.branches) (hb' : b' ∈ r'.branches) (hid : b.id = b'.id) : b = b' := by
  have hnodup : ((rungs.flatMap (·.branches)).map (·.id)).Nodup := by
    rw [map_flatMap]
    exact h.branchIds
  exact inj_on_of_nodup_map hnodup (mem_flatMap.2 ⟨r, hr, hb⟩) (mem_flatMap.2 ⟨r', hr', hb'⟩) hid

/-! ## New elements -/

/-- What a rung with new elements and new branches has to satisfy. -/
structure Extends (n m : Nat) (rung updated : Rung) (newIds newBranches : List String) : Prop where
  sameId : updated.id = rung.id
  members : updated.members.Perm (newIds ++ rung.members)
  branches : updated.branchIds.Perm (newBranches ++ rung.branchIds)
  nodup : newBranches.Nodup
  fresh : ∀ id ∈ newBranches, IssuedBetween n m id
  anchors : ∀ b ∈ updated.branches, b.rungId = updated.id ∧ b.anchorId ∈ updated.elementIds

/-- **New elements in a rung.** -/
theorem insert (h : Owned n nodes rungs) (hnm : n ≤ m) (added : List BaseNode) (hnodup : (added.map (·.id)).Nodup)
    (hfresh : ∀ node ∈ added, IssuedBetween n m node.id)
    (hkind : ∀ node ∈ added, node.kind.isRail = false ∧ node.kind.isComparison = false) {rung updated : Rung}
    {newBranches : List String} (hfind : rungs.find? (·.id == updated.id) = some rung)
    (hext : Extends n m rung updated (added.map (·.id)) newBranches) :
    Owned m (nodes ++ added) (updateFirst (·.id == updated.id) (fun _ => updated) rungs) := by
  -- up to their order, the members and branches of all rungs are the old ones and the new ones
  have hmembers := flatMap_updateFirst_perm hfind (f := fun _ => updated) hext.members
  have hbranches := flatMap_updateFirst_perm hfind (f := fun _ => updated) hext.branches
  have hrungIds : (updateFirst (·.id == updated.id) (fun _ => updated) rungs).map (·.id) = rungs.map (·.id) := by
    apply map_updateFirst
    intro r _ hr
    exact (beq_iff_eq.1 hr).symm
  have helements : elementNodeIds added = added.map (·.id) := by
    unfold elementNodeIds
    rw [filter_eq_self.2]
    intro node hnode
    rw [(hkind node hnode).1]
    rfl
  have hnew : ∀ id ∈ added.map (·.id), IssuedBetween n m id := by
    intro id hid
    obtain ⟨node, hnode, rfl⟩ := mem_map.1 hid
    exact hfresh node hnode
  refine
    { nodeIds := ?_, nodesIssued := ?_, compared := ?_, rungIds := ?_, rungsIssued := ?_, branchIds := ?_,
      branchesIssued := ?_, members := ?_, owner := ?_, anchors := ?_ }
  -- a new id was not issued before
  · rw [map_append]
    apply List.Nodup.append h.nodeIds hnodup
    intro id hold hid
    obtain ⟨node, hnode, rfl⟩ := mem_map.1 hold
    exact (hnew _ hid).not_issued (h.nodesIssued node hnode)
  · intro node hnode
    rcases mem_append.1 hnode with hnode | hnode
    · exact (h.nodesIssued node hnode).mono hnm
    · exact (hfresh node hnode).issued
  · intro node hnode
    rcases mem_append.1 hnode with hnode | hnode
    · exact h.compared node hnode
    · exact (hkind node hnode).2
  · rw [hrungIds]
    exact h.rungIds
  · intro r hr
    have hid : r.id ∈ rungs.map (·.id) := hrungIds ▸ mem_map_of_mem hr
    obtain ⟨r', hr', hr'id⟩ := mem_map.1 hid
    rw [← hr'id]
    exact (h.rungsIssued r' hr').mono hnm
  · rw [hbranches.nodup_iff]
    apply List.Nodup.append hext.nodup h.branchIds
    intro id hid hold
    exact (hext.fresh id hid).not_issued (h.branchesIssued id hold)
  · intro id hid
    rcases mem_append.1 (hbranches.subset hid) with hid | hid
    · exact (hext.fresh id hid).issued
    · exact (h.branchesIssued id hid).mono hnm
  · rw [hmembers.nodup_iff]
    apply List.Nodup.append hnodup h.members
    intro id hid hold
    exact (hnew id hid).not_issued (h.member_issued hold)
  · intro id
    rw [hmembers.mem_iff, elementNodeIds_append, helements, mem_append, mem_append, h.owner id]
    exact or_comm
  · intro r hr b hb
    rcases mem_updateFirst hr with hr | ⟨_, _, _, rfl⟩
    · exact h.anchors r hr b hb
    · exact hext.anchors b hb

/-- A rung that changes its texts, or the order of its elements. -/
theorem updateRung (h : Owned n nodes rungs) {rung updated : Rung} (hfind : rungs.find? (·.id == updated.id) = some rung)
    (hid : updated.id = rung.id) (helements : updated.elementIds.Perm rung.elementIds)
    (hbranches : updated.branches = rung.branches) :
    Owned n nodes (updateFirst (·.id == updated.id) (fun _ => updated) rungs) := by
  have hrung := mem_of_find?_eq_some hfind
  rw [← List.append_nil nodes]
  apply h.insert (Nat.le_refl n) [] nodup_nil (fun _ hnode => absurd hnode not_mem_nil)
    (fun _ hnode => absurd hnode not_mem_nil) hfind
  refine ⟨hid, ?_, ?_, nodup_nil, fun _ hid => absurd hid not_mem_nil, ?_⟩
  · unfold Rung.members
    rw [hbranches]
    exact helements.append_right _
  · unfold Rung.branchIds
    rw [hbranches]
    exact List.Perm.refl _
  · intro b hb
    rw [hbranches] at hb
    obtain ⟨hb, hanchor⟩ := h.anchors rung hrung b hb
    exact ⟨hb.trans hid.symm, helements.mem_iff.2 hanchor⟩

/-! ## Elements taken out -/

/-- **Elements taken out** of the graph and of their places. -/
theorem remove (h : Owned n nodes rungs) {dropped : List String}
    (hrungs : (rungs'.map (·.id)).Sublist (rungs.map (·.id)))
    (hbranches : (rungs'.flatMap Rung.branchIds).Sublist (rungs.flatMap Rung.branchIds))
    (hmembers : rungs'.flatMap Rung.members = (rungs.flatMap Rung.members).filter fun id => !dropped.contains id)
    (hanchors : ∀ rung ∈ rungs', ∀ b ∈ rung.branches, b.rungId = rung.id ∧ b.anchorId ∈ rung.elementIds) :
    Owned n (nodes.filter fun node => !dropped.contains node.id) rungs' where
  nodeIds := (filter_sublist.map _).nodup h.nodeIds
  nodesIssued node hnode := h.nodesIssued node (mem_filter.1 hnode).1
  compared node hnode := h.compared node (mem_filter.1 hnode).1
  rungIds := hrungs.nodup h.rungIds
  rungsIssued rung hrung := by
    obtain ⟨r, hr, hid⟩ := mem_map.1 (hrungs.subset (mem_map_of_mem hrung))
    rw [← hid]
    exact h.rungsIssued r hr
  branchIds := hbranches.nodup h.branchIds
  branchesIssued id hid := h.branchesIssued id (hbranches.subset hid)
  members := by
    rw [hmembers]
    exact h.members.filter _
  owner id := by
    rw [hmembers, elementNodeIds_filter, mem_filter, mem_filter, h.owner id]
  anchors := hanchors

/-- What is left of a rung when elements are taken out. -/
structure Pruned (dropped : List String) (rung rung' : Rung) : Prop where
  sameId : rung'.id = rung.id
  branches : rung'.branchIds.Sublist rung.branchIds
  members : rung'.members = rung.members.filter fun id => !dropped.contains id
  anchors : ∀ b ∈ rung'.branches, b.rungId = rung'.id ∧ b.anchorId ∈ rung'.elementIds

/-- Elements taken out of each rung. -/
theorem prune (h : Owned n nodes rungs) {dropped : List String}
    (hpruned : List.Forall₂ (Pruned dropped) rungs rungs') :
    Owned n (nodes.filter fun node => !dropped.contains node.id) rungs' := by
  have hall : rungs'.map (·.id) = rungs.map (·.id) ∧
      (rungs'.flatMap Rung.branchIds).Sublist (rungs.flatMap Rung.branchIds) ∧
      rungs'.flatMap Rung.members = (rungs.flatMap Rung.members).filter (fun id => !dropped.contains id) ∧
      ∀ rung ∈ rungs', ∀ b ∈ rung.branches, b.rungId = rung.id ∧ b.anchorId ∈ rung.elementIds := by
    clear h
    induction hpruned with
    | nil => exact ⟨rfl, List.Sublist.refl _, rfl, fun _ hrung => absurd hrung not_mem_nil⟩
    | cons hfirst _ ih =>
      obtain ⟨hids, hbranches, hmembers, hanchors⟩ := ih
      refine ⟨?_, hfirst.branches.append hbranches, ?_, ?_⟩
      · rw [map_cons, map_cons, hids, hfirst.sameId]
      · rw [flatMap_cons, flatMap_cons, filter_append, hmembers, hfirst.members]
      · intro rung hrung
        rcases mem_cons.1 hrung with rfl | hrung
        · exact hfirst.anchors
        · exact hanchors rung hrung
  obtain ⟨hids, hbranches, hmembers, hanchors⟩ := hall
  apply h.remove _ hbranches hmembers hanchors
  rw [hids]

/-! ## Rungs and rails -/

theorem addRung (h : Owned n nodes rungs) (hnm : n ≤ m) {rung : Rung} (hfresh : IssuedBetween n m rung.id)
    (helements : rung.elementIds = []) (hbranches : rung.branches = []) : Owned m nodes (rungs ++ [rung]) := by
  have hmembers : (rungs ++ [rung]).flatMap Rung.members = rungs.flatMap Rung.members := by
    rw [flatMap_append, flatMap_singleton]
    unfold Rung.members
    rw [helements, hbranches]
    exact List.append_nil _
  have hbranchIds : (rungs ++ [rung]).flatMap Rung.branchIds = rungs.flatMap Rung.branchIds := by
    rw [flatMap_append, flatMap_singleton]
    unfold Rung.branchIds
    rw [hbranches]
    exact List.append_nil _
  have hold := h.mono hnm
  refine
    { hold with
      rungIds := ?_, rungsIssued := ?_, branchIds := ?_, branchesIssued := ?_, members := ?_, owner := ?_, anchors := ?_ }
  · rw [map_append]
    apply List.Nodup.append h.rungIds (nodup_singleton _)
    intro id hmem hid
    obtain ⟨r, hr, rfl⟩ := mem_map.1 hmem
    have hsame : r.id = rung.id := mem_singleton.1 hid
    rw [← hsame] at hfresh
    exact hfresh.not_issued (h.rungsIssued r hr)
  · intro r hr
    rcases mem_append.1 hr with hr | hr
    · exact hold.rungsIssued r hr
    · rw [mem_singleton.1 hr]
      exact hfresh.issued
  · rw [hbranchIds]
    exact h.branchIds
  · rw [hbranchIds]
    exact hold.branchesIssued
  · rw [hmembers]
    exact h.members
  · rw [hmembers]
    exact h.owner
  · intro r hr b hb
    rcases mem_append.1 hr with hr | hr
    · exact h.anchors r hr b hb
    · rw [mem_singleton.1 hr, hbranches] at hb
      exact absurd hb not_mem_nil

theorem addRail (h : Owned n nodes rungs) (hnm : n ≤ m) {rail : BaseNode} (hfresh : IssuedBetween n m rail.id)
    (hrail : rail.kind.isRail = true) : Owned m (nodes ++ [rail]) rungs := by
  have hold := h.mono hnm
  refine { hold with nodeIds := ?_, nodesIssued := ?_, compared := ?_, owner := ?_ }
  · rw [map_append]
    apply List.Nodup.append h.nodeIds (nodup_singleton _)
    intro id hmem hid
    obtain ⟨node, hnode, rfl⟩ := mem_map.1 hmem
    have hsame : node.id = rail.id := mem_singleton.1 hid
    rw [← hsame] at hfresh
    exact hfresh.not_issued (h.nodesIssued node hnode)
  · intro node hnode
    rcases mem_append.1 hnode with hnode | hnode
    · exact hold.nodesIssued node hnode
    · rw [mem_singleton.1 hnode]
      exact hfresh.issued
  · intro node hnode
    rcases mem_append.1 hnode with hnode | hnode
    · exact h.compared node hnode
    · rw [mem_singleton.1 hnode]
      cases hkind : rail.kind with
      | powerRail side => rfl
      | _ =>
        rw [hkind] at hrail
        cases hrail
  · intro id
    have hnone : elementNodeIds [rail] = [] := by
      unfold elementNodeIds
      rw [filter_singleton, hrail]
      rfl
    rw [elementNodeIds_append, hnone, List.append_nil]
    exact h.owner id

/-- The order of the rungs does not count. -/
theorem perm (h : Owned n nodes rungs) (hperm : rungs'.Perm rungs) : Owned n nodes rungs' :=
  { h with
    rungIds := (hperm.map _).nodup_iff.2 h.rungIds
    rungsIssued := fun rung hrung => h.rungsIssued rung (hperm.subset hrung)
    branchIds := (hperm.flatMap_right _).nodup_iff.2 h.branchIds
    branchesIssued := fun id hid => h.branchesIssued id ((hperm.flatMap_right _).subset hid)
    members := (hperm.flatMap_right _).nodup_iff.2 h.members
    owner := fun id => ((hperm.flatMap_right _).mem_iff).trans (h.owner id)
    anchors := fun rung hrung => h.anchors rung (hperm.subset hrung) }

end Owned

/-- What does not look at the number of a rung is the same. -/
theorem map_renumbered {β : Type} {f : Rung → β} (h : ∀ rung k, f { rung with rungNumber := k } = f rung)
    (rungs : List Rung) : (Session.renumbered rungs).map f = rungs.map f := by
  unfold Session.renumbered
  apply ext_getElem?
  intro i
  rw [getElem?_map, getElem?_map, getElem?_mapIdx, Option.map_map]
  cases rungs[i]? with
  | none => rfl
  | some rung => exact congrArg some (h rung (i + 1))

theorem mem_renumbered {rungs : List Rung} {rung : Rung} (h : rung ∈ Session.renumbered rungs) :
    ∃ r ∈ rungs, ∃ k, rung = { r with rungNumber := k } := by
  obtain ⟨i, hi, rfl⟩ := mem_mapIdx.1 h
  exact ⟨_, getElem_mem hi, i + 1, rfl⟩

theorem Owned.renumbered [Entropy] {n : Nat} {nodes : List BaseNode} {rungs : List Rung} (h : Owned n nodes rungs) :
    Owned n nodes (Session.renumbered rungs) := by
  have hids := map_renumbered (f := fun rung => rung.id) (fun _ _ => rfl) rungs
  have hbranches : (Session.renumbered rungs).flatMap Rung.branchIds = rungs.flatMap Rung.branchIds :=
    congrArg List.flatten (map_renumbered (f := Rung.branchIds) (fun _ _ => rfl) rungs)
  have hmembers : (Session.renumbered rungs).flatMap Rung.members = rungs.flatMap Rung.members :=
    congrArg List.flatten (map_renumbered (f := Rung.members) (fun _ _ => rfl) rungs)
  refine
    { h with
      rungIds := ?_, rungsIssued := ?_, branchIds := ?_, branchesIssued := ?_, members := ?_, owner := ?_, anchors := ?_ }
  · rw [hids]
    exact h.rungIds
  · intro rung hrung
    obtain ⟨r, hr, k, rfl⟩ := mem_renumbered hrung
    exact h.rungsIssued r hr
  · rw [hbranches]
    exact h.branchIds
  · rw [hbranches]
    exact h.branchesIssued
  · rw [hmembers]
    exact h.members
  · rw [hmembers]
    exact h.owner
  · intro rung hrung
    obtain ⟨r, hr, k, rfl⟩ := mem_renumbered hrung
    exact h.anchors r hr

end Audesys.LdEditor
