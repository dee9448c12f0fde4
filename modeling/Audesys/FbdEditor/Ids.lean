import Mathlib.Data.List.Nodup
import Audesys.FbdEditor.Operations

/-!
# `FbdEditor.Ids` — ids of nodes and wires

The counter of the ids starts over with every session and does not look at the graph that was loaded. Within a session
ids are distinct (`uniqueIds_of_built`); on a loaded graph they stay distinct exactly where no generated id is taken
(`uniqueIds_iff`).
-/

open List

namespace Audesys.FbdEditor

open Audesys.Lib Audesys.Editor

namespace FbdGraph

variable {op : Operation}
variable {s : Session} {nodeId : String}

def nodeIds (graph : FbdGraph) : List String := graph.nodes.map (·.id)
def edgeIds (graph : FbdGraph) : List String := graph.edges.map (·.id)

/-- All ids of nodes are distinct, and all ids of wires. -/
def UniqueIds (graph : FbdGraph) : Prop := graph.nodeIds.Nodup ∧ graph.edgeIds.Nodup

instance (graph : FbdGraph) : Decidable graph.UniqueIds := inferInstanceAs (Decidable (_ ∧ _))

theorem nodeIds_setNode (graph : FbdGraph) {node : BaseNode} (h : node.id = nodeId) :
    (graph.setNode nodeId node).nodeIds = graph.nodeIds := by
  apply map_updateFirst
  intro n _ hn
  exact h.trans (beq_iff_eq.1 hn).symm

end FbdGraph

theorem findNode_id {graph : FbdGraph} {node : BaseNode} (h : graph.findNode nodeId = some node) :
    node.id = nodeId ∧ node ∈ graph.nodes := by
  refine ⟨?_, mem_of_find?_eq_some h⟩
  have hid : (node.id == nodeId) = true := find?_some (p := fun n : BaseNode => n.id == nodeId) h
  exact beq_iff_eq.1 hid

/-! ## The ids of a step -/

variable [CaseMap]

/-- The id that an operation generates for a new node. -/
def newNodeId (s : Session) : Operation → Option String
  | .createGate .. => some (numberedId "gate" (s.nextId + 1))
  | .createFunctionBlock .. => some (numberedId "fb" (s.nextId + 1))
  | _ => none

/-- The id that an operation generates for a new wire. -/
def newEdgeId (s : Session) : Operation → Option String
  | .connectPins params => if s.Draws params then some (s.newEdge params).id else none
  | _ => none

/-- What a step makes of the ids: a new one of a node, a new one of a wire, or only old ones. -/
structure IdStep (s s' : Session) (node edge : Option String) : Prop where
  nodes : s'.graph.nodeIds.Sublist (s.graph.nodeIds ++ node.toList)
  edges : s'.graph.edgeIds.Sublist (s.graph.edgeIds ++ edge.toList)
  newNode : ∀ id ∈ node, s'.graph.nodeIds = s.graph.nodeIds ++ [id] ∧ s'.graph.edgeIds = s.graph.edgeIds
  newEdge : ∀ id ∈ edge, s'.graph.edgeIds = s.graph.edgeIds ++ [id] ∧ s'.graph.nodeIds = s.graph.nodeIds
  counter : s.nextId ≤ s'.nextId
  counted : node.isSome ∨ edge.isSome → s'.nextId = s.nextId + 1

section
omit [CaseMap]

theorem IdStep.kept {s s' : Session} (nodes : s'.graph.nodeIds.Sublist s.graph.nodeIds)
    (edges : s'.graph.edgeIds.Sublist s.graph.edgeIds) (counter : s.nextId ≤ s'.nextId) : IdStep s s' none none where
  nodes := by
    rw [Option.toList_none, List.append_nil]
    exact nodes
  edges := by
    rw [Option.toList_none, List.append_nil]
    exact edges
  newNode id hid := by cases hid
  newEdge id hid := by cases hid
  counter := counter
  counted h := by
    rcases h with h | h
    · cases h
    · cases h

theorem IdStep.refl (s : Session) : IdStep s s none none :=
  .kept (List.Sublist.refl _) (List.Sublist.refl _) (Nat.le_refl _)

theorem IdStep.addNode {s s' : Session} {id : String} (nodes : s'.graph.nodeIds = s.graph.nodeIds ++ [id])
    (edges : s'.graph.edgeIds = s.graph.edgeIds) (counter : s'.nextId = s.nextId + 1) : IdStep s s' (some id) none where
  nodes := by
    rw [nodes]
    exact List.Sublist.refl _
  edges := by
    rw [edges, Option.toList_none, List.append_nil]
  newNode id hid := by
    cases hid
    exact ⟨nodes, edges⟩
  newEdge id hid := by cases hid
  counter := by omega
  counted _ := counter

theorem IdStep.addEdge {s s' : Session} {id : String} (edges : s'.graph.edgeIds = s.graph.edgeIds ++ [id])
    (nodes : s'.graph.nodeIds = s.graph.nodeIds) (counter : s'.nextId = s.nextId + 1) : IdStep s s' none (some id) where
  nodes := by
    rw [nodes, Option.toList_none, List.append_nil]
  edges := by
    rw [edges]
    exact List.Sublist.refl _
  newNode id hid := by cases hid
  newEdge id hid := by
    cases hid
    exact ⟨edges, nodes⟩
  counter := by omega
  counted _ := counter

/-- A new definition for a node has the old id. -/
theorem IdStep.replaced (s : Session) (node : BaseNode) (h : node.id = nodeId) {n : Nat}
    {edges : List BaseEdge} (hedges : edges.Sublist s.graph.edges) (hn : s.nextId ≤ n) :
    IdStep s ⟨n, { s.graph.setNode nodeId node with edges }⟩ none none := by
  apply IdStep.kept
  · show (s.graph.setNode nodeId node).nodeIds.Sublist _
    rw [s.graph.nodeIds_setNode h]
  · exact hedges.map _
  · exact hn

end

/-- **The ids of a step.** -/
theorem step_ids (s : Session) (op : Operation) : IdStep s (s.step op) (newNodeId s op) (newEdgeId s op) := by
  cases op with
  | createGate gateType position =>
    apply IdStep.addNode
    · show List.map _ (_ ++ [_]) = _
      rw [map_append]
      rfl
    · rfl
    · rfl
  | createFunctionBlock fbType position =>
    apply IdStep.addNode
    · show List.map _ (_ ++ [_]) = _
      rw [map_append]
      rfl
    · rfl
    · rfl
  | deleteElement elementId =>
    cases hfind : s.graph.findNode elementId with
    | none =>
      rw [Session.step_deleteElement_none hfind]
      exact .refl s
    | some node =>
      rw [Session.step_deleteElement hfind]
      exact .kept (filter_sublist.map _) (filter_sublist.map _) (Nat.le_refl _)
  | connectPins params =>
    rw [Session.step_connectPins]
    unfold newNodeId newEdgeId
    dsimp only
    -- an id is generated only if the wire is drawn
    by_cases hdraws : s.Draws params = true
    · rw [if_pos hdraws, if_pos hdraws]
      apply IdStep.addEdge
      · show List.map _ (_ ++ [_]) = _
        rw [map_append]
        rfl
      · rfl
      · rfl
    · rw [if_neg hdraws, if_neg hdraws]
      exact .refl s
  | disconnectPin nodeId portName =>
    cases hfind : s.graph.findNode nodeId with
    | none =>
      rw [Session.step_disconnectPin_none hfind]
      exact .refl s
    | some node =>
      rw [Session.step_disconnectPin hfind]
      exact .kept (List.Sublist.refl _) (filter_sublist.map _) (Nat.le_refl _)
  | moveElement elementId newPosition =>
    cases hfind : s.graph.findNode elementId with
    | none =>
      rw [Session.step_moveElement_none hfind]
      exact .refl s
    | some node =>
      rw [Session.step_moveElement hfind]
      have hid := (findNode_id hfind).1
      exact .replaced s { node with position := snapToGrid newPosition } hid (List.Sublist.refl _)
        (Nat.le_refl _)
  | changeGateType elementId newGateType =>
    -- the node is a new one under the old id
    by_cases hother : ∃ node, s.OtherGate elementId newGateType node
    · obtain ⟨node, hother⟩ := hother
      rw [Session.step_changeGateType hother]
      exact .replaced s (createGate elementId newGateType node.position) rfl (List.Sublist.refl _)
        (Nat.le_succ _)
    · rw [Session.step_changeGateType_none (not_exists.1 hother)]
      exact .refl s
  | changeFbType fbId newFbType =>
    by_cases hother : ∃ node, s.OtherFb fbId newFbType node
    · obtain ⟨node, hother⟩ := hother
      rw [Session.step_changeFbType hother]
      exact .replaced s (createFbWithPins fbId newFbType node.position) rfl filter_sublist
        (Nat.le_succ _)
    · rw [Session.step_changeFbType_none (not_exists.1 hother)]
      exact .refl s

/-! ## Distinct ids -/

/-- The ids that an operation generates are not taken. -/
def FreshIds (s : Session) (op : Operation) : Prop :=
  (∀ id ∈ newNodeId s op, id ∉ s.graph.nodeIds) ∧ ∀ id ∈ newEdgeId s op, id ∉ s.graph.edgeIds

omit [CaseMap] in
theorem nodup_snoc {α : Type} {ids : List α} {id : α} : (ids ++ [id]).Nodup ↔ id ∉ ids ∧ ids.Nodup := by
  rw [← concat_eq_append, nodup_concat]

/-- A step with fresh ids keeps ids distinct. -/
theorem UniqueIds.step (h : s.graph.UniqueIds) (hfresh : FreshIds s op) : (s.step op).graph.UniqueIds := by
  have hids := step_ids s op
  obtain ⟨hnode, hedge⟩ := hfresh
  constructor
  · cases hnew : newNodeId s op with
    | none =>
      rw [hnew] at hids
      have hsub := hids.nodes
      rw [Option.toList_none, List.append_nil] at hsub
      exact hsub.nodup h.1
    | some id =>
      rw [hnew] at hids
      rw [(hids.newNode id rfl).1]
      exact nodup_snoc.2 ⟨hnode id hnew, h.1⟩
  · cases hnew : newEdgeId s op with
    | none =>
      rw [hnew] at hids
      have hsub := hids.edges
      rw [Option.toList_none, List.append_nil] at hsub
      exact hsub.nodup h.2
    | some id =>
      rw [hnew] at hids
      rw [(hids.newEdge id rfl).1]
      exact nodup_snoc.2 ⟨hedge id hnew, h.2⟩

/-- A step with an id that is taken does not. -/
theorem freshIds_of_uniqueIds (h : (s.step op).graph.UniqueIds) : FreshIds s op := by
  have hids := step_ids s op
  constructor
  · intro id hid
    have hnodes := h.1
    rw [(hids.newNode id hid).1] at hnodes
    exact (nodup_snoc.1 hnodes).1
  · intro id hid
    have hedges := h.2
    rw [(hids.newEdge id hid).1] at hedges
    exact (nodup_snoc.1 hedges).1

/-! ## One session -/

/-- Generated in the session, as one of the first `n` ids. -/
def Issued (n : Nat) (id : String) : Prop := ∃ kind k, Plain kind ∧ k ≤ n ∧ id = numberedId kind k

omit [CaseMap] in
theorem Issued.mono {n m : Nat} {id : String} (h : Issued n id) (hle : n ≤ m) : Issued m id := by
  obtain ⟨kind, k, hkind, hk, rfl⟩ := h
  exact ⟨kind, k, hkind, Nat.le_trans hk hle, rfl⟩

omit [CaseMap] in
theorem not_issued_next {n : Nat} {kind : String} (h : Plain kind) : ¬ Issued n (numberedId kind (n + 1)) := by
  rintro ⟨kind', k, hkind', hk, heq⟩
  have hn := (numberedId_inj h hkind' heq).2
  omega

/-- What a session has built from the empty graph: distinct ids, all of them generated in it. -/
structure OwnIds (s : Session) : Prop where
  unique : s.graph.UniqueIds
  nodes : ∀ id ∈ s.graph.nodeIds, Issued s.nextId id
  edges : ∀ id ∈ s.graph.edgeIds, Issued s.nextId id

omit [CaseMap] in
theorem newNodeId_eq {id : String} (h : newNodeId s op = some id) :
    ∃ kind, Plain kind ∧ id = numberedId kind (s.nextId + 1) := by
  cases op with
  | createGate gateType position =>
    cases h
    exact ⟨_, by decide, rfl⟩
  | createFunctionBlock fbType position =>
    cases h
    exact ⟨_, by decide, rfl⟩
  | _ => cases h

omit [CaseMap] in
theorem newEdgeId_eq {id : String} (h : newEdgeId s op = some id) :
    ∃ kind, Plain kind ∧ id = numberedId kind (s.nextId + 1) := by
  cases op with
  | connectPins params =>
    unfold newEdgeId at h
    dsimp only at h
    split at h
    · cases h
      exact ⟨_, by decide, rfl⟩
    · cases h
  | _ => cases h

namespace OwnIds

variable {s : Session}

omit [CaseMap] in
theorem fresh (h : OwnIds s) (op : Operation) : FreshIds s op := by
  constructor
  · intro id hid hmem
    obtain ⟨kind, hkind, rfl⟩ := newNodeId_eq hid
    exact not_issued_next hkind (h.nodes _ hmem)
  · intro id hid hmem
    obtain ⟨kind, hkind, rfl⟩ := newEdgeId_eq hid
    exact not_issued_next hkind (h.edges _ hmem)

theorem step (h : OwnIds s) (op : Operation) : OwnIds (s.step op) := by
  have hids := step_ids s op
  have hissued : ∀ {id kind : String}, Plain kind → id = numberedId kind (s.nextId + 1) →
      (newNodeId s op).isSome ∨ (newEdgeId s op).isSome → Issued (s.step op).nextId id := by
    rintro id kind hkind rfl hsome
    exact ⟨kind, s.nextId + 1, hkind, by rw [hids.counted hsome], rfl⟩
  refine ⟨UniqueIds.step h.unique (h.fresh op), ?_, ?_⟩
  · intro id hid
    rcases mem_append.1 (hids.nodes.subset hid) with hid | hid
    · exact (h.nodes id hid).mono hids.counter
    · rw [Option.mem_toList] at hid
      obtain ⟨kind, hkind, heq⟩ := newNodeId_eq hid
      exact hissued hkind heq (Or.inl (Option.isSome_of_mem hid))
  · intro id hid
    rcases mem_append.1 (hids.edges.subset hid) with hid | hid
    · exact (h.edges id hid).mono hids.counter
    · rw [Option.mem_toList] at hid
      obtain ⟨kind, hkind, heq⟩ := newEdgeId_eq hid
      exact hissued hkind heq (Or.inr (Option.isSome_of_mem hid))

end OwnIds

/-- An empty graph. -/
def emptyGraph (id : String) : FbdGraph := ⟨id, [], []⟩

omit [CaseMap] in
theorem ownIds_empty (n : Nat) (id : String) : OwnIds ⟨n, emptyGraph id⟩ where
  unique := ⟨nodup_nil, nodup_nil⟩
  nodes id hid := by cases hid
  edges id hid := by cases hid

/-- A graph that a session has built from an empty graph. -/
def Built (graph : FbdGraph) : Prop :=
  ∃ (n : Nat) (id : String) (ops : List Operation), (ops.foldl Session.step ⟨n, emptyGraph id⟩).graph = graph

theorem uniqueIds_of_built {graph : FbdGraph} (h : Built graph) : graph.UniqueIds := by
  obtain ⟨n, id, ops, rfl⟩ := h
  have halways : Always Session.step OwnIds ⟨n, emptyGraph id⟩ ops :=
    .of_keep (fun s op h => h.step op) (ownIds_empty n id) ops
  exact (halways ops (prefix_refl ops)).unique

/-- **Ids across sessions.** On a graph that an earlier session built, ids stay distinct exactly where no operation
generates an id that the graph has. -/
theorem uniqueIds_iff {graph : FbdGraph} (h : Built graph) (ops : List Operation) :
    Always Session.step (fun s => s.graph.UniqueIds) ⟨0, graph⟩ ops ↔
      EveryStep Session.step FreshIds ⟨0, graph⟩ ops := by
  apply always_iff (I := fun s => s.graph.UniqueIds)
  · exact fun _ h => h
  · exact fun _ _ h hfresh => UniqueIds.step h hfresh
  · exact fun _ _ _ h => freshIds_of_uniqueIds h
  · exact uniqueIds_of_built h

end Audesys.FbdEditor

/-! ## Loading a graph -/

namespace Audesys.FbdEditor

open Audesys.Lib

local instance asciiIds : CaseMap := .ascii

/-- The graph of a session that created one gate. -/
def savedGraph : FbdGraph :=
  ((⟨0, emptyGraph "graph"⟩ : Session).step (.createGate .and ⟨0, 0⟩)).graph

theorem built_savedGraph : Built savedGraph := ⟨0, "graph", [.createGate .and ⟨0, 0⟩], rfl⟩

/-- A function block in the next session has an id of its own. -/
theorem uniqueIds_function_block :
    Always Session.step (fun s => s.graph.UniqueIds) ⟨0, savedGraph⟩ [.createFunctionBlock "TON" ⟨0, 0⟩] := by
  rw [uniqueIds_iff built_savedGraph, everyStep_singleton]
  constructor
  · intro id hid
    cases hid
    decide +kernel
  · intro id hid
    cases hid

/-- The first gate of the next session has the id of the one that was saved. -/
theorem uniqueIds_fail : Built savedGraph ∧
    ¬ Always Session.step (fun s => s.graph.UniqueIds) ⟨0, savedGraph⟩ [.createGate .or ⟨200, 0⟩] := by
  refine ⟨built_savedGraph, ?_⟩
  intro h
  have hunique := h [.createGate .or ⟨200, 0⟩] (prefix_refl _)
  revert hunique
  decide +kernel

end Audesys.FbdEditor
