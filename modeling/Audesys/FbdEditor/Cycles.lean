import Audesys.FbdEditor.Il
import Audesys.Lib.DepthFirst

/-!
# `FbdEditor.Cycles` — cycles, and what the sort leaves out

`detectCycles` searches the graph depth first, the code generator sorts it by counting wires, and drops what it cannot
sort. Both see the same: a cycle is reported exactly where a node is left out (`cycles_agree`).
-/

open List

namespace Audesys.FbdEditor

open Audesys.Lib

namespace FbdGraph

/-! ## Both algorithms -/

/-- The ends of the wires out of a node. -/
def successors (graph : FbdGraph) (nodeId : String) : List String :=
  if graph.nodes.any (·.id == nodeId) then (graph.edges.filter (·.sourceId == nodeId)).map (·.targetId) else []

/-- `detectCycles`; `none` if the fuel is out. -/
def detectCycles (graph : FbdGraph) : Option (List (List String)) :=
  let ids := graph.nodes.map (·.id)
  (DepthFirst.detect graph.successors (ids.map (DepthFirst.weight graph.successors)).sum ids .init).map (·.cycles)

/-- The nodes that `convertGraphToIl` emits, in its order. -/
def sorted (graph : FbdGraph) : Option (List BaseNode) := graph.sortedIds.map fun ids => ids.filterMap graph.nodeById

/-- A walk along wires that comes back to where it starts. -/
structure IsCycle (graph : FbdGraph) (c : List String) : Prop where
  length : 2 ≤ c.length
  closed : c.head? = c.getLast?
  wires : c.IsChain fun u v => ∃ e ∈ graph.edges, e.sourceId = u ∧ e.targetId = v

variable {graph : FbdGraph}

theorem mem_successors {u v : String} (hu : u ∈ graph.nodes.map (·.id)) :
    v ∈ graph.successors u ↔ graph.flow.Edge u v := by
  have hany : graph.nodes.any (·.id == u) = true := by
    obtain ⟨n, hn, rfl⟩ := mem_map.1 hu
    exact any_eq_true.2 ⟨n, hn, beq_self_eq_true _⟩
  unfold successors
  rw [if_pos hany, mem_map]
  constructor
  · rintro ⟨e, he, rfl⟩
    obtain ⟨hedge, hsrc⟩ := mem_filter.1 he
    exact ⟨e, hedge, beq_iff_eq.1 hsrc, rfl⟩
  · rintro ⟨e, he, hsrc, rfl⟩
    exact ⟨e, mem_filter.2 ⟨he, beq_iff_eq.2 hsrc⟩, rfl⟩

/-- Nodes without successors are none of the graph's, so every successor is the end of a wire. -/
theorem edge_of_mem_successors {u v : String} (h : v ∈ graph.successors u) : graph.flow.Edge u v := by
  by_cases hu : u ∈ graph.nodes.map (·.id)
  · exact (mem_successors hu).1 h
  · have hany : ¬ graph.nodes.any (·.id == u) = true := by
      intro hany
      obtain ⟨n, hn, heq⟩ := any_eq_true.1 hany
      exact hu (mem_map.2 ⟨n, hn, beq_iff_eq.1 heq⟩)
    unfold successors at h
    rw [if_neg hany] at h
    cases h

/-! ## Cycles and orders -/

/-- What the search reports is a cycle of wires. -/
theorem isCycle_of_closedWalk {c : List String} (h : DepthFirst.ClosedWalk graph.successors c) : graph.IsCycle c :=
  ⟨h.length, h.closed, h.edges.imp fun _ _ => edge_of_mem_successors⟩

/-- With a cycle the graph is not acyclic. -/
theorem IsCycle.not_acyclic {c : List String} (h : graph.IsCycle c) : ¬ graph.flow.Acyclic := by
  intro hacyclic
  obtain ⟨hlen, hclosed, hwires⟩ := h
  match c, hlen with
  | u :: v :: rest, _ =>
    have hsteps : (u :: v :: rest).IsChain (Relation.TransGen graph.flow.Edge) := hwires.imp fun _ _ => .single
    have hpairs := (pairwise_cons.1 (isChain_iff_pairwise.1 hsteps)).1
    -- the last node is the first
    rw [head?_cons, getLast?_cons_cons] at hclosed
    exact hacyclic u (hpairs u (mem_of_getLast? hclosed.symm))

/-- An order of the nodes in which no wire goes back. -/
theorem acyclic_of_idxOf (order : List String)
    (h : ∀ e ∈ graph.edges, order.idxOf e.sourceId < order.idxOf e.targetId) : graph.flow.Acyclic :=
  @FlowGraph.acyclic_of_rank _ _ graph.flow (fun id => order.idxOf id) h

/-- **Without cycles reported** the graph is acyclic. -/
theorem Joined.acyclic_of_left (h : graph.Joined) {done : List String} (hleft : DepthFirst.Left graph.successors done)
    (hall : ∀ id ∈ graph.nodes.map (·.id), id ∈ done) : graph.flow.Acyclic := by
  apply acyclic_of_idxOf done
  intro e he
  exact hleft.idxOf_lt (hall _ (h.sources e he)) ((mem_successors (h.sources e he)).2 ⟨e, he, rfl, rfl⟩)

/-- **Where the sort takes every node** the graph is acyclic. -/
theorem Joined.acyclic_of_kahn (h : graph.Joined) {ids : List String} {deg : String → Nat}
    (hdone : FlowGraph.KahnInv graph.flow graph.roots [] deg ids) (hall : ∀ id ∈ graph.nodes.map (·.id), id ∈ ids) :
    graph.flow.Acyclic := by
  apply acyclic_of_idxOf ids
  intro e he
  obtain ⟨pre, post, rfl⟩ := append_of_mem (hall _ (h.targets e he))
  have hsrc := sources_of_kahn hdone rfl e he rfl
  have hnew : e.targetId ∉ pre := fun hin =>
    (nodup_append.1 (nodup_of_kahn hdone)).2.2 _ hin _ (mem_cons_self ..) rfl
  rw [idxOf_append_of_mem hsrc, idxOf_append_of_notMem hnew]
  exact Nat.lt_add_right _ (idxOf_lt_length_of_mem hsrc)

/-! ## Agreement -/

/-- A node is sorted if its id is. -/
theorem Joined.mem_sorted (h : graph.Joined) {ids : List String} (hids : ∀ id ∈ ids, id ∈ graph.nodes.map (·.id))
    {node : BaseNode} (hnode : node ∈ graph.nodes) : node ∈ ids.filterMap graph.nodeById ↔ node.id ∈ ids := by
  constructor
  · intro hin
    rw [← (h.filterMap_nodeById hids).1]
    exact mem_map_of_mem hin
  · intro hid
    exact mem_filterMap.2 ⟨node.id, hid, h.nodeById hnode⟩

/-- **The two algorithms agree.** Both come to an end; a cycle is reported exactly if some node is left out, what is
reported are cycles of wires, and if nothing is, every node is sorted once, behind the sources of its wires. -/
theorem Joined.cycles_agree (h : graph.Joined) : ∃ cycles sorted, graph.detectCycles = some cycles ∧
    graph.sorted = some sorted ∧ (cycles ≠ [] ↔ ∃ node ∈ graph.nodes, node ∉ sorted) ∧
    (∀ c ∈ cycles, graph.IsCycle c) ∧
    (cycles = [] → sorted.Perm graph.nodes ∧ ∀ pre node post, sorted = pre ++ node :: post →
      ∀ e ∈ graph.edges, e.targetId = node.id → ∃ source ∈ pre, source.id = e.sourceId) := by
  have hadj : ∀ u ∈ graph.nodes.map (·.id), ∀ v ∈ graph.successors u, v ∈ graph.nodes.map (·.id) := by
    intro u _ v hv
    obtain ⟨e, he, _, rfl⟩ := edge_of_mem_successors hv
    exact h.targets e he
  obtain ⟨s, hdetect, hwalks, hleft⟩ := DepthFirst.detect_spec h.nodes hadj
  obtain ⟨ids, deg, hids, hdone⟩ := h.kahn
  have hmem : ∀ id ∈ ids, id ∈ graph.nodes.map (·.id) := fun id hid => h.mem_of_kahn hdone hid
  obtain ⟨hmap, hnodes⟩ := h.filterMap_nodeById hmem
  have hcycles : ∀ c ∈ s.cycles, graph.IsCycle c := fun c hc => isCycle_of_closedWalk (hwalks c hc)
  -- without a cycle everything is taken
  have hall : s.cycles = [] → ∀ id ∈ graph.nodes.map (·.id), id ∈ ids := by
    intro hnone id hid
    obtain ⟨done, hdoneLeft, hin⟩ := hleft hnone
    obtain ⟨ids', hids', _, htaken, _⟩ := h.sortedIds (h.acyclic_of_left hdoneLeft hin)
    rw [hids, Option.some.injEq] at hids'
    subst hids'
    exact (htaken id).2 hid
  refine ⟨s.cycles, ids.filterMap graph.nodeById, ?_, ?_, ?_, hcycles, ?_⟩
  · unfold detectCycles
    dsimp only
    rw [hdetect]
    rfl
  · unfold sorted
    rw [hids]
    rfl
  · constructor
    · intro hsome
      obtain ⟨c, hc⟩ := exists_mem_of_ne_nil _ hsome
      by_contra hnone
      refine (hcycles c hc).not_acyclic (h.acyclic_of_kahn hdone ?_)
      intro id hid
      obtain ⟨node, hnode, rfl⟩ := mem_map.1 hid
      rw [← h.mem_sorted hmem hnode]
      by_contra hout
      exact hnone ⟨node, hnode, hout⟩
    · rintro ⟨node, hnode, hout⟩ hnone
      rw [h.mem_sorted hmem hnode] at hout
      exact hout (hall hnone node.id (mem_map_of_mem hnode))
  · intro hnone
    constructor
    · have hnodup : (ids.filterMap graph.nodeById).Nodup := by
        apply List.Nodup.of_map (·.id)
        rw [hmap]
        exact nodup_of_kahn hdone
      rw [perm_ext_iff_of_nodup hnodup (List.Nodup.of_map _ h.nodes)]
      intro node
      refine ⟨hnodes node, fun hnode => ?_⟩
      rw [h.mem_sorted hmem hnode]
      exact hall hnone node.id (mem_map_of_mem hnode)
    · intro pre node post heq e he htgt
      have hsplit : ids = pre.map (·.id) ++ node.id :: post.map (·.id) := by
        rw [← hmap, heq, map_append, map_cons]
      exact mem_map.1 (sources_of_kahn hdone hsplit e he htgt)

end FbdGraph

/-! ## A latch -/

/-- An OR gate with its own output on one pin, and a NOT gate on the other one, by two wires. -/
def latch : FbdGraph :=
  { id := "latch"
    nodes := [createGate "set" .not ⟨0, 0⟩, createGate "hold" .or ⟨80, 0⟩]
    edges := [⟨"w1", "hold", "OUT", "hold", "IN1"⟩, ⟨"w2", "set", "OUT", "hold", "IN2"⟩,
      ⟨"w3", "set", "OUT", "hold", "IN2"⟩] }

theorem latch_agrees : ∃ cycles sorted, latch.detectCycles = some cycles ∧ latch.sorted = some sorted ∧
    (cycles ≠ [] ↔ ∃ node ∈ latch.nodes, node ∉ sorted) := by
  have hjoined : latch.Joined := ⟨by decide, by decide, by decide⟩
  obtain ⟨cycles, sorted, hcycles, hsorted, hiff, _, _⟩ := hjoined.cycles_agree
  exact ⟨cycles, sorted, hcycles, hsorted, hiff⟩

-- the loop of the gate is reported, and the gate is dropped
example : latch.detectCycles = some [["hold", "hold"]] ∧
    latch.sorted.map (·.map (·.id)) = some ["set"] := by decide +kernel

end Audesys.FbdEditor
