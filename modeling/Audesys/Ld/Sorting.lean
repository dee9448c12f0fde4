import Audesys.Lib.Refed
import Audesys.Ld.PowerFlow

/-!
# `Ld.Sorting` — where `rebuild_topo` ends

The sort of any network that `add_node`, `add_edge` and `set_left_rail` put together, cycles and edges into the left
rail included. Cycles beside the rail do no harm: their nodes are left out. But a rail all of whose edges come from
nodes of the order is pushed again when the last of them is counted off, its successors are pushed again because their
counts stay at zero, and the sort does not end (`sortsOnce_iff`).
-/

namespace Audesys.Ld

open Audesys.Lib

namespace ContactNetwork

variable {net : ContactNetwork}

/-- The networks put together from nodes, edges between existing nodes, and any left rail. -/
inductive Assembled : ContactNetwork → Prop
  | new : Assembled .new
  | addNode {net : ContactNetwork} : Assembled net → Assembled net.addNode.2
  | addEdge {net net' : ContactNetwork} {source target : NodeId} {contact : Contact} :
      Assembled net → target < net.nodes → net.addEdge source target contact = some net' → Assembled net'
  | setLeftRail {net : ContactNetwork} {node : NodeId} : Assembled net → Assembled (net.setLeftRail node)

/-- `rebuild_topo` ends, with each node at most once in its order. -/
def SortsOnce (net : ContactNetwork) : Prop := ∃ fuel net', net.rebuildTopo fuel = some net' ∧ net'.topoOrder.Nodup

/-- The network without its left rail. -/
def unrailed (net : ContactNetwork) : ContactNetwork := { net with leftRail := none }

theorem addEdge_unrailed {net net' : ContactNetwork} {source target : NodeId} {contact : Contact}
    (h : net.addEdge source target contact = some net') : net.unrailed.addEdge source target contact = some net'.unrailed := by
  unfold ContactNetwork.addEdge at h ⊢
  split at h
  · rename_i hsource
    cases h
    exact if_pos hsource
  · cases h

/-- But for a rail that is no node, the network has the shape of those built from the ids of `add_node`. -/
theorem Assembled.formed_unrailed (h : Assembled net) : Formed net.unrailed := by
  induction h with
  | new => exact .new
  | addNode _ ih => exact ih.addNode
  | addEdge _ htarget hadd ih => exact ih.addEdge htarget (addEdge_unrailed hadd)
  | setLeftRail _ ih => exact ih

theorem Assembled.formed (h : Assembled net) (hrail : ∀ lr, net.leftRail = some lr → lr < net.nodes) :
    Formed net where
  length_outgoing := h.formed_unrailed.length_outgoing
  index_lt := h.formed_unrailed.index_lt
  outgoingEdges_eq := h.formed_unrailed.outgoingEdges_eq
  target_lt := h.formed_unrailed.target_lt
  rail_lt := hrail
  clean := h.formed_unrailed.clean

/-- The rail, where one is set, is a node that not all of its edges reach from the order. -/
def RailOnce (net : ContactNetwork) : Prop :=
  ∀ rail, net.leftRail = some rail → rail < net.nodes ∧
    ((∃ e ∈ net.edges, e.target = rail) → ∃ e ∈ net.edges, e.target = rail ∧ ¬ net.graph.Fed [rail] e.source)

theorem unfed_seeds (h : net.RailOnce) : net.graph.Unfed net.seeds := by
  unfold seeds
  split
  · rename_i rail hrail
    intro r hr hin
    rw [List.mem_singleton] at hr
    subst hr
    exact (h r hrail).2 hin
  · intro r hr hin
    -- a node without edges into it
    rw [List.mem_reverse, List.mem_filter, inDegree_eq, decide_eq_true_eq, FlowGraph.remaining_eq_zero] at hr
    obtain ⟨e, he, htgt⟩ := hin
    cases hr.2 e he htgt

/-- **Enough** for the sort to end. -/
theorem Formed.sortsOnce (h : Formed net) (honce : net.RailOnce) : net.SortsOnce := by
  have hlen : (List.range net.nodes).length ≤ net.nodes := Nat.le_of_eq List.length_range
  obtain ⟨order, hloop, hnodup⟩ := FlowGraph.orderLoop_total (unfed_seeds honce)
    (fun n hn => List.mem_range.2 (h.seeds_lt n hn)) (fun e he => List.mem_range.2 (h.target_lt e he)) hlen net.nodup_seeds
  refine ⟨net.nodes, { net with topoOrder := order, dirty := false }, ?_, hnodup⟩
  unfold ContactNetwork.rebuildTopo
  rw [if_pos h.inBounds, h.loop_eq, hloop]
  rfl

/-- A rail that is no node is out of bounds. -/
theorem rebuildTopo_none_of_rail {rail : NodeId} (hrail : net.leftRail = some rail)
    (hge : net.nodes ≤ rail) (fuel : Nat) : net.rebuildTopo fuel = none := by
  have hseeds : net.seeds = [rail] := by
    unfold seeds
    rw [hrail]
  have hbounds : net.inBounds = false := by
    unfold inBounds
    rw [hseeds, List.all_cons, decide_eq_false (Nat.not_lt.2 hge), Bool.false_and, Bool.and_false]
  unfold rebuildTopo
  rw [hbounds]
  rfl

/-- A rail that is fed again keeps the loop going. -/
theorem Formed.rebuildTopo_none (h : Formed net) {rail : NodeId} (hrail : net.leftRail = some rail)
    (hin : ∃ e ∈ net.edges, e.target = rail) (hall : ∀ e ∈ net.edges, e.target = rail → net.graph.Fed [rail] e.source)
    (fuel : Nat) : net.rebuildTopo fuel = none := by
  have hseeds : net.seeds = [rail] := by
    unfold seeds
    rw [hrail]
  unfold ContactNetwork.rebuildTopo
  rw [if_pos h.inBounds, h.loop_eq, hseeds, FlowGraph.orderLoop_none hall hin fuel]
  rfl

/-- **Where the sort ends**: if no rail is set, or the rail is a node with no edge into it, or with an edge from a node
that the sort leaves out. -/
theorem sortsOnce_iff {net : ContactNetwork} (h : net.Assembled) : net.SortsOnce ↔ net.RailOnce := by
  constructor
  · rintro ⟨fuel, net', hsort, _⟩
    have hlt : ∀ rail, net.leftRail = some rail → rail < net.nodes := by
      intro rail hrail
      by_contra hge
      rw [rebuildTopo_none_of_rail hrail (Nat.not_lt.1 hge)] at hsort
      cases hsort
    intro rail hrail
    refine ⟨hlt rail hrail, fun hin => ?_⟩
    by_contra hnot
    have hall : ∀ e ∈ net.edges, e.target = rail → net.graph.Fed [rail] e.source := by
      intro e he htgt
      by_contra hfed
      exact hnot ⟨e, he, htgt, hfed⟩
    rw [(h.formed hlt).rebuildTopo_none hrail hin hall] at hsort
    cases hsort
  · intro honce
    exact (h.formed fun rail hrail => (honce rail hrail).1).sortsOnce honce

/-- A rail with an edge from a node that nothing leads to. -/
def backfedNetwork : ContactNetwork :=
  ⟨3, [⟨0, 1, .no "x"⟩, ⟨2, 0, .no "y"⟩], some 0, none, [[0], [], [1]], [], true⟩

theorem backfedNetwork_assembled : backfedNetwork.Assembled := by
  have rail : Assembled ⟨3, [], some 0, none, [[], [], []], [], true⟩ :=
    .setLeftRail (.addNode (.addNode (.addNode .new)))
  have first : Assembled ⟨3, [⟨0, 1, .no "x"⟩], some 0, none, [[0], [], []], [], true⟩ :=
    @Assembled.addEdge _ _ 0 1 (.no "x") rail (by decide) rfl
  exact @Assembled.addEdge _ _ 2 0 (.no "y") first (by decide) rfl

theorem backfedNetwork_sortsOnce : backfedNetwork.SortsOnce := by
  refine (sortsOnce_iff backfedNetwork_assembled).2 ?_
  intro rail hrail
  cases hrail
  refine ⟨by decide, fun _ => ⟨⟨2, 0, .no "y"⟩, by decide, rfl, fun hfed => ?_⟩⟩
  cases hfed with
  | root hr => exact absurd hr (by decide)
  | node hin _ => exact absurd hin (by decide)

/-- A contact from the left rail back to it. -/
def loopNetwork : ContactNetwork := ⟨1, [⟨0, 0, .no "x"⟩], some 0, none, [[0]], [], true⟩

theorem loopNetwork_assembled : loopNetwork.Assembled := by
  have rail : Assembled ⟨1, [], some 0, none, [[]], [], true⟩ := .setLeftRail (.addNode .new)
  exact @Assembled.addEdge _ _ 0 0 (.no "x") rail (by decide) rfl

theorem loopNetwork_not_sorted : loopNetwork.Assembled ∧ ¬ loopNetwork.SortsOnce := by
  refine ⟨loopNetwork_assembled, ?_⟩
  rintro ⟨fuel, net', hsort, _⟩
  have hformed : loopNetwork.Formed := by
    refine loopNetwork_assembled.formed fun lr hlr => ?_
    cases hlr
    decide
  rw [hformed.rebuildTopo_none rfl ⟨_, List.mem_cons_self, rfl⟩] at hsort
  · cases hsort
  · intro e he _
    rw [List.mem_singleton.1 he]
    exact .root List.mem_cons_self

end ContactNetwork

end Audesys.Ld
