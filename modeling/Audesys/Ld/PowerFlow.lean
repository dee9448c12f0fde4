import Audesys.Ld.Network
import Mathlib.Data.List.Nodup

/-!
# `Ld.PowerFlow` — the power that reaches the output

For networks of level contacts, acyclic and put together from the ids that `add_node` gave out, the power at the
output is described by paths: `evaluate_power_flow` finds exactly the closed paths through the nodes that its
order visits (`power_iff`). The order is made by Kahn's algorithm from the left rail alone, with the in-degrees
of the whole network, and it is kept when the left rail moves. A closed path is missed if each one runs through
a node that the order leaves out.
-/

open List

namespace Audesys.Ld

open Audesys.Lib

namespace ContactNetwork

variable {mark : NodeId → Bool}
variable {rail out : NodeId}

/-! ## What the operations build -/

/-- The networks built by the operations, from ids that `add_node` returned. -/
inductive Built : ContactNetwork → Prop
  | new : Built .new
  | addNode {net : ContactNetwork} : Built net → Built net.addNode.2
  | addEdge {net net' : ContactNetwork} {source target : NodeId} {contact : Contact} :
      Built net → target < net.nodes → net.addEdge source target contact = some net' → Built net'
  | setLeftRail {net : ContactNetwork} {node : NodeId} : Built net → node < net.nodes → Built (net.setLeftRail node)
  | setOutputNode {net : ContactNetwork} {node : NodeId} : Built net → Built (net.setOutputNode node)
  | sorted {net net' : ContactNetwork} {fuel : Nat} : Built net → net.topologicalOrder fuel = some net' → Built net'

/-- The shape that the operations keep. -/
structure Formed (net : ContactNetwork) : Prop where
  length_outgoing : net.outgoing.length = net.nodes
  index_lt : ∀ v : NodeId, ∀ i ∈ (net.outgoing[v]?).getD [], i < net.edges.length
  outgoingEdges_eq : ∀ v, net.outgoingEdges v = net.graph.out v
  target_lt : ∀ e ∈ net.edges, e.target < net.nodes
  rail_lt : ∀ lr, net.leftRail = some lr → lr < net.nodes
  clean : net.dirty = false → net.graph.Acyclic → ∃ roots, net.graph.IsOrder roots net.topoOrder

theorem isOrder_nil {V E : Type} [DecidableEq V] {src tgt : E → V} : (FlowGraph.mk [] src tgt).IsOrder [] [] where
  rooted r hr := absurd hr not_mem_nil
  mem_iff t := by
    constructor
    · intro ht
      cases ht
    · intro ht
      cases ht with
      | root hr => exact hr
      | node hin _ =>
        obtain ⟨e, he, _⟩ := hin
        cases he
  sorted pre u post h := by
    cases pre <;> cases h

theorem Formed.new : Formed .new where
  length_outgoing := rfl
  index_lt v i hi := by
    cases hi
  outgoingEdges_eq _ := rfl
  target_lt e he := by
    cases he
  rail_lt lr h := by
    cases h
  clean _ _ := ⟨[], isOrder_nil⟩

theorem Formed.addNode {net : ContactNetwork} (h : Formed net) : Formed net.addNode.2 := by
  -- the new node has no edges yet, as a node that does not exist has none
  have hout : ∀ v : NodeId, ((net.outgoing ++ [[]])[v]?).getD [] = (net.outgoing[v]?).getD [] := by
    intro v
    rcases Nat.lt_trichotomy v net.outgoing.length with hlt | heq | hgt
    · rw [getElem?_append_left hlt]
    · rw [heq, getElem?_append_right (Nat.le_refl _), Nat.sub_self, getElem?_eq_none (Nat.le_refl _)]
      rfl
    · rw [getElem?_eq_none (Nat.le_of_lt hgt), getElem?_eq_none]
      rw [length_append, length_singleton]
      omega
  refine ⟨?_, ?_, ?_, ?_, ?_, ?_⟩
  · show (net.outgoing ++ [[]]).length = net.nodes + 1
    rw [length_append, length_singleton, h.length_outgoing]
  · intro v i hi
    exact h.index_lt v i ((hout v).symm ▸ hi)
  · intro v
    rw [show net.addNode.2.graph.out v = net.graph.out v from rfl, ← h.outgoingEdges_eq v]
    unfold outgoingEdges
    rw [← hout v]
    rfl
  · intro e he
    exact Nat.lt_succ_of_lt (h.target_lt e he)
  · intro lr hlr
    exact Nat.lt_succ_of_lt (h.rail_lt lr hlr)
  · intro hdirty
    cases hdirty

theorem Formed.addEdge {net net' : ContactNetwork} {source target : NodeId} {contact : Contact} (h : Formed net)
    (htarget : target < net.nodes) (hadd : net.addEdge source target contact = some net') : Formed net' := by
  unfold ContactNetwork.addEdge at hadd
  split at hadd
  · rename_i hsource
    cases hadd
    -- the adjacency list of the source gets the index of the new edge
    have hout : ∀ v : NodeId, ((net.outgoing.modify source (· ++ [net.edges.length]))[v]?).getD [] =
        (net.outgoing[v]?).getD [] ++ if source = v then [net.edges.length] else [] := by
      intro v
      rw [getElem?_modify]
      by_cases hv : source = v
      · subst hv
        simp only [if_true, getElem?_eq_getElem hsource]
        rfl
      · simp only [hv, if_false, List.append_nil]
        cases net.outgoing[v]? <;> rfl
    refine ⟨?_, ?_, ?_, ?_, ?_, ?_⟩
    · show (net.outgoing.modify source _).length = net.nodes
      rw [length_modify, h.length_outgoing]
    · intro v i hi
      simp only [hout v, mem_append] at hi
      rw [length_append, length_singleton]
      rcases hi with hold | hnew
      · exact Nat.lt_succ_of_lt (h.index_lt v i hold)
      · split at hnew
        · rw [mem_singleton] at hnew
          omega
        · cases hnew
    · intro v
      have hold : ((net.outgoing[v]?).getD []).filterMap (fun i => (net.edges ++ [⟨source, target, contact⟩])[i]?) =
          net.graph.out v := by
        rw [← h.outgoingEdges_eq v]
        refine filterMap_congr ?_
        intro i hi
        exact getElem?_append_left (h.index_lt v i hi)
      have hnew : (FlowGraph.mk (net.edges ++ [⟨source, target, contact⟩]) ContactEdge.source ContactEdge.target).out v =
          net.graph.out v ++ if source = v then [⟨source, target, contact⟩] else [] := by
        unfold FlowGraph.out
        rw [filter_append]
        congr 1
        by_cases hv : source = v
        · rw [if_pos hv]
          exact filter_eq_self.2 (by simpa using hv)
        · rw [if_neg hv]
          exact filter_eq_nil_iff.2 (by simpa using hv)
      simp [outgoingEdges, ContactNetwork.graph, hout v, hold, hnew]
      by_cases hv : source = v
      · rw [if_pos hv, if_pos hv, filterMap_cons,
          getElem?_append_right (Nat.le_refl _), Nat.sub_self]
        rfl
      · rw [if_neg hv, if_neg hv]
        rfl
    · intro e he
      rcases mem_append.1 he with hold | hnew
      · exact h.target_lt e hold
      · rw [mem_singleton] at hnew
        rw [hnew]
        exact htarget
    · exact h.rail_lt
    · intro hdirty
      cases hdirty
  · cases hadd

/-! ## The order -/

theorem foldl_inDegree (es : List ContactEdge) (deg : NodeId → Nat) (t : NodeId) :
    es.foldl (fun deg e => Function.update deg e.target (deg e.target + 1)) deg t =
      deg t + es.countP fun e => e.target = t := by
  induction es generalizing deg with
  | nil => rfl
  | cons e es ih =>
    rw [foldl_cons, ih, countP_cons]
    by_cases ht : e.target = t
    · subst ht
      rw [Function.update_self, if_pos (decide_eq_true rfl)]
      omega
    · rw [Function.update_of_ne (Ne.symm ht), if_neg (by simpa using ht), Nat.add_zero]

theorem inDegree_eq (net : ContactNetwork) : net.inDegree = net.graph.remaining [] := by
  funext t
  unfold inDegree FlowGraph.remaining
  rw [foldl_inDegree, Nat.zero_add]
  refine countP_congr ?_
  intro e _
  show _ ↔ (decide (e.target = t) && decide (e.source ∉ [])) = true
  simp

/-- The sort starts from roots: a single node, or nodes without edges into them. -/
theorem rooted_seeds {net : ContactNetwork} (hacyclic : net.graph.Acyclic) : net.graph.Rooted net.seeds := by
  unfold seeds
  split
  · intro r hr r' hr' hpath
    rw [mem_singleton] at hr hr'
    rw [hr, hr'] at hpath
    exact hacyclic _ hpath
  · intro r hr r' _ hpath
    rw [mem_reverse, mem_filter, inDegree_eq, decide_eq_true_eq, FlowGraph.remaining_eq_zero] at hr
    obtain ⟨u, _, e, he, _, htgt⟩ := Relation.TransGen.tail'_iff.1 hpath
    cases hr.2 e he htgt

theorem nodup_seeds (net : ContactNetwork) : net.seeds.Nodup := by
  unfold seeds
  split
  · exact nodup_singleton _
  · exact nodup_reverse.2 (nodup_range.filter _)

theorem Formed.seeds_lt {net : ContactNetwork} (h : Formed net) : ∀ n ∈ net.seeds, n < net.nodes := by
  intro n hn
  unfold seeds at hn
  split at hn
  · rename_i lr hlr
    rw [mem_singleton] at hn
    rw [hn]
    exact h.rail_lt lr hlr
  · rw [mem_reverse, mem_filter, mem_range] at hn
    exact hn.1

theorem Formed.inBounds {net : ContactNetwork} (h : Formed net) : net.inBounds = true := by
  unfold ContactNetwork.inBounds
  rw [Bool.and_eq_true, all_eq_true, all_eq_true]
  constructor
  · intro e he
    exact decide_eq_true (h.target_lt e he)
  · intro n hn
    exact decide_eq_true (h.seeds_lt n hn)

theorem Formed.loop_eq {net : ContactNetwork} (h : Formed net) (fuel : Nat) :
    net.graph.orderLoop net.outgoingEdges fuel net.seeds net.inDegree [] =
      net.graph.orderLoop net.graph.out fuel net.seeds (net.graph.remaining []) [] := by
  rw [inDegree_eq, show net.outgoingEdges = net.graph.out from funext h.outgoingEdges_eq]

/-- A sort changes the cached order only. -/
theorem Formed.rebuildTopo {net net' : ContactNetwork} {fuel : Nat} (h : Formed net)
    (hsort : net.rebuildTopo fuel = some net') :
    ∃ order, net' = { net with topoOrder := order, dirty := false } ∧
      (net.graph.Acyclic → net.graph.IsOrder net.seeds order) := by
  unfold ContactNetwork.rebuildTopo at hsort
  rw [if_pos h.inBounds, h.loop_eq, Option.bind_eq_bind, Option.bind_eq_some_iff] at hsort
  obtain ⟨order, hloop, heq⟩ := hsort
  cases heq
  refine ⟨order, rfl, ?_⟩
  intro hacyclic
  exact FlowGraph.orderLoop_sound (rooted_seeds hacyclic) fuel _ _ [] (.init net.nodup_seeds) hloop

theorem Formed.topologicalOrder {net net' : ContactNetwork} {fuel : Nat} (h : Formed net)
    (hsort : net.topologicalOrder fuel = some net') : Formed net' := by
  unfold ContactNetwork.topologicalOrder at hsort
  split at hsort
  · obtain ⟨order, rfl, horder⟩ := h.rebuildTopo hsort
    exact ⟨h.length_outgoing, h.index_lt, h.outgoingEdges_eq, h.target_lt, h.rail_lt,
      fun _ hacyclic => ⟨net.seeds, horder hacyclic⟩⟩
  · cases hsort
    exact h

/-- **Whatever the operations build** has the shape. -/
theorem Built.formed {net : ContactNetwork} (h : Built net) : Formed net := by
  induction h with
  | new => exact .new
  | addNode _ ih => exact ih.addNode
  | addEdge _ htarget hadd ih => exact ih.addEdge htarget hadd
  | setLeftRail _ hnode ih =>
    refine ⟨ih.length_outgoing, ih.index_lt, ih.outgoingEdges_eq, ih.target_lt, ?_, ih.clean⟩
    intro lr hlr
    cases hlr
    exact hnode
  | setOutputNode _ ih =>
    exact ⟨ih.length_outgoing, ih.index_lt, ih.outgoingEdges_eq, ih.target_lt, ih.rail_lt, ih.clean⟩
  | sorted _ hsort ih => exact ih.topologicalOrder hsort

/-! ## Paths -/

/-- The nodes that the next evaluation goes through: a dirty network is sorted first, another keeps its order. -/
def Visited (net : ContactNetwork) (rail n : NodeId) : Prop :=
  if net.dirty then net.graph.Fed [rail] n else n ∈ net.topoOrder

/-- A path of contacts that are closed in the snapshot. -/
def ClosedPath (net : ContactNetwork) (snapshot : InputSnapshot) : NodeId → NodeId → Prop :=
  Relation.ReflTransGen (net.graph.OpenEdge fun e => e.contact.isClosed snapshot)

/-- A closed path whose nodes, the last one apart, are visited. -/
def VisitedPath (net : ContactNetwork) (snapshot : InputSnapshot) (rail : NodeId) : NodeId → Prop :=
  net.graph.VisitedPath (net.Visited rail) (fun e => e.contact.isClosed snapshot) rail

theorem ClosedPath.of_visited {net : ContactNetwork} {snapshot : InputSnapshot}
    (h : net.VisitedPath snapshot rail out) : net.ClosedPath snapshot rail out := by
  induction h with
  | refl => exact .refl
  | tail _ hstep ih => exact ih.tail hstep.2

end ContactNetwork

/-! ## Power as a mark -/

/-- The nodes with power are the marked ones. -/
def Flow.Marks (f : Flow) (mark : NodeId → Bool) : Prop := ∀ v, f.nodePower v = some true ↔ mark v = true

theorem contactPower_of_level {contact : Contact} (h : contact.IsLevel) (snapshot : InputSnapshot) (es : EdgeState) :
    contactPower contact snapshot es = (contact.isClosed snapshot, es) := by
  cases contact with
  | no _ => rfl
  | nc _ => rfl
  | posEdge _ => cases h
  | negEdge _ => cases h

/-- **One edge** marks its target if the contact is closed. -/
theorem Flow.Marks.edge {f : Flow} (h : f.Marks mark) {e : ContactEdge}
    (hlevel : e.contact.IsLevel) (snapshot : InputSnapshot) :
    (f.edge snapshot e).Marks (Function.update mark e.target (mark e.target || e.contact.isClosed snapshot)) := by
  intro v
  unfold Flow.edge
  rw [contactPower_of_level hlevel]
  by_cases hv : v = e.target
  · subst hv
    have ht := h e.target
    simp
    rw [← ht]
    cases f.nodePower e.target with
    | none => simp
    | some power => simp
  · simp only [Function.update_of_ne hv]
    exact h v

theorem Flow.Marks.edges {f : Flow} (h : f.Marks mark) {es : List ContactEdge}
    (hlevel : ∀ e ∈ es, e.contact.IsLevel) (snapshot : InputSnapshot) : (es.foldl (Flow.edge snapshot) f).Marks
      (es.foldl (fun m e => Function.update m e.target (m e.target || e.contact.isClosed snapshot)) mark) := by
  induction es generalizing f mark with
  | nil => exact h
  | cons e es ih =>
    rw [foldl_cons, foldl_cons]
    exact ih (h.edge (hlevel e mem_cons_self) snapshot) fun e' he' => hlevel e' (mem_cons_of_mem _ he')

/-- **One node** spreads its mark. -/
theorem Flow.Marks.node {net : ContactNetwork} (hnet : net.Formed) (hlevel : ∀ e ∈ net.edges, e.contact.IsLevel)
    {f : Flow} (h : f.Marks mark) (snapshot : InputSnapshot) (n : NodeId) :
    (f.node net snapshot n).Marks (net.graph.spread (fun e => e.contact.isClosed snapshot) mark n) := by
  unfold Flow.node FlowGraph.spread
  rw [hnet.outgoingEdges_eq]
  by_cases hn : mark n = true
  · rw [if_pos hn, (h n).2 hn]
    refine h.edges ?_ snapshot
    intro e he
    exact hlevel e (FlowGraph.mem_out.1 he).1
  · rw [if_neg hn]
    split
    · rename_i hpower
      exact absurd ((h n).1 hpower) hn
    · exact h

theorem Flow.Marks.nodes {net : ContactNetwork} (hnet : net.Formed) (hlevel : ∀ e ∈ net.edges, e.contact.IsLevel)
    (snapshot : InputSnapshot) {f : Flow} (h : f.Marks mark) : (net.flow snapshot f).Marks
      (net.topoOrder.foldl (net.graph.spread fun e => e.contact.isClosed snapshot) mark) := by
  unfold ContactNetwork.flow
  induction net.topoOrder generalizing f mark with
  | nil => exact h
  | cons n order ih =>
    rw [foldl_cons, foldl_cons]
    exact ih (h.node hnet hlevel snapshot n)

theorem Flow.marks_start (rail : NodeId) (es : EdgeState) : (Flow.start rail es).Marks fun v => decide (v = rail) := by
  intro v
  unfold Flow.start
  by_cases hv : v = rail
  · subst hv
    simp only [Function.update_self, decide_true]
  · simp [hv]

/-! ## The power at the output -/

/-- A network that has been sorted visits what the network before it was going to visit. -/
theorem ContactNetwork.Formed.sort {net : ContactNetwork} (h : net.Formed) (hacyclic : net.graph.Acyclic) {rail : NodeId}
    (hrail : net.leftRail = some rail) {fuel : Nat} (hfuel : net.nodes ≤ fuel) :
    ∃ net' roots, net.topologicalOrder fuel = some net' ∧ net'.Formed ∧ net'.edges = net.edges ∧
      net'.graph.IsOrder roots net'.topoOrder ∧ ∀ n, net.Visited rail n ↔ n ∈ net'.topoOrder := by
  unfold ContactNetwork.topologicalOrder ContactNetwork.Visited
  cases hdirty : net.dirty with
  | false =>
    obtain ⟨roots, horder⟩ := h.clean hdirty hacyclic
    exact ⟨net, roots, rfl, h, rfl, horder, fun n => Iff.rfl⟩
  | true =>
    have hseeds : net.seeds = [rail] := by
      unfold ContactNetwork.seeds
      rw [hrail]
    have hlen : (List.range net.nodes).length ≤ fuel := by
      rw [length_range]
      exact hfuel
    obtain ⟨order, hloop, _⟩ := FlowGraph.orderLoop_total (net.rooted_seeds hacyclic).unfed
      (fun n hn => mem_range.2 (h.seeds_lt n hn)) (fun e he => mem_range.2 (h.target_lt e he)) hlen
      net.nodup_seeds
    have hsort : net.rebuildTopo fuel = some { net with topoOrder := order, dirty := false } := by
      unfold ContactNetwork.rebuildTopo
      rw [if_pos h.inBounds, h.loop_eq, hloop]
      rfl
    obtain ⟨order', heq, horder⟩ := h.rebuildTopo hsort
    cases heq
    refine ⟨_, net.seeds, hsort, ?_, rfl, horder hacyclic, ?_⟩
    · refine @ContactNetwork.Formed.topologicalOrder net _ fuel h ?_
      unfold ContactNetwork.topologicalOrder
      rw [if_pos hdirty, hsort]
    · intro n
      rw [if_pos rfl, (horder hacyclic).mem_iff, hseeds]

theorem evaluatePowerFlow_eq {net net' : ContactNetwork} (hrail : net.leftRail = some rail)
    (hout : net.outputNode = some out) {fuel : Nat} (hsort : net.topologicalOrder fuel = some net')
    (snapshot : InputSnapshot) (es : EdgeState) : evaluatePowerFlow fuel net snapshot es =
      some ⟨((net'.flow snapshot (.start rail es)).nodePower out).getD false, net',
        (net'.flow snapshot (.start rail es)).edgeState, (net'.flow snapshot (.start rail es)).evaluations⟩ := by
  unfold evaluatePowerFlow
  rw [hrail, hout, hsort]
  rfl

theorem getD_eq_true {o : Option Bool} : o.getD false = true ↔ o = some true := by
  cases o with
  | none => simp
  | some _ => simp

/-- **The power** at the output: a closed path through visited nodes leads there. -/
theorem power_iff {net : ContactNetwork} (h : net.Formed) (hacyclic : net.graph.Acyclic)
    (hlevel : ∀ e ∈ net.edges, e.contact.IsLevel) (hrail : net.leftRail = some rail)
    (hout : net.outputNode = some out) (snapshot : InputSnapshot) (es : EdgeState) {fuel : Nat}
    (hfuel : net.nodes ≤ fuel) :
    ∃ r, evaluatePowerFlow fuel net snapshot es = some r ∧ (r.power = true ↔ net.VisitedPath snapshot rail out) := by
  obtain ⟨net', roots, hsort, hformed, hedges, horder, hvisited⟩ := h.sort hacyclic hrail hfuel
  have hgraph : net'.graph = net.graph := by
    unfold ContactNetwork.graph
    rw [hedges]
  have hvisit : net.Visited rail = (· ∈ net'.topoOrder) := funext fun n => propext (hvisited n)
  have hmarks := Flow.Marks.nodes hformed (hedges ▸ hlevel) snapshot (Flow.marks_start rail es)
  refine ⟨⟨_, _, _, _⟩, evaluatePowerFlow_eq hrail hout hsort snapshot es, ?_⟩
  rw [getD_eq_true, hmarks out, FlowGraph.spread_iff horder, hgraph, ← hvisit]
  rfl

/-- **Power flow as reachability** in an acyclic network of level contacts, with the ids that `add_node` gave out:
the power at the output says whether a closed path leads there from the rail, exactly if the closed paths, where
there are any, include one through visited nodes. -/
theorem powerFlow_reachability_iff {net : ContactNetwork} (hbuilt : net.Built) (hacyclic : net.graph.Acyclic)
    (hlevel : ∀ e ∈ net.edges, e.contact.IsLevel) {rail out : NodeId} (hrail : net.leftRail = some rail)
    (hout : net.outputNode = some out) (snapshot : InputSnapshot) (es : EdgeState) {fuel : Nat}
    (hfuel : net.nodes ≤ fuel) :
    ∃ r, evaluatePowerFlow fuel net snapshot es = some r ∧
      ((r.power = true ↔ net.ClosedPath snapshot rail out) ↔
        (net.ClosedPath snapshot rail out → net.VisitedPath snapshot rail out)) := by
  obtain ⟨r, heval, hpower⟩ := power_iff hbuilt.formed hacyclic hlevel hrail hout snapshot es hfuel
  refine ⟨r, heval, ?_⟩
  rw [hpower]
  constructor
  · intro h
    exact h.2
  · intro h
    exact ⟨ContactNetwork.ClosedPath.of_visited, h⟩

/-- A snapshot with one closed contact. -/
def onlyX : InputSnapshot := ⟨fun var => if var = "x" then some true else none⟩

/-- A rail, a node beside it, the node where both meet, and the output. -/
def joinNetwork : ContactNetwork :=
  ⟨4, [⟨0, 2, .no "x"⟩, ⟨1, 2, .no "y"⟩, ⟨2, 3, .no "x"⟩], some 0, some 3, [[0], [1], [2], []], [], true⟩

theorem joinNetwork_built : joinNetwork.Built := by
  have rails : ContactNetwork.Built ⟨4, [], some 0, some 3, [[], [], [], []], [], true⟩ :=
    .setOutputNode (.setLeftRail (.addNode (.addNode (.addNode (.addNode .new)))) (by decide))
  have first : ContactNetwork.Built ⟨4, [⟨0, 2, .no "x"⟩], some 0, some 3, [[0], [], [], []], [], true⟩ :=
    @ContactNetwork.Built.addEdge _ _ 0 2 (.no "x") rails (by decide) rfl
  have second : ContactNetwork.Built
      ⟨4, [⟨0, 2, .no "x"⟩, ⟨1, 2, .no "y"⟩], some 0, some 3, [[0], [1], [], []], [], true⟩ :=
    @ContactNetwork.Built.addEdge _ _ 1 2 (.no "y") first (by decide) rfl
  exact @ContactNetwork.Built.addEdge _ _ 2 3 (.no "x") second (by decide) rfl

theorem joinNetwork_acyclic : joinNetwork.graph.Acyclic := by
  refine @FlowGraph.acyclic_of_rank _ _ _ id ?_
  decide

/-- The node where the branches meet waits for the branch without power. -/
theorem joined_branch_unpowered :
    joinNetwork.Built ∧ joinNetwork.graph.Acyclic ∧ (∀ e ∈ joinNetwork.edges, e.contact.IsLevel) ∧
      joinNetwork.ClosedPath onlyX 0 3 ∧
      (evaluatePowerFlow 4 joinNetwork onlyX .new).map FlowResult.power = some false := by
  refine ⟨joinNetwork_built, joinNetwork_acyclic, ?_, ?_, by decide⟩
  · simp [joinNetwork, Contact.IsLevel]
  · have first : joinNetwork.graph.OpenEdge (fun e => e.contact.isClosed onlyX) 0 2 :=
      ⟨⟨0, 2, .no "x"⟩, by decide, rfl, rfl, by decide⟩
    have last : joinNetwork.graph.OpenEdge (fun e => e.contact.isClosed onlyX) 2 3 :=
      ⟨⟨2, 3, .no "x"⟩, by decide, rfl, rfl, by decide⟩
    exact .tail (.tail .refl first) last

theorem joinNetwork_reachability :
    ∃ r, evaluatePowerFlow 4 joinNetwork onlyX .new = some r ∧
      ((r.power = true ↔ joinNetwork.ClosedPath onlyX 0 3) ↔
        (joinNetwork.ClosedPath onlyX 0 3 → joinNetwork.VisitedPath onlyX 0 3)) :=
  powerFlow_reachability_iff joinNetwork_built joinNetwork_acyclic (by simp [joinNetwork, Contact.IsLevel]) rfl rfl
    onlyX .new (Nat.le_refl 4)

end Audesys.Ld
