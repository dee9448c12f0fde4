import Audesys.Ld.PowerFlow

/-!
# `Ld.Serial` — contacts in series

`build_serial_network` makes a chain of the contacts: one node behind each, the rail in front of the first and the
output behind the last. The order visits every node of a chain, so the power at the output says whether all contacts
are closed (`serial_power`).
-/

namespace Audesys.Ld

open Audesys.Lib

variable {contacts : List Contact}

/-! ## The chain -/

/-- One more contact behind the node `prev`. -/
def ContactNetwork.extend (chain : ContactNetwork × NodeId) (contact : Contact) : Option (ContactNetwork × NodeId) := do
  let (next, net) := chain.1.addNode
  let net ← net.addEdge chain.2 next contact
  some (net, next)

/-- `build_serial_network`. -/
def buildSerialNetwork (contacts : List Contact) : Option ContactNetwork := do
  let (left, net) := ContactNetwork.new.addNode
  let (net, prev) ← contacts.foldlM ContactNetwork.extend (net.setLeftRail left, left)
  some (net.setOutputNode prev)

/-- Contact `i` leads from node `i` to the next one. -/
def serialEdges (contacts : List Contact) : List ContactEdge := contacts.mapIdx fun i c => ⟨i, i + 1, c⟩

/-- A chain of contacts that ends in the node `prev`. -/
structure Chain (net : ContactNetwork) (prev : NodeId) (contacts : List Contact) : Prop where
  built : net.Built
  nodes : net.nodes = contacts.length + 1
  edges : net.edges = serialEdges contacts
  rail : net.leftRail = some 0
  dirty : net.dirty = true
  last : prev = contacts.length

theorem Chain.start : Chain (ContactNetwork.new.addNode.2.setLeftRail 0) 0 [] where
  built := .setLeftRail (.addNode .new) Nat.zero_lt_one
  nodes := rfl
  edges := rfl
  rail := rfl
  dirty := rfl
  last := rfl

/-- **One contact.** -/
theorem Chain.extend {net : ContactNetwork} {prev : NodeId} (h : Chain net prev contacts) (contact : Contact) :
    ∃ net' prev', ContactNetwork.extend (net, prev) contact = some (net', prev') ∧
      Chain net' prev' (contacts ++ [contact]) := by
  have hlen := h.built.formed.length_outgoing
  have hsource : prev < net.addNode.2.outgoing.length := by
    show prev < (net.outgoing ++ [[]]).length
    rw [List.length_append, hlen, h.nodes, h.last]
    show _ < contacts.length + 1 + 1
    omega
  have hadd : ∃ net', net.addNode.2.addEdge prev net.nodes contact = some net' := ⟨_, if_pos hsource⟩
  obtain ⟨net', hnet'⟩ := hadd
  refine ⟨net', net.nodes, ?_, ?_⟩
  · show (net.addNode.2.addEdge prev net.nodes contact).bind (fun n => some (n, net.nodes)) = _
    rw [hnet']
    rfl
  · have hbuilt : net'.Built := .addEdge (.addNode h.built) (Nat.lt_succ_self _) hnet'
    unfold ContactNetwork.addEdge at hnet'
    rw [if_pos hsource] at hnet'
    cases hnet'
    refine ⟨hbuilt, ?_, ?_, h.rail, rfl, ?_⟩
    · show net.nodes + 1 = _
      rw [h.nodes, List.length_append]
      rfl
    · show net.edges ++ [⟨prev, net.nodes, contact⟩] = serialEdges (contacts ++ [contact])
      unfold serialEdges
      rw [List.mapIdx_concat, h.edges, h.last, h.nodes]
      rfl
    · rw [h.nodes, List.length_append]
      rfl

theorem Chain.extendAll {net : ContactNetwork} {prev : NodeId} (h : Chain net prev contacts)
    (more : List Contact) : ∃ net' prev', more.foldlM ContactNetwork.extend (net, prev) = some (net', prev') ∧
      Chain net' prev' (contacts ++ more) := by
  induction more generalizing net prev contacts with
  | nil =>
    refine ⟨net, prev, rfl, ?_⟩
    rw [List.append_nil]
    exact h
  | cons contact more ih =>
    obtain ⟨net₁, prev₁, hstep, h₁⟩ := h.extend contact
    obtain ⟨net', prev', hrest, h'⟩ := ih h₁
    refine ⟨net', prev', ?_, ?_⟩
    · rw [List.foldlM_cons, hstep]
      exact hrest
    · rw [List.append_assoc] at h'
      exact h'

theorem buildSerialNetwork_eq (contacts : List Contact) :
    ∃ net, buildSerialNetwork contacts = some net ∧ Chain net contacts.length contacts ∧
      net.outputNode = some contacts.length := by
  obtain ⟨net, prev, hfold, h⟩ := Chain.start.extendAll contacts
  rw [List.nil_append] at h
  refine ⟨net.setOutputNode prev, ?_, ?_, ?_⟩
  · show (contacts.foldlM ContactNetwork.extend (ContactNetwork.new.addNode.2.setLeftRail 0, 0)).bind _ = _
    rw [hfold]
    rfl
  · exact ⟨.setOutputNode h.built, h.nodes, h.edges, h.rail, h.dirty, rfl⟩
  · exact congrArg some h.last

/-! ## Its power -/

section
variable {net : ContactNetwork} {prev : NodeId}

theorem Chain.mem_edges (h : Chain net prev contacts) {e : ContactEdge} :
    e ∈ net.graph.edges ↔ ∃ (i : Nat) (hi : i < contacts.length), ⟨i, i + 1, contacts[i]⟩ = e := by
  show e ∈ net.edges ↔ _
  rw [h.edges]
  exact List.mem_mapIdx

theorem Chain.acyclic (h : Chain net prev contacts) : net.graph.Acyclic := by
  refine @FlowGraph.acyclic_of_rank _ _ _ id ?_
  intro e he
  obtain ⟨i, _, rfl⟩ := h.mem_edges.1 he
  exact Nat.lt_succ_self i

/-- Every node of a chain is visited. -/
theorem Chain.visited (h : Chain net prev contacts) {n : NodeId} (hn : n ≤ contacts.length) : net.Visited 0 n := by
  unfold ContactNetwork.Visited
  rw [if_pos h.dirty]
  induction n with
  | zero => exact .root (List.mem_singleton_self 0)
  | succ n ih =>
    refine .node ⟨_, h.mem_edges.2 ⟨n, hn, rfl⟩, rfl⟩ ?_
    intro e he htarget
    obtain ⟨i, _, rfl⟩ := h.mem_edges.1 he
    have hi : i = n := Nat.succ.inj htarget
    rw [show net.graph.src _ = i from rfl, hi]
    exact ih (Nat.le_of_succ_le hn)

theorem Chain.openEdge (h : Chain net prev contacts) {snapshot : InputSnapshot} {u v : NodeId} :
    net.graph.OpenEdge (fun e => e.contact.isClosed snapshot) u v ↔
      v = u + 1 ∧ ∃ hu : u < contacts.length, contacts[u].isClosed snapshot = true := by
  constructor
  · rintro ⟨e, he, rfl, rfl, hclosed⟩
    obtain ⟨i, hi, rfl⟩ := h.mem_edges.1 he
    exact ⟨rfl, hi, hclosed⟩
  · rintro ⟨rfl, hu, hclosed⟩
    exact ⟨_, h.mem_edges.2 ⟨u, hu, rfl⟩, rfl, rfl, hclosed⟩

/-- **A path along the chain** goes through closed contacts only. -/
theorem Chain.visitedPath_iff (h : Chain net prev contacts) (snapshot : InputSnapshot) {n : NodeId}
    (hn : n ≤ contacts.length) :
    net.VisitedPath snapshot 0 n ↔ ∀ i, ∀ hi : i < contacts.length, i < n → contacts[i].isClosed snapshot = true := by
  constructor
  · intro hpath
    induction hpath with
    | refl =>
      intro i _ hlt
      exact absurd hlt (Nat.not_lt_zero i)
    | @tail u v _ hstep ih =>
      obtain ⟨rfl, hu, hclosed⟩ := h.openEdge.1 hstep.2
      intro i hi hlt
      rcases Nat.lt_succ_iff_lt_or_eq.1 hlt with hlt | rfl
      · exact ih (Nat.le_of_lt hu) i hi hlt
      · exact hclosed
  · intro hclosed
    induction n with
    | zero => exact .refl
    | succ n ih =>
      refine .tail (ih (Nat.le_of_succ_le hn) fun i hi hlt => hclosed i hi (Nat.lt_succ_of_lt hlt)) ?_
      exact ⟨h.visited (Nat.le_of_succ_le hn), h.openEdge.2 ⟨rfl, hn, hclosed n hn (Nat.lt_succ_self n)⟩⟩

end

/-- **Level contacts in series**: the output has power if all of them are closed. -/
theorem serial_power (hlevel : ∀ c ∈ contacts, c.IsLevel) :
    ∃ net, buildSerialNetwork contacts = some net ∧ ∀ fuel, contacts.length < fuel → ∀ snapshot es,
      ∃ r, evaluatePowerFlow fuel net snapshot es = some r ∧ r.power = contacts.all (Contact.isClosed snapshot) := by
  obtain ⟨net, hnet, h, hout⟩ := buildSerialNetwork_eq contacts
  refine ⟨net, hnet, ?_⟩
  intro fuel hfuel snapshot es
  have hlevel' : ∀ e ∈ net.edges, e.contact.IsLevel := by
    intro e he
    obtain ⟨i, hi, rfl⟩ := h.mem_edges.1 he
    exact hlevel _ (List.getElem_mem hi)
  have hnodes : net.nodes ≤ fuel := by
    rw [h.nodes]
    exact hfuel
  obtain ⟨r, heval, hpower⟩ := power_iff h.built.formed h.acyclic hlevel' h.rail hout snapshot es hnodes
  refine ⟨r, heval, ?_⟩
  rw [Bool.eq_iff_iff, hpower, h.visitedPath_iff snapshot (Nat.le_refl _), List.all_eq_true]
  constructor
  · intro hall c hc
    obtain ⟨i, hi, rfl⟩ := List.mem_iff_getElem.1 hc
    exact hall i hi hi
  · intro hall i hi _
    exact hall _ (List.getElem_mem hi)

end Audesys.Ld
