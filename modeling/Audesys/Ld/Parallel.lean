import Audesys.Ld.Serial

/-!
# `Ld.Parallel` — branches in parallel

`build_parallel_network` lays each branch from the rail to the output: a fresh node behind each contact but the last,
whose edge leads to the output. An edge into a node that nothing leaves adds one way to that node and no other
(`OneMore.closedPath_iff`), so the power at the output says whether some branch with a contact has all its contacts
closed. A branch without contacts would be a wire, but adds no edge (`parallel_power_iff`).
-/

open List

namespace Audesys.Ld

open Audesys.Lib

/-! ## The builder -/

/-- One contact of a branch of `len` contacts. -/
def ContactNetwork.extendBranch (output : NodeId) (len : Nat) (chain : ContactNetwork × NodeId) (item : Contact × Nat) :
    Option (ContactNetwork × NodeId) := do
  let (next, net) := if item.2 = len - 1 then (output, chain.1) else chain.1.addNode
  let net ← net.addEdge chain.2 next item.1
  some (net, next)

def ContactNetwork.addBranch (left output : NodeId) (net : ContactNetwork) (contacts : List Contact) :
    Option ContactNetwork := do
  let (net, _) ← contacts.zipIdx.foldlM (extendBranch output contacts.length) (net, left)
  some net

/-- `build_parallel_network`. -/
def buildParallelNetwork (branches : List (List Contact)) : Option ContactNetwork :=
  let (left, net) := ContactNetwork.new.addNode
  let net := net.setLeftRail left
  let (output, net) := net.addNode
  let net := net.setOutputNode output
  branches.foldlM (ContactNetwork.addBranch left output) net

namespace ContactNetwork

/-! ## One more edge -/

/-- A network that differs in one more edge at the end of the list, into a node that nothing leaves. -/
structure OneMore (net net' : ContactNetwork) (source target : NodeId) (contact : Contact) : Prop where
  edges : net'.edges = net.edges ++ [⟨source, target, contact⟩]
  sink : ∀ e ∈ net'.edges, e.source ≠ target

variable {net net' : ContactNetwork} {source target : NodeId} {contact : Contact}

theorem OneMore.openEdge_iff (h : OneMore net net' source target contact) {snapshot : InputSnapshot} {u v : NodeId} :
    net'.graph.OpenEdge (fun e => e.contact.isClosed snapshot) u v ↔
      net.graph.OpenEdge (fun e => e.contact.isClosed snapshot) u v ∨
        (u = source ∧ v = target ∧ contact.isClosed snapshot = true) := by
  unfold FlowGraph.OpenEdge
  rw [show net'.graph.edges = net.edges ++ [⟨source, target, contact⟩] from h.edges]
  constructor
  · rintro ⟨e, he, hsrc, htgt, hclosed⟩
    rcases mem_append.1 he with hold | hnew
    · exact .inl ⟨e, hold, hsrc, htgt, hclosed⟩
    · cases mem_singleton.1 hnew
      exact .inr ⟨hsrc.symm, htgt.symm, hclosed⟩
  · rintro (⟨e, he, hsrc, htgt, hclosed⟩ | ⟨rfl, rfl, hclosed⟩)
    · exact ⟨e, mem_append_left _ he, hsrc, htgt, hclosed⟩
    · exact ⟨_, mem_append_right _ mem_cons_self, rfl, rfl, hclosed⟩

/-- **One more way** to the target of the edge, and to no other node. -/
theorem OneMore.closedPath_iff (h : OneMore net net' source target contact) {snapshot : InputSnapshot} {u v : NodeId} :
    net'.ClosedPath snapshot u v ↔
      net.ClosedPath snapshot u v ∨ (v = target ∧ net.ClosedPath snapshot u source ∧ contact.isClosed snapshot = true) := by
  constructor
  · intro hpath
    induction hpath with
    | refl => exact .inl .refl
    | @tail b c _ hedge ih =>
      -- the path so far has not come to the target, where it would end
      have hb : b ≠ target := by
        obtain ⟨e, he, hsrc, _⟩ := hedge
        exact hsrc ▸ h.sink e he
      have hold : net.ClosedPath snapshot u b := ih.resolve_right fun hnew => hb hnew.1
      rcases h.openEdge_iff.1 hedge with hedge | ⟨rfl, rfl, hclosed⟩
      · exact .inl (hold.tail hedge)
      · exact .inr ⟨rfl, hold, hclosed⟩
  · have hmono : ∀ w, net.ClosedPath snapshot u w → net'.ClosedPath snapshot u w := by
      intro w hpath
      exact Relation.ReflTransGen.mono (fun a b hedge => h.openEdge_iff.2 (.inl hedge)) u w hpath
    rintro (hpath | ⟨rfl, hpath, hclosed⟩)
    · exact hmono v hpath
    · exact (hmono source hpath).tail (h.openEdge_iff.2 (.inr ⟨rfl, rfl, hclosed⟩))

/-! ## The shape of the network -/

/-- The rail is node 0, the output node 1, and nothing leaves the output; the other nodes each have an edge into them,
and all edges but those to the output go up. -/
structure Forked (net : ContactNetwork) : Prop where
  built : net.Built
  rail : net.leftRail = some 0
  output : net.outputNode = some 1
  dirty : net.dirty = true
  two_le : 2 ≤ net.nodes
  source_ne : ∀ e ∈ net.edges, e.source ≠ 1
  source_lt : ∀ e ∈ net.edges, e.source < net.nodes
  upward : ∀ e ∈ net.edges, e.target ≠ 1 → e.source < e.target
  entered : ∀ n, 1 < n → n < net.nodes → ∃ e ∈ net.edges, e.target = n

def forkedStart : ContactNetwork := (new.addNode.2.setLeftRail 0).addNode.2.setOutputNode 1

theorem Forked.start : Forked forkedStart where
  built := .setOutputNode (.addNode (.setLeftRail (.addNode .new) Nat.zero_lt_one))
  rail := rfl
  output := rfl
  dirty := rfl
  two_le := Nat.le_refl 2
  source_ne e he := by
    cases he
  source_lt e he := by
    cases he
  upward e he := by
    cases he
  entered n hn hlt := absurd hlt (Nat.not_lt.2 hn)

theorem addEdge_eq (h : net.Formed) (target : NodeId) (contact : Contact) (hsource : source < net.nodes) :
    ∃ net', net.addEdge source target contact = some net' ∧ net'.edges = net.edges ++ [⟨source, target, contact⟩] ∧
      net'.nodes = net.nodes ∧ net'.leftRail = net.leftRail ∧ net'.outputNode = net.outputNode ∧ net'.dirty = true := by
  refine ⟨_, if_pos ?_, rfl, rfl, rfl, rfl, rfl⟩
  rw [h.length_outgoing]
  exact hsource

/-- An edge keeps the shape if it goes up or to the output, and enters the new nodes. -/
theorem Forked.oneMore (h : Forked net) (hbuilt : net'.Built) (hrail : net'.leftRail = net.leftRail)
    (hout : net'.outputNode = net.outputNode) (hdirty : net'.dirty = true) (hnodes : net.nodes ≤ net'.nodes)
    (hedges : net'.edges = net.edges ++ [⟨source, target, contact⟩]) (hne : source ≠ 1) (hlt : source < net.nodes)
    (hup : target ≠ 1 → source < target) (hnew : ∀ n, net.nodes ≤ n → n < net'.nodes → target = n) : Forked net' := by
  have hmem : ∀ e ∈ net'.edges, e ∈ net.edges ∨ e = ⟨source, target, contact⟩ := by
    intro e he
    rw [hedges, mem_append, mem_singleton] at he
    exact he
  refine ⟨hbuilt, hrail.trans h.rail, hout.trans h.output, hdirty, Nat.le_trans h.two_le hnodes, ?_, ?_, ?_, ?_⟩
  · intro e he
    rcases hmem e he with hold | rfl
    · exact h.source_ne e hold
    · exact hne
  · intro e he
    rcases hmem e he with hold | rfl
    · exact Nat.lt_of_lt_of_le (h.source_lt e hold) hnodes
    · exact Nat.lt_of_lt_of_le hlt hnodes
  · intro e he
    rcases hmem e he with hold | rfl
    · exact h.upward e hold
    · exact hup
  · intro n hn hlt'
    rw [hedges]
    by_cases hold : n < net.nodes
    · obtain ⟨e, he, htgt⟩ := h.entered n hn hold
      exact ⟨e, mem_append_left _ he, htgt⟩
    · exact ⟨_, mem_append_right _ mem_cons_self, hnew n (Nat.not_lt.1 hold) hlt'⟩

section
variable {prev : NodeId} (h : Forked net) (hne : prev ≠ 1) (hlt : prev < net.nodes)
include h hne hlt

/-- **The last contact** of a branch leads to the output. -/
theorem Forked.addLast (contact : Contact) : ∃ net', net.addEdge prev 1 contact = some net' ∧ Forked net' ∧
    OneMore net net' prev 1 contact := by
  obtain ⟨net', hadd, hedges, hnodes, hrail, hout, hdirty⟩ := addEdge_eq h.built.formed 1 contact hlt
  have hforked : Forked net' := by
    refine h.oneMore (.addEdge h.built h.two_le hadd) hrail hout hdirty (Nat.le_of_eq hnodes.symm) hedges hne hlt ?_ ?_
    · intro htarget
      exact absurd rfl htarget
    · intro n hge hlt'
      omega
  exact ⟨net', hadd, hforked, hedges, hforked.source_ne⟩

/-- **Any other contact** leads to a fresh node. -/
theorem Forked.extend (contact : Contact) : ∃ net', ContactNetwork.extend (net, prev) contact = some (net', net.nodes) ∧
    Forked net' ∧ OneMore net net' prev net.nodes contact ∧ net'.nodes = net.nodes + 1 := by
  obtain ⟨net', hadd, hedges, hnodes, hrail, hout, hdirty⟩ :=
    addEdge_eq h.built.formed.addNode net.nodes contact (Nat.lt_succ_of_lt hlt)
  have hnodes' : net'.nodes = net.nodes + 1 := hnodes
  have hforked : Forked net' := by
    refine h.oneMore (.addEdge (.addNode h.built) (Nat.lt_succ_self _) hadd) hrail hout hdirty (by omega) hedges hne hlt
      (fun _ => hlt) ?_
    intro n hge hlt'
    have hle : n ≤ net.nodes := by omega
    exact Nat.le_antisymm hge hle
  refine ⟨net', ?_, hforked, ⟨hedges, ?_⟩, hnodes'⟩
  · show (net.addNode.2.addEdge prev net.nodes contact).bind (fun n => some (n, net.nodes)) = _
    rw [hadd]
    rfl
  · intro e he
    rw [hedges, mem_append, mem_singleton] at he
    rcases he with hold | rfl
    · exact Nat.ne_of_lt (h.source_lt e hold)
    · exact Nat.ne_of_lt hlt

end

/-! ## Branches -/

variable {snapshot : InputSnapshot}

/-- No path leads to a node that is not there yet. -/
theorem Forked.not_closedPath (h : Forked net) {n : NodeId} (hge : net.nodes ≤ n) : ¬ net.ClosedPath snapshot 0 n := by
  intro hpath
  rcases Relation.ReflTransGen.cases_tail hpath with heq | ⟨m, _, e, he, _, htgt, _⟩
  · have htwo := h.two_le
    rw [heq] at hge
    exact absurd (Nat.le_trans htwo hge) (by decide)
  · have hlt : e.target < net.nodes := h.built.formed.target_lt e he
    rw [show e.target = n from htgt] at hlt
    exact absurd hlt (Nat.not_lt.2 hge)

theorem extendBranch_last {output prev : NodeId} {len i : Nat} (hi : i = len - 1)
    (h : net.addEdge prev output contact = some net') :
    extendBranch output len (net, prev) (contact, i) = some (net', output) := by
  unfold extendBranch
  rw [if_pos hi]
  show (net.addEdge prev output contact).bind _ = _
  rw [h]
  rfl

theorem extendBranch_of_ne {output : NodeId} {chain : ContactNetwork × NodeId} {len i : Nat} (hi : i ≠ len - 1) :
    extendBranch output len chain (contact, i) = ContactNetwork.extend chain contact := by
  unfold extendBranch ContactNetwork.extend
  rw [if_neg hi]

/-- **A branch** from `prev` on, where `i` contacts are laid already: one more way to the output, open if all its
contacts are closed. -/
theorem Forked.branch (len : Nat) {contacts : List Contact} (hcontacts : contacts ≠ []) {i : Nat}
    (hlen : i + contacts.length = len) {net : ContactNetwork} {prev : NodeId} (h : Forked net) (hne : prev ≠ 1)
    (hlt : prev < net.nodes) :
    ∃ net' last, (contacts.zipIdx i).foldlM (extendBranch 1 len) (net, prev) = some (net', last) ∧ Forked net' ∧
      (∀ e ∈ net'.edges, e ∈ net.edges ∨ e.contact ∈ contacts) ∧
      ∀ snapshot, net'.ClosedPath snapshot 0 1 ↔ net.ClosedPath snapshot 0 1 ∨
        (net.ClosedPath snapshot 0 prev ∧ ∀ c ∈ contacts, c.isClosed snapshot = true) := by
  induction contacts generalizing i net prev with
  | nil => exact absurd rfl hcontacts
  | cons contact contacts ih =>
    rw [zipIdx_cons, foldlM_cons]
    by_cases hlast : contacts = []
    · subst hlast
      have hi : i = len - 1 := by
        rw [← hlen]
        rfl
      obtain ⟨net', hadd, hforked, hone⟩ := h.addLast hne hlt contact
      refine ⟨net', 1, ?_, hforked, ?_, ?_⟩
      · rw [extendBranch_last hi hadd]
        rfl
      · intro e he
        rw [hone.edges, mem_append, mem_singleton] at he
        rcases he with hold | rfl
        · exact .inl hold
        · exact .inr mem_cons_self
      · intro snapshot
        rw [hone.closedPath_iff]
        simp only [true_and, mem_singleton, forall_eq]
    · obtain ⟨net₁, hstep, hforked, hone, hnodes⟩ := h.extend hne hlt contact
      have hi : i ≠ len - 1 := by
        have hpos := length_pos_iff.2 hlast
        rw [length_cons] at hlen
        omega
      have htwo := h.two_le
      have hlen' : i + 1 + contacts.length = len := by
        rw [← hlen, length_cons]
        omega
      obtain ⟨net', last, hfold, hforked', hedges, hpath⟩ :=
        ih hlast hlen' hforked (Nat.ne_of_gt htwo) (hnodes ▸ Nat.lt_succ_self _)
      refine ⟨net', last, ?_, hforked', ?_, ?_⟩
      · rw [extendBranch_of_ne hi, hstep]
        exact hfold
      · intro e he
        rcases hedges e he with hmid | hlater
        · rw [hone.edges, mem_append, mem_singleton] at hmid
          rcases hmid with hold | rfl
          · exact .inl hold
          · exact .inr mem_cons_self
        · exact .inr (mem_cons_of_mem _ hlater)
      · intro snapshot
        -- the contact opens the way to the fresh node, and changes no other
        have hout : net₁.ClosedPath snapshot 0 1 ↔ net.ClosedPath snapshot 0 1 := by
          rw [hone.closedPath_iff, or_iff_left]
          exact fun hnew => Nat.ne_of_lt htwo hnew.1
        have hfresh : net₁.ClosedPath snapshot 0 net.nodes ↔
            net.ClosedPath snapshot 0 prev ∧ contact.isClosed snapshot = true := by
          rw [hone.closedPath_iff, or_iff_right (h.not_closedPath (Nat.le_refl _))]
          simp only [true_and]
        rw [hpath, hout, hfresh, forall_mem_cons, and_assoc]

/-- **All branches.** -/
theorem Forked.branches {net : ContactNetwork} (h : Forked net) (branches : List (List Contact)) :
    ∃ net', branches.foldlM (addBranch 0 1) net = some net' ∧ Forked net' ∧
      (∀ e ∈ net'.edges, e ∈ net.edges ∨ ∃ b ∈ branches, e.contact ∈ b) ∧
      ∀ snapshot, net'.ClosedPath snapshot 0 1 ↔ net.ClosedPath snapshot 0 1 ∨
        ∃ b ∈ branches, b ≠ [] ∧ ∀ c ∈ b, c.isClosed snapshot = true := by
  induction branches generalizing net with
  | nil =>
    refine ⟨net, rfl, h, fun e he => .inl he, fun snapshot => ?_⟩
    simp
  | cons contacts branches ih =>
    have hbranch : ∃ net₁, addBranch 0 1 net contacts = some net₁ ∧ Forked net₁ ∧
        (∀ e ∈ net₁.edges, e ∈ net.edges ∨ e.contact ∈ contacts) ∧
        ∀ snapshot, net₁.ClosedPath snapshot 0 1 ↔ net.ClosedPath snapshot 0 1 ∨
          (contacts ≠ [] ∧ ∀ c ∈ contacts, c.isClosed snapshot = true) := by
      by_cases hempty : contacts = []
      · subst hempty
        refine ⟨net, rfl, h, fun e he => .inl he, fun snapshot => ?_⟩
        simp
      · obtain ⟨net₁, last, hfold, hforked, hedges, hpath⟩ := h.branch contacts.length hempty (Nat.zero_add _)
          (by decide) (Nat.lt_of_lt_of_le Nat.zero_lt_two h.two_le)
        refine ⟨net₁, ?_, hforked, hedges, fun snapshot => ?_⟩
        · unfold addBranch
          rw [hfold]
          rfl
        · rw [hpath]
          have hstart : net.ClosedPath snapshot 0 0 := .refl
          simp only [hstart, true_and, hempty, ne_eq, not_false_eq_true]
    obtain ⟨net₁, hstep, hforked, hedges, hpath⟩ := hbranch
    obtain ⟨net', hfold, hforked', hedges', hpath'⟩ := ih hforked
    refine ⟨net', ?_, hforked', ?_, ?_⟩
    · rw [foldlM_cons, hstep]
      exact hfold
    · intro e he
      rcases hedges' e he with hmid | ⟨b, hb, hlater⟩
      · rcases hedges e hmid with hold | hnew
        · exact .inl hold
        · exact .inr ⟨contacts, mem_cons_self, hnew⟩
      · exact .inr ⟨b, mem_cons_of_mem _ hb, hlater⟩
    · intro snapshot
      rw [hpath', hpath, or_assoc]
      simp only [mem_cons, exists_eq_or_imp]

/-! ## The order -/

theorem Forked.acyclic (h : Forked net) : net.graph.Acyclic := by
  refine @FlowGraph.acyclic_of_rank _ _ _ (fun n => if n = 1 then net.nodes else n) ?_
  intro e he
  show (if e.source = 1 then net.nodes else e.source) < if e.target = 1 then net.nodes else e.target
  rw [if_neg (h.source_ne e he)]
  by_cases htarget : e.target = 1
  · rw [if_pos htarget]
    exact h.source_lt e he
  · rw [if_neg htarget]
    exact h.upward e he htarget

/-- The order visits every node but an output without edges, so no closed path is missed. -/
theorem Forked.visited (h : Forked net) {n : NodeId} (hlt : n < net.nodes) (hne : n ≠ 1) : net.Visited 0 n := by
  unfold ContactNetwork.Visited
  rw [if_pos h.dirty]
  induction n using Nat.strongRecOn with
  | ind n ih =>
    by_cases hzero : n = 0
    · rw [hzero]
      exact .root (mem_singleton_self 0)
    · have hgt : 1 < n := Nat.lt_of_le_of_ne (Nat.pos_of_ne_zero hzero) (Ne.symm hne)
      obtain ⟨e, he, htgt⟩ := h.entered n hgt hlt
      refine .node ⟨e, he, htgt⟩ ?_
      intro e' he' htgt'
      have hup := h.upward e' he' (fun hone => hne (htgt'.symm.trans hone))
      exact ih e'.source (htgt' ▸ hup) (h.source_lt e' he') (h.source_ne e' he')

theorem Forked.visitedPath_iff (h : Forked net) : net.VisitedPath snapshot 0 1 ↔ net.ClosedPath snapshot 0 1 := by
  constructor
  · exact ClosedPath.of_visited
  · intro hpath
    refine Relation.ReflTransGen.mono ?_ 0 1 hpath
    rintro u v ⟨e, he, rfl, hrest⟩
    exact ⟨h.visited (h.source_lt e he) (h.source_ne e he), e, he, rfl, hrest⟩

end ContactNetwork

theorem buildParallelNetwork_eq (branches : List (List Contact)) :
    ∃ net, buildParallelNetwork branches = some net ∧ net.Forked ∧
      (∀ e ∈ net.edges, ∃ b ∈ branches, e.contact ∈ b) ∧
      ∀ snapshot, net.ClosedPath snapshot 0 1 ↔ ∃ b ∈ branches, b ≠ [] ∧ ∀ c ∈ b, c.isClosed snapshot = true := by
  obtain ⟨net, hfold, hforked, hedges, hpath⟩ := ContactNetwork.Forked.start.branches branches
  refine ⟨net, hfold, hforked, ?_, ?_⟩
  · intro e he
    exact (hedges e he).resolve_left not_mem_nil
  · intro snapshot
    rw [hpath, or_iff_right]
    intro hstart
    rcases Relation.ReflTransGen.cases_tail hstart with heq | ⟨_, _, e, he, _⟩
    · cases heq
    · cases he

/-- **Branches in parallel** of level contacts: the power at the output says whether some branch has all its contacts
closed, exactly if no branch is empty or some branch with a contact has them all closed. -/
theorem parallel_power_iff {branches : List (List Contact)} (hlevel : ∀ b ∈ branches, ∀ c ∈ b, c.IsLevel) :
    ∃ net, buildParallelNetwork branches = some net ∧ ∀ fuel, net.nodes ≤ fuel → ∀ snapshot es,
      ∃ r, evaluatePowerFlow fuel net snapshot es = some r ∧
        ((r.power = true ↔ ∃ b ∈ branches, ∀ c ∈ b, c.isClosed snapshot = true) ↔
          ([] ∉ branches ∨ ∃ b ∈ branches, b ≠ [] ∧ ∀ c ∈ b, c.isClosed snapshot = true)) := by
  obtain ⟨net, hnet, hforked, hedges, hpath⟩ := buildParallelNetwork_eq branches
  refine ⟨net, hnet, ?_⟩
  intro fuel hfuel snapshot es
  have hlevel' : ∀ e ∈ net.edges, e.contact.IsLevel := by
    intro e he
    obtain ⟨b, hb, hc⟩ := hedges e he
    exact hlevel b hb e.contact hc
  obtain ⟨r, heval, hpower⟩ :=
    power_iff hforked.built.formed hforked.acyclic hlevel' hforked.rail hforked.output snapshot es hfuel
  refine ⟨r, heval, ?_⟩
  rw [hpower, hforked.visitedPath_iff, hpath]
  constructor
  · intro h
    by_cases hempty : [] ∈ branches
    · -- an empty branch has all its contacts closed
      exact .inr (h.2 ⟨[], hempty, fun c hc => absurd hc not_mem_nil⟩)
    · exact .inl hempty
  · rintro (hempty | hsome)
    · constructor
      · rintro ⟨b, hb, _, hclosed⟩
        exact ⟨b, hb, hclosed⟩
      · rintro ⟨b, hb, hclosed⟩
        exact ⟨b, hb, fun hnil => hempty (hnil ▸ hb), hclosed⟩
    · refine ⟨fun _ => ?_, fun _ => hsome⟩
      obtain ⟨b, hb, _, hclosed⟩ := hsome
      exact ⟨b, hb, hclosed⟩

/-- Two branches, one of them with two contacts. -/
theorem parallel_power_two :
    ∃ net, buildParallelNetwork [[.no "x"], [.nc "y", .no "z"]] = some net ∧ ∀ fuel, net.nodes ≤ fuel → ∀ snapshot es,
      ∃ r, evaluatePowerFlow fuel net snapshot es = some r ∧
        ((r.power = true ↔ ∃ b ∈ [[Contact.no "x"], [.nc "y", .no "z"]], ∀ c ∈ b, c.isClosed snapshot = true) ↔
          ([] ∉ [[Contact.no "x"], [.nc "y", .no "z"]] ∨
            ∃ b ∈ [[Contact.no "x"], [.nc "y", .no "z"]], b ≠ [] ∧ ∀ c ∈ b, c.isClosed snapshot = true)) := by
  refine parallel_power_iff ?_
  intro b hb c hc
  rw [mem_cons, mem_singleton] at hb
  rcases hb with rfl | rfl
  · rw [mem_singleton] at hc
    subst hc
    trivial
  · rw [mem_cons, mem_singleton] at hc
    rcases hc with rfl | rfl
    · trivial
    · trivial

/-- **An empty branch** beside an open contact is no wire; in series no contacts are one. -/
theorem empty_branch_unpowered :
    ((buildParallelNetwork [[.no "y"], []]).bind fun net => evaluatePowerFlow 2 net onlyX .new).map FlowResult.power =
        some false ∧
      (∃ b ∈ [[Contact.no "y"], []], ∀ c ∈ b, c.isClosed onlyX = true) ∧
      ((buildSerialNetwork []).bind fun net => evaluatePowerFlow 2 net onlyX .new).map FlowResult.power = some true := by
  refine ⟨by decide, ?_, by decide⟩
  exact ⟨[], mem_cons_of_mem _ mem_cons_self, fun c hc => absurd hc not_mem_nil⟩

end Audesys.Ld
