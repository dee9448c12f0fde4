import Mathlib.Data.Fintype.Card
import Mathlib.Data.Fintype.EquivFin
import Mathlib.Data.Fintype.Sets
import Mathlib.Data.List.Induction
import Mathlib.Data.List.Perm.Subperm
import Mathlib.Logic.Relation

/-!
# `Lib.Kahn` — sorting a graph from some roots, and spreading along the order

A directed multigraph as a list of edges. `orderLoop` is Kahn's algorithm with a stack, started from given roots
while the in-degrees count all edges: a node is taken once every edge into it has been taken. The nodes it
takes are the **fed** ones, the roots and whatever has edges from fed nodes only, and each comes after the
sources of its edges (`IsOrder`). Spreading a mark along that order, over the edges that are open, reaches a node
exactly if a path of open edges leads to it through nodes of the order (`spread_iff`).
-/

open List

namespace Audesys.Lib

/-- A finite directed multigraph. -/
structure FlowGraph (V E : Type) where
  edges : List E
  src : E → V
  tgt : E → V

namespace FlowGraph

variable {V E : Type} [DecidableEq V] (g : FlowGraph V E)

def out (u : V) : List E := g.edges.filter fun e => g.src e = u

/-- An edge from `u` to `v`. -/
def Edge (u v : V) : Prop := ∃ e ∈ g.edges, g.src e = u ∧ g.tgt e = v

def Acyclic : Prop := ∀ v, ¬ Relation.TransGen g.Edge v v

/-- No root can be reached from a root by at least one edge. -/
def Rooted (roots : List V) : Prop := ∀ r ∈ roots, ∀ r' ∈ roots, ¬ Relation.TransGen g.Edge r' r

/-- The roots, and every node with edges into it, all of them from fed nodes. -/
inductive Fed (roots : List V) : V → Prop
  | root {t : V} : t ∈ roots → Fed roots t
  | node {t : V} : (∃ e ∈ g.edges, g.tgt e = t) → (∀ e ∈ g.edges, g.tgt e = t → Fed roots (g.src e)) → Fed roots t

/-! ## The algorithm -/

/-- Count off the edges, and push the targets whose count reaches zero. -/
def relax : List E → List V × (V → Nat) → List V × (V → Nat)
  | [], s => s
  | e :: es, (queue, deg) =>
    let deg := Function.update deg (g.tgt e) (deg (g.tgt e) - 1)
    relax es (if deg (g.tgt e) = 0 then g.tgt e :: queue else queue, deg)

/-- Take nodes off the stack until it is empty, or the fuel is out. -/
def orderLoop (succ : V → List E) : Nat → List V → (V → Nat) → List V → Option (List V)
  | _, [], _, order => some order
  | 0, _ :: _, _, _ => none
  | fuel + 1, node :: queue, deg, order =>
    let s := g.relax (succ node) (queue, deg)
    orderLoop succ fuel s.1 s.2 (order ++ [node])

/-- The edges into `t` from outside `done`. -/
def remaining (done : List V) (t : V) : Nat := g.edges.countP fun e => decide (g.tgt e = t) && decide (g.src e ∉ done)

/-- How often `t` is the target of one of the edges. -/
def hits (es : List E) (t : V) : Nat := es.countP fun e => g.tgt e = t

variable {g} {roots : List V}

omit [DecidableEq V] in
/-- Edges that go up a rank close no cycle. -/
theorem acyclic_of_rank {rank : V → Nat} (h : ∀ e ∈ g.edges, rank (g.src e) < rank (g.tgt e)) : g.Acyclic := by
  have hlt : ∀ u v, Relation.TransGen g.Edge u v → rank u < rank v := by
    intro u v hpath
    induction hpath with
    | single hedge =>
      obtain ⟨e, he, rfl, rfl⟩ := hedge
      exact h e he
    | tail _ hedge ih =>
      obtain ⟨e, he, rfl, rfl⟩ := hedge
      exact Nat.lt_trans ih (h e he)
  intro v hcycle
  exact Nat.lt_irrefl _ (hlt v v hcycle)

/-! ## Counting -/

theorem hits_cons (e : E) (es : List E) (t : V) :
    g.hits (e :: es) t = g.hits es t + if g.tgt e = t then 1 else 0 := by
  simp [hits, countP_cons]

theorem hits_pos {es : List E} {t : V} : 0 < g.hits es t ↔ ∃ e ∈ es, g.tgt e = t := by
  simp [hits]

theorem remaining_eq_zero {done : List V} {t : V} :
    g.remaining done t = 0 ↔ ∀ e ∈ g.edges, g.tgt e = t → g.src e ∈ done := by
  unfold remaining
  rw [countP_eq_zero]
  constructor
  · intro h e he ht
    by_contra hsrc
    exact h e he (by simp [ht, hsrc])
  · intro h e he
    simp
    exact h e he

/-- Taking `u` counts off its edges. -/
theorem remaining_snoc {done : List V} {u : V} (hu : u ∉ done) (t : V) :
    g.remaining (done ++ [u]) t + g.hits (g.out u) t = g.remaining done t := by
  unfold remaining out hits
  rw [countP_filter]
  induction g.edges with
  | nil => rfl
  | cons e es ih =>
    simp [countP_cons] at ih ⊢
    by_cases ht : g.tgt e = t
    · by_cases hs : g.src e = u
      · simp [ht, hs, hu]
        omega
      · simp [ht, hs]
        omega
    · simp [ht]
      exact ih

/-- Counting off edges: each push is of a target whose last edge this is. -/
theorem relax_spec (es : List E) (queue : List V) (deg : V → Nat) (h : ∀ t, g.hits es t ≤ deg t) :
    (∀ t, (g.relax es (queue, deg)).2 t + g.hits es t = deg t) ∧
    ∃ pushed, (g.relax es (queue, deg)).1 = pushed ++ queue ∧ pushed.Nodup ∧
      ∀ t, t ∈ pushed ↔ 0 < g.hits es t ∧ deg t = g.hits es t := by
  induction es generalizing queue deg with
  | nil => exact ⟨fun t => rfl, [], rfl, nodup_nil, fun t => by simp [hits]⟩
  | cons e es ih =>
    obtain ⟨deg', hdeg'⟩ : ∃ deg', deg' = Function.update deg (g.tgt e) (deg (g.tgt e) - 1) := ⟨_, rfl⟩
    -- the count of the target is at least one, so nothing saturates
    have hstep : ∀ t, deg t = deg' t + if g.tgt e = t then 1 else 0 := by
      intro t
      have ht := h t
      rw [hits_cons] at ht
      by_cases heq : g.tgt e = t
      · subst heq
        rw [hdeg', Function.update_self, if_pos rfl]
        rw [if_pos rfl] at ht
        omega
      · rw [hdeg', Function.update_of_ne (Ne.symm heq), if_neg heq, Nat.add_zero]
    have hle : ∀ t, g.hits es t ≤ deg' t := by
      intro t
      have ht := h t
      have hs := hstep t
      rw [hits_cons] at ht
      omega
    obtain ⟨hdeg, pushed, hqueue, hnodup, hmem⟩ := ih (if deg' (g.tgt e) = 0 then g.tgt e :: queue else queue) deg' hle
    have hrelax : g.relax (e :: es) (queue, deg) =
        g.relax es (if deg' (g.tgt e) = 0 then g.tgt e :: queue else queue, deg') := by
      rw [hdeg']
      rfl
    rw [hrelax]
    refine ⟨?_, ?_⟩
    · intro t
      have hd := hdeg t
      have hs := hstep t
      rw [hits_cons]
      omega
    · rw [hqueue]
      split
      · -- the last edge into this target
        rename_i hzero
        have hfresh : g.tgt e ∉ pushed := by
          intro hin
          have := (hmem _).1 hin
          omega
        refine ⟨pushed ++ [g.tgt e], by rw [List.append_assoc, singleton_append], ?_, ?_⟩
        · rw [nodup_append]
          refine ⟨hnodup, by simp, ?_⟩
          intro a ha b hb hab
          rw [mem_singleton] at hb
          exact hfresh (hb ▸ hab ▸ ha)
        · intro t
          have hs := hstep t
          have hl := hle t
          rw [mem_append, mem_singleton, hmem, hits_cons]
          by_cases heq : g.tgt e = t
          · subst heq
            rw [if_pos rfl] at hs ⊢
            constructor
            · intro _
              omega
            · intro _
              exact .inr rfl
          · rw [if_neg heq] at hs ⊢
            rw [or_iff_left (fun ht => heq ht.symm)]
            omega
      · rename_i hpos
        refine ⟨pushed, rfl, hnodup, ?_⟩
        intro t
        have hs := hstep t
        have hl := hle t
        rw [hmem, hits_cons]
        by_cases heq : g.tgt e = t
        · subst heq
          rw [if_pos rfl] at hs ⊢
          omega
        · rw [if_neg heq] at hs ⊢
          omega

/-! ## The order -/

omit [DecidableEq V] in
/-- A fed node can be reached from a root. -/
theorem Fed.reach {t : V} (h : g.Fed roots t) : ∃ r ∈ roots, Relation.ReflTransGen g.Edge r t := by
  induction h with
  | root hr => exact ⟨_, hr, .refl⟩
  | node hin _ ih =>
    obtain ⟨e, he, ht⟩ := hin
    obtain ⟨r, hr, hpath⟩ := ih e he ht
    exact ⟨r, hr, hpath.tail ⟨e, he, rfl, ht⟩⟩

omit [DecidableEq V] in
/-- A fed node has no edge to a root. -/
theorem Rooted.not_edge (h : g.Rooted roots) {u r : V} (hu : g.Fed roots u) (hr : r ∈ roots) : ¬ g.Edge u r := by
  intro hedge
  obtain ⟨r', hr', hpath⟩ := hu.reach
  exact h r hr r' hr' (.tail' hpath hedge)

variable (g) in
/-- No root has edges from fed nodes only, so none is pushed a second time. -/
def Unfed (roots : List V) : Prop :=
  ∀ r ∈ roots, (∃ e ∈ g.edges, g.tgt e = r) → ∃ e ∈ g.edges, g.tgt e = r ∧ ¬ g.Fed roots (g.src e)

omit [DecidableEq V] in
theorem Rooted.unfed (h : g.Rooted roots) : g.Unfed roots := by
  rintro r hr ⟨e, he, ht⟩
  exact ⟨e, he, ht, fun hfed => h.not_edge hfed hr ⟨e, he, rfl, ht⟩⟩

/-- Every node comes after the sources of its edges, the roots apart. -/
def Sorted (g : FlowGraph V E) (roots order : List V) : Prop :=
  ∀ pre u post, order = pre ++ u :: post → u ∈ roots ∨ ∀ e ∈ g.edges, g.tgt e = u → g.src e ∈ pre

omit [DecidableEq V] in
theorem Sorted.snoc {order : List V} {node : V} (h : g.Sorted roots order)
    (hnode : node ∈ roots ∨ ∀ e ∈ g.edges, g.tgt e = node → g.src e ∈ order) : g.Sorted roots (order ++ [node]) := by
  intro pre u post heq
  rcases eq_nil_or_concat post with rfl | ⟨init, x, rfl⟩
  · obtain ⟨rfl, hu⟩ := append_inj' heq rfl
    cases hu
    exact hnode
  · rw [concat_eq_append, ← cons_append, ← List.append_assoc] at heq
    obtain ⟨hinit, _⟩ := append_inj' heq rfl
    exact h pre u init hinit

/-- What the loop maintains: `order` are the nodes taken, `queue` those that wait. -/
structure KahnInv (g : FlowGraph V E) (roots queue : List V) (deg : V → Nat) (order : List V) : Prop where
  nodup : (order ++ queue).Nodup
  deg : ∀ t, deg t = g.remaining order t
  rootsIn : ∀ r ∈ roots, r ∈ order ++ queue
  fed : ∀ t ∈ order ++ queue, g.Fed roots t
  sources : ∀ t ∈ order ++ queue, t ∈ roots ∨ ∀ e ∈ g.edges, g.tgt e = t → g.src e ∈ order
  complete : ∀ t, (∃ e ∈ g.edges, g.tgt e = t) → (∀ e ∈ g.edges, g.tgt e = t → g.src e ∈ order) → t ∈ order ++ queue
  sorted : g.Sorted roots order

theorem KahnInv.init (hnodup : roots.Nodup) : KahnInv g roots roots (g.remaining []) [] where
  nodup := hnodup
  deg _ := rfl
  rootsIn _ hr := hr
  fed _ ht := .root ht
  sources _ ht := .inl ht
  complete t hin hall := by
    obtain ⟨e, he, ht⟩ := hin
    cases hall e he ht
  sorted pre u post h := by
    cases pre <;> cases h

theorem mem_out {u : V} {e : E} : e ∈ g.out u ↔ e ∈ g.edges ∧ g.src e = u := by
  simp [out]

/-- **One step** takes the node on top of the stack. -/
theorem KahnInv.step (hunfed : g.Unfed roots) {node : V} {queue order : List V} {deg : V → Nat}
    (h : KahnInv g roots (node :: queue) deg order) :
    KahnInv g roots (g.relax (g.out node) (queue, deg)).1 (g.relax (g.out node) (queue, deg)).2 (order ++ [node]) := by
  have hnew : node ∉ order := by
    intro hin
    have := nodup_append.1 h.nodup
    exact this.2.2 node hin node mem_cons_self rfl
  have hcount : ∀ t, g.remaining (order ++ [node]) t + g.hits (g.out node) t = deg t := by
    intro t
    rw [remaining_snoc hnew, h.deg]
  have hle : ∀ t, g.hits (g.out node) t ≤ deg t := by
    intro t
    have := hcount t
    omega
  obtain ⟨hdeg, pushed, hqueue, hnodup, hmem⟩ := relax_spec (g.out node) queue deg hle
  -- a pushed node has just lost its last edge
  have hpushed : ∀ t, t ∈ pushed ↔ (∃ e ∈ g.out node, g.tgt e = t) ∧
      ∀ e ∈ g.edges, g.tgt e = t → g.src e ∈ order ++ [node] := by
    intro t
    have hc := hcount t
    rw [hmem, hits_pos, ← remaining_eq_zero]
    constructor
    · rintro ⟨hin, heq⟩
      exact ⟨hin, by omega⟩
    · rintro ⟨hin, heq⟩
      exact ⟨hin, by omega⟩
  have hnode : g.Fed roots node := h.fed node (mem_append_right _ mem_cons_self)
  have hfed : ∀ t ∈ order ++ [node], g.Fed roots t := by
    intro t ht
    rcases mem_append.1 ht with hin | hin
    · exact h.fed t (mem_append_left _ hin)
    · exact mem_singleton.1 hin ▸ hnode
  -- and was not there before: a root keeps an edge from a node that is never taken
  have hfresh : ∀ t ∈ pushed, t ∉ order ++ node :: queue := by
    intro t ht hold
    obtain ⟨⟨e, he, hte⟩, hsources⟩ := (hpushed t).1 ht
    obtain ⟨hedge, hsrc⟩ := mem_out.1 he
    rcases h.sources t hold with hroot | hall
    · obtain ⟨e', he', hte', hnot⟩ := hunfed t hroot ⟨e, hedge, hte⟩
      exact hnot (hfed _ (hsources e' he' hte'))
    · exact hnew (hsrc ▸ hall e hedge hte)
  have hmem' : ∀ t, t ∈ (order ++ [node]) ++ (pushed ++ queue) ↔ t ∈ order ++ node :: queue ∨ t ∈ pushed := by
    intro t
    simp
    tauto
  rw [hqueue]
  refine ⟨?_, ?_, ?_, ?_, ?_, ?_, ?_⟩
  · have hperm : ((order ++ [node]) ++ (pushed ++ queue)).Perm (pushed ++ (order ++ node :: queue)) := by
      have h := perm_append_comm_assoc (order ++ [node]) pushed queue
      rwa [List.append_assoc order [node] queue, singleton_append] at h
    rw [hperm.nodup_iff, nodup_append]
    refine ⟨hnodup, h.nodup, ?_⟩
    rintro a ha b hb rfl
    exact hfresh a ha hb
  · intro t
    have hc := hcount t
    have hd := hdeg t
    omega
  · intro r hr
    rw [hmem']
    exact .inl (h.rootsIn r hr)
  · intro t ht
    rcases (hmem' t).1 ht with hold | hp
    · exact h.fed t hold
    · obtain ⟨⟨e, he, hte⟩, hall⟩ := (hpushed t).1 hp
      exact .node ⟨e, (mem_out.1 he).1, hte⟩ fun e' he' hte' => hfed _ (hall e' he' hte')
  · intro t ht
    rcases (hmem' t).1 ht with hold | hp
    · rcases h.sources t hold with hroot | hall
      · exact .inl hroot
      · exact .inr fun e he hte => mem_append_left _ (hall e he hte)
    · exact .inr ((hpushed t).1 hp).2
  · intro t hin hall
    rw [hmem']
    by_cases hold : ∀ e ∈ g.edges, g.tgt e = t → g.src e ∈ order
    · exact .inl (h.complete t hin hold)
    · -- some edge comes from the node just taken
      refine .inr ((hpushed t).2 ⟨?_, hall⟩)
      simp only [not_forall] at hold
      obtain ⟨e, he, hte, hsrc⟩ := hold
      have hlast : g.src e = node := by
        rcases mem_append.1 (hall e he hte) with hin | hin
        · exact absurd hin hsrc
        · exact mem_singleton.1 hin
      exact ⟨e, mem_out.2 ⟨he, hlast⟩, hte⟩
  · exact h.sorted.snoc (h.sources node (mem_append_right _ mem_cons_self))

/-- An empty stack: exactly the fed nodes were taken. -/
theorem KahnInv.done {deg : V → Nat} {order : List V} (h : KahnInv g roots [] deg order) (t : V) :
    t ∈ order ↔ g.Fed roots t := by
  constructor
  · intro ht
    exact h.fed t (mem_append_left _ ht)
  · intro ht
    induction ht with
    | root hr =>
      have hin := h.rootsIn _ hr
      rwa [List.append_nil] at hin
    | node hin _ ih =>
      have hall := h.complete _ hin ih
      rwa [List.append_nil] at hall

/-- No node is taken or waits twice. -/
theorem KahnInv.length_le {queue order nodes : List V} {deg : V → Nat} (h : KahnInv g roots queue deg order)
    (hroots : ∀ r ∈ roots, r ∈ nodes) (hnodes : ∀ e ∈ g.edges, g.tgt e ∈ nodes) : order.length + queue.length ≤ nodes.length := by
  have hsub : order ++ queue ⊆ nodes := by
    intro t ht
    cases h.fed t ht with
    | root hr => exact hroots t hr
    | node hin _ =>
      obtain ⟨e, he, hte⟩ := hin
      exact hte ▸ hnodes e he
  have hlen := (subperm_of_subset h.nodup hsub).length_le
  rwa [length_append] at hlen

variable (g) in
/-- `order` is an order that Kahn's algorithm may compute from the roots. -/
structure IsOrder (roots order : List V) : Prop where
  rooted : g.Rooted roots
  mem_iff : ∀ t, t ∈ order ↔ g.Fed roots t
  sorted : g.Sorted roots order

theorem orderLoop_sound (hrooted : g.Rooted roots) (fuel : Nat) (queue : List V) (deg : V → Nat) (order : List V)
    (hinv : KahnInv g roots queue deg order) {order' : List V}
    (h : g.orderLoop g.out fuel queue deg order = some order') : g.IsOrder roots order' := by
  induction fuel generalizing queue deg order with
  | zero =>
    cases queue with
    | nil =>
      cases h
      exact ⟨hrooted, hinv.done, hinv.sorted⟩
    | cons node queue => cases h
  | succ fuel ih =>
    cases queue with
    | nil =>
      cases h
      exact ⟨hrooted, hinv.done, hinv.sorted⟩
    | cons node queue => exact ih _ _ _ (hinv.step hrooted.unfed) h

/-- **The order** is computed, and takes no node twice. -/
theorem orderLoop_total (hunfed : g.Unfed roots) {nodes : List V} (hroots : ∀ r ∈ roots, r ∈ nodes)
    (hnodes : ∀ e ∈ g.edges, g.tgt e ∈ nodes) {fuel : Nat} (hfuel : nodes.length ≤ fuel) (hnodup : roots.Nodup) :
    ∃ order, g.orderLoop g.out fuel roots (g.remaining []) [] = some order ∧ order.Nodup := by
  suffices hgen : ∀ fuel queue deg order, KahnInv g roots queue deg order → nodes.length ≤ order.length + fuel →
      ∃ order', g.orderLoop g.out fuel queue deg order = some order' ∧ order'.Nodup by
    refine hgen fuel roots _ [] (.init hnodup) ?_
    rw [length_nil, Nat.zero_add]
    exact hfuel
  have hempty : ∀ deg order, KahnInv g roots [] deg order → order.Nodup := by
    intro deg order hinv
    have hall := hinv.nodup
    rwa [List.append_nil] at hall
  intro fuel
  induction fuel with
  | zero =>
    intro queue deg order hinv hlen
    have hbound := hinv.length_le hroots hnodes
    cases queue with
    | nil => exact ⟨order, rfl, hempty deg order hinv⟩
    | cons node queue =>
      rw [length_cons] at hbound
      omega
  | succ fuel ih =>
    intro queue deg order hinv hlen
    cases queue with
    | nil => exact ⟨order, rfl, hempty deg order hinv⟩
    | cons node queue =>
      refine ih _ _ _ (hinv.step hunfed) ?_
      rw [length_append, length_singleton]
      omega

/-! ## With a queue -/

/-- Which of the waiting nodes comes first does not matter. -/
theorem KahnInv.perm {queue queue' order : List V} {deg : V → Nat} (h : KahnInv g roots queue deg order)
    (hperm : queue.Perm queue') : KahnInv g roots queue' deg order := by
  have hall : (order ++ queue).Perm (order ++ queue') := hperm.append_left order
  exact {
    nodup := hall.nodup_iff.1 h.nodup
    deg := h.deg
    rootsIn := fun r hr => hall.subset (h.rootsIn r hr)
    fed := fun t ht => h.fed t (hall.symm.subset ht)
    sources := fun t ht => h.sources t (hall.symm.subset ht)
    complete := fun t hin hsrc => hall.subset (h.complete t hin hsrc)
    sorted := h.sorted }

variable (g) in
/-- Count off the edges, and append the targets whose count reaches zero. Counts may go below zero. -/
def relaxQueue : List E → List V × (V → Int) → List V × (V → Int)
  | [], s => s
  | e :: es, (queue, deg) =>
    let deg := Function.update deg (g.tgt e) (deg (g.tgt e) - 1)
    relaxQueue es (if deg (g.tgt e) = 0 then queue ++ [g.tgt e] else queue, deg)

variable (g) in
/-- Take nodes from the front of the queue until it is empty, or the fuel is out. -/
def queueLoop : Nat → List V → (V → Int) → List V → Option (List V)
  | _, [], _, order => some order
  | 0, _ :: _, _, _ => none
  | fuel + 1, node :: queue, deg, order =>
    let s := g.relaxQueue (g.out node) (queue, deg)
    queueLoop fuel s.1 s.2 (order ++ [node])

variable (g) in
/-- The counts are those of the targets of edges. -/
def Counts (count : V → Int) (deg : V → Nat) : Prop := ∀ e ∈ g.edges, count (g.tgt e) = deg (g.tgt e)

/-- Counting off with a queue: the same counts, and the same nodes wait. -/
theorem relaxQueue_spec (es : List E) {queue queue' : List V} {count : V → Int} {deg : V → Nat}
    (hes : ∀ e ∈ es, e ∈ g.edges) (hcount : g.Counts count deg) (hperm : queue'.Perm queue)
    (h : ∀ t, g.hits es t ≤ deg t) :
    (g.relaxQueue es (queue', count)).1.Perm (g.relax es (queue, deg)).1 ∧
      g.Counts (g.relaxQueue es (queue', count)).2 (g.relax es (queue, deg)).2 := by
  induction es generalizing queue queue' count deg with
  | nil => exact ⟨hperm, hcount⟩
  | cons e es ih =>
    have hpos : 1 ≤ deg (g.tgt e) := by
      have he := h (g.tgt e)
      rw [hits_cons, if_pos rfl] at he
      omega
    have hcount' : g.Counts (Function.update count (g.tgt e) (count (g.tgt e) - 1))
        (Function.update deg (g.tgt e) (deg (g.tgt e) - 1)) := by
      intro e' he'
      by_cases heq : g.tgt e' = g.tgt e
      · rw [heq, Function.update_self, Function.update_self, hcount e (hes e (mem_cons_self ..))]
        omega
      · rw [Function.update_of_ne heq, Function.update_of_ne heq]
        exact hcount e' he'
    have hzero := hcount' e (hes e (mem_cons_self ..))
    rw [relaxQueue, relax]
    apply ih
    · exact fun e' he' => hes e' (mem_cons_of_mem _ he')
    · exact hcount'
    · by_cases hlast : Function.update deg (g.tgt e) (deg (g.tgt e) - 1) (g.tgt e) = 0
      · have hlast' : Function.update count (g.tgt e) (count (g.tgt e) - 1) (g.tgt e) = 0 := by omega
        rw [if_pos hlast, if_pos hlast']
        exact (perm_append_singleton _ _).trans (hperm.cons _)
      · have hlast' : ¬ Function.update count (g.tgt e) (count (g.tgt e) - 1) (g.tgt e) = 0 := by omega
        rw [if_neg hlast, if_neg hlast']
        exact hperm
    · intro t
      have ht := h t
      rw [hits_cons] at ht
      by_cases heq : g.tgt e = t
      · rw [if_pos heq] at ht
        rw [heq, Function.update_self]
        omega
      · rw [if_neg heq] at ht
        rw [Function.update_of_ne (Ne.symm heq)]
        omega

/-- **The order with a queue** is computed, and takes the fed nodes in an order that the edges respect. -/
theorem queueLoop_total (hrooted : g.Rooted roots) {nodes : List V} (hroots : ∀ r ∈ roots, r ∈ nodes)
    (hnodes : ∀ e ∈ g.edges, g.tgt e ∈ nodes) (fuel : Nat) {queue order : List V} {count : V → Int} {deg : V → Nat}
    (hinv : KahnInv g roots queue deg order) (hcount : g.Counts count deg)
    (hlen : nodes.length ≤ order.length + fuel) :
    ∃ order' deg', g.queueLoop fuel queue count order = some order' ∧ KahnInv g roots [] deg' order' := by
  induction fuel generalizing queue order count deg with
  | zero =>
    have hbound := hinv.length_le hroots hnodes
    cases queue with
    | nil => exact ⟨order, deg, rfl, hinv⟩
    | cons node queue =>
      rw [length_cons] at hbound
      omega
  | succ fuel ih =>
    cases queue with
    | nil => exact ⟨order, deg, rfl, hinv⟩
    | cons node queue =>
      have hnew : node ∉ order := fun hin => (nodup_append.1 hinv.nodup).2.2 node hin node mem_cons_self rfl
      have hle : ∀ t, g.hits (g.out node) t ≤ deg t := by
        intro t
        rw [hinv.deg, ← remaining_snoc hnew]
        exact Nat.le_add_left ..
      obtain ⟨hperm, hcount'⟩ := relaxQueue_spec (g.out node) (fun e he => (mem_out.1 he).1) hcount
        (List.Perm.refl queue) hle
      apply ih ((hinv.step hrooted.unfed).perm hperm.symm) hcount'
      rw [length_append, length_singleton]
      omega

/-! ## Acyclic graphs -/

/-- Without cycles every node is fed from the nodes that no edge leads to. -/
theorem Acyclic.fed (h : g.Acyclic) {nodes : List V} (hnodes : ∀ e ∈ g.edges, g.src e ∈ nodes)
    (hroots : ∀ t ∈ nodes, t ∈ roots ∨ ∃ e ∈ g.edges, g.tgt e = t) : ∀ t ∈ nodes, g.Fed roots t := by
  have hwf : WellFounded fun u v : { t // t ∈ nodes } => Relation.TransGen g.Edge u v := by
    have htrans : IsTrans { t // t ∈ nodes } fun u v => Relation.TransGen g.Edge u v :=
      ⟨fun _ _ _ => Relation.TransGen.trans⟩
    have hirrefl : Std.Irrefl fun u v : { t // t ∈ nodes } => Relation.TransGen g.Edge u v := ⟨fun v => h v⟩
    have hfinite : Finite { t // t ∈ nodes } := Finite.of_fintype _
    exact Finite.wellFounded_of_trans_of_irrefl _
  intro t ht
  -- on the nodes before, along the edges
  induction hx : (⟨t, ht⟩ : { t // t ∈ nodes }) using hwf.induction generalizing t with
  | h x ih =>
    subst hx
    by_cases hroot : t ∈ roots
    · exact .root hroot
    · apply Fed.node
      · exact (hroots t ht).resolve_left hroot
      · intro e he htgt
        exact ih ⟨g.src e, hnodes e he⟩ (.single ⟨e, he, rfl, htgt⟩) (g.src e) (hnodes e he) rfl

/-! ## Spreading along the order -/

variable (g) in
/-- Mark the targets of the open edges of a marked node. -/
def spread (isOpen : E → Bool) (mark : V → Bool) (node : V) : V → Bool :=
  if mark node then
    (g.out node).foldl (fun m e => Function.update m (g.tgt e) (m (g.tgt e) || isOpen e)) mark
  else mark

variable (g) in
/-- An open edge. -/
def OpenEdge (isOpen : E → Bool) (u v : V) : Prop := ∃ e ∈ g.edges, g.src e = u ∧ g.tgt e = v ∧ isOpen e = true

variable (g) in
/-- A path of open edges whose nodes, the last one apart, are visited. -/
def VisitedPath (visited : V → Prop) (isOpen : E → Bool) : V → V → Prop :=
  Relation.ReflTransGen fun u v => visited u ∧ g.OpenEdge isOpen u v

variable {isOpen : E → Bool}

theorem foldl_marks (es : List E) (mark : V → Bool) (t : V) :
    es.foldl (fun m e => Function.update m (g.tgt e) (m (g.tgt e) || isOpen e)) mark t = true ↔
      mark t = true ∨ ∃ e ∈ es, g.tgt e = t ∧ isOpen e = true := by
  induction es generalizing mark with
  | nil => simp
  | cons e es ih =>
    rw [foldl_cons, ih]
    by_cases ht : g.tgt e = t
    · subst ht
      simp [or_assoc]
    · simp [Function.update_of_ne (Ne.symm ht), ht]

theorem spread_apply (mark : V → Bool) (node t : V) :
    g.spread isOpen mark node t = true ↔ mark t = true ∨ (mark node = true ∧ g.OpenEdge isOpen node t) := by
  unfold spread OpenEdge
  split
  · rename_i hnode
    rw [foldl_marks]
    simp [mem_out, hnode, and_assoc]
  · rename_i hnode
    simp [hnode]

/-- What is marked when `pre` has been gone through. -/
theorem spread_upto {order : List V} (h : g.IsOrder roots order) (start : V) (pre post : List V)
    (horder : order = pre ++ post) (t : V) :
    pre.foldl (g.spread isOpen) (fun v => decide (v = start)) t = true ↔
      t = start ∨ ∃ s ∈ pre, g.VisitedPath (· ∈ order) isOpen start s ∧ g.OpenEdge isOpen s t := by
  induction pre using List.reverseRecOn generalizing post t with
  | nil => simp
  | append_singleton pre u ih =>
    have hsplit : order = pre ++ u :: post := by rw [horder, List.append_assoc, singleton_append]
    have hpre := ih (u :: post) hsplit
    -- the mark of `u` is final: the sources of its edges come before it
    have hu : pre.foldl (g.spread isOpen) (fun v => decide (v = start)) u = true ↔
        g.VisitedPath (· ∈ order) isOpen start u := by
      rw [hpre]
      constructor
      · rintro (rfl | ⟨s, hs, hpath, hedge⟩)
        · exact .refl
        · refine hpath.tail ⟨?_, hedge⟩
          rw [hsplit]
          exact mem_append_left _ hs
      · intro hpath
        rcases Relation.ReflTransGen.cases_tail hpath with heq | ⟨r, hr, hvisited, hedge⟩
        · exact .inl heq
        · obtain ⟨e, he, hsrc, htgt, _⟩ := id hedge
          have hin : r ∈ pre := by
            rcases h.sorted pre u post hsplit with hroot | hall
            · exact absurd ⟨e, he, hsrc, htgt⟩ (h.rooted.not_edge ((h.mem_iff r).1 hvisited) hroot)
            · exact hsrc ▸ hall e he htgt
          exact .inr ⟨r, hin, hr, hedge⟩
    rw [foldl_append, foldl_cons, foldl_nil, spread_apply, hpre, hu]
    simp only [mem_append, mem_singleton]
    constructor
    · rintro ((h | ⟨s, hs, h⟩) | h)
      · exact .inl h
      · exact .inr ⟨s, .inl hs, h⟩
      · exact .inr ⟨u, .inr rfl, h⟩
    · rintro (h | ⟨s, hs | rfl, h⟩)
      · exact .inl (.inl h)
      · exact .inl (.inr ⟨s, hs, h⟩)
      · exact .inr h

/-- **Spreading** from a node marks the ends of the open paths through the nodes of the order. -/
theorem spread_iff {order : List V} (h : g.IsOrder roots order) (start t : V) :
    order.foldl (g.spread isOpen) (fun v => decide (v = start)) t = true ↔
      g.VisitedPath (· ∈ order) isOpen start t := by
  rw [spread_upto h start order [] (List.append_nil _).symm]
  constructor
  · rintro (rfl | ⟨s, hs, hpath, hedge⟩)
    · exact .refl
    · exact hpath.tail ⟨hs, hedge⟩
  · intro hpath
    rcases Relation.ReflTransGen.cases_tail hpath with heq | ⟨s, hs, hvisited, hedge⟩
    · exact .inl heq
    · exact .inr ⟨s, hvisited, hs, hedge⟩

end FlowGraph

end Audesys.Lib
