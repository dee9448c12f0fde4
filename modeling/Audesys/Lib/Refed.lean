import Audesys.Lib.Kahn

/-!
# `Lib.Refed` — a root that is fed again

Kahn's algorithm from a single root, where all edges into the root come from fed nodes. Counts stop at zero, and a
target is pushed whenever its count is zero after counting off. So a target goes on the stack behind the last of its
sources (`RefedInv.behind`), the root included, and the stack never empties (`orderLoop_none`).
-/

open List

namespace Audesys.Lib.FlowGraph

variable {V E : Type} [DecidableEq V] {g : FlowGraph V E} {roots : List V}
variable {deg : V → Nat}

/-- Counting off edges where the counts may be too small already. -/
theorem relax_saturating (es : List E) (queue : List V) (deg : V → Nat) :
    (∀ t, (g.relax es (queue, deg)).2 t = deg t - g.hits es t) ∧ (∀ t ∈ queue, t ∈ (g.relax es (queue, deg)).1) ∧
      ∀ t, 0 < g.hits es t → deg t ≤ g.hits es t → t ∈ (g.relax es (queue, deg)).1 := by
  induction es generalizing queue deg with
  | nil =>
    refine ⟨fun t => rfl, fun t ht => ht, fun t hpos => ?_⟩
    cases hpos
  | cons e es ih =>
    obtain ⟨deg', hdeg'⟩ : ∃ deg', deg' = Function.update deg (g.tgt e) (deg (g.tgt e) - 1) := ⟨_, rfl⟩
    have hstep : ∀ t, deg' t = deg t - if g.tgt e = t then 1 else 0 := by
      intro t
      by_cases heq : g.tgt e = t
      · subst heq
        rw [hdeg', Function.update_self, if_pos rfl]
      · rw [hdeg', Function.update_of_ne (Ne.symm heq), if_neg heq, Nat.sub_zero]
    obtain ⟨hdeg, hqueue, hpush⟩ := ih (if deg' (g.tgt e) = 0 then g.tgt e :: queue else queue) deg'
    have hrelax : g.relax (e :: es) (queue, deg) =
        g.relax es (if deg' (g.tgt e) = 0 then g.tgt e :: queue else queue, deg') := by
      rw [hdeg']
      rfl
    rw [hrelax]
    refine ⟨?_, ?_, ?_⟩
    · intro t
      rw [hdeg, hstep, hits_cons]
      omega
    · intro t ht
      apply hqueue
      split
      · exact mem_cons_of_mem _ ht
      · exact ht
    · intro t hpos hle
      have hs := hstep t
      rw [hits_cons] at hpos hle
      by_cases hlater : 0 < g.hits es t
      · exact hpush t hlater (by omega)
      · -- this edge is the last one into its target
        have heq : g.tgt e = t := by
          by_contra hne
          rw [if_neg hne] at hpos
          omega
        rw [if_pos heq] at hle hs
        apply hqueue
        rw [heq, if_pos (by omega)]
        exact mem_cons_self

/-- What the loop maintains whatever it pushes: the counts are not above the edges from nodes not taken yet, and
behind the last source of its edges a target is taken once more, or waits. -/
structure RefedInv (g : FlowGraph V E) (roots queue : List V) (deg : V → Nat) (order : List V) : Prop where
  deg_le : ∀ t, deg t ≤ g.remaining order t
  rootsIn : ∀ r ∈ roots, r ∈ order ++ queue
  behind : ∀ pre u post, order = pre ++ u :: post → ∀ t, g.Edge u t →
    (∀ e ∈ g.edges, g.tgt e = t → g.src e ∈ pre ++ [u]) → t ∈ post ++ queue

theorem RefedInv.init : RefedInv g roots roots (g.remaining []) [] where
  deg_le _ := Nat.le_refl _
  rootsIn _ hr := hr
  behind pre u post h := by
    cases pre <;> cases h

theorem remaining_snoc_le (done : List V) (u t : V) :
    g.remaining done t - g.hits (g.out u) t ≤ g.remaining (done ++ [u]) t := by
  by_cases hu : u ∈ done
  · have hsame : g.remaining (done ++ [u]) t = g.remaining done t := by
      unfold remaining
      congr 1
      funext e
      by_cases hs : g.src e = u
      · simp [hs, hu]
      · simp [hs]
    omega
  · have hsnoc := remaining_snoc (g := g) hu t
    omega

/-- **One step** keeps it, for a node taken again as well. -/
theorem RefedInv.step {node : V} {queue order : List V} (h : RefedInv g roots (node :: queue) deg order) :
    RefedInv g roots (g.relax (g.out node) (queue, deg)).1 (g.relax (g.out node) (queue, deg)).2 (order ++ [node]) := by
  obtain ⟨hdeg, hqueue, hpush⟩ := relax_saturating (g := g) (g.out node) queue deg
  refine ⟨?_, ?_, ?_⟩
  · intro t
    have hle := h.deg_le t
    have hsnoc := remaining_snoc_le (g := g) order node t
    rw [hdeg]
    omega
  · intro r hr
    rcases mem_append.1 (h.rootsIn r hr) with hin | hin
    · exact mem_append_left _ (mem_append_left _ hin)
    · rcases mem_cons.1 hin with rfl | hin
      · exact mem_append_left _ (mem_append_right _ mem_cons_self)
      · exact mem_append_right _ (hqueue r hin)
  · intro pre u post heq t hedge hsources
    rcases eq_nil_or_concat post with rfl | ⟨init, x, rfl⟩
    · -- the node just taken is the last source
      obtain ⟨rfl, hu⟩ := append_inj' heq rfl
      cases hu
      obtain ⟨e, he, hsrc, htgt⟩ := hedge
      have hzero : g.remaining (order ++ [node]) t = 0 := remaining_eq_zero.2 hsources
      have hsnoc := remaining_snoc_le (g := g) order node t
      have hle := h.deg_le t
      exact hpush t (hits_pos.2 ⟨e, mem_out.2 ⟨he, hsrc⟩, htgt⟩) (by omega)
    · rw [concat_eq_append, ← cons_append, ← List.append_assoc] at heq
      obtain ⟨hinit, hx⟩ := append_inj' heq rfl
      cases hx
      rw [concat_eq_append]
      rcases mem_append.1 (h.behind pre u init hinit t hedge hsources) with hin | hin
      · exact mem_append_left _ (mem_append_left _ hin)
      · rcases mem_cons.1 hin with rfl | hin
        · exact mem_append_left _ (mem_append_right _ mem_cons_self)
        · exact mem_append_right _ (hqueue t hin)

omit [DecidableEq V] in
/-- The last node of a list with a property. -/
theorem exists_last {p : V → Prop} {l : List V} (h : ∃ x ∈ l, p x) :
    ∃ pre x post, l = pre ++ x :: post ∧ p x ∧ ∀ y ∈ post, ¬ p y := by
  induction l with
  | nil =>
    obtain ⟨x, hx, _⟩ := h
    cases hx
  | cons a l ih =>
    by_cases hlater : ∃ x ∈ l, p x
    · obtain ⟨pre, x, post, rfl, hx, hpost⟩ := ih hlater
      exact ⟨a :: pre, x, post, rfl, hx, hpost⟩
    · obtain ⟨x, hx, hp⟩ := h
      rcases mem_cons.1 hx with rfl | hin
      · exact ⟨[], x, l, rfl, hp, fun y hy hpy => hlater ⟨y, hy, hpy⟩⟩
      · exact absurd ⟨x, hin, hp⟩ hlater

/-- An empty stack, and a target all of whose sources were taken: it comes behind the last of them. -/
theorem RefedInv.exists_behind {order : List V} (h : RefedInv g roots [] deg order) (live : V → Prop)
    (hin : ∃ u ∈ order, ∃ t, live t ∧ g.Edge u t)
    (hsources : ∀ t, live t → ∀ e ∈ g.edges, g.tgt e = t → g.src e ∈ order) :
    ∃ pre u post t, order = pre ++ u :: post ∧ live t ∧ t ∈ post ∧ ∀ y ∈ post, ¬ ∃ t, live t ∧ g.Edge y t := by
  obtain ⟨pre, u, post, horder, ⟨t, ht, hedge⟩, hlast⟩ := exists_last hin
  refine ⟨pre, u, post, t, horder, ht, ?_, hlast⟩
  have hmem := h.behind pre u post horder t hedge ?_
  · rwa [List.append_nil] at hmem
  · intro e he htgt
    have hsrc := hsources t ht e he htgt
    rw [horder, append_cons, mem_append] at hsrc
    exact hsrc.resolve_right fun hpost => hlast _ hpost ⟨t, ht, e, he, rfl, htgt⟩

/-- An empty stack: the fed nodes were taken. -/
theorem RefedInv.fed_mem {order : List V} (h : RefedInv g roots [] deg order) {t : V}
    (ht : g.Fed roots t) : t ∈ order := by
  induction ht with
  | root hr =>
    have hin := h.rootsIn _ hr
    rwa [List.append_nil] at hin
  | @node t hin _ ih =>
    obtain ⟨e, he, htgt⟩ := hin
    obtain ⟨pre, u, post, t', horder, rfl, hpost, _⟩ := h.exists_behind (· = t)
      ⟨g.src e, ih e he htgt, t, rfl, e, he, rfl, htgt⟩ (fun t' ht' e he htgt => ih e he (htgt.trans ht'))
    rw [horder]
    exact mem_append_right _ (mem_cons_of_mem _ hpost)

/-! ## The root on a cycle -/

section
variable {r : V} (hall : ∀ e ∈ g.edges, g.tgt e = r → g.Fed [r] (g.src e))
include hall

omit [DecidableEq V] in
/-- All sources of a fed node are fed, those of the root too. -/
theorem fed_source {t : V} (ht : g.Fed [r] t) {e : E} (he : e ∈ g.edges) (htgt : g.tgt e = t) : g.Fed [r] (g.src e) := by
  cases ht with
  | root hr => exact hall e he (htgt.trans (mem_singleton.1 hr))
  | node _ hsources => exact hsources e he htgt

variable (hin : ∃ e ∈ g.edges, g.tgt e = r)
include hin

omit [DecidableEq V] in
/-- The root lies on a cycle of fed nodes, and each of them has its next one there. -/
theorem exists_live : ∃ live : V → Prop, live r ∧ (∀ t, live t → g.Fed [r] t) ∧
    ∀ t, live t → ∃ t', live t' ∧ g.Edge t t' := by
  obtain ⟨fedEdge, hfedEdge⟩ : ∃ fedEdge : V → V → Prop, fedEdge = fun u v => g.Edge u v ∧ g.Fed [r] v := ⟨_, rfl⟩
  have hreach : ∀ t, g.Fed [r] t → Relation.ReflTransGen fedEdge r t := by
    intro t ht
    induction ht with
    | root hr => rw [mem_singleton.1 hr]
    | node hedge hsources ih =>
      obtain ⟨e, he, htgt⟩ := hedge
      refine (ih e he htgt).tail ?_
      rw [hfedEdge]
      exact ⟨⟨e, he, rfl, htgt⟩, .node ⟨e, he, htgt⟩ hsources⟩
  have hcycle : Relation.TransGen fedEdge r r := by
    obtain ⟨e, he, htgt⟩ := hin
    refine .tail' (hreach _ (hall e he htgt)) ?_
    rw [hfedEdge]
    exact ⟨⟨e, he, rfl, htgt⟩, .root mem_cons_self⟩
  refine ⟨fun t => g.Fed [r] t ∧ Relation.TransGen fedEdge t r, ⟨.root mem_cons_self, hcycle⟩, fun t ht => ht.1, ?_⟩
  rintro t ⟨_, hpath⟩
  obtain ⟨t', hstep, hrest⟩ := Relation.TransGen.head'_iff.1 hpath
  rw [hfedEdge] at hstep
  refine ⟨t', ⟨hstep.2, ?_⟩, hstep.1⟩
  rcases Relation.reflTransGen_iff_eq_or_transGen.1 hrest with rfl | htrans
  · exact hcycle
  · exact htrans

/-- The stack is never empty: the last source of a node of the cycle has that node, and so another source, behind it. -/
theorem RefedInv.queue_ne_nil {queue order : List V} (h : RefedInv g [r] queue deg order) : queue ≠ [] := by
  rintro rfl
  obtain ⟨live, hroot, hfed, hnext⟩ := exists_live hall hin
  have hsources : ∀ t, live t → ∀ e ∈ g.edges, g.tgt e = t → g.src e ∈ order := by
    intro t ht e he htgt
    exact h.fed_mem (fed_source hall (hfed t ht) he htgt)
  obtain ⟨pre, u, post, t, _, ht, hpost, hlast⟩ := h.exists_behind _
    ⟨r, h.fed_mem (hfed r hroot), hnext r hroot⟩ hsources
  exact hlast t hpost (hnext t ht)

/-- **The loop does not end.** -/
theorem orderLoop_none (fuel : Nat) : g.orderLoop g.out fuel [r] (g.remaining []) [] = none := by
  suffices hgen : ∀ fuel queue deg order, RefedInv g [r] queue deg order → g.orderLoop g.out fuel queue deg order = none from
    hgen fuel [r] _ [] .init
  intro fuel
  induction fuel with
  | zero =>
    intro queue deg order hinv
    cases queue with
    | nil => exact absurd rfl (hinv.queue_ne_nil hall hin)
    | cons node queue => rfl
  | succ fuel ih =>
    intro queue deg order hinv
    cases queue with
    | nil => exact absurd rfl (hinv.queue_ne_nil hall hin)
    | cons node queue => exact ih _ _ _ hinv.step

end

end Audesys.Lib.FlowGraph
