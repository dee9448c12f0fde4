import Mathlib

/-!
# `Lib.DepthFirst` — cycles by a depth-first search

A search with three colours and an explicit stack. Grey nodes are those of the stack, each the parent of the one above
it; an edge to a grey node closes a cycle, which is read off the parents. The search ends (`detect_total`); every cycle
it reports is a closed walk, and if it reports none, the nodes in the order in which they were left have all their edges
into nodes that were left before (`Left`).
-/

open List

namespace Audesys.Lib

inductive Colour where
  | white
  | grey
  | black
  deriving DecidableEq

/-- The state of a search. The stack is kept top first: a node, and how many of its edges were followed. -/
structure DepthFirst (V : Type) where
  colour : V → Colour
  parent : V → Option V
  stack : List (V × Nat)
  cycles : List (List V)

namespace DepthFirst

variable {V : Type} [DecidableEq V] (adj : V → List V)

/-! ## The search -/

/-- The node and its parents, up to `stop`. -/
def chain (parent : V → Option V) (stop : V) : Nat → Option V → Option (List V)
  | _, none => some []
  | 0, some v => if v = stop then some [] else none
  | fuel + 1, some v => if v = stop then some [] else (chain parent stop fuel (parent v)).map (v :: ·)

/-- Follow the next edge of the node on top of the stack, or leave it. -/
def visit (s : DepthFirst V) (node : V) (i : Nat) (rest : List (V × Nat)) : Option (DepthFirst V) :=
  match (adj node)[i]? with
  | none => some { s with colour := Function.update s.colour node .black, stack := rest }
  | some neighbour =>
    let stack := (node, i + 1) :: rest
    match s.colour neighbour with
    | .grey =>
      (chain s.parent neighbour stack.length (some node)).map fun path =>
        { s with stack, cycles := s.cycles ++ [(neighbour :: path ++ [neighbour]).reverse] }
    | .white =>
      some { s with
        colour := Function.update s.colour neighbour .grey
        parent := Function.update s.parent neighbour (some node)
        stack := (neighbour, 0) :: stack }
    | .black => some { s with stack }

/-- Visits until the stack is empty, or the fuel is out. -/
def run : Nat → DepthFirst V → Option (DepthFirst V)
  | 0, s => if s.stack.isEmpty then some s else none
  | fuel + 1, s =>
    match s.stack with
    | [] => some s
    | (node, i) :: rest => (visit adj s node i rest).bind (run fuel)

/-- The search from a node. -/
def start (s : DepthFirst V) (v : V) : DepthFirst V :=
  { s with colour := Function.update s.colour v .grey, stack := [(v, 0)] }

/-- Searches from every node that is still white. -/
def detect (fuel : Nat) : List V → DepthFirst V → Option (DepthFirst V)
  | [], s => some s
  | v :: vs, s =>
    (if s.colour v = .white then run adj fuel (s.start v) else some s).bind (detect fuel vs)

def init : DepthFirst V := ⟨fun _ => .white, fun _ => none, [], []⟩

/-! ## What the search keeps -/

/-- A walk along edges that comes back to where it starts. -/
structure ClosedWalk (c : List V) : Prop where
  length : 2 ≤ c.length
  closed : c.head? = c.getLast?
  edges : c.IsChain fun u v => v ∈ adj u

/-- Each node on the stack is the parent of the one above it, by an edge that was followed. -/
def IsPath (parent : V → Option V) : List (V × Nat) → Prop :=
  List.IsChain fun upper lower => parent upper.1 = some lower.1 ∧ upper.1 ∈ (adj lower.1).take lower.2

/-- The nodes that were left, the last one first: their edges lead to nodes that were left before. -/
def Left (done : List V) : Prop :=
  done.Nodup ∧ ∀ pre v post, done = pre ++ v :: post → ∀ u ∈ adj v, u ∈ post

/-- As long as no cycle is found: the black nodes were left, and an edge that was followed leads to a black node or to
one above on the stack. -/
structure Clean (s : DepthFirst V) (done : List V) : Prop where
  black : ∀ v, s.colour v = .black ↔ v ∈ done
  left : Left adj done
  followed : ∀ above v i below, s.stack = above ++ (v, i) :: below → ∀ u ∈ (adj v).take i,
    s.colour u = .black ∨ u ∈ above.map Prod.fst

structure Inv (s : DepthFirst V) : Prop where
  path : IsPath adj s.parent s.stack
  nodup : (s.stack.map Prod.fst).Nodup
  grey : ∀ v, s.colour v = .grey ↔ v ∈ s.stack.map Prod.fst
  walks : ∀ c ∈ s.cycles, ClosedWalk adj c
  clean : s.cycles = [] → ∃ done, Clean adj s done

variable {adj} {s : DepthFirst V} {node : V} {i : Nat} {rest : List (V × Nat)}

omit [DecidableEq V] in
theorem Left.cons {done : List V} (h : Left adj done) (hnew : node ∉ done) (hedges : ∀ u ∈ adj node, u ∈ done) :
    Left adj (node :: done) := by
  refine ⟨nodup_cons.2 ⟨hnew, h.1⟩, ?_⟩
  intro pre v post heq
  cases pre with
  | nil =>
    cases heq
    exact hedges
  | cons p pre =>
    cases heq
    exact h.2 pre v post rfl

/-- Edges go up in the order in which nodes were left. -/
theorem Left.idxOf_lt {done : List V} (h : Left adj done) {u v : V} (hv : v ∈ done) (hu : u ∈ adj v) :
    done.idxOf v < done.idxOf u := by
  obtain ⟨pre, post, rfl⟩ := append_of_mem hv
  obtain ⟨_, hrest, hdisjoint⟩ := nodup_append.1 h.1
  have hpost : u ∈ post := h.2 pre v post rfl u hu
  have hv' : v ∉ pre := fun hin => hdisjoint v hin v (mem_cons_self ..) rfl
  have hu' : u ∉ pre := fun hin => hdisjoint u hin u (mem_cons_of_mem _ hpost) rfl
  have hne : v ≠ u := by
    rintro rfl
    exact (nodup_cons.1 hrest).1 hpost
  rw [idxOf_append_of_notMem hv', idxOf_append_of_notMem hu', idxOf_cons_self, idxOf_cons_ne _ hne]
  omega

omit [DecidableEq V] in
theorem inv_init : Inv adj (init : DepthFirst V) where
  path := .nil
  nodup := nodup_nil
  grey v := by
    constructor <;> intro h <;> cases h
  walks c hc := by cases hc
  clean _ := by
    refine ⟨[], ?_, ⟨nodup_nil, ?_⟩, ?_⟩
    · intro v
      constructor <;> intro h <;> cases h
    · intro pre v post h
      cases pre <;> cases h
    · intro above v i below h
      cases above <;> cases h

/-- The parents of a node on the stack are the nodes below it. -/
theorem chain_of_path {parent : V → Option V} {stop : V} {stack : List (V × Nat)}
    (hpath : IsPath adj parent ((node, i) :: stack)) (hstop : stop ∈ ((node, i) :: stack).map Prod.fst) {fuel : Nat}
    (hfuel : stack.length ≤ fuel) :
    ∃ path below, chain parent stop fuel (some node) = some path ∧
      ((node, i) :: stack).map Prod.fst = path ++ stop :: below := by
  by_cases heq : node = stop
  · subst heq
    refine ⟨[], stack.map Prod.fst, ?_, rfl⟩
    cases fuel with
    | zero => exact if_pos rfl
    | succ fuel => exact if_pos rfl
  · induction stack generalizing node i fuel with
    | nil =>
      rw [map_singleton, mem_singleton] at hstop
      exact absurd hstop.symm heq
    | cons lower stack ih =>
      obtain ⟨⟨hparent, _⟩, hrest⟩ := isChain_cons_cons.1 hpath
      have hbelow : stop ∈ (lower :: stack).map Prod.fst := (mem_cons.1 hstop).resolve_left fun h => heq h.symm
      cases fuel with
      | zero => cases hfuel
      | succ fuel =>
        have hshort : stack.length ≤ fuel := Nat.le_of_succ_le_succ hfuel
        rw [chain, if_neg heq, hparent]
        by_cases hlower : lower.1 = stop
        · refine ⟨[node], stack.map Prod.fst, ?_, by rw [← hlower]; rfl⟩
          rw [hlower]
          cases fuel <;> simp [chain]
        · obtain ⟨path, below, hchain, hmap⟩ := ih hrest hbelow hshort hlower
          exact ⟨node :: path, below, by rw [hchain]; rfl, by rw [map_cons, hmap]; rfl⟩

/-! ## One visit -/

variable (adj) in
/-- What a visit does. -/
inductive Visited (s : DepthFirst V) (node : V) (i : Nat) (rest : List (V × Nat)) : DepthFirst V → Prop
  | left : (adj node)[i]? = none →
      Visited s node i rest { s with colour := Function.update s.colour node .black, stack := rest }
  | closed {neighbour : V} {path below : List V} : (adj node)[i]? = some neighbour →
      node :: rest.map Prod.fst = path ++ neighbour :: below →
      Visited s node i rest { s with
        stack := (node, i + 1) :: rest, cycles := s.cycles ++ [(neighbour :: path ++ [neighbour]).reverse] }
  | entered {neighbour : V} : (adj node)[i]? = some neighbour → s.colour neighbour = .white →
      Visited s node i rest { s with
        colour := Function.update s.colour neighbour .grey
        parent := Function.update s.parent neighbour (some node)
        stack := (neighbour, 0) :: (node, i + 1) :: rest }
  | skipped {neighbour : V} : (adj node)[i]? = some neighbour → s.colour neighbour = .black →
      Visited s node i rest { s with stack := (node, i + 1) :: rest }

omit [DecidableEq V] in
/-- More edges of the node on top were followed. -/
theorem IsPath.advance {parent : V → Option V} (h : IsPath adj parent ((node, i) :: rest)) (j : Nat) :
    IsPath adj parent ((node, j) :: rest) := by
  cases rest with
  | nil => exact .singleton _
  | cons lower rest =>
    obtain ⟨hlink, hrest⟩ := isChain_cons_cons.1 h
    exact isChain_cons_cons.2 ⟨hlink, hrest⟩

/-- **A visit** does not get stuck. -/
theorem Inv.visit (h : Inv adj s) (hstack : s.stack = (node, i) :: rest) :
    ∃ s', visit adj s node i rest = some s' ∧ Visited adj s node i rest s' := by
  unfold DepthFirst.visit
  cases hedge : (adj node)[i]? with
  | none => exact ⟨_, rfl, .left hedge⟩
  | some neighbour =>
    dsimp only
    cases hcolour : s.colour neighbour with
    | grey =>
      have hgrey := (h.grey neighbour).1 hcolour
      have hpath := h.path
      rw [hstack] at hgrey hpath
      obtain ⟨path, below, hchain, hmap⟩ := chain_of_path hpath hgrey (Nat.le_succ _)
      exact ⟨_, by rw [length_cons, hchain]; rfl, .closed hedge hmap⟩
    | white => exact ⟨_, rfl, .entered hedge hcolour⟩
    | black => exact ⟨_, rfl, .skipped hedge hcolour⟩

section
omit [DecidableEq V]

/-- What is on the stack is not black, and the stack without its top is one. -/
theorem Inv.below (h : Inv adj s) (hstack : s.stack = (node, i) :: rest) :
    s.colour node = .grey ∧ node ∉ rest.map Prod.fst ∧ (rest.map Prod.fst).Nodup ∧ IsPath adj s.parent rest := by
  have hnodup := h.nodup
  have hpath := h.path
  rw [hstack] at hnodup hpath
  rw [map_cons, nodup_cons] at hnodup
  refine ⟨(h.grey node).2 (by rw [hstack]; exact mem_cons_self ..), hnodup.1, hnodup.2, ?_⟩
  exact hpath.tail

/-- The nodes that a cycle is read off from. -/
theorem Inv.closedWalk (h : Inv adj s) (hstack : s.stack = (node, i) :: rest) {neighbour : V} {path below : List V}
    (hedge : (adj node)[i]? = some neighbour) (hmap : node :: rest.map Prod.fst = path ++ neighbour :: below) :
    ClosedWalk adj (neighbour :: path ++ [neighbour]).reverse := by
  have hchain : (node :: rest.map Prod.fst).IsChain fun u v => u ∈ adj v := by
    have hpath := h.path
    rw [hstack] at hpath
    show (((node, i) :: rest).map Prod.fst).IsChain _
    rw [isChain_map]
    exact hpath.imp fun _ _ hlink => mem_of_mem_take hlink.2
  -- the part of the stack down to the neighbour, and the edge back
  have hpart : (path ++ [neighbour]).IsChain fun u v => u ∈ adj v := by
    rw [hmap, append_cons] at hchain
    exact hchain.left_of_append
  have hfirst : ∀ top ∈ (path ++ [neighbour]).head?, top = node := by
    intro top htop
    have hhead : (path ++ neighbour :: below).head? = (path ++ [neighbour]).head? := by
      cases path <;> rfl
    rw [← hhead, ← hmap, head?_cons, Option.mem_some_iff] at htop
    exact htop.symm
  refine ⟨?_, ?_, ?_⟩
  · rw [length_reverse, length_append]
    simp
  · rw [head?_reverse, getLast?_reverse, cons_append, head?_cons, ← cons_append,
      getLast?_append]
    rfl
  · rw [isChain_reverse, cons_append, isChain_cons]
    refine ⟨?_, hpart⟩
    intro top htop
    rw [hfirst top htop]
    exact mem_of_getElem? hedge

/-- With one more edge followed: its end is the only one that need not be black or on the stack above. -/
theorem Clean.followed_succ {done : List V} (h : Clean adj s done) (hstack : s.stack = (node, i) :: rest)
    {neighbour : V} (hedge : (adj node)[i]? = some neighbour) {above below : List (V × Nat)} {v u : V} {j : Nat}
    (heq : (node, i + 1) :: rest = above ++ (v, j) :: below) (hu : u ∈ (adj v).take j) :
    s.colour u = .black ∨ u ∈ above.map Prod.fst ∨ (above = [] ∧ u = neighbour) := by
  cases above with
  | nil =>
    cases heq
    rw [take_add_one, hedge, mem_append] at hu
    rcases hu with hu | hu
    · exact (h.followed [] node i rest hstack u hu).imp_right .inl
    · exact .inr (.inr ⟨rfl, by simpa using hu⟩)
  | cons top above =>
    cases heq
    exact (h.followed ((node, i) :: above) v j below hstack u hu).imp_right .inl

end

theorem Clean.visited {s' : DepthFirst V} (h : Inv adj s) (hstack : s.stack = (node, i) :: rest) {done : List V}
    (hclean : Clean adj s done) (hvisit : Visited adj s node i rest s') (hnone : s'.cycles = []) :
    ∃ done', Clean adj s' done' := by
  obtain ⟨hgrey, hnew, _, _⟩ := h.below hstack
  cases hvisit with
  | left hedge =>
    have hall : (adj node).take i = adj node := take_of_length_le (getElem?_eq_none_iff.1 hedge)
    have hnotDone : node ∉ done := by
      intro hin
      have hblack := (hclean.black node).2 hin
      rw [hgrey] at hblack
      cases hblack
    -- nothing is above the node: its edges lead to black nodes
    have hedges : ∀ u ∈ adj node, u ∈ done := by
      intro u hu
      rw [← hall] at hu
      rcases hclean.followed [] node i rest hstack u hu with hblack | habove
      · exact (hclean.black u).1 hblack
      · cases habove
    refine ⟨node :: done, ?_, hclean.left.cons hnotDone hedges, ?_⟩
    · intro v
      show Function.update s.colour node .black v = .black ↔ _
      by_cases hv : v = node
      · subst hv
        rw [Function.update_self]
        exact iff_of_true rfl (mem_cons_self ..)
      · rw [Function.update_of_ne hv, hclean.black, mem_cons, or_iff_right hv]
    · intro above v j below heq u hu
      replace heq : rest = above ++ (v, j) :: below := heq
      show Function.update s.colour node .black u = .black ∨ _
      by_cases hv : u = node
      · subst hv
        exact .inl (Function.update_self ..)
      · rw [Function.update_of_ne hv]
        rcases hclean.followed ((node, i) :: above) v j below (by rw [hstack, heq]; rfl) u hu with hblack | habove
        · exact .inl hblack
        · exact .inr ((mem_cons.1 habove).resolve_left hv)
  | closed hedge hmap => simp at hnone
  | @entered neighbour hedge hwhite =>
    refine ⟨done, ?_, hclean.left, ?_⟩
    · intro v
      show Function.update s.colour neighbour .grey v = .black ↔ _
      rw [← hclean.black]
      by_cases hv : v = neighbour
      · subst hv
        rw [Function.update_self, hwhite]
        constructor <;> intro h <;> cases h
      · rw [Function.update_of_ne hv]
    · intro above v j below heq u hu
      replace heq : (neighbour, 0) :: (node, i + 1) :: rest = above ++ (v, j) :: below := heq
      show Function.update s.colour neighbour .grey u = .black ∨ _
      cases above with
      | nil =>
        cases heq
        cases hu
      | cons top above =>
        obtain ⟨rfl, htail⟩ := List.cons.inj heq
        by_cases hv : u = neighbour
        · exact .inr (mem_cons.2 (.inl hv))
        · rw [Function.update_of_ne hv]
          rcases hclean.followed_succ hstack hedge htail hu with hblack | habove | ⟨_, rfl⟩
          · exact .inl hblack
          · exact .inr (mem_cons_of_mem _ habove)
          · exact absurd rfl hv
  | skipped hedge hblack =>
    refine ⟨done, hclean.black, hclean.left, ?_⟩
    intro above v j below heq u hu
    rcases hclean.followed_succ hstack hedge heq hu with hblack' | habove | ⟨_, rfl⟩
    · exact .inl hblack'
    · exact .inr habove
    · exact .inl hblack

/-- **One visit** keeps the invariant. -/
theorem Inv.visited {s' : DepthFirst V} (h : Inv adj s) (hstack : s.stack = (node, i) :: rest)
    (hvisit : Visited adj s node i rest s') : Inv adj s' := by
  obtain ⟨hgrey, hnew, hrest, hpath⟩ := h.below hstack
  have hclean : s'.cycles = [] → ∃ done, Clean adj s' done := by
    intro hnone
    have hnone' : s.cycles = [] := by
      cases hvisit with
      | closed => simp at hnone
      | _ => exact hnone
    obtain ⟨done, hdone⟩ := h.clean hnone'
    exact hdone.visited h hstack hvisit hnone
  have hgrey' : ∀ v, s.colour v = .grey ↔ v = node ∨ v ∈ rest.map Prod.fst := by
    intro v
    rw [h.grey, hstack, map_cons, mem_cons]
  have hadvance : IsPath adj s.parent ((node, i + 1) :: rest) := by
    have hwhole := h.path
    rw [hstack] at hwhole
    exact hwhole.advance (i + 1)
  cases hvisit with
  | left hedge =>
    refine ⟨hpath, hrest, ?_, h.walks, hclean⟩
    intro v
    show Function.update s.colour node .black v = .grey ↔ _
    by_cases hv : v = node
    · subst hv
      rw [Function.update_self]
      exact iff_of_false (fun h => by cases h) hnew
    · rw [Function.update_of_ne hv, hgrey', or_iff_right hv]
  | closed hedge hmap =>
    refine ⟨hadvance, nodup_cons.2 ⟨hnew, hrest⟩, ?_, ?_, hclean⟩
    · intro v
      rw [map_cons, mem_cons]
      exact hgrey' v
    · intro c hc
      rcases mem_append.1 hc with hc | hc
      · exact h.walks c hc
      · rw [mem_singleton.1 hc]
        exact h.closedWalk hstack hedge hmap
  | @entered neighbour hedge hwhite =>
    have hfresh : neighbour ∉ node :: rest.map Prod.fst := by
      intro hin
      rw [(hgrey' neighbour).2 (mem_cons.1 hin)] at hwhite
      cases hwhite
    refine ⟨?_, nodup_cons.2 ⟨hfresh, nodup_cons.2 ⟨hnew, hrest⟩⟩, ?_, h.walks, hclean⟩
    · refine isChain_cons_cons.2 ⟨⟨Function.update_self .., ?_⟩, ?_⟩
      · rw [take_add_one, hedge]
        exact mem_append_right _ (mem_singleton_self _)
      · -- the neighbour is not on the stack, so the parents there are as before
        refine hadvance.imp_of_mem_imp ?_
        intro upper lower hupper _ hlink
        have hne : upper.1 ≠ neighbour := by
          rintro rfl
          exact hfresh (mem_map_of_mem (f := Prod.fst) hupper)
        exact ⟨(Function.update_of_ne hne _ _).trans hlink.1, hlink.2⟩
    · intro v
      show Function.update s.colour neighbour .grey v = .grey ↔ v ∈ neighbour :: node :: rest.map Prod.fst
      by_cases hv : v = neighbour
      · subst hv
        rw [Function.update_self]
        exact iff_of_true rfl (mem_cons_self ..)
      · rw [Function.update_of_ne hv, hgrey', mem_cons, mem_cons, or_iff_right hv]
  | skipped hedge hblack =>
    refine ⟨hadvance, nodup_cons.2 ⟨hnew, hrest⟩, ?_, h.walks, hclean⟩
    intro v
    rw [map_cons, mem_cons]
    exact hgrey' v

/-! ## Whole searches -/

variable (adj) in
/-- A node, and each of its edges. -/
def weight (v : V) : Nat := 1 + (adj v).length

variable (adj) in
/-- What is left to do: the white nodes, and the nodes on the stack with the edges that were not followed. -/
def todo (nodes : List V) (s : DepthFirst V) : Nat :=
  ((nodes.filter fun v => s.colour v = .white).map (weight adj)).sum +
    (s.stack.map fun f => 1 + ((adj f.1).length - f.2)).sum

variable (adj) in
/-- A node that gets a colour is no longer to do. -/
theorem white_sum {nodes : List V} (hnodes : nodes.Nodup) {colour : V → Colour} {v : V} (hv : v ∈ nodes)
    (hwhite : colour v = .white) {c : Colour} (hc : c ≠ .white) :
    ((nodes.filter fun u => Function.update colour v c u = .white).map (weight adj)).sum + weight adj v =
      ((nodes.filter fun u => colour u = .white).map (weight adj)).sum := by
  have hmem : v ∈ nodes.filter fun u => colour u = .white := mem_filter.2 ⟨hv, decide_eq_true hwhite⟩
  have herase : (nodes.filter fun u => Function.update colour v c u = .white) =
      (nodes.filter fun u => colour u = .white).erase v := by
    rw [(hnodes.filter _).erase_eq_filter, filter_filter]
    apply filter_congr
    intro u _
    by_cases hu : u = v
    · subst hu
      simp [hc]
    · simp [hu]
  have hperm := ((perm_cons_erase hmem).map (weight adj)).sum_eq
  rw [herase, hperm, map_cons, sum_cons, Nat.add_comm]

/-- What has a colour was not to do before. -/
theorem white_filter (nodes : List V) {colour : V → Colour} {v : V} (hv : colour v ≠ .white) {c : Colour}
    (hc : c ≠ .white) : (nodes.filter fun u => Function.update colour v c u = .white) =
      nodes.filter fun u => colour u = .white := by
  apply filter_congr
  intro u _
  by_cases hu : u = v
  · subst hu
    simp [hv, hc]
  · simp [hu]

variable (adj) in
/-- The nodes of the stack are among those given, and each frame is at one of its edges or behind them. -/
def Within (nodes : List V) (stack : List (V × Nat)) : Prop :=
  ∀ f ∈ stack, f.1 ∈ nodes ∧ f.2 ≤ (adj f.1).length

variable {nodes : List V}

/-- One visit does one thing of what is left to do. -/
theorem Visited.todo (hnodes : nodes.Nodup) (hadj : ∀ v ∈ nodes, ∀ u ∈ adj v, u ∈ nodes) {s' : DepthFirst V}
    (hinv : Inv adj s) (hstack : s.stack = (node, i) :: rest) (hwithin : Within adj nodes s.stack)
    (hvisit : Visited adj s node i rest s') :
    todo adj nodes s' + 1 = todo adj nodes s ∧ Within adj nodes s'.stack := by
  rw [hstack] at hwithin
  obtain ⟨⟨hnode, hindex⟩, hrest⟩ := forall_mem_cons.1 hwithin
  -- the frame on top, one edge further
  have hframe : ∀ {neighbour}, (adj node)[i]? = some neighbour → i + 1 ≤ (adj node).length := by
    intro neighbour hedge
    exact (List.getElem?_eq_some_iff.1 hedge).1
  unfold DepthFirst.todo
  rw [hstack, map_cons, sum_cons]
  cases hvisit with
  | left hedge =>
    have hlen : (adj node).length ≤ i := getElem?_eq_none_iff.1 hedge
    have hgrey : s.colour node ≠ .white := by
      rw [(hinv.below hstack).1]
      exact fun h => by cases h
    refine ⟨?_, hrest⟩
    dsimp only
    rw [white_filter nodes hgrey (fun h => by cases h)]
    omega
  | closed hedge hmap =>
    have hlen := hframe hedge
    refine ⟨?_, forall_mem_cons.2 ⟨⟨hnode, hlen⟩, hrest⟩⟩
    dsimp only
    rw [map_cons, sum_cons]
    dsimp only
    omega
  | @entered neighbour hedge hwhite =>
    have hlen := hframe hedge
    have hmem : neighbour ∈ nodes := hadj node hnode neighbour (mem_of_getElem? hedge)
    have hsum := white_sum adj hnodes hmem hwhite (c := .grey) (fun h => by cases h)
    refine ⟨?_, forall_mem_cons.2 ⟨⟨hmem, Nat.zero_le _⟩, forall_mem_cons.2 ⟨⟨hnode, hlen⟩, hrest⟩⟩⟩
    unfold weight at hsum ⊢
    dsimp only
    rw [map_cons, sum_cons, map_cons, sum_cons, ← hsum]
    dsimp only
    omega
  | skipped hedge hblack =>
    have hlen := hframe hedge
    refine ⟨?_, forall_mem_cons.2 ⟨⟨hnode, hlen⟩, hrest⟩⟩
    dsimp only
    rw [map_cons, sum_cons]
    dsimp only
    omega

/-- No node turns white again. -/
theorem Visited.colours {s' : DepthFirst V} (hvisit : Visited adj s node i rest s') {v : V}
    (hv : s.colour v ≠ .white) : s'.colour v ≠ .white := by
  have hupdate : ∀ u c, c ≠ Colour.white → Function.update s.colour u c v ≠ .white := by
    intro u c hc
    by_cases hu : v = u
    · subst hu
      rwa [Function.update_self]
    · rwa [Function.update_of_ne hu]
  cases hvisit with
  | left => exact hupdate _ _ fun h => by cases h
  | closed => exact hv
  | entered => exact hupdate _ _ fun h => by cases h
  | skipped => exact hv

/-- **A search from a node** comes to its end. -/
theorem run_total (hnodes : nodes.Nodup) (hadj : ∀ v ∈ nodes, ∀ u ∈ adj v, u ∈ nodes) (fuel : Nat)
    (s : DepthFirst V) (hinv : Inv adj s) (hwithin : Within adj nodes s.stack) (hfuel : todo adj nodes s ≤ fuel) :
    ∃ s', run adj fuel s = some s' ∧ Inv adj s' ∧ s'.stack = [] ∧ todo adj nodes s' ≤ todo adj nodes s ∧
      ∀ v, s.colour v ≠ .white → s'.colour v ≠ .white := by
  induction fuel generalizing s with
  | zero =>
    cases hstack : s.stack with
    | nil =>
      refine ⟨s, ?_, hinv, hstack, Nat.le_refl _, fun _ hv => hv⟩
      rw [run, hstack]
      rfl
    | cons f rest =>
      unfold DepthFirst.todo at hfuel
      rw [hstack, map_cons, sum_cons] at hfuel
      omega
  | succ fuel ih =>
    cases hstack : s.stack with
    | nil =>
      refine ⟨s, ?_, hinv, hstack, Nat.le_refl _, fun _ hv => hv⟩
      rw [run, hstack]
    | cons f rest =>
      obtain ⟨node, i⟩ := f
      obtain ⟨s₁, hvisit, hvisited⟩ := hinv.visit hstack
      obtain ⟨htodo, hwithin'⟩ := hvisited.todo hnodes hadj hinv hstack hwithin
      obtain ⟨s', hrun, hinv', hdone, hle, hcolours⟩ := ih s₁ (hinv.visited hstack hvisited) hwithin' (by omega)
      refine ⟨s', ?_, hinv', hdone, by omega, fun v hv => hcolours v (hvisited.colours hv)⟩
      rw [run, hstack]
      dsimp only
      rw [hvisit, Option.bind_some, hrun]

/-- The search from a white node, the stack being empty. -/
theorem Inv.start (h : Inv adj s) (hstack : s.stack = []) {v : V} (hwhite : s.colour v = .white) :
    Inv adj (s.start v) where
  path := .singleton _
  nodup := nodup_singleton v
  grey u := by
    show Function.update s.colour v .grey u = .grey ↔ u ∈ [v]
    rw [mem_singleton]
    by_cases hu : u = v
    · subst hu
      rw [Function.update_self]
      exact iff_of_true rfl rfl
    · rw [Function.update_of_ne hu, h.grey, hstack]
      exact iff_of_false not_mem_nil hu
  walks := h.walks
  clean hnone := by
    obtain ⟨done, hdone⟩ := h.clean hnone
    refine ⟨done, ?_, hdone.left, ?_⟩
    · intro u
      show Function.update s.colour v .grey u = .black ↔ _
      rw [← hdone.black]
      by_cases hu : u = v
      · subst hu
        rw [Function.update_self, hwhite]
        constructor <;> intro h <;> cases h
      · rw [Function.update_of_ne hu]
    · intro above u j below heq w hw
      replace heq : [(v, 0)] = above ++ (u, j) :: below := heq
      cases above with
      | nil =>
        cases heq
        cases hw
      | cons top above =>
        have hnil := (List.cons.inj heq).2
        cases above <;> cases hnil

theorem todo_start (hnodes : nodes.Nodup) (hstack : s.stack = []) {v : V} (hv : v ∈ nodes)
    (hwhite : s.colour v = .white) : todo adj nodes (s.start v) = todo adj nodes s := by
  have hsum := white_sum adj hnodes hv hwhite (c := .grey) (fun h => by cases h)
  unfold weight at hsum
  unfold DepthFirst.todo weight DepthFirst.start
  rw [hstack, ← hsum]
  rfl

/-- **The searches** from all nodes come to an end, and leave no node white. -/
theorem detect_total (hnodes : nodes.Nodup) (hadj : ∀ v ∈ nodes, ∀ u ∈ adj v, u ∈ nodes) {fuel : Nat}
    (vs : List V) (hvs : ∀ v ∈ vs, v ∈ nodes) (s : DepthFirst V) (hinv : Inv adj s) (hstack : s.stack = [])
    (hfuel : todo adj nodes s ≤ fuel) :
    ∃ s', detect adj fuel vs s = some s' ∧ Inv adj s' ∧ s'.stack = [] ∧ (∀ v ∈ vs, s'.colour v ≠ .white) ∧
      ∀ v, s.colour v ≠ .white → s'.colour v ≠ .white := by
  induction vs generalizing s with
  | nil => exact ⟨s, rfl, hinv, hstack, fun _ hv => absurd hv not_mem_nil, fun _ hv => hv⟩
  | cons v vs ih =>
    obtain ⟨hv, hvs'⟩ := forall_mem_cons.1 hvs
    rw [detect]
    by_cases hwhite : s.colour v = .white
    · have hwithin : Within adj nodes (s.start v).stack := forall_mem_singleton.2 ⟨hv, Nat.zero_le _⟩
      obtain ⟨s₁, hrun, hinv₁, hdone, hle, hcolours⟩ := run_total hnodes hadj fuel (s.start v)
        (hinv.start hstack hwhite) hwithin ((todo_start hnodes hstack hv hwhite).trans_le hfuel)
      rw [todo_start hnodes hstack hv hwhite] at hle
      obtain ⟨s', hdetect, hinv', hstack', hall, hkept⟩ := ih hvs' s₁ hinv₁ hdone (hle.trans hfuel)
      have hgrey : (s.start v).colour v ≠ .white := by
        show Function.update s.colour v .grey v ≠ _
        rw [Function.update_self]
        exact fun h => by cases h
      refine ⟨s', ?_, hinv', hstack', forall_mem_cons.2 ⟨hkept v (hcolours v hgrey), hall⟩, ?_⟩
      · rw [if_pos hwhite, hrun, Option.bind_some, hdetect]
      · intro u hu
        refine hkept u (hcolours u ?_)
        have hne : u ≠ v := fun h => hu (h ▸ hwhite)
        show Function.update s.colour v .grey u ≠ _
        rwa [Function.update_of_ne hne]
    · obtain ⟨s', hdetect, hinv', hstack', hall, hkept⟩ := ih hvs' s hinv hstack hfuel
      refine ⟨s', ?_, hinv', hstack', forall_mem_cons.2 ⟨hkept v hwhite, hall⟩, hkept⟩
      rw [if_neg hwhite, Option.bind_some, hdetect]

/-- **Cycles.** What the search reports are closed walks; if it reports none, the nodes were left one by one. -/
theorem detect_spec (hnodes : nodes.Nodup) (hadj : ∀ v ∈ nodes, ∀ u ∈ adj v, u ∈ nodes) :
    ∃ s, detect adj (nodes.map (weight adj)).sum nodes init = some s ∧ (∀ c ∈ s.cycles, ClosedWalk adj c) ∧
      (s.cycles = [] → ∃ done, Left adj done ∧ ∀ v ∈ nodes, v ∈ done) := by
  have htodo : todo adj nodes init ≤ (nodes.map (weight adj)).sum := by
    unfold DepthFirst.todo init
    simp
  obtain ⟨s, hdetect, hinv, hstack, hall, _⟩ := detect_total hnodes hadj nodes (fun _ hv => hv) init inv_init rfl htodo
  refine ⟨s, hdetect, hinv.walks, ?_⟩
  intro hnone
  obtain ⟨done, hdone⟩ := hinv.clean hnone
  refine ⟨done, hdone.left, ?_⟩
  intro v hv
  rw [← hdone.black]
  -- with an empty stack no node is grey
  cases hcolour : s.colour v with
  | white => exact absurd hcolour (hall v hv)
  | grey =>
    have hgrey := (hinv.grey v).1 hcolour
    rw [hstack] at hgrey
    cases hgrey
  | black => rfl

end DepthFirst

end Audesys.Lib
