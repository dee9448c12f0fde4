import Audesys.LdEditor.Model
import Mathlib.Tactic.Linarith

/-!
# `LdEditor.Layout` — where the elements of a diagram are drawn

`layoutGraph` of `layout.ts`, and the boxes it gives to the elements. An id may be listed more than once; the last
listing is the one that counts. What the maps of the layout hold is read off the listings (`positions_layoutGraph`).
-/

open List

namespace Audesys.LdEditor

open Audesys.Lib Audesys.Editor

variable {l : Listing} {id : String}

/-! ## Whole diagrams -/

/-- `rungHeight`: an open branch reserves a row. -/
def rungHeight (rung : Rung) : Rat :=
  let branchCount := (rung.branches.map (·.elementIds.length)).foldl max 0
  if branchCount = 0 then if rung.branches = [] then 76 else 120 + 36
  else 120 + branchCount * 40 + 36

structure Rails where
  left : Point
  right : Point
  height : Rat

/-- A map is the list of the calls that fill it. -/
structure LayoutOutput where
  positions : List (String × Point)
  rungTops : List (String × Rat)
  rungHeights : List (String × Rat)
  rails : Rails
  totalHeight : Rat

/-- A round of the loop: the maps so far, and the top of the next rung. -/
def layoutNext (graph : LdGraph) (acc : LayoutOutput × Rat) (rung : Rung) : LayoutOutput × Rat :=
  let (out, top) := acc
  let h := rungHeight rung
  ({ out with
      positions := out.positions ++ (layoutRung rung graph).map fun (id, p) => (id, ⟨p.x, top + p.y⟩)
      rungTops := out.rungTops ++ [(rung.id, top)]
      rungHeights := out.rungHeights ++ [(rung.id, h)] },
    top + (h + 4))

/-- `layoutGraph`. -/
def layoutGraph (graph : LdGraph) : LayoutOutput :=
  let (out, top) := graph.rungs.foldl (layoutNext graph) (⟨[], [], [], ⟨⟨0, 0⟩, ⟨640, 0⟩, 0⟩, 0⟩, 0)
  { out with rails := ⟨⟨0, 0⟩, ⟨640, 0⟩, top⟩, totalHeight := top }

/-! ## Boxes -/

/-- `getFbHeight`. -/
def getFbHeight (fbType : String) : Rat :=
  match getFbPins fbType with
  | none => 80
  | some (inputPins, outputPins) => (max inputPins.length outputPins.length : Nat) * 30 + 10

structure Dimension where
  width : Rat
  height : Rat
  deriving DecidableEq

/-- The size of a node as the factories and `addFb` give it. -/
def NodeKind.size : NodeKind → Dimension
  | contact .. => ⟨36, 36⟩
  | coil .. => ⟨36, 36⟩
  | powerRail _ => ⟨4, 600⟩
  | fb fbType .. => ⟨140, getFbHeight fbType⟩
  | comparison .. => ⟨80, 40⟩

structure Box where
  position : Point
  size : Dimension
  deriving DecidableEq

/-- Two boxes have inner points in common. -/
def Box.Overlaps (a b : Box) : Prop :=
  a.position.x < b.position.x + b.size.width ∧ b.position.x < a.position.x + a.size.width ∧
    a.position.y < b.position.y + b.size.height ∧ b.position.y < a.position.y + a.size.height

namespace LdGraph

variable (graph : LdGraph)

/-- The kind of the node that an id stands for in the layout. -/
def kindOf (id : String) : Option NodeKind := (graph.lastNode id).map (·.kind)

/-- The box of an element. -/
def box (id : String) : Option Box := do
  let position ← mapGet (layoutGraph graph).positions id
  let kind ← graph.kindOf id
  some ⟨position, kind.size⟩

end LdGraph

/-! ## Listings -/

/-- Where a rung lists an element: in its main row, or in a branch. -/
inductive Place where
  | row (slot : Nat)
  | member (anchorId : String) (row : Nat)
  deriving DecidableEq

/-- An id where the rung with the index lists it. -/
structure Listing where
  index : Nat
  rung : Rung
  id : String
  place : Place
  deriving DecidableEq

def Listing.line (l : Listing) : Rat :=
  match l.place with
  | .row _ => 40
  | .member _ row => 120 + row * 40

def rungListings (index : Nat) (rung : Rung) : List Listing :=
  (rung.elementIds.mapIdx fun slot id => ⟨index, rung, id, .row slot⟩) ++
    rung.branches.flatMap fun b => b.elementIds.mapIdx fun row id => ⟨index, rung, id, .member b.anchorId row⟩

/-- The slot of an element in the main row. -/
def Rung.slotOf (rung : Rung) (id : String) : Nat :=
  (mapGet (rung.elementIds.mapIdx fun slot id => (id, slot)) id).getD 0

namespace LdGraph

variable (graph : LdGraph)

def listings : List Listing := (graph.rungs.mapIdx rungListings).flatten

/-- The listing is the last one of its id. -/
def Counts (l : Listing) : Prop := graph.listings.reverse.find? (·.id == l.id) = some l

def isCoilId (id : String) : Bool := (graph.kindOf id).any (·.isCoil)

/-- What the elements in front of a slot take up. -/
def ahead (rung : Rung) (slot : Nat) : Rat :=
  ((rung.elementIds.take slot).map fun id => effectiveWidth (graph.kindOf id)).sum

/-- The column of a listing. -/
def column (l : Listing) : Rat :=
  match l.place with
  | .row slot => if graph.isCoilId l.id then 600 else 40 + graph.ahead l.rung slot
  | .member anchorId _ => 40 + graph.ahead l.rung (l.rung.slotOf anchorId)

/-- The top of the rung with the index. -/
def top (index : Nat) : Rat := ((graph.rungs.take index).map fun rung => rungHeight rung + 4).sum

def point (l : Listing) : Point := ⟨graph.column l, graph.top l.index + l.line⟩

end LdGraph

/-! ## What the maps hold -/

theorem map_mapIdx {α β γ : Type} (l : List α) (f : Nat → α → β) (g : β → γ) :
    (l.mapIdx f).map g = l.mapIdx fun i a => g (f i a) := by
  rw [mapIdx_eq_zipIdx_map, map_map, mapIdx_eq_zipIdx_map]
  rfl

section
variable {α β : Type} {key : String}

theorem mapGet_append (l l' : List (String × α)) : mapGet (l ++ l') key = (mapGet l' key).or (mapGet l key) := by
  unfold mapGet
  rw [reverse_append, lookup_append]

theorem mapGet_concat (l : List (String × α)) (e : String × α) :
    mapGet (l ++ [e]) key = if key == e.1 then some e.2 else mapGet l key := by
  rw [mapGet_append]
  unfold mapGet
  rw [reverse_singleton, lookup_cons]
  split <;> simp_all

/-- The values of a map, each changed by its key. -/
theorem mapGet_map (l : List (String × α)) (f : String → α → β) :
    mapGet (l.map fun e => (e.1, f e.1 e.2)) key = (mapGet l key).map (f key) := by
  induction l using List.reverseRecOn with
  | nil => rfl
  | append_singleton l e ih =>
    rw [map_append, map_singleton, mapGet_concat, mapGet_concat, ih]
    split
    · rename_i heq
      rw [beq_iff_eq.1 heq]
      rfl
    · rfl

theorem mapGet_filter (l : List (String × α)) {p : String → Bool} (hp : p key = true) :
    mapGet (l.filter fun e => p e.1) key = mapGet l key := by
  induction l using List.reverseRecOn with
  | nil => rfl
  | append_singleton l e ih =>
    rw [filter_append, mapGet_concat]
    by_cases he : p e.1 = true
    · have hone : [e].filter (fun e => p e.1) = [e] := by simp [he]
      rw [hone, mapGet_concat, ih]
    · have hone : [e].filter (fun e => p e.1) = [] := by simp [he]
      have hne : key ≠ e.1 := fun heq => he (heq ▸ hp)
      rw [hone, List.append_nil, ih, if_neg (by simpa using hne)]

theorem mapGet_eq_none {l : List (String × α)} (h : mapGet l key = none) : key ∉ l.map (·.1) := by
  induction l using List.reverseRecOn with
  | nil => exact not_mem_nil
  | append_singleton l e ih =>
    rw [mapGet_concat] at h
    split at h
    · cases h
    · rename_i hne
      rw [map_append, map_singleton, mem_append, mem_singleton]
      exact not_or.2 ⟨ih h, by simpa using hne⟩

theorem mem_of_mapGet {l : List (String × α)} {v : α} (h : mapGet l key = some v) : (key, v) ∈ l := by
  obtain ⟨front, rest, hsplit, _⟩ := lookup_eq_some_iff.1 h
  have hmem : (key, v) ∈ l.reverse := by
    rw [hsplit]
    exact mem_append_right _ mem_cons_self
  exact mem_reverse.1 hmem

/-- A map that is filled from listings holds what the last one of the key gives. -/
theorem mapGet_listed (listings : List Listing) (f : Listing → α) :
    mapGet (listings.map fun l => (l.id, f l)) key = (listings.reverse.find? (·.id == key)).map f := by
  induction listings using List.reverseRecOn with
  | nil => rfl
  | append_singleton listings l ih =>
    rw [map_append, map_singleton, mapGet_concat, reverse_append, reverse_singleton,
      singleton_append, ih]
    by_cases heq : l.id = key
    · rw [find?_cons_of_pos (by simpa using heq), if_pos (by simpa using heq.symm)]
      rfl
    · rw [find?_cons_of_neg (by simpa using heq), if_neg (by simpa using Ne.symm heq)]

end

/-! ## Members of listings -/

theorem mem_rungListings {index : Nat} {rung : Rung} : l ∈ rungListings index rung ↔
      (∃ slot, rung.elementIds[slot]? = some l.id ∧ l = ⟨index, rung, l.id, .row slot⟩) ∨
        ∃ b ∈ rung.branches, ∃ row, b.elementIds[row]? = some l.id ∧
          l = ⟨index, rung, l.id, .member b.anchorId row⟩ := by
  unfold rungListings
  simp [List.getElem?_eq_some_iff]
  constructor
  · rintro (⟨slot, h, rfl⟩ | ⟨b, hb, row, h, rfl⟩)
    · exact .inl ⟨slot, ⟨h, rfl⟩, rfl⟩
    · exact .inr ⟨b, hb, row, ⟨h, rfl⟩, rfl⟩
  · rintro (⟨slot, ⟨h, hid⟩, hl⟩ | ⟨b, hb, row, ⟨h, hid⟩, hl⟩)
    · exact .inl ⟨slot, h, by rw [hl, hid]⟩
    · exact .inr ⟨b, hb, row, h, by rw [hl, hid]⟩

theorem index_of_mem {index : Nat} {rung : Rung} (h : l ∈ rungListings index rung) :
    l.index = index ∧ l.rung = rung := by
  rcases mem_rungListings.1 h with ⟨slot, _, hl⟩ | ⟨b, _, row, _, hl⟩
  · rw [hl]
    exact ⟨rfl, rfl⟩
  · rw [hl]
    exact ⟨rfl, rfl⟩

theorem mem_listings {graph : LdGraph} (h : l ∈ graph.listings) :
    graph.rungs[l.index]? = some l.rung ∧ l ∈ rungListings l.index l.rung := by
  obtain ⟨ls, hls, hl⟩ := mem_flatten.1 h
  obtain ⟨i, hi, rfl⟩ := mem_mapIdx.1 hls
  obtain ⟨hindex, hrung⟩ := index_of_mem hl
  rw [hindex, hrung]
  exact ⟨getElem?_eq_getElem hi, hl⟩

/-! ## One rung -/

section
variable {graph : LdGraph} {rung : Rung}

theorem seriesRow_eq (graph : LdGraph) (cursor : Rat) (ids : List String) :
    seriesRow graph cursor ids = ids.mapIdx fun slot id => (id, ⟨if graph.isCoilId id then 600
        else cursor + ((ids.take slot).map fun id => effectiveWidth (graph.kindOf id)).sum, 40⟩) := by
  induction ids generalizing cursor with
  | nil => rfl
  | cons id ids ih =>
    rw [seriesRow, ih, mapIdx_cons]
    congr 1
    · rw [take_zero, map_nil, sum_nil, add_zero]
      rfl
    · congr 1
      funext slot id'
      rw [take_succ_cons, map_cons, sum_cons, add_assoc]
      rfl

/-- The slot of an element of the main row. -/
theorem mapGet_slotOf (h : id ∈ rung.elementIds) :
    mapGet (rung.elementIds.mapIdx fun slot id => (id, slot)) id = some (rung.slotOf id) := by
  have hne : mapGet (rung.elementIds.mapIdx fun slot id => (id, slot)) id ≠ none := by
    intro hnone
    apply mapGet_eq_none hnone
    rw [map_mapIdx, mem_mapIdx]
    exact mem_iff_getElem.1 h
  obtain ⟨slot, hslot⟩ := Option.ne_none_iff_exists'.1 hne
  unfold Rung.slotOf
  rw [hslot, Option.getD_some]

theorem getElem?_slotOf (h : id ∈ rung.elementIds) : rung.elementIds[rung.slotOf id]? = some id := by
  obtain ⟨slot, hslot, heq⟩ := mem_mapIdx.1 (mem_of_mapGet (mapGet_slotOf h))
  rw [Prod.mk.injEq] at heq
  rw [← heq.2, getElem?_eq_getElem hslot, heq.1]

/-- The column under an anchor. -/
theorem mapGet_seriesRow (h : id ∈ rung.elementIds) (hcoil : graph.isCoilId id = false) :
    mapGet ((seriesRow graph 40 rung.elementIds).filter fun entry => !graph.isCoilId entry.1) id =
      some ⟨40 + graph.ahead rung (rung.slotOf id), 40⟩ := by
  have hmap : seriesRow graph 40 rung.elementIds =
      (rung.elementIds.mapIdx fun slot id => (id, slot)).map fun e =>
        (e.1, ⟨if graph.isCoilId e.1 then 600 else 40 + graph.ahead rung e.2, 40⟩) := by
    rw [seriesRow_eq, map_mapIdx]
    rfl
  rw [mapGet_filter (p := fun id => !graph.isCoilId id) _ (by rw [hcoil]; rfl), hmap,
    mapGet_map _ fun id slot => (⟨if graph.isCoilId id then 600 else 40 + graph.ahead rung slot, 40⟩ : Point),
    mapGet_slotOf h, Option.map_some, hcoil]
  rfl

/-- What a rung's layout holds, listing by listing. -/
theorem layoutRung_eq
    (hanchors : ∀ b ∈ rung.branches, b.anchorId ∈ rung.elementIds ∧ graph.isCoilId b.anchorId = false) (index : Nat) :
    layoutRung rung graph = (rungListings index rung).map fun l => (l.id, ⟨graph.column l, l.line⟩) := by
  have hrow : seriesRow graph 40 rung.elementIds =
      (rung.elementIds.mapIdx fun slot id => (⟨index, rung, id, .row slot⟩ : Listing)).map fun l =>
        (l.id, ⟨graph.column l, l.line⟩) := by
    rw [seriesRow_eq, map_mapIdx]
    rfl
  have hbranches : ∀ (branches : List ParallelBranch) (positions : List (String × Point)),
      (∀ b ∈ branches, b ∈ rung.branches) →
      branches.foldl
        (fun positions branch =>
          let anchorX := (((mapGet ((seriesRow graph 40 rung.elementIds).filter fun entry => !graph.isCoilId entry.1)
            branch.anchorId).or (mapGet positions branch.anchorId)).map (·.x)).getD 40
          positions ++ branch.elementIds.mapIdx fun idx memberId => (memberId, (⟨anchorX, 120 + idx * 40⟩ : Point)))
        positions = positions ++ (branches.flatMap fun b =>
          b.elementIds.mapIdx fun row id => (⟨index, rung, id, .member b.anchorId row⟩ : Listing)).map fun l =>
            (l.id, ⟨graph.column l, l.line⟩) := by
    intro branches
    induction branches with
    | nil => exact fun positions _ => (List.append_nil positions).symm
    | cons b branches ih =>
      intro positions hsub
      obtain ⟨hmem, hcoil⟩ := hanchors b (hsub b mem_cons_self)
      rw [foldl_cons, ih _ fun b' hb' => hsub b' (mem_cons_of_mem _ hb')]
      dsimp only
      rw [mapGet_seriesRow hmem hcoil, Option.some_or, Option.map_some, Option.getD_some, List.append_assoc,
        flatMap_cons, map_append, map_mapIdx]
      rfl
  unfold rungListings
  rw [map_append, ← hrow]
  exact hbranches rung.branches _ fun _ hb => hb

end

/-! ## Whole diagrams -/

/-- Branches hang off elements of the main row, coils apart. -/
def LdGraph.Anchored (graph : LdGraph) : Prop :=
  ∀ rung ∈ graph.rungs, ∀ b ∈ rung.branches, b.anchorId ∈ rung.elementIds ∧ graph.isCoilId b.anchorId = false

section
variable {graph : LdGraph}

theorem LdGraph.top_succ {k : Nat} {rung : Rung} (h : graph.rungs[k]? = some rung) :
    graph.top (k + 1) = graph.top k + (rungHeight rung + 4) := by
  obtain ⟨hk, rfl⟩ := List.getElem?_eq_some_iff.1 h
  unfold LdGraph.top
  rw [take_succ_eq_append_getElem hk, map_append, sum_append, map_singleton, sum_singleton]

/-- The maps after a number of rungs. -/
theorem foldl_layoutNext (hanchored : graph.Anchored) (start : LayoutOutput) (hstart : start.positions = []) (k : Nat) :
    ((graph.rungs.take k).foldl (layoutNext graph) (start, 0)).1.positions =
        (((graph.rungs.take k).mapIdx rungListings).flatten.map fun l => (l.id, graph.point l)) ∧
      ((graph.rungs.take k).foldl (layoutNext graph) (start, 0)).2 = graph.top k := by
  induction k with
  | zero => exact ⟨hstart, rfl⟩
  | succ k ih =>
    obtain ⟨hpositions, htop⟩ := ih
    by_cases hk : k < graph.rungs.length
    · have hrung : graph.rungs[k]? = some graph.rungs[k] := getElem?_eq_getElem hk
      have hlen : (graph.rungs.take k).length = k := length_take_of_le hk.le
      have hrow : ((layoutRung graph.rungs[k] graph).map fun (id, p) => (id, (⟨p.x, graph.top k + p.y⟩ : Point))) =
          (rungListings k graph.rungs[k]).map fun l => (l.id, graph.point l) := by
        rw [layoutRung_eq (hanchored _ (getElem_mem hk)) k, map_map]
        refine map_congr_left fun l hl => ?_
        have hindex : l.index = k := (index_of_mem hl).1
        unfold LdGraph.point
        rw [hindex]
        rfl
      rw [take_succ_eq_append_getElem hk, foldl_append, foldl_cons, foldl_nil, mapIdx_concat,
        flatten_concat, map_append, hlen, ← hpositions, ← hrow, ← htop, LdGraph.top_succ hrung, ← htop]
      exact ⟨rfl, rfl⟩
    · rw [take_of_length_le (Nat.le_succ_of_le (not_lt.1 hk))]
      rw [take_of_length_le (not_lt.1 hk)] at hpositions htop
      refine ⟨hpositions, htop.trans ?_⟩
      unfold LdGraph.top
      rw [take_of_length_le (not_lt.1 hk), take_of_length_le (Nat.le_succ_of_le (not_lt.1 hk))]

/-- The positions are those of the listings. -/
theorem positions_layoutGraph (hanchored : graph.Anchored) :
    (layoutGraph graph).positions = graph.listings.map fun l => (l.id, graph.point l) := by
  have hrun := (foldl_layoutNext hanchored ⟨[], [], [], ⟨⟨0, 0⟩, ⟨640, 0⟩, 0⟩, 0⟩ rfl graph.rungs.length).1
  rw [take_length] at hrun
  exact hrun

/-- **The box** of an element is where its last listing puts it. -/
theorem box_eq_some (hanchored : graph.Anchored) {b : Box} :
    graph.box id = some b ↔ ∃ l kind, graph.Counts l ∧ l.id = id ∧ graph.kindOf id = some kind ∧
      b = ⟨graph.point l, kind.size⟩ := by
  unfold LdGraph.box
  rw [positions_layoutGraph hanchored, mapGet_listed]
  simp only [Option.bind_eq_bind, Option.bind_eq_some_iff, Option.map_eq_some_iff, Option.some.injEq]
  constructor
  · rintro ⟨_, ⟨l, hl, rfl⟩, kind, hkind, rfl⟩
    have hid : l.id = id := by simpa using find?_some hl
    refine ⟨l, kind, ?_, hid, hkind, rfl⟩
    unfold LdGraph.Counts
    rw [hid, hl]
  · rintro ⟨l, kind, hl, rfl, hkind, rfl⟩
    exact ⟨_, ⟨l, hl, rfl⟩, kind, hkind, rfl⟩

theorem LdGraph.Counts.mem (h : graph.Counts l) : l ∈ graph.listings :=
  mem_reverse.1 (mem_of_find?_eq_some h)

end

end Audesys.LdEditor
