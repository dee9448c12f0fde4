import Audesys.LdEditor.Layout
import Mathlib.Algebra.Order.BigOperators.Group.List

/-!
# `LdEditor.Boxes` — elements that do not overlap

The boxes of a diagram are disjoint, and between the rails, exactly if three things are seen to that the layout does not
see to (`apart_iff`): every row is short enough for the rail, and for the coil; no two branches put members under the
same anchor; and no function block stands on a rung without branches above an element of the next rung, for which the
rung is too low.
-/

open List

namespace Audesys.LdEditor

open Audesys.Lib Audesys.Editor

namespace LdGraph

variable (graph : LdGraph)
variable {kind kind' : NodeKind} {l l' : Listing}
variable {slot : Nat}

/-- What a main row may contain: contacts, coils, comparisons, and function blocks of the catalog. -/
def IsElement (id : String) : Prop :=
  ∃ kind, graph.kindOf id = some kind ∧ kind.isRail = false ∧
    ∀ fbType inputPins outputPins, kind = .fb fbType inputPins outputPins → getFbPins fbType ≠ none

def IsContact (id : String) : Prop := ∃ kind, graph.kindOf id = some kind ∧ kind.isContact = true

/-- The rules of rungs: at most one coil, last, and branches of contacts that hang off contacts. -/
structure Regular : Prop where
  elements : ∀ rung ∈ graph.rungs, ∀ id ∈ rung.elementIds, graph.IsElement id
  coilLast : ∀ rung ∈ graph.rungs, ∀ id ∈ rung.elementIds.dropLast, graph.isCoilId id = false
  anchors : ∀ rung ∈ graph.rungs, ∀ b ∈ rung.branches, b.anchorId ∈ rung.elementIds ∧ graph.IsContact b.anchorId
  members : ∀ rung ∈ graph.rungs, ∀ b ∈ rung.branches, ∀ id ∈ b.elementIds, graph.IsContact id

/-- No two elements overlap. -/
def NoOverlap : Prop :=
  ∀ id id' b b', id ≠ id' → graph.box id = some b → graph.box id' = some b' → ¬ b.Overlaps b'

/-- Every element lies between the rails. -/
def BetweenRails : Prop :=
  ∀ id b, graph.box id = some b → (layoutGraph graph).rails.left.x ≤ b.position.x ∧
    b.position.x + b.size.width ≤ (layoutGraph graph).rails.right.x

/-- A series element, with what is in front of it and how wide it is. -/
structure InRow (l : Listing) (before width : Rat) : Prop where
  counts : graph.Counts l
  coil : graph.isCoilId l.id = false
  place : ∃ slot, l.place = .row slot ∧ before = graph.ahead l.rung slot
  width : ∃ kind, graph.kindOf l.id = some kind ∧ width = kind.size.width

/-- What the layout takes for granted. -/
structure Fits : Prop where
  /-- The elements of a row, with the gaps, take up at most the 600 units between the first column and the rail. -/
  row : ∀ l before width, graph.InRow l before width → before + width ≤ 600
  /-- In a row with a coil it is 560. -/
  coil : ∀ l before width l', graph.InRow l before width → graph.Counts l' → graph.isCoilId l'.id = true →
    l'.index = l.index → before + width ≤ 560
  /-- The elements in front of an anchor leave room for its members. -/
  anchor : ∀ l anchorId row, graph.Counts l → l.place = .member anchorId row →
    graph.ahead l.rung (l.rung.slotOf anchorId) + 36 ≤ 600
  /-- The members under an anchor are in different rows. -/
  branch : ∀ l l' anchorId row, graph.Counts l → graph.Counts l' → l.index = l'.index → l.id ≠ l'.id →
    l.place = .member anchorId row → l'.place ≠ .member anchorId row
  /-- Below a block on a rung without branches there is no element of the next rung. -/
  block : ∀ l before width l' before' width', graph.InRow l before width → (graph.kindOf l.id).any (·.isFb) = true →
    l.rung.branches = [] → l'.index = l.index + 1 → graph.InRow l' before' width' →
      before + width ≤ before' ∨ before' + width' ≤ before
  /-- Neither is its coil. -/
  blockCoil : ∀ l before width l', graph.InRow l before width → (graph.kindOf l.id).any (·.isFb) = true →
    l.rung.branches = [] → l'.index = l.index + 1 → graph.Counts l' → graph.isCoilId l'.id = true →
      before + width ≤ 560

end LdGraph

/-! ## Sizes -/

section
variable {graph : LdGraph}

/-- A block of the catalog has three or four rows of pins. -/
theorem getFbHeight_bounds {fbType : String} (h : getFbPins fbType ≠ none) :
    100 ≤ getFbHeight fbType ∧ getFbHeight fbType ≤ 130 := by
  have hrows : ∀ e ∈ fbDefinitions, 3 ≤ max (e.2.inputs.length + 1) (e.2.outputs.length + 1) ∧
      max (e.2.inputs.length + 1) (e.2.outputs.length + 1) ≤ 4 := by
    decide
  obtain ⟨pins, hpins⟩ := Option.ne_none_iff_exists'.1 h
  obtain ⟨definition, hlookup, rfl⟩ := Option.map_eq_some_iff.1 hpins
  have hmem : (fbType, definition) ∈ fbDefinitions := by
    obtain ⟨front, rest, hsplit, _⟩ := lookup_eq_some_iff.1 hlookup
    rw [hsplit]
    exact mem_append_right _ mem_cons_self
  obtain ⟨hlow, hhigh⟩ := hrows _ hmem
  unfold getFbHeight
  rw [hpins]
  dsimp only
  rw [length_cons, length_cons]
  have hlow' : ((3 : Nat) : ℚ) ≤ (max (definition.inputs.length + 1) (definition.outputs.length + 1) : Nat) :=
    Nat.cast_le.2 hlow
  have hhigh' : ((max (definition.inputs.length + 1) (definition.outputs.length + 1) : Nat) : ℚ) ≤ (4 : Nat) :=
    Nat.cast_le.2 hhigh
  push_cast at hlow' hhigh' ⊢
  constructor
  · linarith
  · linarith

theorem isCoilId_eq {id : String} (h : graph.kindOf id = some kind) : graph.isCoilId id = kind.isCoil := by
  unfold LdGraph.isCoilId
  rw [h]
  rfl

/-- The size of an element, and what the cursor leaves for it. -/
theorem size_of_isElement {id : String} (h : graph.IsElement id) (hkind : graph.kindOf id = some kind) :
    36 ≤ kind.size.width ∧ 36 ≤ kind.size.height ∧ kind.size.height ≤ 130 ∧
      (kind.isCoil = false → kind.size.width ≤ effectiveWidth (some kind)) ∧
      (kind.isFb = false → kind.size.height ≤ 40) ∧ (kind.isFb = true → 100 ≤ kind.size.height) := by
  obtain ⟨kind', hkind', hrail, hblock⟩ := h
  rw [hkind] at hkind'
  obtain rfl := Option.some.inj hkind'
  cases kind with
  | contact => norm_num [NodeKind.size, effectiveWidth, NodeKind.isFb]
  | coil => norm_num [NodeKind.size, NodeKind.isCoil, NodeKind.isFb]
  | powerRail => cases hrail
  | fb fbType inputPins outputPins =>
    obtain ⟨hlow, hhigh⟩ := getFbHeight_bounds (hblock fbType inputPins outputPins rfl)
    norm_num [NodeKind.size, effectiveWidth, NodeKind.isFb]
    exact ⟨by linarith, hhigh, hlow⟩
  | comparison => norm_num [NodeKind.size, effectiveWidth, NodeKind.isFb]

theorem size_of_isContact {id : String} (h : graph.IsContact id) (hkind : graph.kindOf id = some kind) :
    kind.size = ⟨36, 36⟩ ∧ kind.isCoil = false ∧ effectiveWidth (some kind) = 40 := by
  obtain ⟨kind', hkind', hcontact⟩ := h
  rw [hkind] at hkind'
  obtain rfl := Option.some.inj hkind'
  cases kind with
  | contact => exact ⟨rfl, rfl, rfl⟩
  | coil => cases hcontact
  | powerRail => cases hcontact
  | fb => cases hcontact
  | comparison => cases hcontact

/-! ## Columns -/

theorem effectiveWidth_nonneg (kind : Option NodeKind) : 0 ≤ effectiveWidth kind := by
  unfold effectiveWidth
  split <;> norm_num

theorem ahead_nonneg (rung : Rung) (slot : Nat) : 0 ≤ graph.ahead rung slot := by
  unfold LdGraph.ahead
  apply sum_nonneg
  intro w hw
  obtain ⟨id, _, rfl⟩ := mem_map.1 hw
  exact effectiveWidth_nonneg _

/-- An element in front takes its place. -/
theorem ahead_le {rung : Rung} {slot slot' : Nat} {id : String} (hlt : slot < slot')
    (hid : rung.elementIds[slot]? = some id) :
    graph.ahead rung slot + effectiveWidth (graph.kindOf id) ≤ graph.ahead rung slot' := by
  obtain ⟨hslot, rfl⟩ := List.getElem?_eq_some_iff.1 hid
  have hsplit : rung.elementIds.take slot' =
      rung.elementIds.take (slot + 1) ++ (rung.elementIds.drop (slot + 1)).take (slot' - (slot + 1)) := by
    rw [← take_add, Nat.add_sub_cancel' hlt]
  unfold LdGraph.ahead
  rw [hsplit, take_succ_eq_append_getElem hslot, map_append, map_append, sum_append,
    sum_append, map_singleton, sum_singleton]
  have hrest : 0 ≤ (((rung.elementIds.drop (slot + 1)).take (slot' - (slot + 1))).map fun id =>
      effectiveWidth (graph.kindOf id)).sum := by
    apply sum_nonneg
    intro w hw
    obtain ⟨id, _, rfl⟩ := mem_map.1 hw
    exact effectiveWidth_nonneg _
  linarith

/-! ## Rows -/

theorem le_foldl_max {n : Nat} {l : List Nat} : n ≤ l.foldl max n ∧ ∀ m ∈ l, m ≤ l.foldl max n := by
  induction l generalizing n with
  | nil => exact ⟨Nat.le_refl n, fun m hm => by cases hm⟩
  | cons k l ih =>
    obtain ⟨hstart, hall⟩ := @ih (max n k)
    refine ⟨(Nat.le_max_left n k).trans hstart, forall_mem_cons.2 ⟨(Nat.le_max_right n k).trans hstart, hall⟩⟩

theorem le_branchCount {rung : Rung} {b : ParallelBranch} (hb : b ∈ rung.branches) :
    b.elementIds.length ≤ (rung.branches.map (·.elementIds.length)).foldl max 0 :=
  le_foldl_max.2 _ (mem_map_of_mem hb)

theorem rungHeight_ge (rung : Rung) : 76 ≤ rungHeight rung := by
  unfold rungHeight
  dsimp only
  split_ifs
  · norm_num
  · norm_num
  · have hcount := Nat.cast_nonneg (α := ℚ) ((rung.branches.map (·.elementIds.length)).foldl max 0)
    linarith

/-- Branches push the next rung away from the main row. -/
theorem rungHeight_ge_of_branches {rung : Rung} (h : rung.branches ≠ []) : 156 ≤ rungHeight rung := by
  unfold rungHeight
  dsimp only
  split_ifs
  · norm_num
  · have hcount := Nat.cast_nonneg (α := ℚ) ((rung.branches.map (·.elementIds.length)).foldl max 0)
    linarith

/-- The members of a branch are inside their rung. -/
theorem rungHeight_ge_of_member {rung : Rung} {b : ParallelBranch} (hb : b ∈ rung.branches) {row : Nat}
    (hrow : row < b.elementIds.length) : 196 + row * 40 ≤ rungHeight rung := by
  have hcount := le_branchCount hb
  have hrows : ((row + 1 : Nat) : ℚ) ≤ ((rung.branches.map (·.elementIds.length)).foldl max 0 : Nat) :=
    Nat.cast_le.2 (Nat.le_trans hrow hcount)
  unfold rungHeight
  dsimp only
  rw [if_neg (by omega)]
  rw [Nat.cast_add, Nat.cast_one] at hrows
  linarith

/-! ## Tops -/

theorem top_mono {i j : Nat} (h : i ≤ j) : graph.top i ≤ graph.top j := by
  have hsplit : graph.rungs.take j = graph.rungs.take i ++ (graph.rungs.drop i).take (j - i) := by
    rw [← take_add, Nat.add_sub_cancel' h]
  have hrest : 0 ≤ (((graph.rungs.drop i).take (j - i)).map fun rung => rungHeight rung + 4).sum := by
    apply sum_nonneg
    intro w hw
    obtain ⟨rung, _, rfl⟩ := mem_map.1 hw
    linarith [rungHeight_ge rung]
  unfold LdGraph.top
  rw [hsplit, map_append, sum_append]
  linarith

/-- A rung behind another one begins below it. -/
theorem top_below {i j : Nat} {rung : Rung} (h : graph.rungs[i]? = some rung) (hlt : i < j) :
    graph.top i + (rungHeight rung + 4) ≤ graph.top j := by
  rw [← LdGraph.top_succ h]
  exact top_mono hlt

/-- Two rungs take up more than any block. -/
theorem top_far {i j : Nat} {rung rung' : Rung} (h : graph.rungs[i]? = some rung) (h' : graph.rungs[j]? = some rung')
    (hlt : i + 1 < j) : graph.top i + 160 ≤ graph.top j := by
  have hnext : i + 1 < graph.rungs.length := hlt.trans (List.getElem?_eq_some_iff.1 h').1
  have hfirst := top_below h (Nat.lt_succ_self i)
  have hsecond := top_below (getElem?_eq_getElem hnext) hlt
  linarith [rungHeight_ge rung, rungHeight_ge graph.rungs[i + 1]]

/-! ## Listings that count -/

/-- Where an element of the diagram is: in its row, at the coil's place, or under an anchor. -/
inductive Drawn (graph : LdGraph) (l : Listing) (kind : NodeKind) : Prop where
  | series (slot : Nat) (hplace : l.place = .row slot) (hslot : l.rung.elementIds[slot]? = some l.id)
      (hcoil : kind.isCoil = false) (hcolumn : graph.column l = 40 + graph.ahead l.rung slot) (hline : l.line = 40)
      (hwidth : kind.size.width ≤ effectiveWidth (graph.kindOf l.id))
  | coil (hlast : l.rung.elementIds.getLast? = some l.id) (hcoil : kind.isCoil = true) (hcolumn : graph.column l = 600)
      (hline : l.line = 40) (hsize : kind.size = ⟨36, 36⟩)
  | member (anchorId : String) (row : Nat) (hplace : l.place = .member anchorId row)
      (hanchor : l.rung.elementIds[l.rung.slotOf anchorId]? = some anchorId)
      (hcontact : graph.IsContact anchorId)
      (hcolumn : graph.column l = 40 + graph.ahead l.rung (l.rung.slotOf anchorId)) (hline : l.line = 120 + row * 40)
      (hsize : kind.size = ⟨36, 36⟩) (hheight : 196 + row * 40 ≤ rungHeight l.rung)
      (hplain : kind.isCoil = false)

theorem LdGraph.Regular.anchored (h : graph.Regular) : graph.Anchored := by
  intro rung hrung b hb
  obtain ⟨hmem, kind, hkind, hcontact⟩ := h.anchors rung hrung b hb
  exact ⟨hmem, (isCoilId_eq hkind).trans (size_of_isContact ⟨kind, hkind, hcontact⟩ hkind).2.1⟩

/-- A coil ends its row. -/
theorem LdGraph.Regular.getLast?_of_isCoilId (h : graph.Regular) {rung : Rung} (hin : rung ∈ graph.rungs) {id : String}
    (hid : id ∈ rung.elementIds) (hcoil : graph.isCoilId id = true) : rung.elementIds.getLast? = some id := by
  obtain ⟨front, last, hsplit⟩ := (eq_nil_or_concat' rung.elementIds).resolve_left (ne_nil_of_mem hid)
  have hfront := h.coilLast rung hin
  rw [hsplit, dropLast_concat] at hfront
  rw [hsplit, mem_append, mem_singleton] at hid
  rcases hid with hid | rfl
  · rw [hfront id hid] at hcoil
    cases hcoil
  · rw [hsplit, getLast?_concat]

theorem LdGraph.Regular.drawn (h : graph.Regular) (hl : graph.Counts l)
    (hkind : graph.kindOf l.id = some kind) : Drawn graph l kind := by
  obtain ⟨hrung, hmem⟩ := mem_listings hl.mem
  have hin : l.rung ∈ graph.rungs := mem_of_getElem? hrung
  rcases mem_rungListings.1 hmem with ⟨slot, hslot, hplace⟩ | ⟨b, hb, row, hrow, hplace⟩
  · have hplace' : l.place = .row slot := by rw [hplace]
    have helement := h.elements _ hin _ (mem_of_getElem? hslot)
    obtain ⟨_, _, _, hwidth, _⟩ := size_of_isElement helement hkind
    have hline : l.line = 40 := by
      unfold Listing.line
      rw [hplace']
    by_cases hcoil : kind.isCoil = true
    · have hlast := h.getLast?_of_isCoilId hin (mem_of_getElem? hslot) ((isCoilId_eq hkind).trans hcoil)
      refine .coil hlast hcoil ?_ hline ?_
      · unfold LdGraph.column
        rw [hplace']
        exact if_pos ((isCoilId_eq hkind).trans hcoil)
      · cases kind with
        | coil => rfl
        | contact => cases hcoil
        | powerRail => cases hcoil
        | fb => cases hcoil
        | comparison => cases hcoil
    · rw [Bool.not_eq_true] at hcoil
      refine .series slot hplace' hslot hcoil ?_ hline (hkind ▸ hwidth hcoil)
      unfold LdGraph.column
      rw [hplace']
      dsimp only
      rw [isCoilId_eq hkind, hcoil]
      rfl
  · have hplace' : l.place = .member b.anchorId row := by rw [hplace]
    obtain ⟨hanchor, hcontact⟩ := h.anchors _ hin b hb
    have hmember := h.members _ hin b hb _ (mem_of_getElem? hrow)
    obtain ⟨hsize, hplain, _⟩ := size_of_isContact hmember hkind
    refine .member b.anchorId row hplace' (getElem?_slotOf hanchor) hcontact ?_ ?_ hsize
      (rungHeight_ge_of_member hb (List.getElem?_eq_some_iff.1 hrow).1) hplain
    · unfold LdGraph.column
      rw [hplace']
    · unfold Listing.line
      rw [hplace']

/-- Two elements of one row are side by side. -/
theorem ahead_apart {rung : Rung} {slot slot' : Nat} {id id' : String} (hid : rung.elementIds[slot]? = some id)
    (hid' : rung.elementIds[slot']? = some id') (hne : id ≠ id') :
    graph.ahead rung slot + effectiveWidth (graph.kindOf id) ≤ graph.ahead rung slot' ∨
      graph.ahead rung slot' + effectiveWidth (graph.kindOf id') ≤ graph.ahead rung slot := by
  rcases Nat.lt_trichotomy slot slot' with hlt | rfl | hlt
  · exact .inl (ahead_le hlt hid)
  · rw [hid] at hid'
    exact absurd (Option.some.inj hid') hne
  · exact .inr (ahead_le hlt hid')

/-- The element is in the main row. -/
theorem Drawn.inRow (hl : graph.Counts l) (hkind : graph.kindOf l.id = some kind)
    (hplace : l.place = .row slot) (hcoil : kind.isCoil = false) :
    graph.InRow l (graph.ahead l.rung slot) kind.size.width :=
  ⟨hl, (isCoilId_eq hkind).trans hcoil, ⟨slot, hplace, rfl⟩, ⟨kind, hkind, rfl⟩⟩

/-- The box of a listing. -/
def LdGraph.boxOf (graph : LdGraph) (l : Listing) (kind : NodeKind) : Box := ⟨graph.point l, kind.size⟩

theorem Box.Overlaps.symm {a b : Box} (h : a.Overlaps b) : b.Overlaps a := ⟨h.2.1, h.1, h.2.2.2, h.2.2.1⟩

/-- The room of an anchor. -/
theorem effectiveWidth_of_isContact {id : String} (h : graph.IsContact id) : effectiveWidth (graph.kindOf id) = 40 := by
  obtain ⟨kind, hkind, hcontact⟩ := h
  rw [hkind]
  exact (size_of_isContact ⟨kind, hkind, hcontact⟩ hkind).2.2

theorem rung_of_index (hl : graph.Counts l) (hl' : graph.Counts l') (hindex : l.index = l'.index) :
    l.rung = l'.rung := by
  have hrung := (mem_listings hl.mem).1
  rw [hindex, (mem_listings hl'.mem).1] at hrung
  exact (Option.some.inj hrung).symm

/-- A series element and the coil. -/
theorem LdGraph.Fits.apart_coil (hfits : graph.Fits) (hl : graph.Counts l)
    (hl' : graph.Counts l') (hkind : graph.kindOf l.id = some kind) (hkind' : graph.kindOf l'.id = some kind')
    (hindex : l.index = l'.index) (hplace : l.place = .row slot) (hcoil : kind.isCoil = false)
    (hcolumn : graph.column l = 40 + graph.ahead l.rung slot) (hcoil' : kind'.isCoil = true)
    (hcolumn' : graph.column l' = 600) : ¬ (graph.boxOf l kind).Overlaps (graph.boxOf l' kind') := by
  have hroom := hfits.coil l _ _ l' (Drawn.inRow hl hkind hplace hcoil) hl' ((isCoilId_eq hkind').trans hcoil')
    hindex.symm
  rintro ⟨_, hx, _⟩
  unfold LdGraph.boxOf LdGraph.point at hx
  dsimp only at hx
  rw [hcolumn, hcolumn'] at hx
  linarith

/-- A series element and a member, which hangs below it or beside it. -/
theorem apart_member (hkind : graph.kindOf l.id = some kind)
    (hindex : l.index = l'.index) (hrung : l.rung = l'.rung)
    (hslot : l.rung.elementIds[slot]? = some l.id) (hcolumn : graph.column l = 40 + graph.ahead l.rung slot)
    (hline : l.line = 40) (hwidth : kind.size.width ≤ effectiveWidth (graph.kindOf l.id)) {anchorId : String} {row : Nat}
    (hanchor : l'.rung.elementIds[l'.rung.slotOf anchorId]? = some anchorId) (hcontact : graph.IsContact anchorId)
    (hcolumn' : graph.column l' = 40 + graph.ahead l'.rung (l'.rung.slotOf anchorId))
    (hline' : l'.line = 120 + row * 40) (hsize' : kind'.size = ⟨36, 36⟩) :
    ¬ (graph.boxOf l kind).Overlaps (graph.boxOf l' kind') := by
  have hroom := effectiveWidth_of_isContact hcontact
  rintro ⟨hx, hx', hy, hy'⟩
  unfold LdGraph.boxOf LdGraph.point at hx hx' hy hy'
  dsimp only at hx hx' hy hy'
  rw [hcolumn, hcolumn', ← hrung] at hx hx'
  rw [hline, hline', hindex] at hy hy'
  rw [hsize'] at hx hy
  by_cases heq : l.id = anchorId
  · rw [heq] at hkind
    rw [(size_of_isContact hcontact hkind).1] at hy'
    have hrow := Nat.cast_nonneg (α := ℚ) row
    linarith
  · rw [← hrung] at hanchor
    rcases ahead_apart hslot hanchor heq with hapart | hapart
    · linarith
    · linarith

/-- **One rung**: its elements do not overlap. -/
theorem LdGraph.Fits.apart_of_rung (hfits : graph.Fits) (h : graph.Regular)
    (hl : graph.Counts l) (hl' : graph.Counts l') (hkind : graph.kindOf l.id = some kind)
    (hkind' : graph.kindOf l'.id = some kind') (hne : l.id ≠ l'.id) (hindex : l.index = l'.index) :
    ¬ (graph.boxOf l kind).Overlaps (graph.boxOf l' kind') := by
  have hrung := rung_of_index hl hl' hindex
  cases h.drawn hl hkind with
  | series slot hplace hslot hcoil hcolumn hline hwidth =>
    cases h.drawn hl' hkind' with
    | series slot' hplace' hslot' hcoil' hcolumn' hline' hwidth' =>
      rintro ⟨hx, hx', _⟩
      unfold LdGraph.boxOf LdGraph.point at hx hx'
      dsimp only at hx hx'
      rw [hcolumn, hcolumn', ← hrung] at hx hx'
      rw [← hrung] at hslot'
      rcases ahead_apart hslot hslot' hne with hapart | hapart
      · linarith
      · linarith
    | coil hlast' hcoil' hcolumn' hline' hsize' =>
      exact hfits.apart_coil hl hl' hkind hkind' hindex hplace hcoil hcolumn hcoil' hcolumn'
    | member anchorId row hplace' hanchor hcontact hcolumn' hline' hsize' hheight' =>
      exact apart_member hkind hindex hrung hslot hcolumn hline hwidth hanchor hcontact hcolumn' hline' hsize'
  | coil hlast hcoil hcolumn hline hsize =>
    cases h.drawn hl' hkind' with
    | series slot' hplace' hslot' hcoil' hcolumn' hline' hwidth' =>
      exact fun hover => hfits.apart_coil hl' hl hkind' hkind hindex.symm hplace' hcoil' hcolumn' hcoil hcolumn hover.symm
    | coil hlast' hcoil' hcolumn' hline' hsize' =>
      rw [hrung, hlast'] at hlast
      exact absurd (Option.some.inj hlast).symm hne
    | member anchorId row hplace' hanchor hcontact hcolumn' hline' hsize' hheight' =>
      rintro ⟨_, _, _, hy⟩
      unfold LdGraph.boxOf LdGraph.point at hy
      dsimp only at hy
      rw [hline, hline', hindex, hsize] at hy
      have hrow := Nat.cast_nonneg (α := ℚ) row
      linarith
  | member anchorId row hplace hanchor hcontact hcolumn hline hsize hheight =>
    cases h.drawn hl' hkind' with
    | series slot' hplace' hslot' hcoil' hcolumn' hline' hwidth' =>
      exact fun hover => apart_member hkind' hindex.symm hrung.symm hslot' hcolumn' hline' hwidth' hanchor hcontact
        hcolumn hline hsize hover.symm
    | coil hlast' hcoil' hcolumn' hline' hsize' =>
      rintro ⟨_, _, hy, _⟩
      unfold LdGraph.boxOf LdGraph.point at hy
      dsimp only at hy
      rw [hline, hline', hindex, hsize'] at hy
      have hrow := Nat.cast_nonneg (α := ℚ) row
      linarith
    | member anchorId' row' hplace' hanchor' hcontact' hcolumn' hline' hsize' hheight' =>
      rintro ⟨hx, hx', hy, hy'⟩
      unfold LdGraph.boxOf LdGraph.point at hx hx' hy hy'
      dsimp only at hx hx' hy hy'
      rw [hcolumn, hcolumn', ← hrung] at hx hx'
      rw [hsize'] at hx hy
      rw [hsize] at hx' hy'
      rw [hline, hline', hindex] at hy hy'
      by_cases hanchors : anchorId = anchorId'
      · have hrows : row ≠ row' := by
          rintro rfl
          exact hfits.branch l l' anchorId row hl hl' hindex hne hplace (hanchors ▸ hplace')
        rcases Nat.lt_or_gt_of_ne hrows with hlt | hlt
        · have hcast : ((row + 1 : Nat) : ℚ) ≤ row' := Nat.cast_le.2 hlt
          push_cast at hcast
          linarith
        · have hcast : ((row' + 1 : Nat) : ℚ) ≤ row := Nat.cast_le.2 hlt
          push_cast at hcast
          linarith
      · have hroom := effectiveWidth_of_isContact hcontact
        have hroom' := effectiveWidth_of_isContact hcontact'
        rw [← hrung] at hanchor'
        rcases ahead_apart hanchor hanchor' hanchors with hapart | hapart
        · linarith
        · linarith

theorem line_ge (l : Listing) : 40 ≤ l.line := by
  unfold Listing.line
  split
  · exact le_rfl
  · rename_i row _
    have hrow := Nat.cast_nonneg (α := ℚ) row
    linarith

/-- What ends above the first line of the rung behind does not overlap. -/
theorem apart_of_bottom (h : graph.top l.index + l.line + kind.size.height ≤ graph.top l'.index + l'.line) :
    ¬ (graph.boxOf l kind).Overlaps (graph.boxOf l' kind') := by
  rintro ⟨_, _, _, hy⟩
  unfold LdGraph.boxOf LdGraph.point at hy
  dsimp only at hy
  linarith

/-- A block on a rung, and an element of a rung behind it. -/
theorem LdGraph.Fits.apart_block (hfits : graph.Fits) (h : graph.Regular)
    (hl : graph.Counts l) (hl' : graph.Counts l') (hkind : graph.kindOf l.id = some kind)
    (hkind' : graph.kindOf l'.id = some kind') (hindex : l.index < l'.index) (hplace : l.place = .row slot)
    (hcoil : kind.isCoil = false) (hcolumn : graph.column l = 40 + graph.ahead l.rung slot) (hline : l.line = 40)
    (hblock : kind.isFb = true) (hhigh : kind.size.height ≤ 130) :
    ¬ (graph.boxOf l kind).Overlaps (graph.boxOf l' kind') := by
  have hrung := (mem_listings hl.mem).1
  have hrung' := (mem_listings hl'.mem).1
  have hbelow := top_below hrung hindex
  have hline' := line_ge l'
  by_cases hopen : l.rung.branches = []
  · by_cases hfar : l.index + 1 < l'.index
    · have htop := top_far hrung hrung' hfar
      exact apart_of_bottom (by linarith)
    · have hnext : l'.index = l.index + 1 := by omega
      have hfb : (graph.kindOf l.id).any (·.isFb) = true := by
        rw [hkind]
        exact hblock
      have hrow := Drawn.inRow hl hkind hplace hcoil
      cases h.drawn hl' hkind' with
      | series slot' hplace' hslot' hcoil' hcolumn' hline' hwidth' =>
        have hbeside := hfits.block l _ _ l' _ _ hrow hfb hopen hnext (Drawn.inRow hl' hkind' hplace' hcoil')
        rintro ⟨hx, hx', _⟩
        unfold LdGraph.boxOf LdGraph.point at hx hx'
        dsimp only at hx hx'
        rw [hcolumn, hcolumn'] at hx hx'
        rcases hbeside with hbeside | hbeside
        · linarith
        · linarith
      | coil hlast' hcoil' hcolumn' hline' hsize' =>
        have hroom := hfits.blockCoil l _ _ l' hrow hfb hopen hnext hl' ((isCoilId_eq hkind').trans hcoil')
        rintro ⟨_, hx, _⟩
        unfold LdGraph.boxOf LdGraph.point at hx
        dsimp only at hx
        rw [hcolumn, hcolumn'] at hx
        linarith
      | member anchorId row hplace' hanchor hcontact hcolumn' hmember hsize' hheight' =>
        have hrows := Nat.cast_nonneg (α := ℚ) row
        have hlow := rungHeight_ge l.rung
        exact apart_of_bottom (by linarith)
  · have hhigher := rungHeight_ge_of_branches hopen
    exact apart_of_bottom (by linarith)

/-- **Two rungs**: an element of a rung does not overlap with one of a rung behind it. -/
theorem LdGraph.Fits.apart_of_lt (hfits : graph.Fits) (h : graph.Regular)
    (hl : graph.Counts l) (hl' : graph.Counts l') (hkind : graph.kindOf l.id = some kind)
    (hkind' : graph.kindOf l'.id = some kind') (hindex : l.index < l'.index) :
    ¬ (graph.boxOf l kind).Overlaps (graph.boxOf l' kind') := by
  have hrung := (mem_listings hl.mem).1
  have hbelow := top_below hrung hindex
  have hline' := line_ge l'
  have hlow := rungHeight_ge l.rung
  cases h.drawn hl hkind with
  | series slot hplace hslot hcoil hcolumn hline hwidth =>
    have helement := h.elements _ (mem_of_getElem? hrung) _ (mem_of_getElem? hslot)
    obtain ⟨_, _, hhigh, _, hplain, _⟩ := size_of_isElement helement hkind
    by_cases hblock : kind.isFb = true
    · exact hfits.apart_block h hl hl' hkind hkind' hindex hplace hcoil hcolumn hline hblock hhigh
    · have hheight := hplain (Bool.eq_false_iff.2 hblock)
      exact apart_of_bottom (by linarith)
  | coil hlast hcoil hcolumn hline hsize =>
    refine apart_of_bottom ?_
    rw [hsize]
    linarith
  | member anchorId row hplace hanchor hcontact hcolumn hline hsize hheight =>
    refine apart_of_bottom ?_
    rw [hsize]
    linarith

theorem column_nonneg (l : Listing) : 0 ≤ graph.column l := by
  unfold LdGraph.column
  split
  · split
    · norm_num
    · exact add_nonneg (by norm_num) (ahead_nonneg _ _)
  · exact add_nonneg (by norm_num) (ahead_nonneg _ _)

/-- Every element ends in front of the rail. -/
theorem LdGraph.Fits.column_le (hfits : graph.Fits) (h : graph.Regular)
    (hl : graph.Counts l) (hkind : graph.kindOf l.id = some kind) : graph.column l + kind.size.width ≤ 640 := by
  cases h.drawn hl hkind with
  | series slot hplace hslot hcoil hcolumn hline hwidth =>
    have hroom := hfits.row l _ _ (Drawn.inRow hl hkind hplace hcoil)
    linarith
  | coil hlast hcoil hcolumn hline hsize =>
    rw [hcolumn, hsize]
    norm_num
  | member anchorId row hplace hanchor hcontact hcolumn hline hsize hheight =>
    have hroom := hfits.anchor l anchorId row hl hplace
    rw [hcolumn, hsize]
    linarith

/-! ## The condition -/

theorem LdGraph.NoOverlap.boxOf (h : graph.Regular) (hover : graph.NoOverlap)
    (hl : graph.Counts l) (hl' : graph.Counts l') (hkind : graph.kindOf l.id = some kind)
    (hkind' : graph.kindOf l'.id = some kind') (hne : l.id ≠ l'.id) :
    ¬ (graph.boxOf l kind).Overlaps (graph.boxOf l' kind') :=
  hover l.id l'.id _ _ hne ((box_eq_some h.anchored).2 ⟨l, kind, hl, rfl, hkind, rfl⟩)
    ((box_eq_some h.anchored).2 ⟨l', kind', hl', rfl, hkind', rfl⟩)

/-- The box of a series element. -/
theorem LdGraph.InRow.box (h : graph.Regular) {before width : Rat} (hrow : graph.InRow l before width) :
    ∃ kind, graph.kindOf l.id = some kind ∧ kind.size.width = width ∧ graph.column l = 40 + before ∧ l.line = 40 ∧
      36 ≤ width ∧ 36 ≤ kind.size.height ∧ (kind.isFb = true → 100 ≤ kind.size.height) := by
  obtain ⟨slot, hplace, rfl⟩ := hrow.place
  obtain ⟨kind, hkind, rfl⟩ := hrow.width
  obtain ⟨hrung, hmem⟩ := mem_listings hrow.counts.mem
  have hcoil : kind.isCoil = false := (isCoilId_eq hkind).symm.trans hrow.coil
  cases h.drawn hrow.counts hkind with
  | series slot' hplace' hslot' hcoil' hcolumn' hline' hwidth' =>
    obtain rfl := Place.row.inj (hplace.symm.trans hplace')
    have helement := h.elements _ (mem_of_getElem? hrung) _ (mem_of_getElem? hslot')
    obtain ⟨hwide, hheight, _, _, _, htall⟩ := size_of_isElement helement hkind
    exact ⟨kind, hkind, rfl, hcolumn', hline', hwide, hheight, htall⟩
  | coil hlast' hcoil' hcolumn' hline' hsize' =>
    rw [hcoil] at hcoil'
    cases hcoil'
  | member anchorId row hplace' hanchor hcontact hcolumn' hline' hsize' hheight' => cases hplace.symm.trans hplace'

/-- The box of a coil. -/
theorem LdGraph.Regular.boxOfCoil (h : graph.Regular) (hl : graph.Counts l)
    (hcoil : graph.isCoilId l.id = true) :
    ∃ kind, graph.kindOf l.id = some kind ∧ graph.column l = 600 ∧ l.line = 40 ∧ kind.size = ⟨36, 36⟩ := by
  obtain ⟨kind, hkind⟩ : ∃ kind, graph.kindOf l.id = some kind := by
    cases hkind : graph.kindOf l.id with
    | none =>
      unfold LdGraph.isCoilId at hcoil
      rw [hkind] at hcoil
      cases hcoil
    | some kind => exact ⟨kind, rfl⟩
  have hkindCoil : kind.isCoil = true := (isCoilId_eq hkind).symm.trans hcoil
  cases h.drawn hl hkind with
  | series slot hplace hslot hplain hcolumn hline hwidth =>
    rw [hplain] at hkindCoil
    cases hkindCoil
  | coil hlast _ hcolumn hline hsize => exact ⟨kind, hkind, hcolumn, hline, hsize⟩
  | member anchorId row hplace hanchor hcontact hcolumn hline hsize hheight hplain =>
    rw [hplain] at hkindCoil
    cases hkindCoil

/-- The box of a member. -/
theorem LdGraph.Regular.boxOfMember (h : graph.Regular) (hl : graph.Counts l) {anchorId : String}
    {row : Nat} (hplace : l.place = .member anchorId row) :
    ∃ kind, graph.kindOf l.id = some kind ∧ graph.column l = 40 + graph.ahead l.rung (l.rung.slotOf anchorId) ∧
      kind.size = ⟨36, 36⟩ := by
  obtain ⟨hrung, hmem⟩ := mem_listings hl.mem
  have hin : l.rung ∈ graph.rungs := mem_of_getElem? hrung
  rcases mem_rungListings.1 hmem with ⟨slot, _, hplace'⟩ | ⟨b, hb, row', hrow, hplace'⟩
  · rw [hplace'] at hplace
    cases hplace
  · have hmember := h.members _ hin b hb _ (mem_of_getElem? hrow)
    obtain ⟨kind, hkind, _⟩ := hmember
    refine ⟨kind, hkind, ?_, (size_of_isContact (h.members _ hin b hb _ (mem_of_getElem? hrow)) hkind).1⟩
    unfold LdGraph.column
    rw [hplace]

/-- A rung without branches is as low as its main row. -/
theorem top_of_plain (hl : graph.Counts l) (hopen : l.rung.branches = []) :
    graph.top (l.index + 1) = graph.top l.index + 80 := by
  have hheight : rungHeight l.rung = 76 := by
    unfold rungHeight
    rw [hopen]
    rfl
  rw [LdGraph.top_succ (mem_listings hl.mem).1, hheight]
  norm_num

theorem LdGraph.BetweenRails.boxOf (h : graph.Regular) (hrails : graph.BetweenRails)
    (hl : graph.Counts l) (hkind : graph.kindOf l.id = some kind) : graph.column l + kind.size.width ≤ 640 :=
  (hrails l.id _ ((box_eq_some h.anchored).2 ⟨l, kind, hl, rfl, hkind, rfl⟩)).2

/-- What there is room for if nothing overlaps. -/
theorem LdGraph.Regular.fits (h : graph.Regular) (hover : graph.NoOverlap) (hrails : graph.BetweenRails) :
    graph.Fits := by
  have hrow : ∀ l before width, graph.InRow l before width → before + width ≤ 600 := by
    intro l before width hl
    obtain ⟨kind, hkind, rfl, hcolumn, _⟩ := hl.box h
    have hright := hrails.boxOf h hl.counts hkind
    linarith
  -- a series element and a coil that are drawn on lines that meet
  have hcoil : ∀ l before width l' kind, graph.InRow l before width → graph.Counts l' → graph.isCoilId l'.id = true →
      graph.kindOf l.id = some kind → graph.top l.index < graph.top l'.index + 36 →
      graph.top l'.index < graph.top l.index + kind.size.height → before + width ≤ 560 := by
    intro l before width l' kind hl hl' hcoil hkind htop htop'
    obtain ⟨_, hkind₁, rfl, hcolumn, hline, hwide, _⟩ := hl.box h
    obtain rfl := Option.some.inj (hkind₁.symm.trans hkind)
    obtain ⟨kind', hkind', hcolumn', hline', hsize'⟩ := h.boxOfCoil hl' hcoil
    have hroom := hrow _ _ _ hl
    have hne : l.id ≠ l'.id := by
      intro heq
      have hplain := hl.coil
      rw [heq, hcoil] at hplain
      cases hplain
    by_contra hlt
    refine hover.boxOf h hl.counts hl' hkind hkind' hne ?_
    unfold LdGraph.boxOf LdGraph.point
    refine ⟨?_, ?_, ?_, ?_⟩
    · dsimp only
      rw [hcolumn, hcolumn', hsize']
      linarith
    · dsimp only
      rw [hcolumn, hcolumn']
      linarith
    · dsimp only
      rw [hline, hline', hsize']
      linarith
    · dsimp only
      rw [hline, hline']
      linarith
  refine ⟨hrow, ?_, ?_, ?_, ?_, ?_⟩
  · intro l before width l' hl hl' hcoil' hindex
    obtain ⟨kind, hkind, _, _, _, _, hheight, _⟩ := hl.box h
    exact hcoil l before width l' kind hl hl' hcoil' hkind (by rw [hindex]; linarith) (by rw [hindex]; linarith)
  · intro l anchorId row hl hplace
    obtain ⟨kind, hkind, hcolumn, hsize⟩ := h.boxOfMember hl hplace
    have hright := hrails.boxOf h hl hkind
    rw [hcolumn, hsize] at hright
    linarith
  · intro l l' anchorId row hl hl' hindex hne hplace hplace'
    obtain ⟨kind, hkind, hcolumn, hsize⟩ := h.boxOfMember hl hplace
    obtain ⟨kind', hkind', hcolumn', hsize'⟩ := h.boxOfMember hl' hplace'
    have hrung := rung_of_index hl hl' hindex
    refine hover.boxOf h hl hl' hkind hkind' hne ?_
    have hpoint : graph.point l = graph.point l' := by
      unfold LdGraph.point Listing.line
      rw [hcolumn, hcolumn', hrung, hindex, hplace, hplace']
    unfold LdGraph.boxOf
    rw [hpoint, hsize, hsize']
    exact ⟨by norm_num, by norm_num, by norm_num, by norm_num⟩
  · intro l before width l' before' width' hl hblock hopen hnext hl'
    obtain ⟨kind, hkind, rfl, hcolumn, hline, _, _, htall⟩ := hl.box h
    obtain ⟨kind', hkind', rfl, hcolumn', hline', _, hheight', _⟩ := hl'.box h
    have hne : l.id ≠ l'.id := by
      intro heq
      have hcounts : graph.listings.reverse.find? (·.id == l.id) = some l := hl.counts
      rw [heq, show graph.listings.reverse.find? (·.id == l'.id) = some l' from hl'.counts] at hcounts
      rw [Option.some.inj hcounts] at hnext
      omega
    rw [hkind] at hblock
    have hheight := htall hblock
    have htop := top_of_plain hl.counts hopen
    rw [← hnext] at htop
    by_contra hmeet
    rw [not_or, not_le, not_le] at hmeet
    refine hover.boxOf h hl.counts hl'.counts hkind hkind' hne ?_
    unfold LdGraph.boxOf LdGraph.point
    refine ⟨?_, ?_, ?_, ?_⟩
    · dsimp only
      rw [hcolumn, hcolumn']
      linarith
    · dsimp only
      rw [hcolumn, hcolumn']
      linarith
    · dsimp only
      rw [hline, hline']
      linarith
    · dsimp only
      rw [hline, hline']
      linarith
  · intro l before width l' hl hblock hopen hnext hl' hcoil'
    obtain ⟨kind, hkind, _, _, _, _, _, htall⟩ := hl.box h
    rw [hkind] at hblock
    have hheight := htall hblock
    have htop := top_of_plain hl.counts hopen
    rw [← hnext] at htop
    exact hcoil l before width l' kind hl hl' hcoil' hkind (by linarith) (by linarith)

/-- **Disjoint boxes**: between the rails, and apart. -/
theorem apart_iff (h : graph.Regular) : graph.NoOverlap ∧ graph.BetweenRails ↔ graph.Fits := by
  constructor
  · rintro ⟨hover, hrails⟩
    exact h.fits hover hrails
  · intro hfits
    constructor
    · rintro id id' b b' hne hb hb'
      obtain ⟨l, kind, hl, rfl, hkind, rfl⟩ := (box_eq_some h.anchored).1 hb
      obtain ⟨l', kind', hl', rfl, hkind', rfl⟩ := (box_eq_some h.anchored).1 hb'
      rcases Nat.lt_trichotomy l.index l'.index with hlt | heq | hlt
      · exact hfits.apart_of_lt h hl hl' hkind hkind' hlt
      · exact hfits.apart_of_rung h hl hl' hkind hkind' hne heq
      · exact fun hboth => hfits.apart_of_lt h hl' hl hkind' hkind hlt hboth.symm
    · rintro id b hb
      obtain ⟨l, kind, hl, rfl, hkind, rfl⟩ := (box_eq_some h.anchored).1 hb
      have hright := hfits.column_le h hl hkind
      exact ⟨column_nonneg l, hright⟩

end

/-! ## Diagrams -/

/-- A motor that holds itself, and a lamp behind a delay. -/
def selfHolding : LdGraph where
  nodes := [createContact "start" .no "START" ⟨0, 0⟩, createContact "hold" .no "MOTOR" ⟨0, 0⟩,
    createCoil "motor" .normal "MOTOR", createContact "run" .no "MOTOR" ⟨0, 0⟩, createFb "delay" "TON" [] [],
    createCoil "lamp" .normal "LAMP"]
  edges := []
  rungs := [⟨"r1", 1, none, none, ["start", "motor"], [⟨"b1", "r1", "start", ["hold"], 40⟩]⟩,
    ⟨"r2", 2, none, none, ["run", "delay", "lamp"], []⟩]

theorem selfHolding_apart_iff :
    selfHolding.Regular ∧ (selfHolding.NoOverlap ∧ selfHolding.BetweenRails ↔ selfHolding.Fits) := by
  have hcontact : ∀ id ∈ ["start", "hold", "run"], selfHolding.IsContact id := by
    simp only [forall_mem_cons, not_mem_nil, false_implies, implies_true, and_true]
    exact ⟨⟨_, rfl, rfl⟩, ⟨_, rfl, rfl⟩, ⟨_, rfl, rfl⟩⟩
  have helement : ∀ id ∈ ["start", "motor", "run", "delay", "lamp"], selfHolding.IsElement id := by
    simp only [forall_mem_cons, not_mem_nil, false_implies, implies_true, and_true]
    refine ⟨⟨_, rfl, rfl, ?_⟩, ⟨_, rfl, rfl, ?_⟩, ⟨_, rfl, rfl, ?_⟩, ⟨_, rfl, rfl, ?_⟩, ⟨_, rfl, rfl, ?_⟩⟩ <;>
      intro fbType inputPins outputPins hblock <;> cases hblock
    decide
  have hrows : ∀ rung ∈ selfHolding.rungs, ∀ id ∈ rung.elementIds, id ∈ ["start", "motor", "run", "delay", "lamp"] := by
    decide
  have hbranches : ∀ rung ∈ selfHolding.rungs, ∀ b ∈ rung.branches, b.anchorId ∈ rung.elementIds ∧
      b.anchorId ∈ ["start", "hold", "run"] ∧ ∀ id ∈ b.elementIds, id ∈ ["start", "hold", "run"] := by
    decide
  have hregular : selfHolding.Regular := by
    refine ⟨?_, by decide, ?_, ?_⟩
    · exact fun rung hrung id hid => helement id (hrows rung hrung id hid)
    · exact fun rung hrung b hb => ⟨(hbranches rung hrung b hb).1, hcontact _ (hbranches rung hrung b hb).2.1⟩
    · exact fun rung hrung b hb id hid => hcontact id ((hbranches rung hrung b hb).2.2 id hid)
  exact ⟨hregular, apart_iff hregular⟩

/-- A delay above a contact of the next rung. -/
def delayed : LdGraph where
  nodes := [createContact "run" .no "MOTOR" ⟨0, 0⟩, createFb "delay" "TON" [] [], createCoil "lamp" .normal "LAMP",
    createContact "a" .no "A" ⟨0, 0⟩, createContact "b" .no "B" ⟨0, 0⟩, createCoil "y" .normal "Y"]
  edges := []
  rungs := [⟨"r1", 1, none, none, ["run", "delay", "lamp"], []⟩,
    ⟨"r2", 2, none, none, ["a", "b", "y"], []⟩]

theorem delayed_overlaps : delayed.Regular ∧ ¬ delayed.NoOverlap := by
  have helement : ∀ id ∈ ["run", "delay", "lamp", "a", "b", "y"], delayed.IsElement id := by
    simp only [forall_mem_cons, not_mem_nil, false_implies, implies_true, and_true]
    refine ⟨⟨_, rfl, rfl, ?_⟩, ⟨_, rfl, rfl, ?_⟩, ⟨_, rfl, rfl, ?_⟩, ⟨_, rfl, rfl, ?_⟩, ⟨_, rfl, rfl, ?_⟩,
      ⟨_, rfl, rfl, ?_⟩⟩ <;> intro fbType inputPins outputPins hblock <;> cases hblock
    decide
  have hrows : ∀ rung ∈ delayed.rungs, ∀ id ∈ rung.elementIds, id ∈ ["run", "delay", "lamp", "a", "b", "y"] := by
    decide
  have hbranches : ∀ rung ∈ delayed.rungs, ∀ b ∈ rung.branches, False := by decide
  have hboxes : delayed.box "delay" = some ⟨⟨80, 40⟩, ⟨140, 100⟩⟩ ∧
      delayed.box "b" = some ⟨⟨80, 120⟩, ⟨36, 36⟩⟩ := by
    decide +kernel
  refine ⟨⟨fun rung hrung id hid => helement id (hrows rung hrung id hid), by decide,
    fun rung hrung b hb => (hbranches rung hrung b hb).elim,
    fun rung hrung b hb => (hbranches rung hrung b hb).elim⟩, ?_⟩
  intro hover
  refine hover "delay" "b" _ _ (by decide) hboxes.1 hboxes.2 ?_
  unfold Box.Overlaps
  norm_num

end Audesys.LdEditor
