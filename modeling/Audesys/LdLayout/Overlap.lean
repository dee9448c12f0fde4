import Audesys.LdLayout.Again
import Mathlib.Tactic.NormNum
import Mathlib.Tactic.Linarith

/-!
# `LdLayout.Overlap` — elements side by side

Where each element is listed by one rung, it stands at the left edge that the elements before it in its rung leave it
(`lastListing_eq`). In exact coordinates the rows of two rungs are too far apart for elements to meet, and two elements
of one rung meet exactly if their spans on the row do (`separated_iff`).
-/

open List

namespace Audesys.LdLayout

open Audesys.Hal Audesys.Lib Audesys.Hal.F64

variable {rung : RungDef}

/-! ## Places of ids -/

section
variable [Target] {nodes : List LayoutNode} {id : String} {i : Nat}

theorem nodeMap_eq_some (hids : (nodes.map (·.id)).Nodup) :
    nodeMap nodes id = some i ↔ ∃ n, nodes[i]? = some n ∧ n.id = id := by
  unfold nodeMap
  have hkeys : (nodes.zipIdx.map fun n => (n.1.id, n.2)).map Prod.fst = nodes.map (·.id) := by
    rw [map_map]
    show nodes.zipIdx.map ((·.id) ∘ Prod.fst) = _
    rw [← map_map, zipIdx_map_fst]
  constructor
  · intro h
    obtain ⟨⟨n, j⟩, hmem, heq⟩ := mem_map.1 (mem_of_setAll h)
    rw [Prod.mk.injEq] at heq
    rw [mem_zipIdx_iff_getElem?] at hmem
    exact ⟨n, heq.2 ▸ hmem, heq.1⟩
  · rintro ⟨n, hn, rfl⟩
    apply setAll_eq_some (hkeys ▸ hids)
    exact mem_map.2 ⟨(n, i), mem_zipIdx_iff_getElem?.2 hn, rfl⟩

theorem nodeMap_iff (hids : (nodes.map (·.id)).Nodup) {n : LayoutNode} (hn : nodes[i]? = some n) (id : String) :
    nodeMap nodes id = some i ↔ id = n.id := by
  rw [nodeMap_eq_some hids]
  constructor
  · rintro ⟨n', hn', hid⟩
    rw [hn] at hn'
    rw [← hid, Option.some.inj hn']
  · exact fun hid => ⟨n, hn, hid.symm⟩

end

/-! ## Rows of rungs -/

section
variable [Target] [F64Math] {g : LayoutGraph} {k : Nat}

/-- The rows of numbered rungs. -/
theorem rowOf_autoNumber (hlt : g.rungs.length < 2 ^ 32) (hk : (autoNumber g.rungs)[k]? = some rung) :
    rowOf g.frame.rungRows rung = some (some (rowAt k)) := by
  rw [getElem?_autoNumber] at hk
  obtain ⟨rung', hrung', rfl⟩ := Option.map_eq_some_iff.1 hk
  have hklt : k < g.rungs.length := (List.getElem?_eq_some_iff.1 hrung').1
  have hnum : (UInt32.ofNat (k + 1)).toNat = k + 1 := UInt32.toNat_ofNat_of_lt' (by show k + 1 < 2 ^ 32; omega)
  have hne : UInt32.ofNat (k + 1) ≠ 0 := by
    intro hzero
    rw [hzero] at hnum
    exact absurd hnum (by simp)
  rw [rowOf_of_index (index_of_number hne), rungRows_frame]
  dsimp only
  rw [hnum, Nat.add_sub_cancel, UInt64.toNat_ofNat_of_lt' (by show k < 2 ^ 64; omega), find?_map]
  have hfind : (List.range g.rungs.length).find? ((fun row : RungRow => row.index == k) ∘ rowAt) = some k :=
    find?_range_eq_some.2 ⟨beq_self_eq_true k, mem_range.2 hklt, fun j hj => by
      show (!(j == k)) = true
      rw [beq_eq_false_iff_ne.2 (Nat.ne_of_lt hj)]
      rfl⟩
  rw [hfind]
  rfl

/-- The listings of rungs that all have a row, from the `k`-th. -/
theorem listings_eq {map : String → Option Nat} {rungRows : List RungRow} (rungs : List RungDef) (k : Nat)
    (h : ∀ j rung, rungs[j]? = some rung → rowOf rungRows rung = some (some (rowAt (k + j)))) :
    listings map rungRows rungs =
      some ((rungs.zipIdx k).flatMap fun p => rungListings map p.1 (rowAt p.2).y) := by
  induction rungs generalizing k with
  | nil => rfl
  | cons rung rungs ih =>
    have hrest : ∀ j rung, rungs[j]? = some rung → rowOf rungRows rung = some (some (rowAt (k + 1 + j))) := by
      intro j rung' hj
      rw [Nat.add_assoc, Nat.add_comm 1 j]
      exact h (j + 1) rung' hj
    rw [listings, h 0 rung rfl, ih (k + 1) hrest, zipIdx_cons, flatMap_cons]
    rfl

end

/-! ## The listing of an element -/

section
variable [Target] [F64Math] {g : LayoutGraph}

/-- An element stands in the `k`-th rung only. -/
def InRung (g : LayoutGraph) (n : LayoutNode) (k : Nat) : Prop :=
  ∃ rung, g.rungs[k]? = some rung ∧ n.id ∈ rung.elementIds

/-- The places of the nodes that a rung lists before an element. -/
def placesBefore (g : LayoutGraph) (rung : RungDef) (n : LayoutNode) : List Nat :=
  (beforeLast rung.elementIds n.id).filterMap (nodeMap g.nodes)

omit [F64Math] in
theorem keys_rungListings {map : String → Option Nat} (rung : RungDef) (y : Target.F64) :
    ((rungListings map rung y).map fun l => (l.idx, l)).map Prod.fst = rung.elementIds.filterMap map := by
  unfold rungListings
  rw [map_map, map_map]
  exact map_snd_withBefore [] _

omit [F64Math] in
theorem setAll_rungListings (hids : (g.nodes.map (·.id)).Nodup) {i : Nat} {n : LayoutNode} (hn : g.nodes[i]? = some n)
    (hmem : n.id ∈ rung.elementIds) (y : Target.F64) :
    setAll ((rungListings (nodeMap g.nodes) rung y).map fun l => (l.idx, l)) i =
      some ⟨placesBefore g rung n, i, y⟩ := by
  have hmap : (rungListings (nodeMap g.nodes) rung y).map (fun l => (l.idx, l)) =
      ((withBefore [] (rung.elementIds.filterMap (nodeMap g.nodes))).map Prod.swap).map
        fun p => (p.1, ⟨p.2, p.1, y⟩) := by
    unfold rungListings
    rw [map_map, map_map]
    rfl
  have hplace : i ∈ rung.elementIds.filterMap (nodeMap g.nodes) :=
    mem_filterMap.2 ⟨n.id, hmem, (nodeMap_iff hids hn n.id).2 rfl⟩
  rw [hmap, setAll_map_value fun i before => (⟨before, i, y⟩ : Listing), setAll_withBefore, if_pos hplace,
    beforeLast_filterMap (nodeMap_iff hids hn)]
  rfl

/-- **The last listing** of an element of one rung. -/
theorem lastListing_eq (hids : (g.nodes.map (·.id)).Nodup) (hlt : g.rungs.length < 2 ^ 32) {i : Nat} {n : LayoutNode}
    (hn : g.nodes[i]? = some n) {k : Nat} (hk : g.rungs[k]? = some rung)
    (hmem : n.id ∈ rung.elementIds) (honly : ∀ k', InRung g n k' → k' = k) :
    g.lastListing i = some ⟨placesBefore g rung n, i, (rowAt k).y⟩ := by
  have hlisted : g.listed = some _ :=
    listings_eq (autoNumber g.rungs) 0 fun j rung hj => by
      rw [Nat.zero_add]
      exact rowOf_autoNumber hlt hj
  have hk' : (autoNumber g.rungs)[k]? = some { rung with rungNumber := .ofNat (k + 1) } := by
    rw [getElem?_autoNumber, hk]
    rfl
  unfold LayoutGraph.lastListing
  rw [hlisted, Option.bind_some, map_flatMap,
    setAll_flatMap (mem_zipIdx_iff_getElem?.2 hk' : (_, k) ∈ (autoNumber g.rungs).zipIdx)]
  · exact setAll_rungListings hids hn hmem _
  · rintro ⟨rung', k'⟩ hmem' hkey
    have hk'' := mem_zipIdx_iff_getElem?.1 hmem'
    rw [keys_rungListings] at hkey
    obtain ⟨id, hid, hplace⟩ := mem_filterMap.1 hkey
    rw [(nodeMap_iff hids hn id).1 hplace] at hid
    have hsame : k' = k := by
      apply honly k'
      have hget := hk''
      rw [getElem?_autoNumber] at hget
      obtain ⟨r, hr, heq⟩ := Option.map_eq_some_iff.1 hget
      rw [← heq] at hid
      exact ⟨r, hr, hid⟩
    rw [hsame, hk'] at hk''
    rw [hsame, Option.some.inj hk'']

end

/-! ## Elements side by side -/

local instance overlapFractions : Target := fractions
local instance overlapFractionMath : F64Math := fractionMath

/-- The number that a coordinate is. -/
def rat (a : Target.F64) : Rat := a

section
variable (a b : Target.F64)

theorem rat_add : rat (a + b) = rat a + rat b := rfl

theorem rat_mul : rat (a * b) = rat a * rat b := rfl

theorem rat_ofNat (n : Nat) : rat (ofNat n) = n := by
  show (n : Rat) / ((10 ^ 0 : Nat) : Rat) = n
  rw [Nat.pow_zero, Nat.cast_one, div_one]

theorem rat_lt_iff : lt a b = true ↔ rat a < rat b := by
  show ((if rat a < rat b then some Ordering.lt else if rat b < rat a then some .gt else some .eq) ==
    some Ordering.lt) = true ↔ rat a < rat b
  split
  · next h => exact iff_of_true rfl h
  · next h =>
    split
    · exact iff_of_false Bool.false_ne_true h
    · exact iff_of_false Bool.false_ne_true h

theorem rat_gt_iff : gt a b = true ↔ rat b < rat a := by
  show ((if rat a < rat b then some Ordering.lt else if rat b < rat a then some .gt else some .eq) ==
    some Ordering.gt) = true ↔ rat b < rat a
  split
  · next h => exact iff_of_false Bool.false_ne_true h.not_gt
  · split
    · next h => exact iff_of_true rfl h
    · next h => exact iff_of_false Bool.false_ne_true h

end

/-- A diagram as the editor draws it: ids are given once, and each element is listed by one rung, has a positive width
and is not higher than rows are apart. -/
structure LayoutGraph.Drawn (g : LayoutGraph) : Prop where
  ids : (g.nodes.map (·.id)).Nodup
  inOneRung : ∀ n ∈ g.nodes, n.isElement = true → ∃! k, InRung g n k
  width : ∀ n ∈ g.nodes, n.isElement = true → 0 < rat n.size.width
  height : ∀ n ∈ g.nodes, n.isElement = true → rat n.size.height ≤ rat (defaultElementHeight + rungSpacingY)

/-- The left edge of an element of a rung. -/
def leftIn (g : LayoutGraph) (rung : RungDef) (n : LayoutNode) : Rat :=
  rat (left (coilX g.nodes) g.nodes (placesBefore g rung n) n)

/-- The layout has no two elements that overlap. -/
def LayoutGraph.Separated (g : LayoutGraph) : Prop :=
  ∃ out, layoutLd g = some out ∧
    ∀ a ∈ out.nodes, ∀ b ∈ out.nodes, a.isElement = true → b.isElement = true → a.id ≠ b.id → a.overlaps b = false

/-- The spans of any two elements of a rung are apart, where both elements have a height. -/
def LayoutGraph.Roomy (g : LayoutGraph) : Prop :=
  ∀ rung ∈ g.rungs, ∀ a ∈ g.nodes, ∀ b ∈ g.nodes, a.isElement = true → b.isElement = true → a.id ≠ b.id →
    a.id ∈ rung.elementIds → b.id ∈ rung.elementIds → 0 < rat a.size.height → 0 < rat b.size.height →
      leftIn g rung a + rat a.size.width ≤ leftIn g rung b ∨ leftIn g rung b + rat b.size.width ≤ leftIn g rung a

/-- The row of the `k`-th rung. -/
theorem y_rowAt (k : Nat) :
    rat (rowAt k).y = rat rungStartY + k * rat (defaultElementHeight + rungSpacingY) := by
  show rat (rungStartY + ofNat k * (defaultElementHeight + rungSpacingY)) = _
  rw [rat_add, rat_mul, rat_ofNat]

theorem rowHeight_pos : 0 < rat (defaultElementHeight + rungSpacingY) := by
  show 0 < rat (ofNat 36 + ofNat 60)
  rw [rat_add, rat_ofNat, rat_ofNat]
  norm_num

theorem overlaps_iff {a b : LayoutNode} : a.overlaps b = true ↔
      (rat a.position.x < rat b.position.x + rat b.size.width ∧
        rat b.position.x < rat a.position.x + rat a.size.width) ∧
      (rat a.position.y < rat b.position.y + rat b.size.height ∧
        rat b.position.y < rat a.position.y + rat a.size.height) := by
  unfold LayoutNode.overlaps
  rw [Bool.and_eq_true, Bool.and_eq_true, Bool.and_eq_true, rat_lt_iff, rat_gt_iff, rat_lt_iff, rat_gt_iff, and_assoc,
    and_assoc, and_assoc]
  rfl

/-- Elements of two rows do not meet. -/
theorem rows_apart {i j : Nat} {h h' : Rat} (hne : i ≠ j) (hh : h ≤ rat (defaultElementHeight + rungSpacingY))
    (hh' : h' ≤ rat (defaultElementHeight + rungSpacingY)) :
    ¬ (rat (rowAt i).y < rat (rowAt j).y + h' ∧ rat (rowAt j).y < rat (rowAt i).y + h) := by
  rw [y_rowAt, y_rowAt]
  rintro ⟨hij, hji⟩
  have hpos := rowHeight_pos
  rcases Nat.lt_or_gt_of_ne hne with hlt | hlt
  · have hcast : (i : Rat) + 1 ≤ j := by exact_mod_cast hlt
    nlinarith
  · have hcast : (j : Rat) + 1 ≤ i := by exact_mod_cast hlt
    nlinarith

/-- Elements of one row meet exactly if their spans do. -/
theorem row_apart_iff {a b : LayoutNode} {x x' y : Target.F64} :
    (moveTo ⟨x, y⟩ a).overlaps (moveTo ⟨x', y⟩ b) = false ↔
      (0 < rat a.size.height → 0 < rat b.size.height →
        rat x + rat a.size.width ≤ rat x' ∨ rat x' + rat b.size.width ≤ rat x) := by
  rw [← Bool.not_eq_true, overlaps_iff]
  show ¬ ((rat x < rat x' + rat b.size.width ∧ rat x' < rat x + rat a.size.width) ∧
    (rat y < rat y + rat b.size.height ∧ rat y < rat y + rat a.size.height)) ↔ _
  rw [lt_add_iff_pos_right, lt_add_iff_pos_right]
  constructor
  · intro h ha hb
    by_contra hmeet
    rw [not_or, not_le, not_le] at hmeet
    exact h ⟨⟨hmeet.2, hmeet.1⟩, hb, ha⟩
  · rintro h ⟨⟨hx, hx'⟩, hb, ha⟩
    rcases h ha hb with hle | hle
    · exact absurd hx' (not_lt.2 hle)
    · exact absurd hx (not_lt.2 hle)

section
variable {g : LayoutGraph} {ls : List Listing}

/-- Where an element ends. -/
theorem LayoutGraph.Drawn.settledNode (h : g.Drawn) (hlt : g.rungs.length < 2 ^ 32) (hlisted : g.listed = some ls)
    {i : Nat} {n : LayoutNode} (hn : g.nodes[i]? = some n) (helement : n.isElement = true) {k : Nat}
    (hk : g.rungs[k]? = some rung) (hmem : n.id ∈ rung.elementIds) : g.settledNode ls i n =
      moveTo ⟨left (coilX g.nodes) g.nodes (placesBefore g rung n) n, (rowAt k).y⟩ n := by
  obtain ⟨k₀, -, honly⟩ := h.inOneRung n (mem_of_getElem? hn) helement
  have hk₀ : k = k₀ := honly k ⟨rung, hk, hmem⟩
  have hlast := lastListing_eq h.ids hlt hn hk hmem fun k' hk' => (honly k' hk').trans hk₀.symm
  unfold LayoutGraph.lastListing at hlast
  rw [hlisted, Option.bind_some] at hlast
  rw [settledNode_of_element helement, hlast]
  rfl

/-- **Elements side by side**: exactly if they have room in their rungs. -/
theorem LayoutGraph.separated_iff (g : LayoutGraph) (h : g.Drawn) :
    g.Separated ↔ g.rungs.length < 2 ^ 32 ∧ g.Roomy := by
  unfold Separated
  rw [layoutLd_settled]
  constructor
  · rintro ⟨out, hout, happart⟩
    obtain ⟨ls, hlisted, rfl⟩ := Option.map_eq_some_iff.1 hout
    have hlt : g.rungs.length < 2 ^ 32 := (listed_isSome_iff g).1 (by rw [hlisted]; rfl) rfl
    refine ⟨hlt, ?_⟩
    intro rung hrung a ha b hb haElement hbElement hne hamem hbmem
    obtain ⟨k, hk⟩ := mem_iff_getElem?.1 hrung
    obtain ⟨i, hi⟩ := mem_iff_getElem?.1 ha
    obtain ⟨j, hj⟩ := mem_iff_getElem?.1 hb
    have hsettled : ∀ {i n}, g.nodes[i]? = some n → g.settledNode ls i n ∈ (g.settled ls).nodes := by
      intro i n hn
      apply mem_of_getElem? (i := i)
      show (g.settledNodes ls)[i]? = _
      rw [getElem?_settledNodes, hn]
      rfl
    have hab := happart _ (hsettled hi) _ (hsettled hj) (by rw [isElement_settledNode, haElement])
      (by rw [isElement_settledNode, hbElement]) (by rw [id_settledNode, id_settledNode]; exact hne)
    rw [h.settledNode hlt hlisted hi haElement hk hamem, h.settledNode hlt hlisted hj hbElement hk hbmem] at hab
    exact row_apart_iff.1 hab
  · rintro ⟨hlt, hroomy⟩
    obtain ⟨ls, hlisted⟩ := Option.isSome_iff_exists.1 ((listed_isSome_iff g).2 fun _ => hlt)
    refine ⟨g.settled ls, by rw [hlisted]; rfl, ?_⟩
    intro a ha b hb haElement hbElement hne
    have hfrom : ∀ {c}, c ∈ (g.settled ls).nodes → ∃ i n, g.nodes[i]? = some n ∧ g.settledNode ls i n = c := by
      intro c hc
      obtain ⟨i, hi⟩ := mem_iff_getElem?.1 hc
      have hi' : (g.settledNodes ls)[i]? = some c := hi
      rw [getElem?_settledNodes] at hi'
      obtain ⟨n, hn, heq⟩ := Option.map_eq_some_iff.1 hi'
      exact ⟨i, n, hn, heq⟩
    obtain ⟨i, n, hi, rfl⟩ := hfrom ha
    obtain ⟨j, m, hj, rfl⟩ := hfrom hb
    rw [isElement_settledNode] at haElement hbElement
    rw [id_settledNode, id_settledNode] at hne
    have hn := mem_of_getElem? hi
    have hm := mem_of_getElem? hj
    obtain ⟨k, ⟨rung, hk, hamem⟩, -⟩ := h.inOneRung n hn haElement
    obtain ⟨k', ⟨rung', hk', hbmem⟩, -⟩ := h.inOneRung m hm hbElement
    rw [h.settledNode hlt hlisted hi haElement hk hamem, h.settledNode hlt hlisted hj hbElement hk' hbmem]
    by_cases hsame : k = k'
    · subst hsame
      rw [hk] at hk'
      rw [← Option.some.inj hk'] at hbmem ⊢
      exact row_apart_iff.2 (hroomy rung (mem_of_getElem? hk) n hn m hm haElement hbElement hne hamem hbmem)
    · rw [← Bool.not_eq_true, overlaps_iff]
      exact fun hover => rows_apart hsame (h.height n hn haElement) (h.height m hm hbElement) hover.2

end

/-! ## A timer between two contacts -/

theorem LayoutGraph.Drawn.of_one_rung {g : LayoutGraph} (hrungs : g.rungs = [rung])
    (hids : (g.nodes.map (·.id)).Nodup) (hlisted : ∀ n ∈ g.nodes, n.id ∈ rung.elementIds)
    (hwidth : ∀ n ∈ g.nodes, 0 < rat n.size.width)
    (hheight : ∀ n ∈ g.nodes, rat n.size.height ≤ rat (defaultElementHeight + rungSpacingY)) : g.Drawn where
  ids := hids
  inOneRung := by
    intro n hn _
    refine ⟨0, ⟨rung, by rw [hrungs]; rfl, hlisted n hn⟩, ?_⟩
    rintro k ⟨rung', hk, -⟩
    rw [hrungs] at hk
    exact Nat.lt_one_iff.1 (List.getElem?_eq_some_iff.1 hk).1
  width n hn _ := hwidth n hn
  height n hn _ := hheight n hn

def element (id kind : String) (width : Nat) : LayoutNode := ⟨id, kind, ⟨zero, zero⟩, ⟨ofNat width, ofNat 36⟩, none⟩

/-- A rung with one contact and a coil. -/
def lampGraph : LayoutGraph :=
  ⟨"lamp", [element "switch" "node:contact" 36, element "lamp" "node:coil" 36], [],
    [⟨"rung", 1, none, ["switch", "lamp"]⟩]⟩

/-- A rung with a timer block after a contact, another contact after it, and a coil. -/
def timerGraph : LayoutGraph :=
  ⟨"timer", [element "start" "node:contact" 36, element "timer" "node:fb" 140, element "ready" "node:contact" 36,
      element "motor" "node:coil" 36], [],
    [⟨"rung", 1, none, ["start", "timer", "ready", "motor"]⟩]⟩

theorem lampGraph_separated : lampGraph.Separated := by
  have hdrawn : lampGraph.Drawn :=
    .of_one_rung rfl (by decide +kernel) (by decide +kernel) (by decide +kernel) (by decide +kernel)
  refine (LayoutGraph.separated_iff lampGraph hdrawn).2 ⟨by decide, ?_⟩
  unfold LayoutGraph.Roomy
  decide +kernel

/-- The block goes from 264 to 404, and the contact after it from 340 to 376. -/
theorem timerGraph_not_separated : timerGraph.Drawn ∧ ¬ timerGraph.Separated := by
  constructor
  · exact .of_one_rung rfl (by decide +kernel) (by decide +kernel) (by decide +kernel) (by decide +kernel)
  · rintro ⟨out, hout, happart⟩
    have hmeet : (layoutLd timerGraph).any (fun out => out.nodes.any fun a => out.nodes.any fun b =>
        a.isElement && b.isElement && a.id != b.id && a.overlaps b) = true := by decide +kernel
    rw [hout, Option.any_some] at hmeet
    obtain ⟨a, ha, hmeet⟩ := any_eq_true.1 hmeet
    obtain ⟨b, hb, hmeet⟩ := any_eq_true.1 hmeet
    rw [Bool.and_eq_true, Bool.and_eq_true, Bool.and_eq_true, bne_iff_ne] at hmeet
    obtain ⟨⟨⟨haElement, hbElement⟩, hne⟩, hover⟩ := hmeet
    rw [happart a ha b hb haElement hbElement hne] at hover
    exact Bool.false_ne_true hover

end Audesys.LdLayout
