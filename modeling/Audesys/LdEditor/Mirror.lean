import Audesys.LdEditor.Wires

/-!
# `LdEditor.Mirror` — when the wires mirror the rows

The wires mirror the main rows in every state of a session exactly as long as no step patches a row that has other
elements, and no row with a coil or a function block is built again (`wires_iff`).
-/

open List

namespace Audesys.LdEditor

open Audesys.Lib Audesys.Editor

namespace LdGraph

variable {graph graph' : LdGraph}
variable {l₁ l₂ : List String} {rung : Rung}
variable {updated : Rung} {op : Operation}

/-! ## Wires of two rows -/

/-- The wire between two parts of a row. -/
theorem rowWires_split (left right : String) (l₁ l₂ : List String) :
    graph.rowWire (l₁.getLast?.getD left) (l₂.head?.getD right) ∈ graph.rowWires left right (l₁ ++ l₂) := by
  induction l₁ generalizing left with
  | nil => cases l₂ <;> exact mem_cons_self ..
  | cons id rest ih =>
    rw [getLast?_cons]
    exact mem_cons_of_mem _ (ih id)

theorem rowWires_length (left right : String) (ids : List String) :
    (graph.rowWires left right ids).length = ids.length + 1 := by
  induction ids generalizing left with
  | nil => rfl
  | cons id rest ih => exact congrArg (· + 1) (ih id)

/-- One wire leaves each element of a row. -/
theorem rowWires_source_inj {left right : String} {ids : List String} (hnodup : (left :: ids).Nodup) {w w' : Wire}
    (hw : w ∈ graph.rowWires left right ids) (hw' : w' ∈ graph.rowWires left right ids)
    (hsource : w.sourceId = w'.sourceId) : w = w' := by
  induction ids generalizing left with
  | nil => rw [mem_singleton.1 hw, mem_singleton.1 hw']
  | cons id rest ih =>
    obtain ⟨hleft, hrest⟩ := nodup_cons.1 hnodup
    have hne : ∀ {w : Wire}, w ∈ graph.rowWires id right rest → w.sourceId ≠ left := by
      intro w hw heq
      exact hleft (heq ▸ mem_cons.2 (rowWires_ends hw).1)
    rcases mem_cons.1 hw with rfl | hw
    · rcases mem_cons.1 hw' with rfl | hw'
      · rfl
      · exact absurd hsource.symm (hne hw')
    · rcases mem_cons.1 hw' with rfl | hw'
      · exact absurd hsource (hne hw)
      · exact ih hrest hw hw'

/-- A wire past an element is not in its row. -/
theorem not_mem_rowWires {left right id : String} (hnodup : (left :: (l₁ ++ id :: l₂)).Nodup)
    (hright : right ≠ id) :
    graph'.rowWire (l₁.getLast?.getD left) (l₂.head?.getD right) ∉ graph.rowWires left right (l₁ ++ id :: l₂) := by
  intro hmem
  have hsame := rowWires_source_inj hnodup hmem (rowWires_split left right l₁ (id :: l₂)) rfl
  have htarget : l₂.head?.getD right = id := congrArg Wire.targetId hsame
  cases l₂ with
  | nil => exact hright htarget
  | cons next rest =>
    have hrest := (nodup_cons.1 ((nodup_append'.1 (nodup_cons.1 hnodup).2).2.1)).1
    exact hrest (htarget ▸ mem_cons_self ..)

/-- The wire between two parts of a row is there. -/
theorem Mirrors.wire (hm : graph.Mirrors (l₁ ++ l₂)) (hne : l₁ ++ l₂ ≠ []) {left right : BaseNode}
    (hleft : graph.findRail .left = some left) (hright : graph.findRail .right = some right) :
    graph.rowWire (l₁.getLast?.getD left.id) (l₂.head?.getD right.id) ∈
      graph.wires.filter (·.touches (l₁ ++ l₂)) := by
  obtain ⟨left', right', hleft', hright', hperm⟩ := hm hne
  cases hleft.symm.trans hleft'
  cases hright.symm.trans hright'
  exact hperm.mem_iff.2 (rowWires_split left.id right.id l₁ l₂)

/-- No wire at a row goes past one of its elements. -/
theorem Mirrors.not_past {id : String} (hm : graph.Mirrors (l₁ ++ id :: l₂)) {left right : BaseNode}
    (hleft : graph.findRail .left = some left) (hright : graph.findRail .right = some right)
    (hnodup : (left.id :: (l₁ ++ id :: l₂)).Nodup) (hr : right.id ≠ id) :
    graph'.rowWire (l₁.getLast?.getD left.id) (l₂.head?.getD right.id) ∉
      graph.wires.filter (·.touches (l₁ ++ id :: l₂)) := by
  have hne : l₁ ++ id :: l₂ ≠ [] := append_ne_nil_of_right_ne_nil _ (cons_ne_nil _ _)
  obtain ⟨left', right', hleft', hright', hperm⟩ := hm hne
  cases hleft.symm.trans hleft'
  cases hright.symm.trans hright'
  rw [hperm.mem_iff]
  exact not_mem_rowWires hnodup hr

end LdGraph

theorem Wire.touches_mono {wire : Wire} {ids ids' : List String} (hids : ids ⊆ ids') (h : wire.touches ids = true) :
    wire.touches ids' = true :=
  Wire.touches_iff.2 ((Wire.touches_iff.1 h).imp (fun hmem => hids hmem) fun hmem => hids hmem)

section
variable [Entropy] {s s' : Session}

theorem Sound.nodup_row (h : Sound s) {side : PowerRailSide} {rail : BaseNode} (hrail : s.graph.findRail side = some rail)
    (hrung : rung ∈ s.graph.rungs) : (rail.id :: rung.elementIds).Nodup :=
  nodup_cons.2 ⟨h.rail_not_element hrail hrung, h.elementIds_nodup hrung⟩

/-! ## Patches that leave a wire -/

/-- Where no wire is taken out, a new element has a wire past it. -/
theorem Sound.not_mirrored_insert (h' : Sound s') (hm : s.graph.Mirrored)
    (hrung : rung ∈ s.graph.rungs) (hupdated : updated ∈ s'.graph.rungs) {id : String}
    (hold : rung.elementIds = l₁ ++ l₂) (hne : rung.elementIds ≠ []) (hnew : updated.elementIds = l₁ ++ id :: l₂)
    {added : List BaseNode} (hnodes : s'.graph.nodes = s.graph.nodes ++ added) (hwires : s.graph.wires ⊆ s'.graph.wires) :
    ¬s'.graph.Mirrored := by
  intro hm'
  obtain ⟨left, right, hleft, hright, _⟩ := hm rung hrung hne
  have hleft' := LdGraph.findRail_append hnodes hleft
  have hright' := LdGraph.findRail_append hnodes hright
  have hrow := hm rung hrung
  have hrow' := hm' updated hupdated
  have hnodup := h'.nodup_row hleft' hupdated
  have hend := h'.rail_not_element hright' hupdated
  rw [hold] at hrow hne
  rw [hnew] at hrow' hnodup hend
  obtain ⟨hwire, htouches⟩ := mem_filter.1 (hrow.wire hne hleft hright)
  have hsub : l₁ ++ l₂ ⊆ l₁ ++ id :: l₂ := ((sublist_cons_self id l₂).append_left l₁).subset
  apply hrow'.not_past hleft' hright' hnodup _ (mem_filter.2 ⟨hwires hwire, Wire.touches_mono hsub htouches⟩)
  intro heq
  apply hend
  rw [heq]
  exact mem_append_right _ (mem_cons_self ..)

/-- Where no wire is added, an element that is taken out from others leaves a gap. -/
theorem Sound.not_mirrored_remove (h : Sound s) (hm : s.graph.Mirrored)
    (hrung : rung ∈ s.graph.rungs) (hupdated : updated ∈ s'.graph.rungs) {id : String}
    (hold : rung.elementIds = l₁ ++ id :: l₂) (hne : updated.elementIds ≠ []) (hnew : updated.elementIds = l₁ ++ l₂)
    (hnodes : s'.graph.nodes = s.graph.nodes.filter fun n => !([id].contains n.id))
    (hwires : s'.graph.wires ⊆ s.graph.wires) : ¬s'.graph.Mirrored := by
  intro hm'
  have hid : id ∈ rung.elementIds := by
    rw [hold]
    exact mem_append_right _ (mem_cons_self ..)
  obtain ⟨left, right, hleft, hright, _⟩ := hm rung hrung (ne_nil_of_mem hid)
  have hrail : ∀ {side rail}, s.graph.findRail side = some rail → rail.id ≠ id := by
    intro side rail hrail heq
    exact h.rail_not_element hrail hrung (heq ▸ hid)
  have hkept : ∀ {side rail}, s.graph.findRail side = some rail → s'.graph.findRail side = some rail :=
    fun hfind => LdGraph.findRail_filter hnodes hfind fun hmem => hrail hfind (mem_singleton.1 hmem)
  have hrow := hm rung hrung
  have hrow' := hm' updated hupdated
  have hnodup := h.nodup_row hleft hrung
  rw [hold] at hrow hnodup
  rw [hnew] at hrow' hne
  obtain ⟨hwire, htouches⟩ := mem_filter.1 (hrow'.wire hne (hkept hleft) (hkept hright))
  have hsub : l₁ ++ l₂ ⊆ l₁ ++ id :: l₂ := ((sublist_cons_self id l₂).append_left l₁).subset
  exact hrow.not_past hleft hright hnodup (hrail hright)
    (mem_filter.2 ⟨hwires hwire, Wire.touches_mono hsub htouches⟩)

/-- A row without one of its rails has lost a wire. -/
theorem Sound.not_mirrored_rail (h' : Sound s') (hm : s.graph.Mirrored)
    (hrung : rung ∈ s.graph.rungs) (hupdated : updated ∈ s'.graph.rungs) (hne : rung.elementIds ≠ [])
    (hsame : updated.elementIds = rung.elementIds) {side : PowerRailSide} {rail : BaseNode}
    (hrail : s.graph.findRail side = some rail)
    (hwires : s'.graph.wires = s.graph.wires.filter fun w => !w.touches [rail.id]) : ¬s'.graph.Mirrored := by
  intro hm'
  obtain ⟨left, right, hleft, hright, _⟩ := hm rung hrung hne
  have hrow := hm' updated hupdated
  rw [hsame] at hrow
  obtain ⟨left', right', hleft', hright', _⟩ := hrow hne
  -- a wire at the row that is left is one from before, and it does not touch the rail
  have hold : ∀ w ∈ s'.graph.wires.filter (·.touches rung.elementIds),
      (w.sourceId ≠ rail.id ∧ w.targetId ≠ rail.id) ∧ (w.sourceId = left.id ∨ w.sourceId ∈ rung.elementIds) ∧
        (w.targetId = right.id ∨ w.targetId ∈ rung.elementIds) := by
    intro w hw
    obtain ⟨hmem, htouches⟩ := mem_filter.1 hw
    rw [hwires] at hmem
    obtain ⟨hmem, hnot⟩ := mem_filter.1 hmem
    rw [Bool.not_eq_true', ← Bool.not_eq_true, Wire.touches_iff, not_or, mem_singleton, mem_singleton] at hnot
    exact ⟨hnot, (hm rung hrung).ends hleft hright hmem htouches⟩
  have hnone : s'.graph.Mirrors ([] ++ rung.elementIds) := hrow
  have hfirst := hold _ (hnone.wire hne hleft' hright')
  rw [← List.append_nil rung.elementIds] at hrow hne
  have hlast := hrow.wire hne hleft' hright'
  rw [List.append_nil] at hlast
  have hlast := hold _ hlast
  have hl := h'.rail_not_element hleft' hupdated
  have hr := h'.rail_not_element hright' hupdated
  rw [hsame] at hl hr
  cases side with
  | left =>
    cases hleft.symm.trans hrail
    rcases hfirst.2.1 with heq | hmem
    · exact hfirst.1.1 heq
    · exact hl hmem
  | right =>
    cases hright.symm.trans hrail
    rcases hlast.2.2 with heq | hmem
    · exact hlast.1.2 heq
    · exact hr hmem

omit [Entropy] in
/-- A list of distinct ids without one of them. -/
theorem filter_not_mem_split {id : String} (h : (l₁ ++ id :: l₂).Nodup) :
    (l₁ ++ id :: l₂).filter (fun x => !([id].contains x)) = l₁ ++ l₂ := by
  obtain ⟨_, hright, hdisjoint⟩ := nodup_append'.1 h
  have hnot := (nodup_cons.1 hright).1
  have h₁ : l₁.filter (fun x => !([id].contains x)) = l₁ := by
    apply filter_eq_self.2
    intro x hx
    apply not_contains_iff.2
    intro heq
    exact hdisjoint hx (mem_singleton.1 heq ▸ mem_cons_self ..)
  have h₂ : l₂.filter (fun x => !([id].contains x)) = l₂ := by
    apply filter_eq_self.2
    intro x hx
    apply not_contains_iff.2
    intro heq
    exact hnot (mem_singleton.1 heq ▸ hx)
  have h₀ : ¬(!([id].contains id)) = true := fun hid => not_contains_iff.1 hid (mem_cons_self ..)
  rw [filter_append, filter_cons_of_neg (p := fun x => !([id].contains x)) h₀, h₁, h₂]

/-! ## Rows that are built without pins or without the wire behind a coil -/

omit [Entropy] in
theorem LdGraph.chainWires_target {prevId : Option String} {ids : List String} {w : Wire}
    (hw : w ∈ LdGraph.chainWires prevId ids) : w.targetPin = none ∧ w.targetId ∈ ids := by
  induction ids generalizing prevId with
  | nil => cases hw
  | cons id rest ih =>
    rcases mem_append.1 hw with hw | hw
    · obtain ⟨prev, _, rfl⟩ := mem_map.1 hw
      exact ⟨rfl, mem_cons_self ..⟩
    · obtain ⟨hpin, htarget⟩ := ih hw
      exact ⟨hpin, mem_cons_of_mem _ htarget⟩

omit [Entropy] in
/-- A row that is built again has no pins, and with a coil it ends there. -/
theorem LdGraph.seriesWires_target {graph : LdGraph} {w : Wire} (hw : w ∈ graph.seriesWires rung) :
    w.targetPin = none ∧ (w.targetId ∈ rung.elementIds ∨ graph.findCoilOnRung rung = none) := by
  rcases mem_append.1 hw with hw | hw
  · obtain ⟨hpin, htarget⟩ := LdGraph.chainWires_target hw
    exact ⟨hpin, Or.inl htarget⟩
  · cases hlast : rung.elementIds.getLast? with
    | none =>
      rw [hlast] at hw
      cases hw
    | some last =>
      rw [hlast] at hw
      obtain ⟨target, htarget, rfl⟩ := mem_map.1 hw
      refine ⟨rfl, ?_⟩
      cases hcoil : graph.findCoilOnRung rung with
      | none => exact Or.inr rfl
      | some coil =>
        rw [hcoil] at htarget
        obtain ⟨hsome, _⟩ := Option.filter_eq_some_iff.1 (Option.mem_toList.1 htarget)
        cases hsome
        exact Or.inl (LdGraph.findCoilOnRung_some hcoil).1

/-- **A row that is built again** has its wires only if all its elements are contacts. -/
theorem Sound.onlyContacts_of_mirrored {base : Session} {updated : Rung} (h' : Sound (base.rewireRungSeries updated))
    (hupdated : updated ∈ (base.rewireRungSeries updated).graph.rungs) (hbranches : updated.branches = [])
    (hm' : (base.rewireRungSeries updated).graph.Mirrored) : base.graph.OnlyContacts updated.elementIds := by
  intro id hid
  have hsame : ∀ id, base.graph.findNode id = (base.rewireRungSeries updated).graph.findNode id := by
    intro id
    unfold LdGraph.findNode
    rw [Session.rewireRungSeries_nodes]
  obtain ⟨left, right, hleft, hright, _⟩ := hm' updated hupdated (ne_nil_of_mem hid)
  have hseries : ∀ w ∈ (base.rewireRungSeries updated).graph.wires.filter (·.touches updated.elementIds),
      w ∈ base.graph.seriesWires updated := by
    intro w hw
    obtain ⟨hmem, htouches⟩ := mem_filter.1 hw
    rw [Session.rewireRungSeries_series _ hbranches, Session.addWires_wires, Session.dropEdges_wires] at hmem
    rcases mem_append.1 hmem with hmem | hmem
    · have hnot := (mem_filter.1 hmem).2
      rw [htouches] at hnot
      cases hnot
    · exact hmem
  obtain ⟨node, hnode, hrail, rfl⟩ := mem_elementNodeIds.1
    ((h'.owned.owner id).1 (mem_flatMap.2 ⟨updated, hupdated, mem_append_left _ hid⟩))
  have hfind := h'.findNode hnode
  have hrow := hm' updated hupdated
  rw [hsame, hfind, Option.any_some]
  cases hkind : node.kind with
  | contact => rfl
  | powerRail side =>
    rw [hkind] at hrail
    cases hrail
  | comparison operator operandA operandB =>
    have hcompared := h'.owned.compared node hnode
    rw [hkind] at hcompared
    cases hcompared
  | fb fbType inputPins outputPins =>
    -- the wire into the block has a pin
    obtain ⟨l₁, l₂, hsplit⟩ := append_of_mem hid
    rw [hsplit] at hrow
    rw [hsplit] at hseries
    have hwire := hseries _ (hrow.wire (hsplit ▸ ne_nil_of_mem hid) hleft hright)
    have hpin := (LdGraph.seriesWires_target hwire).1
    have hfb : (base.rewireRungSeries updated).graph.isFb node.id = true := by
      unfold LdGraph.isFb
      rw [hfind, Option.any_some, hkind]
      rfl
    unfold LdGraph.rowWire at hpin
    rw [head?_cons, Option.getD_some, hfb] at hpin
    cases hpin
  | coil coilType variableName comment =>
    -- the last wire goes to the right rail
    rw [← List.append_nil updated.elementIds] at hrow hseries
    have hwire := hseries _ (hrow.wire ((List.append_nil _).symm ▸ ne_nil_of_mem hid) hleft hright)
    rcases (LdGraph.seriesWires_target hwire).2 with htarget | hnone
    · exact absurd htarget (h'.rail_not_element hright hupdated)
    · have hnot := findSome?_eq_none_iff.1 hnone node.id hid
      rw [hsame, hfind, Option.filter_some, hkind] at hnot
      cases hnot

/-! ## Steps -/

/-- An empty rung between two rails. -/
def LdGraph.Free (graph : LdGraph) (rung : Rung) : Prop :=
  rung.elementIds = [] ∧ ∃ left right, graph.findRail .left = some left ∧ graph.findRail .right = some right

/-- The operation edits rungs or deletes a node; no wire has the id. -/
def RowEdit (s : Session) : Operation → Prop
  | .deleteElement elementId => s.graph.findNode elementId = none → s.graph.findEdge elementId = none
  | op => op.isRungEdit = true

/-- When an operation keeps the wires of the rows: a new element goes into an empty rung, no coil is added, an element is
deleted that is alone, no rail is deleted that has a row, and a row of contacts only is built again. -/
def KeepsRow (s : Session) : Operation → Prop
  | .addContact position insertIndex _ rungId => ∀ rung, s.graph.findRung rungId = .ok rung →
      s.graph.rightOfCoil rung insertIndex position = false → s.graph.Free rung
  | .addFb _ _ fbType rungId => ∀ rung, s.graph.findRung rungId = .ok rung → getFbPins fbType ≠ none → s.graph.Free rung
  | .addCoil _ rungId => ∀ rung, s.graph.findRung rungId = .ok rung →
      ∀ id ∈ rung.elementIds, (s.graph.findNode id).any (·.kind.isContact) = false
  | .deleteElement elementId =>
      (∀ rung ∈ s.graph.rungs, elementId ∈ rung.elementIds → rung.elementIds = [elementId]) ∧
        ∀ side rail, s.graph.findRail side = some rail → rail.id = elementId → ∀ rung ∈ s.graph.rungs, rung.elementIds = []
  | .reorderElement elementId _ => ∀ rung ∈ s.graph.rungs, elementId ∈ rung.elementIds →
      (s.graph.findCoilOnRung rung).any (·.id == elementId) = false → s.graph.OnlyContacts rung.elementIds
  | .pasteElements elementIds rungId _ => ∀ rung, s.graph.findRung rungId = .ok rung → s.pasteSources elementIds ≠ [] →
      (∀ src ∈ s.pasteSources elementIds, src.kind.isContact = true) ∧ s.graph.OnlyContacts rung.elementIds
  | _ => True

theorem mirrored_step_iff (hm : s.graph.Mirrored) {K : Prop}
    (hthrow : (∀ s', s.call op ≠ .ok s') → K) (hok : ∀ s', s.call op = .ok s' → (s'.graph.Mirrored ↔ K)) :
    (s.step op).graph.Mirrored ↔ K := by
  unfold Session.step
  cases hcall : s.call op with
  | error e =>
    refine iff_of_true hm (hthrow fun s' hs' => ?_)
    rw [hcall] at hs'
    cases hs'
  | ok s' => exact hok s' hcall

/-! ### Wires that stay -/

theorem Session.withContact_wires (s : Session) (h : rung.branches = []) (slot : Nat)
    (contactType : ContactType) :
    ∃ ws, (s.withContact rung slot contactType).graph.wires = s.graph.wires ++ ws := by
  have hbranches : (rung.insert slot [(s.newContact contactType ⟨0, 0⟩).id]).branches = [] := h
  unfold Session.withContact
  dsimp only
  rw [Session.rewireRungBranches_series _ hbranches, Session.addWires_wires]
  exact ⟨_, rfl⟩

theorem Session.withFb_wires (s : Session) (h : rung.branches = []) (slot : Nat) (fbType : String)
    (pins : List Pin × List Pin) : ∃ ws, (s.withFb rung slot fbType pins).graph.wires = s.graph.wires ++ ws := by
  have hbranches : (rung.insert slot [(createFb (s.freshId "fb") fbType pins.1 pins.2).id]).branches = [] := h
  unfold Session.withFb
  dsimp only
  rw [Session.rewireRungBranches_series _ hbranches, Session.addWires_wires]
  exact ⟨_, rfl⟩

theorem Session.withCoil_wires (s : Session) (h : rung.branches = []) (lastContactId : String)
    (coilType : CoilType) :
    ∃ ws, (s.withCoil rung lastContactId coilType).graph.wires = s.graph.wires ++ ws := by
  have hbranches : ({ rung with elementIds := rung.elementIds ++ [(s.newCoil coilType).id] } : Rung).branches = [] := h
  unfold Session.withCoil
  dsimp only
  rw [Session.rewireRungBranches_series _ hbranches, Session.addWires_wires, Session.addWires_wires, List.append_assoc]
  exact ⟨_, rfl⟩

/-! ### The nine operations -/

/-- A new element that keeps the old wires has its wires only in an empty rung. -/
theorem Sound.free_of_mirrored (h' : Sound s') (hm : s.graph.Mirrored)
    (hfind : s.graph.rungs.find? (·.id == rung.id) = some rung) {slot : Nat} {node : BaseNode}
    (hkind : node.kind.isRail = false) (hnodes : s'.graph.nodes = s.graph.nodes ++ [node])
    (hrungs : s'.graph.rungs = (s.graph.setRung (rung.insert slot [node.id])).rungs)
    (hwires : s.graph.wires ⊆ s'.graph.wires) (hm' : s'.graph.Mirrored) : s.graph.Free rung := by
  have hupdated : rung.insert slot [node.id] ∈ s'.graph.rungs := by
    rw [hrungs]
    exact mem_updateFirst_self hfind _
  constructor
  · by_contra hne
    exact h'.not_mirrored_insert hm (mem_of_find?_eq_some hfind) hupdated (take_append_drop slot _).symm hne rfl
      hnodes hwires hm'
  · have hne : (rung.insert slot [node.id]).elementIds ≠ [] :=
      ne_nil_of_mem ((splice_perm rung.elementIds slot [node.id]).mem_iff.2 (mem_cons_self ..))
    have hold : ∀ {side rail}, s'.graph.findRail side = some rail → s.graph.findRail side = some rail := by
      intro side rail hrail
      have hnot : [node].find? (·.kind == .powerRail side) = none := by
        apply find?_eq_none.2
        intro n hn hside
        rw [mem_singleton.1 hn, beq_iff_eq] at hside
        rw [hside] at hkind
        cases hkind
      unfold LdGraph.findRail at hrail ⊢
      rw [hnodes, find?_append, hnot, Option.or_none] at hrail
      exact hrail
    obtain ⟨left, right, hleft, hright, _⟩ := hm' _ hupdated hne
    exact ⟨left, right, hold hleft, hold hright⟩

theorem InSeries.addContact_iff (h : InSeries s) (hm : s.graph.Mirrored) (position : Option Point)
    (insertIndex : Option Int) (contactType : ContactType) (rungId : String) :
    (s.step (.addContact position insertIndex contactType rungId)).graph.Mirrored ↔
      KeepsRow s (.addContact position insertIndex contactType rungId) := by
  apply mirrored_step_iff hm
  · exact fun hthrow rung hrung hright => absurd (Session.addContact_ok.2 ⟨rung, hrung, hright, rfl⟩) (hthrow _)
  · intro s' hcall
    constructor
    · intro hm' rung hrung _
      have hsound := h.sound.addContact hcall
      obtain ⟨rung', hrung', _, rfl⟩ := Session.addContact_ok.1 hcall
      cases hrung.symm.trans hrung'
      obtain ⟨hfind, _⟩ := LdGraph.findRung_ok hrung
      refine hsound.free_of_mirrored hm hfind rfl (Session.withContact_nodes ..) (Session.withContact_rungs ..) ?_ hm'
      obtain ⟨ws, hws⟩ := Session.withContact_wires s (h.series rung (mem_of_find?_eq_some hfind))
        (s.graph.insertSlot rung insertIndex position) contactType
      rw [hws]
      exact subset_append_left ..
    · intro hkeeps
      obtain ⟨rung, hrung, hright, _⟩ := Session.addContact_ok.1 hcall
      obtain ⟨_, left, right, hleft, hright'⟩ := hkeeps rung hrung hright
      apply h.mirrored_addContact hm hcall hleft hright'
      intro rung' hrung'
      cases hrung.symm.trans hrung'
      exact (hkeeps rung hrung hright).1

theorem InSeries.addFb_iff (h : InSeries s) (hm : s.graph.Mirrored) (position : Option Point) (insertIndex : Option Int)
    (fbType rungId : String) : (s.step (.addFb position insertIndex fbType rungId)).graph.Mirrored ↔
      KeepsRow s (.addFb position insertIndex fbType rungId) := by
  apply mirrored_step_iff hm
  · intro hthrow rung hrung hpins
    obtain ⟨pins, hpins⟩ := Option.ne_none_iff_exists'.1 hpins
    exact absurd (Session.addFb_ok.2 ⟨rung, pins, hrung, hpins, rfl⟩) (hthrow _)
  · intro s' hcall
    constructor
    · intro hm' rung hrung _
      have hsound := h.sound.addFb hcall
      obtain ⟨rung', pins, hrung', _, rfl⟩ := Session.addFb_ok.1 hcall
      cases hrung.symm.trans hrung'
      obtain ⟨hfind, _⟩ := LdGraph.findRung_ok hrung
      refine hsound.free_of_mirrored hm hfind rfl (Session.withFb_nodes ..) (Session.withFb_rungs ..) ?_ hm'
      obtain ⟨ws, hws⟩ := Session.withFb_wires s (h.series rung (mem_of_find?_eq_some hfind))
        (s.graph.insertSlot rung insertIndex position) fbType pins
      rw [hws]
      exact subset_append_left ..
    · intro hkeeps
      obtain ⟨rung, pins, hrung, hpins, _⟩ := Session.addFb_ok.1 hcall
      have hknown : getFbPins fbType ≠ none := hpins ▸ Option.some_ne_none pins
      obtain ⟨_, left, right, hleft, hright⟩ := hkeeps rung hrung hknown
      apply h.mirrored_addFb hm hcall hleft hright
      intro rung' hrung'
      cases hrung.symm.trans hrung'
      exact (hkeeps rung hrung hknown).1

theorem InSeries.addCoil_iff (h : InSeries s) (hm : s.graph.Mirrored) (coilType : CoilType) (rungId : String) :
    (s.step (.addCoil coilType rungId)).graph.Mirrored ↔ KeepsRow s (.addCoil coilType rungId) := by
  apply mirrored_step_iff hm
  · intro hthrow rung hrung id hid
    by_contra hcontact
    rw [Bool.not_eq_false] at hcontact
    have hmem : id ∈ rung.elementIds.filter fun id => (s.graph.findNode id).any (·.kind.isContact) :=
      mem_filter.2 ⟨hid, hcontact⟩
    exact hthrow _ (Session.addCoil_ok.2
      ⟨rung, _, hrung, getLast?_eq_some_getLast (ne_nil_of_mem hmem), rfl⟩)
  · intro s' hcall
    have hsound := h.sound.addCoil hcall
    obtain ⟨rung, lastContactId, hrung, hlast, rfl⟩ := Session.addCoil_ok.1 hcall
    obtain ⟨hfind, _⟩ := LdGraph.findRung_ok hrung
    obtain ⟨hmem, hcontact⟩ := mem_filter.1 (mem_of_getLast? hlast)
    have hseries := h.series rung (mem_of_find?_eq_some hfind)
    refine iff_of_false ?_ ?_
    · -- the row is not empty
      intro hm'
      have hfree := hsound.free_of_mirrored hm hfind rfl (Session.withCoil_nodes ..) (Session.withCoil_rungs ..) (by
        obtain ⟨ws, hws⟩ := Session.withCoil_wires s hseries lastContactId coilType
        rw [hws]
        exact subset_append_left ..) hm'
      rw [hfree.1] at hmem
      cases hmem
    · intro hkeeps
      have hnot := hkeeps rung hrung lastContactId hmem
      rw [hcontact] at hnot
      cases hnot

theorem Sound.reorderElement_call (h : Sound s) (hrung : rung ∈ s.graph.rungs) {elementId : String}
    (hid : elementId ∈ rung.elementIds) (hother : (s.graph.findCoilOnRung rung).any (·.id == elementId) = false)
    (insertIndex : Int) : s.reorderElement elementId insertIndex =
      .ok (s.withOrder rung (Session.reordered rung.elementIds elementId insertIndex)) := by
  obtain ⟨node, hnode, rfl⟩ := mem_map.1 (h.owned.node_of_member hrung (mem_append_left _ hid))
  unfold Session.reorderElement
  cases hfind : s.graph.rungs.find? (·.elementIds.contains node.id) with
  | none => exact absurd (contains_iff_mem.2 hid) (find?_eq_none.1 hfind rung hrung)
  | some found =>
    have hmem := find?_some (p := fun r : Rung => r.elementIds.contains node.id) hfind
    have hsame := h.owned.same_rung (mem_of_find?_eq_some hfind) hrung
      (mem_append_left _ (contains_iff_mem.1 hmem)) (mem_append_left _ hid)
    subst hsame
    rw [h.findNode hnode]
    dsimp only
    rw [hother]
    rfl

theorem InSeries.reorderElement_iff (h : InSeries s) (hm : s.graph.Mirrored) (elementId : String) (insertIndex : Int) :
    (s.step (.reorderElement elementId insertIndex)).graph.Mirrored ↔
      KeepsRow s (.reorderElement elementId insertIndex) := by
  apply mirrored_step_iff hm
  · exact fun hthrow rung hrung hid hother => absurd (h.sound.reorderElement_call hrung hid hother insertIndex) (hthrow _)
  · intro s' hcall
    refine ⟨fun hm' rung hrung hid _ => ?_, fun hkeeps => h.mirrored_reorderElement hm hcall hkeeps⟩
    have hsound := h.sound.reorderElement hcall
    obtain ⟨rung', hrung', hid', _, rfl⟩ := Session.reorderElement_ok hcall
    cases h.sound.owned.same_rung hrung hrung' (mem_append_left _ hid) (mem_append_left _ hid')
    let updated : Rung := { rung with elementIds := Session.reordered rung.elementIds elementId insertIndex }
    have hbranches : updated.branches = [] := h.series rung hrung
    have horder : s.withOrder rung updated.elementIds = (s.setRung updated).rewireRungSeries updated :=
      Session.rewireRungBranches_series _ hbranches
    rw [horder] at hsound hm'
    have hupdated : updated ∈ ((s.setRung updated).rewireRungSeries updated).graph.rungs := by
      rw [Session.rewireRungSeries_rungs]
      exact mem_updateFirst_self (h.sound.find?_rung hrung) _
    intro id hmem
    exact hsound.onlyContacts_of_mirrored hupdated hbranches hm' id ((Sound.reordered_perm hid insertIndex).mem_iff.2 hmem)

theorem InSeries.pasteElements_iff (h : InSeries s) (hm : s.graph.Mirrored) (elementIds : List String) (rungId : String)
    (insertIndex : Int) : (s.step (.pasteElements elementIds rungId insertIndex)).graph.Mirrored ↔
      KeepsRow s (.pasteElements elementIds rungId insertIndex) := by
  apply mirrored_step_iff hm
  · exact fun hthrow rung hrung hsome => absurd (Session.pasteElements_ok.2 ⟨rung, hrung, hsome, rfl⟩) (hthrow _)
  · intro s' hcall
    constructor
    · intro hm' rung hrung _
      have hsound := h.sound.pasteElements hcall
      obtain ⟨rung', hrung', _, rfl⟩ := Session.pasteElements_ok.1 hcall
      cases hrung.symm.trans hrung'
      obtain ⟨hfind, _⟩ := LdGraph.findRung_ok hrung
      have hmem := mem_of_find?_eq_some hfind
      let pasted := Session.pasteNodes s.nextId (s.pasteSources elementIds)
      let updated := rung.insert (clampSlot insertIndex rung.elementIds.length) (pasted.1.map (·.id))
      let base := Session.setRung ⟨pasted.2, { s.graph with nodes := s.graph.nodes ++ pasted.1 }⟩ updated
      have hnodes : base.graph.nodes = s.graph.nodes ++ pasted.1 := rfl
      have hsound : Sound (base.rewireRungSeries updated) := hsound
      have hupdated : updated ∈ (base.rewireRungSeries updated).graph.rungs := by
        rw [Session.rewireRungSeries_rungs]
        exact mem_updateFirst_self hfind _
      have hcontacts := hsound.onlyContacts_of_mirrored hupdated (h.series rung hmem) hm'
      -- all elements of the rung are contacts: the copies, and the ones that were there
      have hids : ∀ id, id ∈ pasted.1.map (·.id) ∨ id ∈ rung.elementIds → id ∈ updated.elementIds := fun id hid =>
        (splice_perm ..).mem_iff.2 (mem_append.2 hid)
      constructor
      · have hcopies := map_kind_pasteNodes NodeKind.isContact_eq s.nextId (s.pasteSources elementIds)
        rw [← forall_mem_map (P := fun b => b = true), ← hcopies, forall_mem_map]
        intro node hnode
        have hcontact := hcontacts node.id (hids _ (Or.inl (mem_map_of_mem hnode)))
        have hmem : node ∈ (base.rewireRungSeries updated).graph.nodes := by
          rw [Session.rewireRungSeries_nodes]
          exact mem_append_right _ hnode
        have hfound := hsound.findNode hmem
        unfold LdGraph.findNode at hfound hcontact
        rw [Session.rewireRungSeries_nodes] at hfound
        rw [hfound] at hcontact
        exact hcontact
      · intro id hid
        have hcontact := hcontacts id (hids id (Or.inr hid))
        rw [LdGraph.findNode_append hnodes (h.sound.owned.node_of_member hmem (mem_append_left _ hid))] at hcontact
        exact hcontact
    · intro hkeeps
      obtain ⟨rung, hrung, hsome, _⟩ := Session.pasteElements_ok.1 hcall
      apply h.mirrored_pasteElements hm hcall (hkeeps rung hrung hsome).1
      intro rung' hrung'
      exact (hkeeps rung' hrung' hsome).2

theorem InSeries.deleteElement_iff (h : InSeries s) (hm : s.graph.Mirrored) {elementId : String}
    (hop : RowEdit s (.deleteElement elementId)) :
    (s.step (.deleteElement elementId)).graph.Mirrored ↔ KeepsRow s (.deleteElement elementId) := by
  cases hnode : s.graph.findNode elementId with
  | none =>
    -- nothing has the id
    have hstep : s.step (.deleteElement elementId) = s := by
      apply Session.step_of_throw
      intro s' hcall
      have hcall : s.deleteElement elementId = .ok s' := hcall
      unfold Session.deleteElement at hcall
      rw [hnode, hop hnode] at hcall
      cases hcall
    have habsent : elementId ∉ s.graph.nodeIds := by
      intro hid
      obtain ⟨node, hmem, rfl⟩ := mem_map.1 hid
      rw [h.sound.findNode hmem] at hnode
      cases hnode
    rw [hstep]
    refine iff_of_true hm ⟨?_, ?_⟩
    · exact fun rung hrung hid => absurd (h.sound.owned.node_of_member hrung (mem_append_left _ hid)) habsent
    · intro side rail hrail hid
      exact absurd (hid ▸ LdGraph.findRail_mem hrail) habsent
  | some node =>
    have hcall := h.deleteElement_eq hnode
    have hstep : s.step (.deleteElement elementId) = _ := Session.step_of_ok hcall
    refine ⟨fun hm' => ?_, fun hkeeps => ?_⟩
    · rw [hstep] at hm'
      have hsound := h.sound.deleteElement hcall
      have hmem : ∀ {rung : Rung}, rung ∈ s.graph.rungs →
          { rung with elementIds := rung.elementIds.filter fun id => !([elementId].contains id) } ∈
            (s.graph.rungs.map fun rung =>
              { rung with elementIds := rung.elementIds.filter fun id => !([elementId].contains id) }) :=
        fun hrung => mem_map_of_mem hrung
      constructor
      · intro rung hrung hid
        by_contra hne
        obtain ⟨l₁, l₂, hsplit⟩ := append_of_mem hid
        have hothers := h.sound.elementIds_nodup hrung
        rw [hsplit] at hne hothers
        have hfilter := filter_not_mem_split hothers
        refine h.sound.not_mirrored_remove hm hrung (hmem hrung) hsplit ?_ (hsplit ▸ hfilter) rfl ?_ hm'
        · intro hnil
          rw [hsplit, hfilter, append_eq_nil_iff] at hnil
          rw [hnil.1, hnil.2] at hne
          exact hne rfl
        · exact (filter_sublist.map _).subset
      · rintro side rail hrail rfl rung hrung
        by_contra hne
        exact hsound.not_mirrored_rail hm hrung (hmem hrung) hne
          (filter_eq_self.2 fun id hid => not_contains_iff.2 fun hmem =>
            h.sound.rail_not_element hrail hrung (mem_singleton.1 hmem ▸ hid)) hrail
          (Session.dropEdges_wires s [rail.id]) hm'
    · rw [hstep]
      exact h.mirrored_deleteElement hm hnode hcall hkeeps.1 hkeeps.2

/-- **A step** keeps the wires of the rows exactly if it meets the condition. -/
theorem InSeries.mirrored_iff (h : InSeries s) (hm : s.graph.Mirrored) (hop : RowEdit s op) :
    (s.step op).graph.Mirrored ↔ KeepsRow s op := by
  cases op with
  | addContact position insertIndex contactType rungId => exact h.addContact_iff hm position insertIndex contactType rungId
  | addCoil coilType rungId => exact h.addCoil_iff hm coilType rungId
  | addFb position insertIndex fbType rungId => exact h.addFb_iff hm position insertIndex fbType rungId
  | deleteElement elementId => exact h.deleteElement_iff hm hop
  | reorderElement elementId insertIndex => exact h.reorderElement_iff hm elementId insertIndex
  | pasteElements elementIds rungId insertIndex => exact h.pasteElements_iff hm elementIds rungId insertIndex
  | addRung => exact iff_of_true (mirrored_addRung hm) trivial
  | moveRung rungId newIndex =>
    exact iff_of_true (Session.step_induction (P := fun s' => s'.graph.Mirrored) hm
      fun s' hcall => mirrored_moveRung hm hcall) trivial
  | deleteRung rungId =>
    exact iff_of_true (Session.step_induction (P := fun s' => s'.graph.Mirrored) hm
      fun s' hcall => h.mirrored_deleteRung hm hcall) trivial
  | _ => cases hop

/-- No edit of rows opens a branch. -/
theorem InSeries.step_row (h : InSeries s) (hop : RowEdit s op) : InSeries (s.step op) := by
  cases op with
  | deleteElement elementId =>
    apply Session.step_induction (P := InSeries) h
    intro s' hcall
    have hcall : s.deleteElement elementId = .ok s' := hcall
    refine ⟨h.sound.deleteElement hcall, ?_⟩
    cases hnode : s.graph.findNode elementId with
    | none =>
      unfold Session.deleteElement at hcall
      rw [hnode, hop hnode] at hcall
      cases hcall
    | some node =>
      rw [h.deleteElement_eq hnode, Except.ok.injEq] at hcall
      subst hcall
      intro r' hr'
      obtain ⟨r, hr, rfl⟩ := mem_map.1 hr'
      exact h.series r hr
  | _ => exact h.step hop

/-- **The wires of the rows.** While rows are edited from the start on, the wires mirror the rows of all rungs exactly if
every step keeps them. -/
theorem wires_iff (n : Nat) (ops : List Operation) (hedits : EveryStep Session.step RowEdit ⟨n, createLdGraph⟩ ops) :
    Always Session.step (fun s => s.graph.Mirrored) ⟨n, createLdGraph⟩ ops ↔
      EveryStep Session.step KeepsRow ⟨n, createLdGraph⟩ ops := by
  apply always_iff_of (I := fun s => InSeries s ∧ s.graph.Mirrored) (D := RowEdit) _ _ _ _ hedits
  · exact fun s h => h.2
  · exact fun s op hop h hkeeps => ⟨h.1.step_row hop, (h.1.mirrored_iff h.2 hop).2 hkeeps⟩
  · exact fun s op hop h hm' => (h.1.mirrored_iff h.2 hop).1 hm'
  · exact ⟨.start n, fun _ hrung => absurd hrung not_mem_nil⟩

end

end Audesys.LdEditor

namespace Audesys.LdEditor

open Audesys.Lib Audesys.Editor

local instance wireSuffix : Entropy := ⟨fun _ => "x4k9q"⟩

/-- Two contacts, one behind the other. -/
def twoContacts : List Operation :=
  [.addRung, .addContact none none .no "rung-1-x4k9q", .addContact none none .no "rung-1-x4k9q"]

theorem wires_iff_two : Always Session.step (fun s => s.graph.Mirrored) ⟨0, createLdGraph⟩ twoContacts ↔
    EveryStep Session.step KeepsRow ⟨0, createLdGraph⟩ twoContacts := by
  apply wires_iff 0 twoContacts
  unfold twoContacts
  rw [everyStep_cons, everyStep_cons, everyStep_cons]
  exact ⟨rfl, rfl, rfl, everyStep_nil⟩

/-- The wire from the first contact to the right rail stays. -/
theorem wires_fail : ¬ ∀ ops, EveryStep Session.step RowEdit ⟨0, createLdGraph⟩ ops →
    Always Session.step (fun s => s.graph.Mirrored) ⟨0, createLdGraph⟩ ops := by
  intro h
  have hedits : EveryStep Session.step RowEdit ⟨0, createLdGraph⟩ twoContacts := by
    unfold twoContacts
    rw [everyStep_cons, everyStep_cons, everyStep_cons]
    exact ⟨rfl, rfl, rfl, everyStep_nil⟩
  have hm := h twoContacts hedits twoContacts (prefix_refl _)
  obtain ⟨left, right, hleft, hright, hperm⟩ := hm _ (mem_cons_self ..) (by decide +kernel)
  have hlength := hperm.length_eq
  rw [LdGraph.rowWires_length] at hlength
  exact absurd hlength (by decide +kernel)

end Audesys.LdEditor
