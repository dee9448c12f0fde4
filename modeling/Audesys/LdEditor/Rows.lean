import Audesys.LdEditor.Valid

/-!
# `LdEditor.Rows` — diagrams without branches

As long as no branch is opened, a rung is its main row. The edits of rungs open none.
-/

namespace Audesys.LdEditor

open Audesys.Lib Audesys.Editor

theorem NodeKind.isCoil_eq (kind : NodeKind) : kind.isCoil = (kind.text == "node:coil") := by
  cases kind <;> rfl

theorem NodeKind.isContact_eq (kind : NodeKind) : kind.isContact = (kind.text == "node:contact") := by
  cases kind <;> rfl

theorem NodeKind.of_isContact {kind : NodeKind} (h : kind.isContact = true) : kind.isCoil = false ∧ kind.isFb = false := by
  cases kind with
  | contact => exact ⟨rfl, rfl⟩
  | _ => cases h

section
variable [Entropy] {s s' : Session}

/-- A sound session without branches. -/
structure InSeries (s : Session) : Prop where
  sound : Sound s
  series : ∀ rung ∈ s.graph.rungs, rung.branches = []

theorem Sound.elementIds_nodup (h : Sound s) {rung : Rung} (hrung : rung ∈ s.graph.rungs) : rung.elementIds.Nodup :=
  ((List.nodup_flatMap.1 h.owned.members).1 rung hrung).of_append_left

theorem Sound.findNode (h : Sound s) {node : BaseNode} (hnode : node ∈ s.graph.nodes) :
    s.graph.findNode node.id = some node :=
  find?_of_nodup_map h.owned.nodeIds hnode

/-- A statement about the rung with an id. -/
theorem Sound.rung_iff (h : Sound s) {rung : Rung} (hrung : rung ∈ s.graph.rungs) {P : Rung → Prop} :
    (∀ r ∈ s.graph.rungs, r.id = rung.id → P r) ↔ P rung := by
  constructor
  · exact fun hall => hall rung hrung rfl
  · intro hP r hr hid
    rw [h.owned.rung_of_id hr hrung hid]
    exact hP

omit [Entropy] in
theorem findRung_throws {rungId : String} (h : ∀ rung ∈ s.graph.rungs, rung.id ≠ rungId) (rung : Rung) :
    s.graph.findRung rungId ≠ .ok rung := by
  intro hrung
  obtain ⟨hfind, hid⟩ := LdGraph.findRung_ok hrung
  exact h rung (List.mem_of_find?_eq_some hfind) hid

/-- Copies are of the types of what is copied. -/
theorem map_kind_pasteNodes {f : NodeKind → Bool} {type : String} (hf : ∀ kind, f kind = (kind.text == type)) (n : Nat)
    (sources : List BaseNode) :
    (Session.pasteNodes n sources).1.map (fun node => f node.kind) = sources.map fun src => f src.kind := by
  induction sources generalizing n with
  | nil => rfl
  | cons src rest ih =>
    unfold Session.pasteNodes
    rw [List.map_cons, List.map_cons, ih, hf, hf]
    congr 2
    unfold Session.pasteNode
    cases hkind : src.kind with
    | powerRail side => exact congrArg NodeKind.text hkind
    | comparison operator operandA operandB => exact congrArg NodeKind.text hkind
    | _ => rfl

/-! ## Edits of rungs -/

/-- The operations that edit rungs without branches. -/
def Operation.isRungEdit : Operation → Bool
  | .addRung | .addContact .. | .addCoil .. | .addFb .. | .reorderElement .. | .pasteElements .. | .moveRung .. |
    .deleteRung _ => true
  | _ => false

/-- Nodes and rungs behind `addRung`. -/
theorem addRung_shape (s : Session) : (∀ node ∈ s.graph.nodes, node ∈ s.addRung.graph.nodes) ∧
    ∀ r' ∈ s.addRung.graph.rungs, r' ∈ s.graph.rungs ∨ r'.elementIds = [] ∧ r'.branches = [] := by
  have hrungs : ∀ comment, ∀ r' ∈ s.graph.rungs ++ [createRung (s.freshId "rung") (s.graph.rungs.length + 1) comment],
      r' ∈ s.graph.rungs ∨ r'.elementIds = [] ∧ r'.branches = [] := by
    intro comment r' hr'
    rcases List.mem_append.1 hr' with hr' | hr'
    · exact Or.inl hr'
    · rw [List.mem_singleton.1 hr']
      exact Or.inr ⟨rfl, rfl⟩
  unfold Session.addRung
  dsimp only
  by_cases hfirst : s.graph.rungs.length + 1 = 1
  · rw [if_pos hfirst]
    exact ⟨fun node hnode => List.mem_append_left _ (List.mem_append_left _ hnode), hrungs _⟩
  · rw [if_neg hfirst]
    exact ⟨fun node hnode => hnode, hrungs _⟩

omit [Entropy] in
theorem withoutRung_rungs {rung r' : Rung} (hr' : r' ∈ (s.withoutRung rung).graph.rungs) :
    ∃ r ∈ s.graph.rungs, r'.elementIds = r.elementIds ∧ r'.branches = r.branches := by
  obtain ⟨r, hr, k, rfl⟩ := mem_renumbered hr'
  exact ⟨r, List.eraseP_subset hr, rfl, rfl⟩

theorem InSeries.keepsMembers (h : InSeries s) (op : Operation) : KeepsMembers s op := by
  cases op with
  | deleteRung rungId =>
    intro rung hrung _ _ b hb
    rw [h.series rung hrung] at hb
    exact absurd hb List.not_mem_nil
  | _ => trivial

/-- No edit of rungs opens a branch. -/
theorem InSeries.step_series (h : InSeries s) {op : Operation} (hop : op.isRungEdit = true) :
    ∀ rung ∈ (s.step op).graph.rungs, rung.branches = [] := by
  -- the rung that is changed keeps its branches, and the others stay
  have hupdate : ∀ {rung updated r' : Rung}, r' ∈ (s.graph.setRung updated).rungs → rung ∈ s.graph.rungs →
      updated.branches = rung.branches → r'.branches = [] := by
    intro rung updated r' hr' hrung hbranches
    rcases mem_updateFirst hr' with hr' | ⟨_, _, _, rfl⟩
    · exact h.series r' hr'
    · exact hbranches.trans (h.series rung hrung)
  have hmem : ∀ {rungId : String} {rung : Rung}, s.graph.findRung rungId = .ok rung → rung ∈ s.graph.rungs :=
    fun hok => List.mem_of_find?_eq_some (LdGraph.findRung_ok hok).1
  apply Session.step_induction (P := fun s' => ∀ rung ∈ s'.graph.rungs, rung.branches = []) h.series
  intro s' hcall r' hr'
  cases op with
  | addContact position insertIndex contactType rungId =>
    obtain ⟨rung, hok, _, rfl⟩ := Session.addContact_ok.1 hcall
    rw [Session.withContact_rungs] at hr'
    exact hupdate hr' (hmem hok) rfl
  | addCoil coilType rungId =>
    obtain ⟨rung, _, hok, _, rfl⟩ := Session.addCoil_ok.1 hcall
    rw [Session.withCoil_rungs] at hr'
    exact hupdate hr' (hmem hok) rfl
  | addFb position insertIndex fbType rungId =>
    obtain ⟨rung, _, hok, _, rfl⟩ := Session.addFb_ok.1 hcall
    rw [Session.withFb_rungs] at hr'
    exact hupdate hr' (hmem hok) rfl
  | pasteElements elementIds rungId insertIndex =>
    obtain ⟨rung, hok, _, rfl⟩ := Session.pasteElements_ok.1 hcall
    rw [Session.withCopies_rungs] at hr'
    exact hupdate hr' (hmem hok) rfl
  | reorderElement elementId insertIndex =>
    obtain ⟨rung, hrung, _, _, rfl⟩ := Session.reorderElement_ok hcall
    rw [Session.withOrder_rungs] at hr'
    exact hupdate hr' hrung rfl
  | addRung =>
    cases hcall
    rcases (addRung_shape s).2 r' hr' with hr' | ⟨_, hnil⟩
    · exact h.series r' hr'
    · exact hnil
  | moveRung rungId newIndex =>
    rcases Sound.moveRung_ok hcall with rfl | ⟨rungs, hperm, rfl⟩
    · exact h.series r' hr'
    · obtain ⟨r, hr, k, rfl⟩ := mem_renumbered hr'
      exact h.series r (hperm.subset hr)
  | deleteRung rungId =>
    obtain ⟨rung, _, _, rfl⟩ := Session.deleteRung_ok.1 hcall
    obtain ⟨r, hr, _, hbranches⟩ := withoutRung_rungs hr'
    exact hbranches.trans (h.series r hr)
  | _ => cases hop

/-- **A step** opens no branch. -/
theorem InSeries.step (h : InSeries s) {op : Operation} (hop : op.isRungEdit = true) : InSeries (s.step op) :=
  ⟨h.sound.step (h.keepsMembers op), h.step_series hop⟩

theorem InSeries.start (n : Nat) : InSeries ⟨n, createLdGraph⟩ :=
  ⟨.start n, fun _ hrung => absurd hrung List.not_mem_nil⟩

end

end Audesys.LdEditor
