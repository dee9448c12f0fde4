import Audesys.LdEditor.Rows

/-!
# `LdEditor.Coils` — coils at the ends of rungs

A rung may have one coil, as its last element. `addContact` looks where the coil is if it is given a slot or a position,
and `reorderElement` keeps in front of the coil. The other insertions do not look: the rule holds throughout a run exactly
if they do not put anything behind a coil (`rungRules_iff`).
-/

open List

namespace Audesys.LdEditor

open Audesys.Lib Audesys.Editor

variable {rung : Rung} {graph : LdGraph}
variable {elementId : String}

/-! ## The rules -/

/-- Whether the id is that of a coil. -/
def LdGraph.isCoil (graph : LdGraph) (id : String) : Bool := (graph.findNode id).any (·.kind.isCoil)

/-- An error that names more than one coil, or one that is not the last element. -/
def GraphError.isCoilRule : GraphError → Bool
  | multipleCoils .. | coilNotLast _ => true
  | _ => false

/-- At most one coil in a rung, which is the last element, and the checks see that. -/
structure RungRules (graph : LdGraph) : Prop where
  one : ∀ rung ∈ graph.rungs, (rung.elementIds.filter graph.isCoil).length ≤ 1
  last : ∀ rung ∈ graph.rungs, ∀ id ∈ rung.elementIds, graph.isCoil id = true → rung.elementIds.getLast? = some id
  checked : ∀ e ∈ (validate graph).errors, e.isCoilRule = false

instance (graph : LdGraph) : Decidable (RungRules graph) :=
  decidable_of_iff
    ((∀ rung ∈ graph.rungs, (rung.elementIds.filter graph.isCoil).length ≤ 1) ∧
      (∀ rung ∈ graph.rungs, ∀ id ∈ rung.elementIds, graph.isCoil id = true → rung.elementIds.getLast? = some id) ∧
        ∀ e ∈ (validate graph).errors, e.isCoilRule = false)
    ⟨fun ⟨h₁, h₂, h₃⟩ => ⟨h₁, h₂, h₃⟩, fun ⟨h₁, h₂, h₃⟩ => ⟨h₁, h₂, h₃⟩⟩

/-- No element but the last one has the property. -/
def OnlyLast {α : Type} (p : α → Bool) (l : List α) : Prop := ∀ x ∈ l.dropLast, p x = false

namespace OnlyLast

variable {α : Type} {p : α → Bool} {l : List α}

theorem sublist {l' : List α} (h : OnlyLast p l) (hl' : l'.Sublist l) : OnlyLast p l' := by
  have hfront : l'.dropLast.Sublist l.dropLast := by
    rw [← reverse_sublist, ← tail_reverse, ← tail_reverse]
    exact hl'.reverse.tail
  exact fun x hx => h x (hfront.subset hx)

theorem of_none (h : ∀ x ∈ l, p x = false) : OnlyLast p l := fun x hx => h x (dropLast_subset _ hx)

theorem congr {q : α → Bool} (hpq : ∀ x ∈ l, p x = q x) (h : OnlyLast p l) : OnlyLast q l :=
  fun x hx => hpq x (dropLast_subset _ hx) ▸ h x hx

theorem map_iff {β : Type} {f : β → α} {l : List β} : OnlyLast p (l.map f) ↔ OnlyLast (p ∘ f) l := by
  unfold OnlyLast
  rw [← map_dropLast]
  exact forall_mem_map

theorem filter_le (h : OnlyLast p l) : (l.filter p).length ≤ 1 := by
  by_cases hnil : l = []
  · rw [hnil]
    exact Nat.zero_le _
  · have hfront : l.dropLast.filter p = [] := filter_eq_nil_iff.2 fun x hx => Bool.not_eq_true _ ▸ h x hx
    rw [← dropLast_append_getLast hnil, filter_append, hfront]
    exact List.length_filter_le _ _

theorem getLast? (h : OnlyLast p l) {x : α} (hx : x ∈ l) (hp : p x = true) : l.getLast? = some x := by
  have hnil : l ≠ [] := ne_nil_of_mem hx
  rw [getLast?_eq_some_getLast hnil]
  rw [← dropLast_append_getLast hnil] at hx
  rcases mem_append.1 hx with hx | hx
  · rw [h x hx] at hp
    cases hp
  · exact congrArg some (mem_singleton.1 hx).symm

theorem of_getLast? (hnodup : l.Nodup) (h : ∀ x ∈ l, p x = true → l.getLast? = some x) : OnlyLast p l := by
  intro x hx
  by_contra hp
  rw [Bool.not_eq_false] at hp
  have hlast := h x (dropLast_subset _ hx) hp
  have hnil : l ≠ [] := ne_nil_of_mem (dropLast_subset _ hx)
  rw [getLast?_eq_some_getLast hnil, Option.some.injEq] at hlast
  rw [← dropLast_append_getLast hnil, hlast] at hnodup
  exact disjoint_of_nodup_append hnodup hx (mem_singleton_self x)

/-- **New elements** at the end, or before. -/
theorem splice_iff (hl : OnlyLast p l) (slot : Nat) {added : List α} (hne : added ≠ []) :
    OnlyLast p (splice l slot added) ↔
      if slot < l.length then ∀ x ∈ added, p x = false else (∀ x ∈ l, p x = false) ∧ OnlyLast p added := by
  unfold splice
  by_cases hslot : slot < l.length
  · have hdrop : l.drop slot ≠ [] := by
      rw [ne_eq, drop_eq_nil_iff]
      omega
    have hfront : (l.take slot ++ (added ++ l.drop slot)).dropLast = l.take slot ++ (added ++ (l.drop slot).dropLast) := by
      rw [dropLast_append_of_ne_nil (append_ne_nil_of_right_ne_nil _ hdrop), dropLast_append_of_ne_nil hdrop]
    have hold : ∀ x ∈ l.take slot ++ (l.drop slot).dropLast, p x = false := by
      intro x hx
      apply hl
      rw [← take_append_drop slot l, dropLast_append_of_ne_nil hdrop]
      exact hx
    rw [if_pos hslot]
    unfold OnlyLast
    rw [hfront]
    constructor
    · exact fun h x hx => h x (mem_append_right _ (mem_append_left _ hx))
    · intro h x hx
      rcases mem_append.1 hx with hx | hx
      · exact hold x (mem_append_left _ hx)
      rcases mem_append.1 hx with hx | hx
      · exact h x hx
      · exact hold x (mem_append_right _ hx)
  · have hslot' : l.length ≤ slot := Nat.not_lt.1 hslot
    rw [if_neg hslot, take_of_length_le hslot', drop_of_length_le hslot', List.append_nil]
    unfold OnlyLast
    rw [dropLast_append_of_ne_nil hne]
    constructor
    · exact fun h => ⟨fun x hx => h x (mem_append_left _ hx), fun x hx => h x (mem_append_right _ hx)⟩
    · rintro ⟨hold, hnew⟩ x hx
      rcases mem_append.1 hx with hx | hx
      · exact hold x hx
      · exact hnew x hx

end OnlyLast

/-- No element of a rung but the last one is a coil. -/
def LdGraph.CoilsLast (graph : LdGraph) : Prop := ∀ rung ∈ graph.rungs, OnlyLast graph.isCoil rung.elementIds

/-! ## The checks -/

theorem coils_length (graph : LdGraph) (rung : Rung) :
    ((graph.rungNodes rung).filter (·.kind.isCoil)).length = (rung.elementIds.filter graph.isCoil).length := by
  unfold LdGraph.rungNodes
  induction rung.elementIds with
  | nil => rfl
  | cons id rest ih =>
    cases hfind : graph.findNode id with
    | none =>
      have hcoil : graph.isCoil id = false := by
        unfold LdGraph.isCoil
        rw [hfind]
        rfl
      rw [filterMap_cons_none hfind, filter_cons_of_neg (by rw [hcoil]; exact Bool.false_ne_true), ih]
    | some node =>
      have hcoil : graph.isCoil id = node.kind.isCoil := by
        unfold LdGraph.isCoil
        rw [hfind]
        rfl
      rw [filterMap_cons_some hfind, filter_cons, filter_cons, hcoil]
      by_cases hkind : node.kind.isCoil = true
      · rw [if_pos hkind, if_pos hkind, length_cons, length_cons, ih]
      · rw [if_neg hkind, if_neg hkind, ih]

/-- The coils of a rung that the checks look for. -/
theorem any_coil (graph : LdGraph) {id : String} (hid : id ∈ rung.elementIds) :
    ((graph.rungNodes rung).filter (·.kind.isCoil)).any (·.id == id) = graph.isCoil id := by
  rw [Bool.eq_iff_iff, any_eq_true]
  unfold LdGraph.isCoil
  constructor
  · rintro ⟨node, hnode, heq⟩
    obtain ⟨hmem, hcoil⟩ := mem_filter.1 hnode
    obtain ⟨id', _, hfind⟩ := mem_filterMap.1 hmem
    obtain ⟨rfl, _⟩ := LdGraph.findNode_id hfind
    rw [beq_iff_eq] at heq
    rw [← heq, hfind]
    exact hcoil
  · intro hcoil
    cases hfind : graph.findNode id with
    | none =>
      rw [hfind] at hcoil
      cases hcoil
    | some node =>
      rw [hfind] at hcoil
      refine ⟨node, mem_filter.2 ⟨mem_filterMap.2 ⟨id, hid, hfind⟩, hcoil⟩, ?_⟩
      exact beq_iff_eq.2 (LdGraph.findNode_id hfind).1

/-- The checks of a rung whose coil is its last element. -/
theorem ldErrors_of_onlyLast (h : OnlyLast graph.isCoil rung.elementIds) {e : GraphError}
    (he : e ∈ ldErrors graph rung) : e.isCoilRule = false := by
  rcases mem_append.1 he with he | he
  · exfalso
    rcases mem_append.1 he with he | he
    · rw [if_neg (by rw [coils_length]; exact Nat.not_lt.2 h.filter_le)] at he
      cases he
    · -- nothing is behind the first coil
      have hbehind : rung.elementIds.drop (rung.elementIds.findIdx
          (fun id => ((graph.rungNodes rung).filter (·.kind.isCoil)).any (·.id == id)) + 1) = [] := by
        rw [drop_eq_nil_iff]
        by_cases hnil : rung.elementIds = []
        · rw [hnil]
          exact Nat.zero_le _
        have hpos : 0 < rung.elementIds.length := length_pos_iff.2 hnil
        have hindex : rung.elementIds.length - 1 ≤ rung.elementIds.findIdx
            fun id => ((graph.rungNodes rung).filter (·.kind.isCoil)).any (·.id == id) := by
          apply le_findIdx_of_not (Nat.sub_lt hpos Nat.one_pos)
          intro j hj
          rw [any_coil graph (getElem_mem _)]
          apply h
          have hlast : j < rung.elementIds.dropLast.length := by
            rw [length_dropLast]
            exact hj
          rw [← getElem_dropLast hlast]
          exact getElem_mem _
        omega
      rw [hbehind, if_neg (fun hand => Bool.false_ne_true hand.2)] at he
      cases he
  · split at he
    · rw [mem_singleton.1 he]
      rfl
    · cases he

theorem structuralErrors_coilRule {e : GraphError} (he : e ∈ structuralErrors graph) :
    e.isCoilRule = false := by
  rcases mem_append.1 he with he | he
  · rcases mem_append.1 he with he | he
    · rcases mem_append.1 he with he | he
      · obtain ⟨_, _, rfl⟩ := mem_map.1 he
        rfl
      · obtain ⟨edge, _, he⟩ := mem_flatMap.1 he
        rcases mem_append.1 he with he | he
        · split at he
          · cases he
          · rw [mem_singleton.1 he]
            rfl
        · split at he
          · cases he
          · rw [mem_singleton.1 he]
            rfl
    · obtain ⟨_, _, he⟩ := mem_flatMap.1 he
      obtain ⟨_, _, rfl⟩ := mem_map.1 he
      rfl
  · obtain ⟨_, _, he⟩ := mem_flatMap.1 he
    obtain ⟨b, _, he⟩ := mem_flatMap.1 he
    rcases mem_append.1 he with he | he
    · split at he
      · cases he
      · rw [mem_singleton.1 he]
        rfl
    · obtain ⟨_, _, rfl⟩ := mem_map.1 he
      rfl

section
variable [Entropy] {s s' : Session}

/-- **The rules** in terms of the last element. -/
theorem Sound.rungRules (h : Sound s) : RungRules s.graph ↔ s.graph.CoilsLast := by
  constructor
  · exact fun hrules rung hrung => OnlyLast.of_getLast? (h.elementIds_nodup hrung) (hrules.last rung hrung)
  · intro hlast
    refine ⟨fun rung hrung => (hlast rung hrung).filter_le, fun rung hrung _ => (hlast rung hrung).getLast?, ?_⟩
    intro e he
    rcases mem_append.1 he with he | he
    · exact structuralErrors_coilRule (mem_filter.1 he).1
    · obtain ⟨rung, hrung, he⟩ := mem_flatMap.1 he
      exact ldErrors_of_onlyLast (hlast rung hrung) he

/-! ## What operations do to the last elements -/

theorem Sound.isCoil (h : Sound s) {node : BaseNode} (hnode : node ∈ s.graph.nodes) :
    s.graph.isCoil node.id = node.kind.isCoil := by
  unfold LdGraph.isCoil
  rw [h.findNode hnode]
  rfl

/-- Nodes that stay are coils as before. -/
theorem Sound.isCoil_eq (h : Sound s) (h' : Sound s') {id : String} (hid : id ∈ s.graph.nodeIds)
    (hkept : ∀ node ∈ s.graph.nodes, node.id = id → node ∈ s'.graph.nodes) : s'.graph.isCoil id = s.graph.isCoil id := by
  obtain ⟨node, hnode, rfl⟩ := mem_map.1 hid
  rw [h.isCoil hnode, h'.isCoil (hkept node hnode rfl)]

/-- **New elements in a slot** of a rung. -/
theorem Sound.coilsLast_insert (h : Sound s) (h' : Sound s') (hlast : s.graph.CoilsLast)
    (hfind : s.graph.rungs.find? (·.id == rung.id) = some rung) {slot : Nat} {added : List BaseNode} (hne : added ≠ [])
    (hnodes : s'.graph.nodes = s.graph.nodes ++ added)
    (hrungs : s'.graph.rungs = (s.graph.setRung (rung.insert slot (added.map (·.id)))).rungs) :
    s'.graph.CoilsLast ↔
      if slot < rung.elementIds.length then ∀ node ∈ added, node.kind.isCoil = false
      else (∀ id ∈ rung.elementIds, s.graph.isCoil id = false) ∧ OnlyLast (·.kind.isCoil) added := by
  have hrung := mem_of_find?_eq_some hfind
  have hold : ∀ r ∈ s.graph.rungs, ∀ id ∈ r.elementIds, s'.graph.isCoil id = s.graph.isCoil id := by
    intro r hr id hid
    apply h.isCoil_eq h' (h.owned.node_of_member hr (mem_append_left _ hid))
    intro node hnode _
    rw [hnodes]
    exact mem_append_left _ hnode
  have hnew : ∀ node ∈ added, s'.graph.isCoil node.id = node.kind.isCoil := by
    intro node hnode
    apply h'.isCoil
    rw [hnodes]
    exact mem_append_right _ hnode
  have hupdated : s'.graph.CoilsLast ↔ OnlyLast s'.graph.isCoil (splice rung.elementIds slot (added.map (·.id))) := by
    unfold LdGraph.CoilsLast
    rw [hrungs]
    constructor
    · exact fun hall => hall _ (mem_updateFirst_self hfind _)
    · intro hrow r hr
      rcases mem_updateFirst hr with hr | ⟨_, _, _, rfl⟩
      · exact (hlast r hr).congr fun id hid => (hold r hr id hid).symm
      · exact hrow
  have hrow : OnlyLast s'.graph.isCoil rung.elementIds :=
    (hlast rung hrung).congr fun id hid => (hold rung hrung id hid).symm
  rw [hupdated, hrow.splice_iff slot (fun hnil => hne (map_eq_nil_iff.1 hnil)), forall_mem_map, OnlyLast.map_iff]
  have hall : (∀ node ∈ added, s'.graph.isCoil node.id = false) ↔ ∀ node ∈ added, node.kind.isCoil = false :=
    forall₂_congr fun node hnode => by rw [hnew node hnode]
  have hrest : (∀ id ∈ rung.elementIds, s'.graph.isCoil id = false) ↔ ∀ id ∈ rung.elementIds, s.graph.isCoil id = false :=
    forall₂_congr fun id hid => by rw [hold rung hrung id hid]
  have hend : OnlyLast (s'.graph.isCoil ∘ fun node => node.id) added ↔ OnlyLast (fun node => node.kind.isCoil) added :=
    ⟨OnlyLast.congr hnew, OnlyLast.congr fun node hnode => (hnew node hnode).symm⟩
  rw [hall, hrest, hend]

/-! ## Steps -/

def LdGraph.HasCoil (graph : LdGraph) (rung : Rung) : Prop := ∃ id ∈ rung.elementIds, graph.isCoil id = true

/-- The slot that is asked for is not the end of the rung, or an element is to the right of the position. -/
def BeforeEnd (graph : LdGraph) (rung : Rung) : Option Int → Option Point → Prop
  | some slot, _ => slot < rung.elementIds.length
  | none, some p => ∃ id ∈ rung.elementIds, ∃ node, graph.findNode id = some node ∧ (snapToGrid p).x < node.position.x
  | none, none => False

/-- The operation, if it does not throw, puts nothing behind a coil: a contact comes with a slot or a position, a second
coil is not added, a function block goes to a place before the end, and a paste has a coil only at its end, where the
rung has none, and then goes to the end. -/
def KeepsCoilLast (s : Session) : Operation → Prop
  | .addContact position insertIndex _ rungId => ∀ rung ∈ s.graph.rungs, rung.id = rungId → s.graph.HasCoil rung →
      position ≠ none ∨ insertIndex ≠ none
  | .addCoil _ rungId => ∀ rung ∈ s.graph.rungs, rung.id = rungId →
      (∃ id ∈ rung.elementIds, ∃ node, s.graph.findNode id = some node ∧ node.kind.isContact = true) →
        ¬ s.graph.HasCoil rung
  | .addFb position insertIndex fbType rungId => ∀ rung ∈ s.graph.rungs, rung.id = rungId → getFbPins fbType ≠ none →
      s.graph.HasCoil rung → BeforeEnd s.graph rung insertIndex position
  | .pasteElements elementIds rungId insertIndex => ∀ rung ∈ s.graph.rungs, rung.id = rungId →
      s.pasteSources elementIds ≠ [] →
        (rung.elementIds ≠ [] ∧ insertIndex < rung.elementIds.length ∧
            ∀ src ∈ s.pasteSources elementIds, src.kind.isCoil = false) ∨
          ¬ (rung.elementIds ≠ [] ∧ insertIndex < rung.elementIds.length) ∧ ¬ s.graph.HasCoil rung ∧
            OnlyLast (·.kind.isCoil) (s.pasteSources elementIds)
  | _ => True

/-- A session without branches whose coils are the last elements. -/
structure CoilsEnd (s : Session) : Prop extends InSeries s where
  last : s.graph.CoilsLast

section
omit [Entropy]

theorem clampSlot_lt_iff {slot : Int} {n : Nat} : clampSlot slot n < n ↔ 0 < n ∧ slot < n := by
  unfold clampSlot
  omega

theorem insertSlot_lt_iff (hne : rung.elementIds ≠ []) {insertIndex : Option Int} {position : Option Point} :
    graph.insertSlot rung insertIndex position < rung.elementIds.length ↔ BeforeEnd graph rung insertIndex position := by
  have hpos := length_pos_iff.2 hne
  cases insertIndex with
  | some slot => exact clampSlot_lt_iff.trans (and_iff_right hpos)
  | none =>
    cases position with
    | none => exact iff_of_false (Nat.lt_irrefl _) id
    | some p =>
      show List.findIdx _ _ < _ ↔ _
      rw [findIdx_lt_length]
      apply exists_congr
      intro id
      apply and_congr_right
      intro _
      cases graph.findNode id with
      | none => exact iff_of_false Bool.false_ne_true fun ⟨_, hnode, _⟩ => nomatch hnode
      | some node =>
        constructor
        · exact fun hx => ⟨node, rfl, of_decide_eq_true hx⟩
        · rintro ⟨_, hnode, hx⟩
          cases hnode
          exact decide_eq_true hx

theorem LdGraph.not_hasCoil : ¬ graph.HasCoil rung ↔ ∀ id ∈ rung.elementIds, graph.isCoil id = false := by
  unfold LdGraph.HasCoil
  rw [not_exists]
  apply forall_congr'
  intro id
  rw [not_and, Bool.not_eq_true]

theorem LdGraph.HasCoil.ne_nil (h : graph.HasCoil rung) : rung.elementIds ≠ [] := by
  obtain ⟨_, hid, _⟩ := h
  exact ne_nil_of_mem hid

end

/-- The coil that is found, if there is one. -/
theorem Sound.findCoilOnRung (h : Sound s) (rung : Rung) :
    s.graph.HasCoil rung ↔ ∃ coil, s.graph.findCoilOnRung rung = some coil := by
  constructor
  · rintro ⟨id, hid, hcoil⟩
    unfold LdGraph.isCoil at hcoil
    cases hfind : s.graph.findNode id with
    | none =>
      rw [hfind] at hcoil
      cases hcoil
    | some node =>
      rw [hfind] at hcoil
      have hkind : node.kind.isCoil = true := hcoil
      rw [← Option.isSome_iff_exists]
      apply findSome?_isSome_iff.2
      refine ⟨id, hid, ?_⟩
      rw [hfind, Option.filter_some, if_pos hkind]
      rfl
  · rintro ⟨coil, hfound⟩
    obtain ⟨hid, hcoil, hnode⟩ := LdGraph.findCoilOnRung_some hfound
    exact ⟨coil.id, hid, (h.isCoil hnode).trans hcoil⟩

/-- A place for a contact that is not refused and does not fall to the end. -/
theorem CoilsEnd.insertSlot_lt (h : CoilsEnd s) (hcoil : s.graph.HasCoil rung) {insertIndex : Option Int}
    {position : Option Point} (hleft : s.graph.rightOfCoil rung insertIndex position = false) :
    s.graph.insertSlot rung insertIndex position < rung.elementIds.length ↔ position ≠ none ∨ insertIndex ≠ none := by
  rw [insertSlot_lt_iff hcoil.ne_nil]
  obtain ⟨coil, hfound⟩ := (h.sound.findCoilOnRung rung).1 hcoil
  obtain ⟨hid, _, hnode⟩ := LdGraph.findCoilOnRung_some hfound
  unfold LdGraph.rightOfCoil at hleft
  rw [hfound] at hleft
  cases insertIndex with
  | some slot =>
    refine iff_of_true ?_ (Or.inr (Option.some_ne_none _))
    have hindex := idxOf_lt_length_iff.2 hid
    have hleft : (decide (coil.id ∈ rung.elementIds) && decide ((rung.elementIds.idxOf coil.id : Int) < slot)) = false :=
      hleft
    rw [decide_eq_true hid, Bool.true_and, decide_eq_false_iff_not] at hleft
    show slot < rung.elementIds.length
    omega
  | none =>
    cases position with
    | none => exact iff_of_false id fun hor => hor.elim (fun hne => hne rfl) fun hne => hne rfl
    | some p =>
      refine iff_of_true ⟨coil.id, hid, coil, h.sound.findNode hnode, ?_⟩ (Or.inl (Option.some_ne_none _))
      have hleft : decide (coil.position.x ≤ (snapToGrid p).x) = false := hleft
      exact Rat.not_le.1 (of_decide_eq_false hleft)

/-- New elements that are no coils. -/
theorem CoilsEnd.insert_iff (h : CoilsEnd s) (h' : Sound s') (hrung : rung ∈ s.graph.rungs) {slot : Nat}
    {added : List BaseNode} (hne : added ≠ []) (hplain : ∀ node ∈ added, node.kind.isCoil = false)
    (hnodes : s'.graph.nodes = s.graph.nodes ++ added)
    (hrungs : s'.graph.rungs = (s.graph.setRung (rung.insert slot (added.map (·.id)))).rungs) :
    s'.graph.CoilsLast ↔ (s.graph.HasCoil rung → slot < rung.elementIds.length) := by
  rw [h.sound.coilsLast_insert h' h.last (h.sound.find?_rung hrung) hne hnodes hrungs]
  by_cases hslot : slot < rung.elementIds.length
  · rw [if_pos hslot]
    exact iff_of_true hplain fun _ => hslot
  · rw [if_neg hslot, ← LdGraph.not_hasCoil]
    exact ⟨fun hand hcoil => absurd hcoil hand.1, fun hplace => ⟨fun hcoil => hslot (hplace hcoil), .of_none hplain⟩⟩

omit [Entropy] in
/-- A single new element that is no coil. -/
theorem plain_singleton {node : BaseNode} (h : node.kind.isCoil = false) : ∀ n ∈ [node], n.kind.isCoil = false := by
  intro n hn
  rw [mem_singleton.1 hn]
  exact h

/-! ### The four insertions -/

theorem CoilsEnd.addContact_iff (h : CoilsEnd s) (position : Option Point) (insertIndex : Option Int)
    (contactType : ContactType) (rungId : String) :
    (s.step (.addContact position insertIndex contactType rungId)).graph.CoilsLast ↔
      KeepsCoilLast s (.addContact position insertIndex contactType rungId) := by
  by_cases hfound : ∃ rung ∈ s.graph.rungs, rung.id = rungId
  · obtain ⟨rung, hrung, rfl⟩ := hfound
    have hfind := h.sound.find?_rung hrung
    have hok := LdGraph.findRung_of_find? hfind
    refine Iff.trans ?_ (h.sound.rung_iff hrung).symm
    by_cases hright : s.graph.rightOfCoil rung insertIndex position = true
    · -- the place is refused
      have hstep : s.step (.addContact position insertIndex contactType rung.id) = s := by
        apply Session.step_of_throw
        intro s' hcall
        obtain ⟨rung', hok', hleft, _⟩ := Session.addContact_ok.1 hcall
        cases hok.symm.trans hok'
        rw [hright] at hleft
        cases hleft
      rw [hstep]
      refine iff_of_true h.last fun _ => ?_
      unfold LdGraph.rightOfCoil at hright
      cases position with
      | some p => exact Or.inl (Option.some_ne_none _)
      | none =>
        cases insertIndex with
        | some slot => exact Or.inr (Option.some_ne_none _)
        | none =>
          cases hcoil : s.graph.findCoilOnRung rung with
          | none =>
            rw [hcoil] at hright
            cases hright
          | some coil =>
            rw [hcoil] at hright
            cases hright
    · rw [Bool.not_eq_true] at hright
      have hcall : s.addContact position insertIndex contactType rung.id = .ok _ :=
        Session.addContact_ok.2 ⟨rung, hok, hright, rfl⟩
      have hsound := h.sound.addContact hcall
      have hstep : s.step (.addContact position insertIndex contactType rung.id) = _ := Session.step_of_ok hcall
      rw [hstep, h.insert_iff hsound hrung (cons_ne_nil _ _) (plain_singleton rfl) (Session.withContact_nodes ..) (Session.withContact_rungs ..)]
      exact forall_congr' fun hcoil => h.insertSlot_lt hcoil hright
  · have hnone : ∀ rung ∈ s.graph.rungs, rung.id ≠ rungId := fun rung hrung hid => hfound ⟨rung, hrung, hid⟩
    have hstep : s.step (.addContact position insertIndex contactType rungId) = s := by
      apply Session.step_of_throw
      intro s' hcall
      obtain ⟨rung, hok, _⟩ := Session.addContact_ok.1 hcall
      exact findRung_throws hnone rung hok
    rw [hstep]
    exact iff_of_true h.last fun rung hrung hid => absurd hid (hnone rung hrung)

theorem CoilsEnd.addFb_iff (h : CoilsEnd s) (position : Option Point) (insertIndex : Option Int) (fbType rungId : String) :
    (s.step (.addFb position insertIndex fbType rungId)).graph.CoilsLast ↔
      KeepsCoilLast s (.addFb position insertIndex fbType rungId) := by
  by_cases hfound : (∃ rung ∈ s.graph.rungs, rung.id = rungId) ∧ getFbPins fbType ≠ none
  · obtain ⟨⟨rung, hrung, rfl⟩, hknown⟩ := hfound
    obtain ⟨pins, hpins⟩ := Option.ne_none_iff_exists'.1 hknown
    have hcall : s.addFb position insertIndex fbType rung.id = .ok _ := Session.addFb_ok.2
      ⟨rung, pins, LdGraph.findRung_of_find? (h.sound.find?_rung hrung), hpins, rfl⟩
    have hsound := h.sound.addFb hcall
    refine Iff.trans ?_ (h.sound.rung_iff hrung).symm
    have hstep : s.step (.addFb position insertIndex fbType rung.id) = _ := Session.step_of_ok hcall
    rw [hstep, h.insert_iff hsound hrung (cons_ne_nil _ _) (plain_singleton rfl) (Session.withFb_nodes ..) (Session.withFb_rungs ..)]
    constructor
    · exact fun hplace _ hcoil => (insertSlot_lt_iff hcoil.ne_nil).1 (hplace hcoil)
    · exact fun hplace hcoil => (insertSlot_lt_iff hcoil.ne_nil).2 (hplace hknown hcoil)
  · have hstep : s.step (.addFb position insertIndex fbType rungId) = s := by
      apply Session.step_of_throw
      intro s' hcall
      obtain ⟨rung, pins, hok, hpins, _⟩ := Session.addFb_ok.1 hcall
      obtain ⟨hfind, hid⟩ := LdGraph.findRung_ok hok
      exact hfound ⟨⟨rung, mem_of_find?_eq_some hfind, hid⟩, hpins ▸ Option.some_ne_none _⟩
    rw [hstep]
    exact iff_of_true h.last fun rung hrung hid hknown => absurd ⟨⟨rung, hrung, hid⟩, hknown⟩ hfound

theorem CoilsEnd.addCoil_iff (h : CoilsEnd s) (coilType : CoilType) (rungId : String) :
    (s.step (.addCoil coilType rungId)).graph.CoilsLast ↔ KeepsCoilLast s (.addCoil coilType rungId) := by
  by_cases hfound : ∃ rung ∈ s.graph.rungs, rung.id = rungId ∧
      ∃ id ∈ rung.elementIds, ∃ node, s.graph.findNode id = some node ∧ node.kind.isContact = true
  · obtain ⟨rung, hrung, rfl, hcontact⟩ := hfound
    -- the coil goes behind the last contact
    have hlast : ∃ lastContactId, (rung.elementIds.filter fun id =>
        (s.graph.findNode id).any (·.kind.isContact)).getLast? = some lastContactId := by
      obtain ⟨id, hid, node, hnode, hkind⟩ := hcontact
      have hmem : id ∈ rung.elementIds.filter fun id => (s.graph.findNode id).any (·.kind.isContact) := by
        refine mem_filter.2 ⟨hid, ?_⟩
        rw [hnode]
        exact hkind
      rw [getLast?_eq_some_getLast (ne_nil_of_mem hmem)]
      exact ⟨_, rfl⟩
    obtain ⟨lastContactId, hlast⟩ := hlast
    have hcall : s.addCoil coilType rung.id = .ok _ := Session.addCoil_ok.2
      ⟨rung, lastContactId, LdGraph.findRung_of_find? (h.sound.find?_rung hrung), hlast, rfl⟩
    have hsound := h.sound.addCoil hcall
    refine Iff.trans ?_ (h.sound.rung_iff hrung).symm
    have hstep : s.step (.addCoil coilType rung.id) = _ := Session.step_of_ok hcall
    rw [hstep, h.sound.coilsLast_insert hsound h.last (h.sound.find?_rung hrung) (cons_ne_nil _ _)
      (Session.withCoil_nodes ..) (Session.withCoil_rungs ..), if_neg (Nat.lt_irrefl _), ← LdGraph.not_hasCoil]
    constructor
    · exact fun hand _ => hand.1
    · refine fun hplace => ⟨hplace hcontact, ?_⟩
      intro node hnode
      cases hnode
  -- without a contact the operation throws
  · have hstep : s.step (.addCoil coilType rungId) = s := by
      apply Session.step_of_throw
      intro s' hcall
      obtain ⟨rung, lastContactId, hok, hlast, _⟩ := Session.addCoil_ok.1 hcall
      obtain ⟨hfind, hid⟩ := LdGraph.findRung_ok hok
      obtain ⟨hmem, hcontact⟩ := mem_filter.1 (mem_of_getLast? hlast)
      apply hfound
      refine ⟨rung, mem_of_find?_eq_some hfind, hid, lastContactId, hmem, ?_⟩
      cases hnode : s.graph.findNode lastContactId with
      | none =>
        rw [hnode] at hcontact
        cases hcontact
      | some node =>
        rw [hnode] at hcontact
        exact ⟨node, rfl, hcontact⟩
    rw [hstep]
    exact iff_of_true h.last fun rung hrung hid hcontact => absurd ⟨rung, hrung, hid, hcontact⟩ hfound

theorem CoilsEnd.pasteElements_iff (h : CoilsEnd s) (elementIds : List String) (rungId : String) (insertIndex : Int) :
    (s.step (.pasteElements elementIds rungId insertIndex)).graph.CoilsLast ↔
      KeepsCoilLast s (.pasteElements elementIds rungId insertIndex) := by
  by_cases hfound : (∃ rung ∈ s.graph.rungs, rung.id = rungId) ∧ s.pasteSources elementIds ≠ []
  · obtain ⟨⟨rung, hrung, rfl⟩, hsources⟩ := hfound
    have hcall : s.pasteElements elementIds rung.id insertIndex = .ok _ := Session.pasteElements_ok.2
      ⟨rung, LdGraph.findRung_of_find? (h.sound.find?_rung hrung), hsources, rfl⟩
    have hsound := h.sound.pasteElements hcall
    have hmap := map_kind_pasteNodes NodeKind.isCoil_eq s.nextId (s.pasteSources elementIds)
    have hne : (Session.pasteNodes s.nextId (s.pasteSources elementIds)).1 ≠ [] := by
      intro hnil
      rw [hnil, map_nil] at hmap
      exact hsources (map_eq_nil_iff.1 hmap.symm)
    -- the copies are of the kinds of their sources
    have hall : (∀ node ∈ (Session.pasteNodes s.nextId (s.pasteSources elementIds)).1, node.kind.isCoil = false) ↔
        ∀ src ∈ s.pasteSources elementIds, src.kind.isCoil = false := by
      rw [← forall_mem_map (P := fun b => b = false), hmap, forall_mem_map]
    have hend : OnlyLast (·.kind.isCoil) (Session.pasteNodes s.nextId (s.pasteSources elementIds)).1 ↔
        OnlyLast (·.kind.isCoil) (s.pasteSources elementIds) := by
      have hnew := OnlyLast.map_iff (p := id) (f := fun node : BaseNode => node.kind.isCoil)
        (l := (Session.pasteNodes s.nextId (s.pasteSources elementIds)).1)
      rw [hmap, OnlyLast.map_iff] at hnew
      exact hnew.symm
    have hslot : clampSlot insertIndex rung.elementIds.length < rung.elementIds.length ↔
        rung.elementIds ≠ [] ∧ insertIndex < rung.elementIds.length := by
      rw [clampSlot_lt_iff, length_pos_iff]
    refine Iff.trans ?_ (h.sound.rung_iff hrung).symm
    have hstep : s.step (.pasteElements elementIds rung.id insertIndex) = _ := Session.step_of_ok hcall
    rw [hstep, h.sound.coilsLast_insert hsound h.last (h.sound.find?_rung hrung) hne
      (Session.withCopies_nodes ..) (Session.withCopies_rungs ..), hall, hend, LdGraph.not_hasCoil]
    -- in front of an element no copy may be a coil, at the end the last one may
    by_cases hbefore : rung.elementIds ≠ [] ∧ insertIndex < rung.elementIds.length
    · rw [if_pos (hslot.2 hbefore)]
      constructor
      · exact fun hplain _ => Or.inl ⟨hbefore.1, hbefore.2, hplain⟩
      · intro hplace
        rcases hplace hsources with hplain | hend
        · exact hplain.2.2
        · exact absurd hbefore hend.1
    · rw [if_neg fun hlt => hbefore (hslot.1 hlt)]
      constructor
      · exact fun hplain _ => Or.inr ⟨hbefore, hplain⟩
      · intro hplace
        rcases hplace hsources with hplain | hend
        · exact absurd ⟨hplain.1, hplain.2.1⟩ hbefore
        · exact hend.2
  -- without a rung or a source the operation throws
  · have hstep : s.step (.pasteElements elementIds rungId insertIndex) = s := by
      apply Session.step_of_throw
      intro s' hcall
      obtain ⟨rung, hok, hsources, _⟩ := Session.pasteElements_ok.1 hcall
      obtain ⟨hfind, hid⟩ := LdGraph.findRung_ok hok
      exact hfound ⟨⟨rung, mem_of_find?_eq_some hfind, hid⟩, hsources⟩
    rw [hstep]
    exact iff_of_true h.last fun rung hrung hid hsources => absurd ⟨⟨rung, hrung, hid⟩, hsources⟩ hfound

/-! ### The other edits of rungs -/

/-- Rungs that keep their elements. -/
theorem CoilsEnd.last_of_rungs (h : CoilsEnd s) (h' : Sound s')
    (hrungs : ∀ r' ∈ s'.graph.rungs, r'.elementIds = [] ∨ ∃ r ∈ s.graph.rungs, r'.elementIds = r.elementIds)
    (hnodes : (∀ node ∈ s'.graph.nodes, node ∈ s.graph.nodes) ∨ ∀ node ∈ s.graph.nodes, node ∈ s'.graph.nodes) :
    s'.graph.CoilsLast := by
  intro r' hr'
  rcases hrungs r' hr' with hnil | ⟨r, hr, helements⟩
  · rw [hnil]
    exact .of_none fun _ hid => absurd hid not_mem_nil
  · have hlast := h.last r hr
    rw [← helements] at hlast
    apply hlast.congr
    intro id hid
    rcases hnodes with hnodes | hnodes
    · obtain ⟨node, hnode, rfl⟩ := mem_map.1 (h'.owned.node_of_member hr' (mem_append_left _ hid))
      rw [h.sound.isCoil (hnodes node hnode), h'.isCoil hnode]
    · rw [helements] at hid
      obtain ⟨node, hnode, rfl⟩ := mem_map.1 (h.sound.owned.node_of_member hr (mem_append_left _ hid))
      rw [h.sound.isCoil hnode, h'.isCoil (hnodes node hnode)]

omit [Entropy] in
/-- An element that is no coil stays in front of the coil. -/
theorem onlyLast_reordered {p : String → Bool} {elementIds : List String} (h : OnlyLast p elementIds)
    (hid : elementId ∈ elementIds) (hplain : p elementId = false) (insertIndex : Int) :
    OnlyLast p (Session.reordered elementIds elementId insertIndex) := by
  have hfrom := idxOf_lt_length_iff.2 hid
  have hothers : (elementIds.eraseIdx (elementIds.idxOf elementId)).length = elementIds.length - 1 :=
    length_eraseIdx_of_lt hfrom
  -- what is left has the coil, if there is one, at the end
  have hleft : OnlyLast p (elementIds.eraseIdx (elementIds.idxOf elementId)) := h.sublist (eraseIdx_sublist ..)
  unfold Session.reordered
  dsimp only
  rw [hleft.splice_iff _ (cons_ne_nil _ _)]
  have hsingle : ∀ x ∈ [elementId], p x = false := by
    intro x hx
    rw [mem_singleton.1 hx]
    exact hplain
  by_cases hslot : (if elementIds.idxOf elementId < clampSlot insertIndex
      (elementIds.eraseIdx (elementIds.idxOf elementId)).length then
        clampSlot insertIndex (elementIds.eraseIdx (elementIds.idxOf elementId)).length - 1
      else clampSlot insertIndex (elementIds.eraseIdx (elementIds.idxOf elementId)).length) <
      (elementIds.eraseIdx (elementIds.idxOf elementId)).length
  · rw [if_pos hslot]
    exact hsingle
  · rw [if_neg hslot]
    refine ⟨?_, .of_none hsingle⟩
    -- the slot is the end only where the element comes from there
    have hclamp : clampSlot insertIndex (elementIds.eraseIdx (elementIds.idxOf elementId)).length ≤
        (elementIds.eraseIdx (elementIds.idxOf elementId)).length := by
      unfold clampSlot
      omega
    have hend : elementIds.idxOf elementId = elementIds.length - 1 := by
      split at hslot <;> omega
    rw [hend, eraseIdx_length_sub_one]
    exact h

/-- An element that is not the coil that is found is no coil. -/
theorem CoilsEnd.isCoil_false (h : CoilsEnd s) (hrung : rung ∈ s.graph.rungs)
    (hid : elementId ∈ rung.elementIds) (hother : (s.graph.findCoilOnRung rung).any (·.id == elementId) = false) :
    s.graph.isCoil elementId = false := by
  by_contra hcoil
  rw [Bool.not_eq_false] at hcoil
  obtain ⟨coil, hfound⟩ := (h.sound.findCoilOnRung rung).1 ⟨elementId, hid, hcoil⟩
  obtain ⟨hcoilId, hkind, hnode⟩ := LdGraph.findCoilOnRung_some hfound
  have hlast := (h.last rung hrung).getLast? hid hcoil
  rw [(h.last rung hrung).getLast? hcoilId ((h.sound.isCoil hnode).trans hkind), Option.some.injEq] at hlast
  rw [hfound] at hother
  have hne : (coil.id == elementId) = false := hother
  rw [hlast, beq_self_eq_true] at hne
  cases hne

theorem CoilsEnd.reorderElement (h : CoilsEnd s) {insertIndex : Int}
    (hcall : s.reorderElement elementId insertIndex = .ok s') : s'.graph.CoilsLast := by
  have hsound := h.sound.reorderElement hcall
  obtain ⟨rung, hrung, hid, hother, rfl⟩ := Session.reorderElement_ok hcall
  have hsame : ∀ r ∈ s.graph.rungs, ∀ id ∈ r.elementIds, s.graph.isCoil id = (s.withOrder rung
      (Session.reordered rung.elementIds elementId insertIndex)).graph.isCoil id := by
    intro r hr id hmem
    symm
    apply h.sound.isCoil_eq hsound (h.sound.owned.node_of_member hr (mem_append_left _ hmem))
    intro node hnode _
    rw [Session.withOrder_nodes]
    exact hnode
  intro r hr
  rw [Session.withOrder_rungs] at hr
  rcases mem_updateFirst hr with hr | ⟨_, _, _, rfl⟩
  · exact (h.last r hr).congr (hsame r hr)
  · have hrow := onlyLast_reordered (h.last rung hrung) hid (h.isCoil_false hrung hid hother) insertIndex
    apply hrow.congr
    intro id hmem
    exact hsame rung hrung id ((Sound.reordered_perm hid insertIndex).subset hmem)

/-! ### All edits -/

/-- **A step** keeps the coils last exactly if it puts nothing behind a coil. -/
theorem CoilsEnd.step_iff (h : CoilsEnd s) {op : Operation} (hop : op.isRungEdit = true) :
    (s.step op).graph.CoilsLast ↔ KeepsCoilLast s op := by
  have hstep := h.sound.step (h.keepsMembers op)
  cases op with
  | addContact position insertIndex contactType rungId => exact h.addContact_iff position insertIndex contactType rungId
  | addCoil coilType rungId => exact h.addCoil_iff coilType rungId
  | addFb position insertIndex fbType rungId => exact h.addFb_iff position insertIndex fbType rungId
  | pasteElements elementIds rungId insertIndex => exact h.pasteElements_iff elementIds rungId insertIndex
  | addRung =>
    refine iff_of_true (h.last_of_rungs hstep ?_ (Or.inr (addRung_shape s).1)) trivial
    intro r' hr'
    -- a new rung is empty
    rcases (addRung_shape s).2 r' hr' with hr' | ⟨hnil, _⟩
    · exact Or.inr ⟨r', hr', rfl⟩
    · exact Or.inl hnil
  | reorderElement elementId insertIndex =>
    refine iff_of_true ?_ trivial
    apply Session.step_induction (P := fun s' => s'.graph.CoilsLast) h.last
    exact fun s' hcall => h.reorderElement hcall
  | moveRung rungId newIndex =>
    refine iff_of_true ?_ trivial
    have hgoal : Sound (s.step (.moveRung rungId newIndex)) ∧ (s.step (.moveRung rungId newIndex)).graph.CoilsLast := by
      apply Session.step_induction (P := fun s' => Sound s' ∧ s'.graph.CoilsLast) ⟨h.sound, h.last⟩
      intro s' hcall
      have hsound := h.sound.moveRung hcall
      refine ⟨hsound, ?_⟩
      rcases Sound.moveRung_ok hcall with rfl | ⟨rungs, hperm, rfl⟩
      · exact h.last
      -- a moved rung has the elements it had
      · refine h.last_of_rungs hsound ?_ (Or.inl fun _ hnode => hnode)
        intro r' hr'
        obtain ⟨r, hr, k, rfl⟩ := mem_renumbered hr'
        exact Or.inr ⟨r, hperm.subset hr, rfl⟩
    exact hgoal.2
  | deleteRung rungId =>
    refine iff_of_true ?_ trivial
    by_cases hcall : ∃ s', s.deleteRung rungId = .ok s'
    · obtain ⟨s', hcall⟩ := hcall
      have heq : s.step (.deleteRung rungId) = s' := Session.step_of_ok hcall
      rw [heq] at hstep ⊢
      obtain ⟨rung, _, _, rfl⟩ := Session.deleteRung_ok.1 hcall
      refine h.last_of_rungs hstep ?_ (Or.inl fun _ hnode => (mem_filter.1 hnode).1)
      intro r' hr'
      -- the rungs that stay have theirs
      obtain ⟨r, hr, helements, _⟩ := withoutRung_rungs hr'
      exact Or.inr ⟨r, hr, helements⟩
    · have heq : s.step (.deleteRung rungId) = s := Session.step_of_throw fun s' hok => hcall ⟨s', hok⟩
      rw [heq]
      exact h.last
  | _ => cases hop

theorem CoilsEnd.start (n : Nat) : CoilsEnd ⟨n, createLdGraph⟩ where
  toInSeries := .start n
  last _ hrung := absurd hrung not_mem_nil

/-- **The rules of rungs.** While rungs are edited from the start on, every rung has at most one coil, as its last
element, exactly if no step puts anything behind a coil. -/
theorem rungRules_iff (n : Nat) (ops : List { op : Operation // op.isRungEdit = true }) :
    Always (fun s op => Session.step s op.1) (fun s => RungRules s.graph) ⟨n, createLdGraph⟩ ops ↔
      EveryStep (fun s op => Session.step s op.1) (fun s op => KeepsCoilLast s op.1) ⟨n, createLdGraph⟩ ops := by
  apply always_iff (I := CoilsEnd) _ _ _ (.start n) ops
  · exact fun s h => h.sound.rungRules.2 h.last
  · exact fun s op h hkeeps => ⟨h.toInSeries.step op.2, (h.step_iff op.2).2 hkeeps⟩
  · exact fun s op h hrules => (h.step_iff op.2).1 ((h.sound.step (h.keepsMembers op.1)).rungRules.1 hrules)

end

end Audesys.LdEditor

namespace Audesys.LdEditor

open Audesys.Lib Audesys.Editor

local instance coilSuffix : Entropy := ⟨fun _ => "x4k9q"⟩

/-- A contact, a coil, and a contact without a place. -/
def contactBehindCoil : List { op : Operation // op.isRungEdit = true } :=
  [⟨.addRung, rfl⟩, ⟨.addContact none none .no "rung-1-x4k9q", rfl⟩, ⟨.addCoil .normal "rung-1-x4k9q", rfl⟩,
    ⟨.addContact none none .no "rung-1-x4k9q", rfl⟩]

theorem rungRules_fail : ¬ ∀ ops : List { op : Operation // op.isRungEdit = true },
    Always (fun s op => Session.step s op.1) (fun s => RungRules s.graph) ⟨0, createLdGraph⟩ ops := by
  intro h
  have hlast := h contactBehindCoil contactBehindCoil (prefix_refl _)
  exact absurd hlast (by decide +kernel)

end Audesys.LdEditor
