import Audesys.LdEditor.Coils

/-!
# `LdEditor.Reorder` — the slot of a moved element

`reorderElement` takes an element out of its rung and puts it back in front of the element at a slot. It clamps the slot
to the row without the element, before it allows for the gap: in a rung without a coil the end of the row cannot be
reached, and an element that shall go behind the last one lands in front of it (`reorder_places_iff`).
-/

open List

namespace Audesys.LdEditor

open Audesys.Lib Audesys.Editor

/-! ## Moving in a list -/

section Lists

variable {elementIds : List String} {elementId : String}

/-- The element in front of the one at the slot, or at the end, and nowhere else. -/
def placed (elementIds : List String) (elementId : String) (slot : Nat) : List String :=
  (elementIds.take slot).filter (· != elementId) ++ elementId :: (elementIds.drop slot).filter (· != elementId)

/-- The number of the other elements in front of a slot. -/
theorem length_take_filter (hnodup : elementIds.Nodup) (hmem : elementId ∈ elementIds) {slot : Nat}
    (hslot : slot ≤ elementIds.length) :
    ((elementIds.take slot).filter (· != elementId)).length =
      if elementIds.idxOf elementId < slot then slot - 1 else slot := by
  have htake : (elementIds.take slot).length = slot := length_take_of_le hslot
  rw [← (hnodup.sublist (take_sublist ..)).erase_eq_filter]
  by_cases hlt : elementIds.idxOf elementId < slot
  · have hin : elementId ∈ elementIds.take slot := by
      have hget : elementIds[elementIds.idxOf elementId]? = some elementId := getElem?_idxOf hmem
      refine mem_of_getElem? (i := elementIds.idxOf elementId) ?_
      rw [getElem?_take, if_pos hlt, hget]
    rw [if_pos hlt, length_erase_of_mem hin, htake]
  · have hout : elementId ∉ elementIds.take slot := by
      intro hin
      obtain ⟨i, hi, hget⟩ := getElem_of_mem hin
      rw [htake] at hi
      rw [getElem_take] at hget
      have hfirst : elementIds.idxOf elementId = i := by
        rw [← hget]
        exact hnodup.idxOf_getElem i (by omega)
      omega
    rw [if_neg hlt, erase_of_not_mem hout, htake]

/-- What the operation makes of the row: it clamps the slot to the row without the element. -/
theorem reordered_eq_placed (hnodup : elementIds.Nodup) (hmem : elementId ∈ elementIds) (insertIndex : Int) :
    Session.reordered elementIds elementId insertIndex =
      placed elementIds elementId (clampSlot insertIndex (elementIds.length - 1)) := by
  have hothers : elementIds.eraseIdx (elementIds.idxOf elementId) = elementIds.filter (· != elementId) := by
    rw [← erase_eq_eraseIdx_of_idxOf rfl, hnodup.erase_eq_filter]
  have hlength : (elementIds.filter (· != elementId)).length = elementIds.length - 1 := by
    rw [← hnodup.erase_eq_filter, length_erase_of_mem hmem]
  have hslot : clampSlot insertIndex (elementIds.length - 1) ≤ elementIds.length := by
    unfold clampSlot
    omega
  have hsplit : elementIds.filter (· != elementId) =
      (elementIds.take (clampSlot insertIndex (elementIds.length - 1))).filter (· != elementId) ++
        (elementIds.drop (clampSlot insertIndex (elementIds.length - 1))).filter (· != elementId) := by
    rw [← filter_append, take_append_drop]
  unfold Session.reordered placed
  dsimp only
  rw [hothers, hlength, ← length_take_filter hnodup hmem hslot]
  unfold splice
  rw [hsplit, take_left, drop_left, singleton_append]

/-- Behind the last element is not in front of it, unless it is the last element that moves. -/
theorem placed_last_iff (hnodup : elementIds.Nodup) (hmem : elementId ∈ elementIds) :
    placed elementIds elementId (elementIds.length - 1) = placed elementIds elementId elementIds.length ↔
      elementIds.getLast? = some elementId := by
  obtain ⟨front, last, rfl⟩ := (eq_nil_or_concat' elementIds).resolve_left (ne_nil_of_mem hmem)
  have hlength : (front ++ [last]).length - 1 = front.length := by
    rw [length_append, length_singleton, Nat.add_sub_cancel]
  have hend : placed (front ++ [last]) elementId (front ++ [last]).length =
      (front ++ [last]).filter (· != elementId) ++ [elementId] := by
    unfold placed
    rw [take_length, drop_length, filter_nil]
  have hgap : placed (front ++ [last]) elementId front.length =
      front.filter (· != elementId) ++ elementId :: [last].filter (· != elementId) := by
    unfold placed
    rw [take_left, drop_left]
  rw [hlength, hend, hgap, getLast?_concat, Option.some.injEq]
  by_cases heq : last = elementId
  · subst heq
    refine iff_of_true ?_ rfl
    rw [filter_append]
    simp
  · refine iff_of_false (fun hlists => ?_) heq
    have hkept : [last].filter (· != elementId) = [last] := by simp [heq]
    rw [hkept] at hlists
    have hlast := congrArg List.getLast? hlists
    rw [append_cons, getLast?_concat, getLast?_concat] at hlast
    exact heq (Option.some.inj hlast)

end Lists

/-! ## Moving in a rung -/

/-- A rung of a graph: its elements are nodes, distinct and on no other rung, a coil among them is the last one, and no
other rung has its id. -/
structure Orderly (graph : LdGraph) (rung : Rung) : Prop where
  mem : rung ∈ graph.rungs
  ids : (graph.rungs.map (·.id)).Nodup
  distinct : rung.elementIds.Nodup
  nodes : ∀ id ∈ rung.elementIds, (graph.findNode id).isSome = true
  coilLast : ∀ id ∈ rung.elementIds, graph.isCoil id = true → rung.elementIds.getLast? = some id
  own : ∀ other ∈ graph.rungs, ∀ id ∈ rung.elementIds, id ∈ other.elementIds → other = rung

/-- The rung ends in a coil. -/
def endsInCoil (graph : LdGraph) (rung : Rung) : Bool := rung.elementIds.getLast?.any graph.isCoil

/-- The last slot for an element that is no coil: the end of the row, or the coil. -/
def lastSlot (graph : LdGraph) (rung : Rung) : Nat :=
  if endsInCoil graph rung then rung.elementIds.length - 1 else rung.elementIds.length

variable [Entropy]

/-- **The element is put into the slot**, and nothing else moves. -/
def Places (s : Session) (rung : Rung) (elementId : String) (insertIndex : Int) : Prop :=
  ∃ s', s.reorderElement elementId insertIndex = .ok s' ∧
    s'.graph.rungs = s.graph.rungs.map fun r =>
      if r.id = rung.id then
        { rung with elementIds := placed rung.elementIds elementId (clampSlot insertIndex (lastSlot s.graph rung)) }
      else r

section Rungs

variable {s : Session} {rung : Rung} {elementId : String}

/-- The operation finds the rung. -/
theorem reorderElement_eq (h : Orderly s.graph rung) (hmem : elementId ∈ rung.elementIds)
    (hcoil : s.graph.isCoil elementId = false) (insertIndex : Int) :
    s.reorderElement elementId insertIndex =
      .ok (s.withOrder rung (Session.reordered rung.elementIds elementId insertIndex)) := by
  have hfind : s.graph.rungs.find? (·.elementIds.contains elementId) = some rung := by
    cases hfind : s.graph.rungs.find? (·.elementIds.contains elementId) with
    | none => exact absurd (contains_iff_mem.2 hmem) (by simpa using find?_eq_none.1 hfind rung h.mem)
    | some found =>
      have hfound := find?_some (p := fun r : Rung => r.elementIds.contains elementId) hfind
      have hin := contains_iff_mem.1 hfound
      exact congrArg some (h.own found (mem_of_find?_eq_some hfind) elementId hmem hin)
  have hnode : ¬ (s.graph.findNode elementId).isNone = true := by
    rw [Option.isNone_iff_eq_none]
    intro hnone
    have hsome := h.nodes elementId hmem
    rw [hnone] at hsome
    cases hsome
  -- the coil of the rung is another element
  have hother : ¬ (s.graph.findCoilOnRung rung).any (·.id == elementId) = true := by
    intro hany
    obtain ⟨coil, hfound, hid⟩ := (Option.any_eq_true ..).1 hany
    obtain ⟨elemId, -, hfilter⟩ := exists_of_findSome?_eq_some hfound
    obtain ⟨hnode, hkind⟩ := Option.filter_eq_some_iff.1 hfilter
    have helem : elemId = elementId := (LdGraph.findNode_id hnode).1.symm.trans (beq_iff_eq.1 hid)
    have hcoil' : s.graph.isCoil elementId = true := by
      unfold LdGraph.isCoil
      rw [← helem, hnode]
      exact hkind
    rw [hcoil] at hcoil'
    cases hcoil'
  unfold Session.reorderElement
  rw [hfind]
  dsimp only
  rw [if_neg hnode, if_neg hother]

/-- It is the row of the rung that counts. -/
theorem places_iff_reordered (h : Orderly s.graph rung) (hmem : elementId ∈ rung.elementIds)
    (hcoil : s.graph.isCoil elementId = false) (insertIndex : Int) :
    Places s rung elementId insertIndex ↔
      Session.reordered rung.elementIds elementId insertIndex =
        placed rung.elementIds elementId (clampSlot insertIndex (lastSlot s.graph rung)) := by
  have hrungs : (s.withOrder rung (Session.reordered rung.elementIds elementId insertIndex)).graph.rungs =
      s.graph.rungs.map fun r =>
        if r.id = rung.id then
          { rung with elementIds := Session.reordered rung.elementIds elementId insertIndex }
        else r := by
    rw [Session.withOrder_rungs]
    exact (map_ite_eq_updateFirst h.ids).symm
  unfold Places
  rw [reorderElement_eq h hmem hcoil]
  constructor
  · rintro ⟨s', hs', hplaced⟩
    cases hs'
    rw [hrungs] at hplaced
    have hrung := map_inj_left.1 hplaced rung h.mem
    rw [if_pos rfl, if_pos rfl] at hrung
    exact congrArg Rung.elementIds hrung
  · intro heq
    refine ⟨_, rfl, ?_⟩
    rw [hrungs, heq]

end Rungs

/-- **A moved element lands in its slot** exactly if the rung ends in a coil, or the slot is not the end of the row, or
the element is there already. -/
theorem reorder_places_iff (s : Session) (rung : Rung) (elementId : String) (insertIndex : Int)
    (h : Orderly s.graph rung) (hmem : elementId ∈ rung.elementIds) (hcoil : s.graph.isCoil elementId = false) :
    Places s rung elementId insertIndex ↔
      endsInCoil s.graph rung = true ∨ insertIndex < rung.elementIds.length ∨
        rung.elementIds.getLast? = some elementId := by
  have hpos : 0 < rung.elementIds.length := length_pos_of_mem hmem
  rw [places_iff_reordered h hmem hcoil, reordered_eq_placed h.distinct hmem]
  unfold lastSlot
  by_cases hends : endsInCoil s.graph rung = true
  · rw [if_pos hends]
    exact iff_of_true rfl (.inl hends)
  · rw [if_neg hends, or_iff_right hends]
    by_cases hin : insertIndex < rung.elementIds.length
    · -- both clamps leave the slot as it is
      have hsame : clampSlot insertIndex (rung.elementIds.length - 1) =
          clampSlot insertIndex rung.elementIds.length := by
        unfold clampSlot
        omega
      rw [hsame]
      exact iff_of_true rfl (.inl hin)
    · have hfront : clampSlot insertIndex (rung.elementIds.length - 1) = rung.elementIds.length - 1 := by
        unfold clampSlot
        omega
      have hend : clampSlot insertIndex rung.elementIds.length = rung.elementIds.length := by
        unfold clampSlot
        omega
      rw [hfront, hend, or_iff_right hin]
      exact placed_last_iff h.distinct hmem

end Audesys.LdEditor

/-! ## A rung of two contacts -/

namespace Audesys.LdEditor

open Audesys.Editor

local instance slotSuffix : Entropy := ⟨fun _ => "x4k9q"⟩

def doorOpen : BaseNode := createContact "open" .no "IN0" ⟨40, 40⟩

def doorLocked : BaseNode := createContact "locked" .no "IN1" ⟨80, 40⟩

def doorRung : Rung := ⟨"rung", 1, none, none, ["open", "locked"], []⟩

def doorSession : Session := ⟨0, ⟨[doorOpen, doorLocked], [], [doorRung]⟩⟩

theorem doorRung_orderly : Orderly doorSession.graph doorRung where
  mem := by decide
  ids := by decide
  distinct := by decide
  nodes := by decide
  coilLast := by decide
  own other hother _ _ _ := mem_singleton.1 hother

/-- To the end of the row: the contact stays where it is. -/
theorem door_not_placed :
    Orderly doorSession.graph doorRung ∧ doorSession.graph.isCoil "open" = false ∧
      Session.reordered doorRung.elementIds "open" 2 = ["open", "locked"] ∧
      placed doorRung.elementIds "open" 2 = ["locked", "open"] ∧ ¬ Places doorSession doorRung "open" 2 := by
  refine ⟨doorRung_orderly, by decide, by decide, by decide, ?_⟩
  rw [places_iff_reordered doorRung_orderly (by decide) (by decide)]
  decide

/-- To its front. -/
theorem door_placed : Places doorSession doorRung "locked" 0 :=
  (reorder_places_iff doorSession doorRung "locked" 0 doorRung_orderly (by decide) (by decide)).2
    (.inr (.inl (by decide)))

end Audesys.LdEditor
