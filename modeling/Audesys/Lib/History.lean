import Mathlib.Data.List.Basic

/-!
# `Lib.History` — a bounded history of states with undo and redo

A past stack and a future stack around a current state. A new state goes on top of the past and clears the future; at
most `limit` states are kept, so the oldest ones of the past fall off.
-/

open List

namespace Audesys.Lib

variable {G : Type}

/-- The past with its latest state in front, the current state, and the future with the next state in front. -/
structure History (G : Type) where
  past : List G
  current : G
  future : List G

namespace History

def start (g : G) : History G := ⟨[], g, []⟩

/-- A new state. Of the past as many states stay as fit. -/
def apply (limit : Nat) (h : History G) (g : G) : History G := ⟨(h.current :: h.past).take (limit - 1), g, []⟩

def undo (h : History G) : Option (History G) :=
  match h.past with
  | [] => none
  | g :: past => some ⟨past, g, h.current :: h.future⟩

def redo (h : History G) : Option (History G) :=
  match h.future with
  | [] => none
  | g :: future => some ⟨h.current :: h.past, g, future⟩

/-- All states that are kept, oldest first. -/
def timeline (h : History G) : List G := h.past.reverse ++ h.current :: h.future

theorem length_timeline (h : History G) : h.timeline.length = h.past.length + 1 + h.future.length := by
  unfold timeline
  rw [length_append, length_reverse, length_cons]
  omega

theorem getElem?_timeline (h : History G) : h.timeline[h.past.length]? = some h.current := by
  unfold timeline
  rw [getElem?_append_right (Nat.le_of_eq length_reverse), length_reverse, Nat.sub_self]
  rfl

/-- The states up to the current one. -/
theorem take_timeline (h : History G) : h.timeline.take (h.past.length + 1) = h.past.reverse ++ [h.current] := by
  unfold timeline
  rw [take_append, length_reverse, Nat.add_sub_cancel_left, take_of_length_le]
  · rfl
  · rw [length_reverse]
    omega

/-! ## One step back and forth -/

theorem undo_eq_none_iff (h : History G) : h.undo = none ↔ h.past = [] := by
  unfold undo
  cases h.past with
  | nil => exact ⟨fun _ => rfl, fun _ => rfl⟩
  | cons g past =>
    constructor
    · intro hnone
      cases hnone
    · intro hnil
      cases hnil

theorem redo_eq_none_iff (h : History G) : h.redo = none ↔ h.future = [] := by
  unfold redo
  cases h.future with
  | nil => exact ⟨fun _ => rfl, fun _ => rfl⟩
  | cons g future =>
    constructor
    · intro hnone
      cases hnone
    · intro hnil
      cases hnil

/-- A step back keeps the timeline. -/
theorem timeline_undo {h h' : History G} (hundo : h.undo = some h') :
    h'.timeline = h.timeline ∧ h'.past.length + 1 = h.past.length := by
  unfold undo at hundo
  cases hpast : h.past with
  | nil =>
    rw [hpast] at hundo
    cases hundo
  | cons g past =>
    rw [hpast] at hundo
    cases hundo
    unfold timeline
    rw [hpast, reverse_cons, List.append_assoc]
    exact ⟨rfl, rfl⟩

/-- A step forth keeps the timeline. -/
theorem timeline_redo {h h' : History G} (hredo : h.redo = some h') :
    h'.timeline = h.timeline ∧ h'.past.length = h.past.length + 1 := by
  unfold redo at hredo
  cases hfuture : h.future with
  | nil =>
    rw [hfuture] at hredo
    cases hredo
  | cons g future =>
    rw [hfuture] at hredo
    cases hredo
    unfold timeline
    rw [hfuture, reverse_cons, List.append_assoc]
    exact ⟨rfl, rfl⟩

/-- **Undo and redo** take each other back. -/
theorem redo_of_undo {h h' : History G} (hundo : h.undo = some h') : h'.redo = some h := by
  unfold undo at hundo
  cases hpast : h.past with
  | nil =>
    rw [hpast] at hundo
    cases hundo
  | cons g past =>
    rw [hpast] at hundo
    cases hundo
    unfold redo
    rw [← hpast]

/-! ## The bound -/

/-- A new state is the last one of the timeline, which keeps its end. -/
theorem timeline_apply (limit : Nat) (h : History G) (g : G) :
    (h.apply limit g).timeline =
      (h.timeline.take (h.past.length + 1)).drop (h.past.length + 1 - (limit - 1)) ++ [g] := by
  rw [take_timeline, ← reverse_cons]
  unfold timeline apply
  dsimp only
  rw [reverse_take, length_cons]

theorem length_apply {limit : Nat} (hlimit : 0 < limit) (h : History G) (g : G) :
    (h.apply limit g).timeline.length ≤ limit := by
  rw [length_timeline]
  unfold apply
  dsimp only
  rw [length_take, length_nil]
  omega

end History

end Audesys.Lib
