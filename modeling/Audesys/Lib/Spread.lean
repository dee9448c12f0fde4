import Mathlib.Data.List.Basic

/-!
# `Lib.Spread` — histories without bursts

A history is the list of the times at which something happened, newest first. It is *spread* if any `k + 1`
events in a row take at least `w` together; then no interval shorter than `w` holds more than `k` of them
(`Spread.length_filter_le`). What is checked when an event is added is its distance from the event `k` places
before it (`Spread.cons`).
-/

open List

namespace Audesys.Lib

/-- The newest event comes first. -/
def Descending (ts : List Nat) : Prop := ts.Pairwise (fun x y => y ≤ x)

/-- An event and the `k`-th event before it are at least `w` apart. -/
def Spread (k w : Nat) (ts : List Nat) : Prop :=
  ∀ i x y, ts[i]? = some x → ts[i + k]? = some y → y + w ≤ x

/-- What stands further back is older. -/
theorem Descending.le {ts : List Nat} (h : Descending ts) {i j x y : Nat} (hij : i ≤ j) (hx : ts[i]? = some x)
    (hy : ts[j]? = some y) : y ≤ x := by
  by_cases hne : i = j
  · rw [hne, hy] at hx
    exact Nat.le_of_eq (Option.some.inj hx)
  · obtain ⟨hi, rfl⟩ := List.getElem?_eq_some_iff.1 hx
    obtain ⟨hj, rfl⟩ := List.getElem?_eq_some_iff.1 hy
    exact pairwise_iff_getElem.1 h i j hi hj (by omega)

/-- At each place, a history is no older than a history it contains. -/
theorem Descending.le_of_sublist {l ts : List Nat} (hs : l.Sublist ts) (hd : Descending ts) {i y : Nat}
    (hy : l[i]? = some y) : ∃ x, ts[i]? = some x ∧ y ≤ x := by
  induction hs generalizing i with
  | slnil => simp at hy
  | @cons l ts a hs ih =>
    have above := (pairwise_cons.1 hd).1
    have rest : Descending ts := (pairwise_cons.1 hd).2
    obtain ⟨x, hx, hyx⟩ := ih rest hy
    cases i with
    | zero => exact ⟨a, rfl, Nat.le_trans hyx (above x (mem_of_getElem? hx))⟩
    | succ i =>
      have hi : i < ts.length := by
        obtain ⟨hi, _⟩ := List.getElem?_eq_some_iff.1 hx
        omega
      have hp : ts[i]? = some ts[i] := getElem?_eq_getElem hi
      exact ⟨ts[i], hp, Nat.le_trans hyx (rest.le (Nat.le_succ i) hp hx)⟩
  | @cons_cons l ts a hs ih =>
    cases i with
    | zero =>
      rw [getElem?_cons_zero, Option.some.injEq] at hy
      exact ⟨a, rfl, Nat.le_of_eq hy.symm⟩
    | succ i => exact ih (pairwise_cons.1 hd).2 hy

namespace Spread

variable {k w : Nat} {ts : List Nat}

theorem nil : Spread k w [] := by
  intro i x y hx
  simp at hx

theorem cons {t : Nat} (h : Spread k w ts) (ht : ∀ y, (t :: ts)[k]? = some y → y + w ≤ t) :
    Spread k w (t :: ts) := by
  intro i x y hx hy
  cases i with
  | zero =>
    cases hx
    exact ht y (by simpa using hy)
  | succ i =>
    rw [Nat.add_right_comm] at hy
    exact h i x y hx hy

theorem tail {t : Nat} (h : Spread k w (t :: ts)) : Spread k w ts := by
  intro i x y hx hy
  refine h (i + 1) x y hx ?_
  rw [Nat.add_right_comm]
  exact hy

/-- Part of a spread history is spread: between events that stay there are no more of them than before. -/
theorem sublist {l : List Nat} (hs : l.Sublist ts) (hd : Descending ts) (h : Spread k w ts) : Spread k w l := by
  induction hs with
  | slnil => exact h
  | cons a hs ih => exact ih (pairwise_cons.1 hd).2 h.tail
  | @cons_cons l ts a hs ih =>
    refine (ih (pairwise_cons.1 hd).2 h.tail).cons ?_
    intro y hy
    obtain ⟨x, hx, hyx⟩ := hd.le_of_sublist (hs.cons_cons a) hy
    have far : x + w ≤ a := h 0 a x rfl (by simpa using hx)
    omega

/-- **An interval shorter than `w` holds at most `k` events.** -/
theorem length_filter_le (hd : Descending ts) (h : Spread k w ts) {a b : Nat} (hab : b < a + w) :
    (ts.filter (fun t => decide (a ≤ t ∧ t ≤ b))).length ≤ k := by
  by_contra hk
  have inside : ∀ t ∈ ts.filter (fun t => decide (a ≤ t ∧ t ≤ b)), a ≤ t ∧ t ≤ b := by
    intro t ht
    simpa using (mem_filter.1 ht).2
  have spread : Spread k w (ts.filter (fun t => decide (a ≤ t ∧ t ≤ b))) := sublist filter_sublist hd h
  generalize ts.filter (fun t => decide (a ≤ t ∧ t ≤ b)) = l at hk inside spread
  have hfirst : 0 < l.length := by omega
  have hlast : k < l.length := by omega
  have first : l[0]? = some l[0] := getElem?_eq_getElem hfirst
  have last : l[0 + k]? = some l[k] := by
    rw [Nat.zero_add]
    exact getElem?_eq_getElem hlast
  have far := spread 0 _ _ first last
  have newest := inside _ (getElem_mem hfirst)
  have oldest := inside _ (getElem_mem hlast)
  omega

end Spread

end Audesys.Lib
