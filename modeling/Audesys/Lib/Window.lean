import Mathlib.Data.List.Basic

/-!
# `Lib.Window` — overwriting a stretch of a list

`window l lo n` is the stretch of length `n` at position `lo`, and `overwrite l lo w` puts `w` there. Reading
back a stretch that was written gives what was written; a disjoint stretch is unchanged.
-/

open List

namespace Audesys.Lib

variable {α : Type}

def window (l : List α) (lo n : Nat) : List α := (l.drop lo).take n

def overwrite (l : List α) (lo : Nat) (w : List α) : List α := l.take lo ++ w ++ l.drop (lo + w.length)

variable {l w : List α} {lo n : Nat}

theorem length_window (h : lo + n ≤ l.length) : (window l lo n).length = n := by
  rw [window, length_take, length_drop]
  omega

theorem length_overwrite (h : lo + w.length ≤ l.length) : (overwrite l lo w).length = l.length := by
  simp only [overwrite, length_append, length_take, length_drop]
  omega

theorem window_overwrite_self (h : lo ≤ l.length) : window (overwrite l lo w) lo w.length = w := by
  have hlen : (l.take lo).length = lo := length_take_of_le h
  rw [window, overwrite, List.append_assoc, drop_left' hlen, take_left]

/-- A stretch that ends before the written one, or starts behind it, is as it was. -/
theorem window_overwrite_other {lo' : Nat} (h : lo + w.length ≤ l.length)
    (hd : lo' + n ≤ lo ∨ lo + w.length ≤ lo') : window (overwrite l lo w) lo' n = window l lo' n := by
  have hlen : (l.take lo).length = lo := length_take_of_le (by omega)
  rcases hd with hbefore | hbehind
  · -- both stretches lie in the part in front of `lo`
    have hfront : ∀ m : List α, window (l.take lo ++ m) lo' n = window (l.take lo) lo' n := by
      intro m
      rw [window, window, drop_append_of_le_length (by omega), take_append_of_le_length]
      rw [length_drop]
      omega
    rw [overwrite, List.append_assoc, hfront]
    conv_rhs => rw [← take_append_drop lo l]
    rw [hfront]
  · have hhead : (l.take lo ++ w).length = lo + w.length := by rw [length_append, hlen]
    obtain ⟨k, rfl⟩ := Nat.exists_eq_add_of_le hbehind
    have hdrop : ∀ m : List α, m.drop (lo + w.length + k) = (m.drop (lo + w.length)).drop k :=
      fun m => drop_drop.symm
    rw [window, window, overwrite, hdrop, hdrop, drop_left' hhead]

/-- Writing what is there already changes nothing. -/
theorem overwrite_window (h : lo + n ≤ l.length) : overwrite l lo (window l lo n) = l := by
  have hdrop : l.drop (lo + n) = (l.drop lo).drop n := drop_drop.symm
  rw [overwrite, length_window h, window, List.append_assoc, hdrop, take_append_drop, take_append_drop]

end Audesys.Lib
