import Audesys.Lib.Edits

/-!
# `Editor.Ids` — the ids of the elements of a diagram

Both editors number their elements with a counter that is global to the session. The ladder editor adds a random
suffix, the function block editor does not.
-/

open List

namespace Audesys.Editor

variable {n m : Nat}

/-- The prefix of an id and its number: `generateId` of the function block editor. -/
def numberedId (kind : String) (n : Nat) : String := kind ++ "-" ++ toString n

/-- A prefix that the editors use. -/
def Plain (kind : String) : Prop := '-' ∉ kind.toList

instance (kind : String) : Decidable (Plain kind) := inferInstanceAs (Decidable (_ ∉ _))

/-- Two texts are cut at the first of a character. -/
theorem append_cons_inj {c : Char} {xs ys s t : List Char} (hx : c ∉ xs) (hy : c ∉ ys) (h : xs ++ c :: s = ys ++ c :: t) :
    xs = ys ∧ s = t := by
  induction xs generalizing ys with
  | nil =>
    cases ys with
    | nil => exact ⟨rfl, (List.cons.inj h).2⟩
    | cons y ys =>
      have hchar := (List.cons.inj h).1
      rw [← hchar] at hy
      exact absurd (mem_cons_self ..) hy
  | cons x xs ih =>
    cases ys with
    | nil =>
      have hchar := (List.cons.inj h).1
      rw [hchar] at hx
      exact absurd (mem_cons_self ..) hx
    | cons y ys =>
      obtain ⟨rfl, htail⟩ := List.cons.inj h
      obtain ⟨rfl, hs⟩ := ih (not_mem_of_not_mem_cons hx) (not_mem_of_not_mem_cons hy) htail
      exact ⟨rfl, hs⟩

/-- Two texts are cut at the last of a character. -/
theorem append_cons_inj_last {c : Char} {xs ys s t : List Char} (hs : c ∉ s) (ht : c ∉ t)
    (h : xs ++ c :: s = ys ++ c :: t) : xs = ys ∧ s = t := by
  have hreverse := congrArg List.reverse h
  rw [reverse_append, reverse_append, reverse_cons, reverse_cons, List.append_assoc,
    List.append_assoc, singleton_append, singleton_append] at hreverse
  obtain ⟨hst, hxy⟩ := append_cons_inj (fun hmem => hs (mem_reverse.1 hmem))
    (fun hmem => ht (mem_reverse.1 hmem)) hreverse
  exact ⟨reverse_injective hxy, reverse_injective hst⟩

theorem isDigit_of_mem_toString {n : Nat} {c : Char} (h : c ∈ (toString n).toList) : c.isDigit = true := by
  apply Nat.isDigit_of_mem_toDigits (b := 10) (by decide) (by decide)
  have hrepr : (toString n).toList = Nat.toDigits 10 n := Nat.toList_repr
  rw [← hrepr]
  exact h

theorem dash_not_mem_toString (n : Nat) : '-' ∉ (toString n).toList := by
  intro h
  exact absurd (isDigit_of_mem_toString h) (by decide)

theorem toString_injective (h : (toString n).toList = (toString m).toList) : n = m := by
  have hn : (toString n).toList = Nat.toDigits 10 n := Nat.toList_repr
  have hm : (toString m).toList = Nat.toDigits 10 m := Nat.toList_repr
  rw [hn, hm] at h
  have hvalue := congrArg (fun digits => Nat.ofDigitChars 10 digits 0) h
  simpa using hvalue

theorem numberedId_toList (kind : String) (n : Nat) :
    (numberedId kind n).toList = kind.toList ++ '-' :: (toString n).toList := by
  unfold numberedId
  rw [String.toList_append, String.toList_append, List.append_assoc]
  rfl

/-- **Ids tell** their prefix and their number. -/
theorem numberedId_inj {kind kind' : String} (h : Plain kind) (h' : Plain kind')
    (heq : numberedId kind n = numberedId kind' m) : kind = kind' ∧ n = m := by
  have hlist := congrArg String.toList heq
  rw [numberedId_toList, numberedId_toList] at hlist
  obtain ⟨hkind, hnumber⟩ := append_cons_inj h h' hlist
  exact ⟨String.toList_injective hkind, toString_injective hnumber⟩

/-! ## Random suffixes -/

/-- What `Math.random().toString(36).slice(2, 7)` gives on the `n`-th call of a session. -/
class Entropy where
  suffix : Nat → String

/-- `generateId` of the ladder editor. -/
def suffixedId [Entropy] (kind : String) (n : Nat) : String := numberedId kind n ++ "-" ++ Entropy.suffix n

/-- A suffix does not hide the number. -/
theorem suffixedId_inj [Entropy] {kind kind' : String} (h : Plain kind) (h' : Plain kind')
    (heq : suffixedId kind n = suffixedId kind' m) : kind = kind' ∧ n = m := by
  have hlist := congrArg String.toList heq
  unfold suffixedId at hlist
  rw [String.toList_append, String.toList_append, String.toList_append, String.toList_append, numberedId_toList,
    numberedId_toList, List.append_assoc, List.append_assoc, List.append_assoc, List.append_assoc, cons_append,
    cons_append] at hlist
  obtain ⟨hkind, hrest⟩ := append_cons_inj h h' hlist
  obtain ⟨hnumber, _⟩ := append_cons_inj (dash_not_mem_toString n) (dash_not_mem_toString m) hrest
  exact ⟨String.toList_injective hkind, toString_injective hnumber⟩

/-- An id that was generated when the counter stood at `n`, or before. -/
def Issued [Entropy] (n : Nat) (id : String) : Prop := ∃ kind k, Plain kind ∧ k ≤ n ∧ id = suffixedId kind k

/-- An id that is generated while the counter goes from `n` to `m`. -/
def IssuedBetween [Entropy] (n m : Nat) (id : String) : Prop :=
  ∃ kind k, Plain kind ∧ n < k ∧ k ≤ m ∧ id = suffixedId kind k

theorem Issued.mono [Entropy] {id : String} (h : Issued n id) (hnm : n ≤ m) : Issued m id := by
  obtain ⟨kind, k, hkind, hk, hid⟩ := h
  exact ⟨kind, k, hkind, Nat.le_trans hk hnm, hid⟩

theorem IssuedBetween.issued [Entropy] {id : String} (h : IssuedBetween n m id) : Issued m id := by
  obtain ⟨kind, k, hkind, _, hk, hid⟩ := h
  exact ⟨kind, k, hkind, hk, hid⟩

/-- A new id is none of the old ones. -/
theorem IssuedBetween.not_issued [Entropy] {id : String} (h : IssuedBetween n m id) : ¬ Issued n id := by
  rintro ⟨kind', k', hkind', hk', hid'⟩
  obtain ⟨kind, k, hkind, hk, _, hid⟩ := h
  have hnumber := (suffixedId_inj hkind hkind' (hid.symm.trans hid')).2
  omega

theorem issuedBetween_suffixedId [Entropy] {kind : String} (hkind : Plain kind) {n m k : Nat} (hn : n < k) (hm : k ≤ m) :
    IssuedBetween n m (suffixedId kind k) := ⟨kind, k, hkind, hn, hm, rfl⟩

end Audesys.Editor
