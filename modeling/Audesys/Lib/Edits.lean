import Mathlib.Data.List.Basic
import Mathlib.Data.List.Nodup

/-!
# `Lib.Edits` — runs of a total step function

A run is the list of what is done, and the states it goes through are those behind its prefixes. `always_iff` is the
rule for a property that a step keeps under a condition on the step and breaks without it.
-/

open List

namespace Audesys.Lib

variable {S A : Type} {step : S → A → S}
variable {C : S → A → Prop} {s : S}
variable {as : List A}

/-- `P` holds in every state of the run. -/
def Always (step : S → A → S) (P : S → Prop) (s : S) (as : List A) : Prop := ∀ pre, pre <+: as → P (pre.foldl step s)

/-- Every step of the run is taken where `C` allows it. -/
def EveryStep (step : S → A → S) (C : S → A → Prop) (s : S) (as : List A) : Prop :=
  ∀ pre a, pre ++ [a] <+: as → C (pre.foldl step s) a

theorem always_nil {P : S → Prop} : Always step P s [] ↔ P s := by
  constructor
  · exact fun h => h [] (prefix_refl [])
  · intro h pre hpre
    rw [prefix_nil.1 hpre]
    exact h

theorem always_cons {P : S → Prop} {a : A} : Always step P s (a :: as) ↔ P s ∧ Always step P (step s a) as := by
  constructor
  · intro h
    refine ⟨h [] nil_prefix, ?_⟩
    intro pre hpre
    exact h (a :: pre) (cons_prefix_cons.2 ⟨rfl, hpre⟩)
  · rintro ⟨hs, hrest⟩ pre hpre
    cases pre with
    | nil => exact hs
    | cons b pre =>
      obtain ⟨rfl, htail⟩ := cons_prefix_cons.1 hpre
      exact hrest pre htail

theorem everyStep_cons {a : A} : EveryStep step C s (a :: as) ↔ C s a ∧ EveryStep step C (step s a) as := by
  constructor
  · intro h
    refine ⟨h [] a (cons_prefix_cons.2 ⟨rfl, nil_prefix⟩), ?_⟩
    intro pre b hpre
    exact h (a :: pre) b (cons_prefix_cons.2 ⟨rfl, hpre⟩)
  · rintro ⟨hs, hrest⟩ pre b hpre
    cases pre with
    | nil =>
      obtain ⟨rfl, _⟩ := cons_prefix_cons.1 hpre
      exact hs
    | cons c pre =>
      obtain ⟨rfl, htail⟩ := cons_prefix_cons.1 hpre
      exact hrest pre b htail

theorem everyStep_nil : EveryStep step C s [] := by
  intro pre a hpre
  have hnil := prefix_nil.1 hpre
  exact absurd hnil (append_ne_nil_of_right_ne_nil _ (cons_ne_nil _ _))

theorem everyStep_singleton {a : A} : EveryStep step C s [a] ↔ C s a := by
  rw [everyStep_cons]
  exact and_iff_left everyStep_nil

/-- What holds at the start and is kept by every step holds always. -/
theorem Always.of_keep {I : S → Prop} (keep : ∀ s a, I s → I (step s a)) (hs : I s) (as : List A) :
    Always step I s as := by
  induction as generalizing s with
  | nil => exact always_nil.2 hs
  | cons a as ih => exact always_cons.2 ⟨hs, ih (keep s a hs)⟩

/-- **A property with a condition**, in runs whose steps are of a domain. An invariant with the property is kept by the
steps that meet the condition, and the other steps break the property: it always holds exactly where every step meets
the condition. -/
theorem always_iff_of {I P : S → Prop} {C D : S → A → Prop} (holds : ∀ s, I s → P s)
    (keep : ∀ s a, D s a → I s → C s a → I (step s a)) (broken : ∀ s a, D s a → I s → P (step s a) → C s a)
    (hs : I s) (hdomain : EveryStep step D s as) : Always step P s as ↔ EveryStep step C s as := by
  induction as generalizing s with
  | nil =>
    rw [always_nil]
    exact ⟨fun _ => everyStep_nil, fun _ => holds s hs⟩
  | cons a as ih =>
    obtain ⟨hfirst, hothers⟩ := everyStep_cons.1 hdomain
    rw [always_cons, everyStep_cons]
    constructor
    · rintro ⟨_, hrest⟩
      have hstep := broken s a hfirst hs (hrest [] nil_prefix)
      exact ⟨hstep, (ih (keep s a hfirst hs hstep) hothers).1 hrest⟩
    · rintro ⟨hstep, hrest⟩
      exact ⟨holds s hs, (ih (keep s a hfirst hs hstep) hothers).2 hrest⟩

/-- A property with a condition. -/
theorem always_iff {I P : S → Prop} (holds : ∀ s, I s → P s)
    (keep : ∀ s a, I s → C s a → I (step s a)) (broken : ∀ s a, I s → P (step s a) → C s a) (hs : I s)
    (as : List A) : Always step P s as ↔ EveryStep step C s as :=
  always_iff_of (D := fun _ _ => True) holds (fun s a _ => keep s a) (fun s a _ => broken s a) hs fun _ _ _ => trivial

/-- A run whose steps all meet the condition keeps the invariant. -/
theorem EveryStep.always {I : S → Prop} (keep : ∀ s a, I s → C s a → I (step s a))
    (hs : I s) (h : EveryStep step C s as) : Always step I s as := by
  induction as generalizing s with
  | nil => exact always_nil.2 hs
  | cons a as ih =>
    obtain ⟨hstep, hrest⟩ := everyStep_cons.1 h
    exact always_cons.2 ⟨hs, ih (keep s a hs hstep) hrest⟩

/-! ## Changing one element of a list -/

variable {α β : Type}

/-- The first element with `p` is changed by `f`. -/
def updateFirst (p : α → Bool) (f : α → α) : List α → List α
  | [] => []
  | x :: xs => if p x then f x :: xs else x :: updateFirst p f xs

/-- What the change leaves alone in each element is the same in the list. -/
theorem map_updateFirst {g : α → β} {p : α → Bool} {f : α → α} {l : List α}
    (h : ∀ x ∈ l, p x = true → g (f x) = g x) : (updateFirst p f l).map g = l.map g := by
  induction l with
  | nil => rfl
  | cons x xs ih =>
    rw [updateFirst]
    by_cases hx : p x = true
    · rw [if_pos hx, map_cons, map_cons, h x (mem_cons_self ..) hx]
    · rw [if_neg hx, map_cons, map_cons, ih fun y hy => h y (mem_cons_of_mem _ hy)]

theorem mem_updateFirst {p : α → Bool} {f : α → α} {l : List α} {y : α} (h : y ∈ updateFirst p f l) :
    y ∈ l ∨ ∃ x ∈ l, p x = true ∧ y = f x := by
  induction l with
  | nil => exact Or.inl h
  | cons x xs ih =>
    rw [updateFirst] at h
    by_cases hx : p x = true
    · rw [if_pos hx] at h
      rcases mem_cons.1 h with rfl | h
      · exact Or.inr ⟨x, mem_cons_self .., hx, rfl⟩
      · exact Or.inl (mem_cons_of_mem _ h)
    · rw [if_neg hx] at h
      rcases mem_cons.1 h with rfl | h
      · exact Or.inl (mem_cons_self ..)
      · rcases ih h with h | ⟨z, hz, hp, rfl⟩
        · exact Or.inl (mem_cons_of_mem _ h)
        · exact Or.inr ⟨z, mem_cons_of_mem _ hz, hp, rfl⟩

/-- The list around the element that is changed. -/
theorem updateFirst_split {p : α → Bool} {l : List α} {x : α} (h : l.find? p = some x) (f : α → α) :
    ∃ l₁ l₂, l = l₁ ++ x :: l₂ ∧ updateFirst p f l = l₁ ++ f x :: l₂ := by
  induction l with
  | nil => cases h
  | cons y ys ih =>
    rw [updateFirst]
    by_cases hy : p y = true
    · rw [find?_cons_of_pos hy] at h
      cases h
      exact ⟨[], ys, rfl, if_pos hy⟩
    · rw [find?_cons_of_neg hy] at h
      obtain ⟨l₁, l₂, hl, hupdate⟩ := ih h
      refine ⟨y :: l₁, l₂, ?_, ?_⟩
      · rw [hl]
        rfl
      · rw [if_neg hy, hupdate]
        rfl

theorem mem_updateFirst_self {p : α → Bool} {l : List α} {x : α} (h : l.find? p = some x) (f : α → α) :
    f x ∈ updateFirst p f l := by
  obtain ⟨l₁, l₂, _, hupdate⟩ := updateFirst_split h f
  rw [hupdate]
  exact mem_append_right _ (mem_cons_self ..)

/-- What the changed element gives beyond the old one is what the list gives beyond the old one. -/
theorem flatMap_updateFirst_perm {p : α → Bool} {l : List α} {x : α} (h : l.find? p = some x) {f : α → α}
    {g : α → List β} {extra : List β} (hx : (g (f x)).Perm (extra ++ g x)) :
    ((updateFirst p f l).flatMap g).Perm (extra ++ l.flatMap g) := by
  obtain ⟨l₁, l₂, rfl, hupdate⟩ := updateFirst_split h f
  rw [hupdate, flatMap_append, flatMap_append, flatMap_cons, flatMap_cons]
  apply ((hx.append_right _).append_left _).trans
  rw [List.append_assoc]
  exact perm_append_comm_assoc ..

/-- The list without the element that is found. -/
theorem perm_cons_eraseP {p : α → Bool} {l : List α} {x : α} (h : l.find? p = some x) : l.Perm (x :: l.eraseP p) := by
  induction l with
  | nil => cases h
  | cons y ys ih =>
    by_cases hy : p y = true
    · rw [find?_cons_of_pos hy] at h
      cases h
      rw [eraseP_cons_of_pos hy]
    · rw [find?_cons_of_neg hy] at h
      rw [eraseP_cons_of_neg hy]
      exact ((ih h).cons y).trans (List.Perm.swap ..)

/-- Where keys are distinct, the elements with a key are its first one. -/
theorem map_ite_eq_updateFirst [DecidableEq β] {key : α → β} {k : β} {f : α → α} {l : List α}
    (h : (l.map key).Nodup) : (l.map fun x => if key x = k then f x else x) = updateFirst (key · == k) f l := by
  induction l with
  | nil => rfl
  | cons x xs ih =>
    rw [map_cons, nodup_cons] at h
    rw [map_cons, updateFirst]
    by_cases hx : key x = k
    · have hrest : (xs.map fun y => if key y = k then f y else y) = xs.map id := by
        apply map_congr_left
        intro y hy
        have hne : key y ≠ k := fun hkey => h.1 (hx.trans hkey.symm ▸ mem_map_of_mem hy)
        exact if_neg hne
      rw [if_pos hx, if_pos (beq_iff_eq.2 hx), hrest, map_id]
    · rw [if_neg hx, if_neg (fun hkey => hx (beq_iff_eq.1 hkey)), ih h.2]

theorem find?_updateFirst {p : α → Bool} {f : α → α} {l : List α} (h : ∀ x, p x = true → p (f x) = true) :
    (updateFirst p f l).find? p = (l.find? p).map f := by
  induction l with
  | nil => rfl
  | cons x xs ih =>
    rw [updateFirst]
    by_cases hx : p x = true
    · rw [if_pos hx, find?_cons_of_pos (h x hx), find?_cons_of_pos hx]
      rfl
    · rw [if_neg hx, find?_cons_of_neg hx, find?_cons_of_neg hx, ih]

theorem find?_updateFirst_of_not {p q : α → Bool} {f : α → α} {l : List α}
    (h : ∀ x, p x = true → ¬ q x = true ∧ ¬ q (f x) = true) : (updateFirst p f l).find? q = l.find? q := by
  induction l with
  | nil => rfl
  | cons x xs ih =>
    rw [updateFirst]
    by_cases hx : p x = true
    · rw [if_pos hx, find?_cons_of_neg (h x hx).2, find?_cons_of_neg (h x hx).1]
    · rw [if_neg hx, find?_cons, find?_cons, ih]

/-- Changes of one element after each other. -/
theorem updateFirst_updateFirst {p : α → Bool} {f g : α → α} {l : List α} (h : ∀ x, p x = true → p (f x) = true) :
    updateFirst p g (updateFirst p f l) = updateFirst p (g ∘ f) l := by
  induction l with
  | nil => rfl
  | cons x xs ih =>
    by_cases hx : p x = true
    · rw [updateFirst, if_pos hx, updateFirst, if_pos (h x hx), updateFirst, if_pos hx]
      rfl
    · rw [updateFirst, if_neg hx, updateFirst, if_neg hx, updateFirst, if_neg hx, ih]

/-- The element that is found becomes itself. -/
theorem updateFirst_of_find? {p : α → Bool} {l : List α} {x : α} (h : l.find? p = some x) :
    updateFirst p (fun _ => x) l = l := by
  obtain ⟨l₁, l₂, hl, hupdate⟩ := updateFirst_split h fun _ => x
  rw [hupdate, hl]

/-- Where keys are distinct, an element is found by its key. -/
theorem find?_of_nodup_map [DecidableEq β] {key : α → β} {l : List α} (h : (l.map key).Nodup) {x : α} (hx : x ∈ l) :
    l.find? (key · == key x) = some x := by
  cases hfind : l.find? (key · == key x) with
  | none => exact absurd (beq_self_eq_true _) (find?_eq_none.1 hfind x hx)
  | some found =>
    have hkey := find?_some (p := fun y : α => key y == key x) hfind
    exact congrArg some (inj_on_of_nodup_map h (mem_of_find?_eq_some hfind) hx (beq_iff_eq.1 hkey))

end Audesys.Lib
