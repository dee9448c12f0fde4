import Mathlib.Logic.Basic

/-!
# `Lib.Trace` — runs of a system driven by a list of actions

A system is a partial function `step : S → A → Option S`: `none` means that the action is not enabled. A
run is the list of actions it takes, so a statement about "every interleaving" is a statement about every
list. `Trace.invariant_of_guard` is the rule for properties that hold as long as every action is taken in a
state that meets a side condition on that action.
-/

namespace Audesys.Lib

variable {S A : Type} {step : S → A → Option S}
variable {as : List A} {G : S → A → Prop}

/-- The actions `as` take `s` to `t`. -/
inductive Trace (step : S → A → Option S) : S → List A → S → Prop
  | nil (s : S) : Trace step s [] s
  | cons {s t u : S} {a : A} {as : List A} : step s a = some t → Trace step t as u → Trace step s (a :: as) u

namespace Trace

theorem nil_inv {s t : S} (h : Trace step s [] t) : s = t := by cases h; rfl

theorem cons_inv {s u : S} {a : A} (h : Trace step s (a :: as) u) :
    ∃ t, step s a = some t ∧ Trace step t as u := by
  cases h with
  | cons hs ht => exact ⟨_, hs, ht⟩

theorem single {s t : S} {a : A} (h : step s a = some t) : Trace step s [a] t := .cons h (.nil t)

theorem append {s t u : S} {as bs : List A} (h₁ : Trace step s as t) (h₂ : Trace step t bs u) :
    Trace step s (as ++ bs) u := by
  induction h₁ with
  | nil s => exact h₂
  | cons hs _ ih => exact .cons hs (ih h₂)

theorem snoc {s t u : S} {a : A} (h : Trace step s as t) (ha : step t a = some u) :
    Trace step s (as ++ [a]) u := h.append (single ha)

/-- Cut a run between two of its actions. -/
theorem split {s u : S} {as bs : List A} (h : Trace step s (as ++ bs) u) :
    ∃ t, Trace step s as t ∧ Trace step t bs u := by
  induction as generalizing s with
  | nil => exact ⟨s, .nil s, h⟩
  | cons a as ih =>
    obtain ⟨v, hv, hr⟩ := h.cons_inv
    obtain ⟨t, ht, hu⟩ := ih hr
    exact ⟨t, .cons hv ht, hu⟩

/-- The last action of a run. -/
theorem snoc_inv {s u : S} {a : A} (h : Trace step s (as ++ [a]) u) :
    ∃ t, Trace step s as t ∧ step t a = some u := by
  obtain ⟨t, ht, hu⟩ := h.split
  obtain ⟨v, hv, hn⟩ := hu.cons_inv
  have hvu : v = u := hn.nil_inv
  exact ⟨t, ht, hvu ▸ hv⟩

/-- Two runs of the same actions from the same state end in the same state. -/
theorem det {s t u : S} (h₁ : Trace step s as t) (h₂ : Trace step s as u) : t = u := by
  induction h₁ with
  | nil s => exact h₂.nil_inv
  | cons hs _ ih =>
    obtain ⟨v, hv, hr⟩ := h₂.cons_inv
    rw [Option.some.inj (hs.symm.trans hv)] at ih
    exact ih hr

/-- Induction on a run that grows at its end, with the run so far at hand. -/
theorem snoc_induction {s : S} {P : List A → S → Prop} (hnil : P [] s)
    (hsnoc : ∀ as t a u, Trace step s as t → P as t → step t a = some u → P (as ++ [a]) u)
    {t : S} (h : Trace step s as t) : P as t := by
  -- generalise to "a run that starts where a run with `P` ended"
  have key : ∀ {t : S} {bs : List A} {u : S}, Trace step t bs u →
      ∀ as, Trace step s as t → P as t → P (as ++ bs) u := by
    intro t bs u hb
    induction hb with
    | nil t => intro as _ hp; simpa using hp
    | @cons t v u a bs hs _ ih =>
      intro as ha hp
      have h := ih (as ++ [a]) (ha.snoc hs) (hsnoc as t a v ha hp hs)
      simpa using h
  simpa using key h [] (.nil s) hnil

/-- Every action of the run is taken in a state that satisfies `G` with it. -/
inductive Guarded (step : S → A → Option S) (G : S → A → Prop) : S → List A → Prop
  | nil (s : S) : Guarded step G s []
  | cons {s t : S} {a : A} {as : List A} :
      step s a = some t → G s a → Guarded step G t as → Guarded step G s (a :: as)

theorem Guarded.split {s t : S} {as bs : List A} (h : Guarded step G s (as ++ bs))
    (ht : Trace step s as t) : Guarded step G s as ∧ Guarded step G t bs := by
  induction ht with
  | nil s => exact ⟨.nil s, h⟩
  | cons hs _ ih =>
    cases h with
    | cons hs' hg hr =>
      rw [Option.some.inj (hs'.symm.trans hs)] at hr
      obtain ⟨h₁, h₂⟩ := ih hr
      exact ⟨.cons hs hg h₁, h₂⟩

theorem Guarded.head {s : S} {a : A} (h : Guarded step G s (a :: as)) : G s a := by
  cases h with
  | cons _ hg _ => exact hg

/-- A run is guarded if each of its actions is. -/
theorem Guarded.of_forall {s t : S} (h : Trace step s as t)
    (hg : ∀ pre a post u v, as = pre ++ a :: post → Trace step s pre u → step u a = some v → G u a) :
    Guarded step G s as := by
  induction h with
  | nil s => exact .nil s
  | @cons s v t a as hs _ ih =>
    refine .cons hs (hg [] a as s v rfl (.nil s) hs) (ih ?_)
    intro pre b post u w has hu hw
    exact hg (a :: pre) b post u w (by rw [has]; rfl) (.cons hs hu) hw

/-- **Invariant rule with a side condition on the actions.** The invariant may speak about the run so far. -/
theorem invariant_of_guard {I : List A → S → Prop} {s : S} (hnil : I [] s)
    (hstep : ∀ as t a u, Trace step s as t → I as t → G t a → step t a = some u → I (as ++ [a]) u)
    {t : S} (h : Trace step s as t) (hg : Guarded step G s as) : I as t := by
  have key : Guarded step G s as → I as t := by
    refine snoc_induction (P := fun as t => Guarded step G s as → I as t) (fun _ => hnil) ?_ h
    intro as t a u ha ih hs hg
    obtain ⟨h₁, h₂⟩ := hg.split ha
    exact hstep as t a u ha (ih h₁) h₂.head hs
  exact key hg

/-- **Invariant rule.** -/
theorem invariant {Inv : S → Prop} (hstep : ∀ s a t, step s a = some t → Inv s → Inv t)
    {s t : S} (h : Trace step s as t) (hs : Inv s) : Inv t := by
  induction h with
  | nil s => exact hs
  | cons ha _ ih => exact ih (hstep _ _ _ ha hs)

end Trace

/-- Cut a list in front of its first element with `P`. -/
theorem exists_first {α : Type} {P : α → Prop} {l : List α} (h : ∃ x ∈ l, P x) :
    ∃ pre x post, l = pre ++ x :: post ∧ P x ∧ ∀ y ∈ pre, ¬ P y := by
  induction l with
  | nil =>
    obtain ⟨x, hx, _⟩ := h
    cases hx
  | cons y l ih =>
    by_cases hy : P y
    · exact ⟨[], y, l, rfl, hy, by simp⟩
    · obtain ⟨x, hx, hp⟩ := h
      rcases List.mem_cons.1 hx with rfl | hx
      · exact absurd hp hy
      · obtain ⟨pre, z, post, rfl, hz, hpre⟩ := ih ⟨x, hx, hp⟩
        refine ⟨y :: pre, z, post, rfl, hz, ?_⟩
        intro w hw
        rcases List.mem_cons.1 hw with rfl | hw
        · exact hy
        · exact hpre w hw

end Audesys.Lib
