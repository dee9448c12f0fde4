import Audesys.Lib.Run
import Mathlib.Logic.Function.Iterate

/-!
# `Lib.Leads` — contracts between points of a program

From every state with one property the machine runs to a state with another, and each step on the way is in a relation
that the caller picks: nothing reversed, nothing written outside. Contracts are put together one after the other, and a
loop is one contract for each of its passes.
-/

namespace Audesys.Lib

variable {S : Type} (next : S → Option S) (R : S → S → Prop)

/-- A run of `n` steps, each of them in `R`. -/
inductive RunIn : Nat → S → S → Prop
  | refl (s : S) : RunIn 0 s s
  | step {n : Nat} {s t u : S} : next s = some t → R s t → RunIn n t u → RunIn (n + 1) s u

/-- Where `P` holds, the machine runs to where `Q` holds, in steps of `R`. -/
def Leads (P Q : S → Prop) : Prop := ∀ s, P s → ∃ n t, RunIn next R n s t ∧ Q t

variable {next R}

namespace RunIn

theorem trans {m n : Nat} {s t u : S} (h₁ : RunIn next R m s t) (h₂ : RunIn next R n t u) :
    RunIn next R (m + n) s u := by
  induction h₁ with
  | refl s => rw [Nat.zero_add]; exact h₂
  | step hs hR _ ih => rw [Nat.succ_add]; exact .step hs hR (ih h₂)

theorem run {n : Nat} {s t : S} (h : RunIn next R n s t) : RunN next n s t := by
  induction h with
  | refl s => exact .refl s
  | step hs _ _ ih => exact .step hs ih

/-- **Every step is in the relation**: the machine has no other run. -/
theorem related {n : Nat} {s u : S} (h : RunIn next R n s u) {m : Nat} {t t' : S} (hrun : RunN next m s t)
    (hstep : next t = some t') (hmn : m < n) : R t t' := by
  induction h generalizing m with
  | refl s => exact absurd hmn (Nat.not_lt_zero m)
  | @step n s v u hs hR _ ih =>
    cases m with
    | zero =>
      cases hrun.zero_inv
      cases hs.symm.trans hstep
      exact hR
    | succ m =>
      obtain ⟨w, hw, hrest⟩ := hrun.succ_inv
      cases hs.symm.trans hw
      exact ih hrest (Nat.lt_of_succ_lt_succ hmn)

end RunIn

namespace Leads

variable {P Q T : S → Prop}

theorem trans (h₁ : Leads next R P Q) (h₂ : Leads next R Q T) : Leads next R P T := by
  intro s hs
  obtain ⟨m, t, hst, ht⟩ := h₁ s hs
  obtain ⟨n, u, htu, hu⟩ := h₂ t ht
  exact ⟨m + n, u, hst.trans htu, hu⟩

theorem of_imp (h : ∀ s, P s → Q s) : Leads next R P Q := fun s hs => ⟨0, s, .refl s, h s hs⟩

/-- One step. -/
theorem single (h : ∀ s, P s → ∃ t, next s = some t ∧ R s t ∧ Q t) : Leads next R P Q := by
  intro s hs
  obtain ⟨t, hst, hR, ht⟩ := h s hs
  exact ⟨1, t, .step hst hR (.refl t), ht⟩

/-- **A loop on a state of its own.** Each pass applies `f` to what the loop is about: it leads back to the head as long
as there are passes left, and the last one leads out. -/
theorem iterate {A : Type} {f : A → A} (Head Exit : A → S → Prop) {n : Nat} {a : A}
    (hpass : ∀ i < n, Leads next R (Head (f^[i] a)) (Head (f^[i + 1] a)))
    (hlast : Leads next R (Head (f^[n] a)) (Exit (f^[n + 1] a))) : Leads next R (Head a) (Exit (f^[n + 1] a)) := by
  have hhead : ∀ i ≤ n, Leads next R (Head a) (Head (f^[i] a)) := by
    intro i
    induction i with
    | zero => exact fun _ => of_imp fun _ h => h
    | succ i ih => exact fun hi => (ih (Nat.le_of_succ_le hi)).trans (hpass i hi)
  exact (hhead n (Nat.le_refl n)).trans hlast

end Leads

end Audesys.Lib
