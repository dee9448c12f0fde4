import Audesys.Lib.Run

/-!
# `Lib.Rounds` — a machine that plays the rounds of another

An abstract machine goes on from round to round, ends, or fails. A concrete one that plays every round in at least one
step, stops well where the abstract one ends and badly where it fails, stops well exactly if the rounds come to an end
(`Plays.terminates_iff`): a round without end is a run without end.
-/

namespace Audesys.Lib

/-- What a round comes to. -/
inductive Outcome (A : Type) where
  | ends
  | fails
  | goes (a : A)

variable {A S : Type}

/-- The rounds from `a` on come to an end. -/
inductive Terminates (round : A → Outcome A) : A → Prop
  | ends {a : A} : round a = .ends → Terminates round a
  | goes {a b : A} : round a = .goes b → Terminates round b → Terminates round a

/-- Rounds that go on for ever. -/
theorem not_terminates {round : A → Outcome A} {p : A → Prop} (hp : ∀ a, p a → ∃ b, round a = .goes b ∧ p b) {a : A}
    (ha : p a) : ¬ Terminates round a := by
  intro hterm
  induction hterm with
  | ends hround =>
    obtain ⟨b, hgoes, _⟩ := hp _ ha
    rw [hround] at hgoes
    cases hgoes
  | goes hround _ ih =>
    obtain ⟨b, hgoes, hb⟩ := hp _ ha
    rw [hround] at hgoes
    cases hgoes
    exact ih hb

/-- A run to a state without a successor. -/
def StopsIn (next : S → Option S) (s t : S) : Prop := ∃ n, RunN next n s t ∧ next t = none

section
variable {next : S → Option S}

theorem StopsIn.prepend {n : Nat} {s t u : S} (hrun : RunN next n s t) (h : StopsIn next t u) : StopsIn next s u := by
  obtain ⟨m, hm, hstop⟩ := h
  exact ⟨n + m, hrun.trans hm, hstop⟩

/-- A run that stops goes through every other run. -/
theorem StopsIn.behind {n : Nat} {s t u : S} (hrun : RunN next n s t) (h : StopsIn next s u) : StopsIn next t u := by
  obtain ⟨m, hm, hstop⟩ := h
  exact ⟨m - n, hrun.suffix hm (hrun.le_of_stopped hm hstop), hstop⟩

/-- There is one such state at most. -/
theorem StopsIn.det {s t u : S} (ht : StopsIn next s t) (hu : StopsIn next s u) : t = u := by
  obtain ⟨m, hm, hstop⟩ := ht
  obtain ⟨n, hn, hstop'⟩ := hu
  have heq : m = n := Nat.le_antisymm (hm.le_of_stopped hn hstop') (hn.le_of_stopped hm hstop)
  subst heq
  exact hm.det hn

end

/-- The machine `next` plays the rounds, `good` being the states to stop in. -/
structure Plays (round : A → Outcome A) (next : S → Option S) (good : S → Prop) (rel : A → S → Prop) : Prop where
  ends : ∀ {a s}, rel a s → round a = .ends → ∃ t, StopsIn next s t ∧ good t
  fails : ∀ {a s}, rel a s → round a = .fails → ∃ t, StopsIn next s t ∧ ¬ good t
  goes : ∀ {a b s}, rel a s → round a = .goes b → ∃ n t, RunN next (n + 1) s t ∧ rel b t

section
variable {round : A → Outcome A} {next : S → Option S} {good : S → Prop} {rel : A → S → Prop}

theorem Plays.of_terminates (h : Plays round next good rel) {a : A} (hterm : Terminates round a) :
    ∀ {s}, rel a s → ∃ t, StopsIn next s t ∧ good t := by
  induction hterm with
  | ends hround => exact fun hrel => h.ends hrel hround
  | goes hround _ ih =>
    intro s hrel
    obtain ⟨n, t, hrun, hrel'⟩ := h.goes hrel hround
    obtain ⟨u, hstop, hgood⟩ := ih hrel'
    exact ⟨u, hstop.prepend hrun, hgood⟩

/-- Every round takes a step, so the run is longer than the rounds are many. -/
theorem Plays.to_terminates (h : Plays round next good rel) {n : Nat} :
    ∀ {a s t}, rel a s → RunN next n s t → next t = none → good t → Terminates round a := by
  induction n using Nat.strongRecOn with
  | ind n ih =>
    intro a s t hrel hrun hstop hgood
    cases hround : round a with
    | ends => exact .ends hround
    | fails =>
      obtain ⟨u, hu, hbad⟩ := h.fails hrel hround
      have heq : t = u := StopsIn.det ⟨n, hrun, hstop⟩ hu
      exact absurd (heq ▸ hgood) hbad
    | goes b =>
      obtain ⟨m, u, hm, hrel'⟩ := h.goes hrel hround
      have hle : m + 1 ≤ n := hm.le_of_stopped hrun hstop
      exact .goes hround (ih (n - (m + 1)) (by omega) hrel' (hm.suffix hrun hle) hstop hgood)

/-- **The machine stops well** exactly if the rounds come to an end that start where a run of it leads to. -/
theorem Plays.terminates_iff (h : Plays round next good rel) {n : Nat} {a : A} {s₀ s : S} (hrun : RunN next n s₀ s)
    (hrel : rel a s) : (∃ t, StopsIn next s₀ t ∧ good t) ↔ Terminates round a := by
  constructor
  · rintro ⟨t, hstops, hgood⟩
    obtain ⟨m, hm, hstop⟩ := hstops.behind hrun
    exact h.to_terminates hrel hm hstop hgood
  · intro hterm
    obtain ⟨t, hstops, hgood⟩ := h.of_terminates hterm hrel
    exact ⟨t, hstops.prepend hrun, hgood⟩

end

end Audesys.Lib
