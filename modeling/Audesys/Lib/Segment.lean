import Audesys.Lib.Run

/-!
# `Lib.Segment` — what a piece of code computes or gets stuck on

A deterministic machine with an instruction pointer `pos`. `Finishes lo hi s t` is a run through the code
between `lo` and `hi` that ends at `hi`. `Ends lo hi s o Q` says all there is to say about the code started in
`s`: if `o` is a value, the run finishes in a state that `Q` relates to it, and if `o` is `none` the machine
gets stuck on the way. Pieces of code compose as the results do (`Ends.bind`).
-/

namespace Audesys.Lib

variable {S α β : Type} (next : S → Option S) (pos : S → Nat)

/-- A step taken between `lo` and `hi`. -/
def between (lo hi : Nat) (s : S) : Option S := if lo ≤ pos s ∧ pos s < hi then next s else none

/-- The code from `lo` on is run through, up to `hi`. -/
def Finishes (lo hi : Nat) (s t : S) : Prop := ∃ n, RunN (between next pos lo hi) n s t ∧ pos t = hi

/-- How the code between `lo` and `hi` ends: with a value or stuck. -/
def Ends (lo hi : Nat) (s : S) (o : Option α) (Q : α → S → Prop) : Prop :=
  match o with
  | some a => ∃ t, Finishes next pos lo hi s t ∧ Q a t
  | none => ∃ n t, RunN (between next pos lo hi) n s t ∧ lo ≤ pos t ∧ pos t < hi ∧ next t = none

variable {next pos}

theorem between_eq {lo hi : Nat} {s t : S} :
    between next pos lo hi s = some t ↔ (lo ≤ pos s ∧ pos s < hi) ∧ next s = some t := by
  simp [between]

theorem RunN.between_mono {lo hi lo' hi' n : Nat} {s t : S} (h : RunN (between next pos lo hi) n s t)
    (hlo : lo' ≤ lo) (hhi : hi ≤ hi') : RunN (between next pos lo' hi') n s t := by
  apply h.mono
  intro u v hstep
  obtain ⟨hin, hnext⟩ := between_eq.1 hstep
  exact between_eq.2 ⟨⟨by omega, by omega⟩, hnext⟩

/-- At the end of the code the run is over. -/
theorem Finishes.stopped {lo hi : Nat} {s t : S} (h : Finishes next pos lo hi s t) :
    between next pos lo hi t = none := by
  obtain ⟨_, _, hpos⟩ := h
  exact if_neg (by omega)

theorem Finishes.det {lo hi : Nat} {s t u : S} (h₁ : Finishes next pos lo hi s t)
    (h₂ : Finishes next pos lo hi s u) : t = u := by
  have hstop₁ := h₁.stopped
  have hstop₂ := h₂.stopped
  obtain ⟨m, hrun₁, _⟩ := h₁
  obtain ⟨n, hrun₂, _⟩ := h₂
  obtain rfl : m = n := Nat.le_antisymm (hrun₁.le_of_stopped hrun₂ hstop₂) (hrun₂.le_of_stopped hrun₁ hstop₁)
  exact hrun₁.det hrun₂

namespace Ends

variable {lo mid hi : Nat} {s t : S} {o : Option α} {Q R : α → S → Prop}

theorem done {a : α} (hpos : pos s = hi) (hQ : Q a s) : Ends next pos lo hi s (some a) Q :=
  ⟨s, ⟨0, .refl s, hpos⟩, hQ⟩

theorem stuck (hlo : lo ≤ pos s) (hhi : pos s < hi) (hnext : next s = none) :
    Ends next pos lo hi s (none : Option α) Q := ⟨0, s, .refl s, hlo, hhi, hnext⟩

theorem step (hlo : lo ≤ pos s) (hhi : pos s < hi) (hnext : next s = some t) (h : Ends next pos lo hi t o Q) :
    Ends next pos lo hi s o Q := by
  have hstep : between next pos lo hi s = some t := between_eq.2 ⟨⟨hlo, hhi⟩, hnext⟩
  cases o with
  | some a =>
    obtain ⟨u, ⟨n, hrun, hpos⟩, hQ⟩ := h
    exact ⟨u, ⟨n + 1, .step hstep hrun, hpos⟩, hQ⟩
  | none =>
    obtain ⟨n, u, hrun, hrest⟩ := h
    exact ⟨n + 1, u, .step hstep hrun, hrest⟩

theorem mono (h : Ends next pos lo hi s o Q) (hQR : ∀ a t, pos t = hi → Q a t → R a t) :
    Ends next pos lo hi s o R := by
  cases o with
  | some a =>
    obtain ⟨t, hfin, hQ⟩ := h
    obtain ⟨_, _, hpos⟩ := id hfin
    exact ⟨t, hfin, hQR a t hpos hQ⟩
  | none => exact h

theorem widen {lo' : Nat} (h : Ends next pos lo' hi s o Q) (hlo : lo ≤ lo') : Ends next pos lo hi s o Q := by
  cases o with
  | some a =>
    obtain ⟨t, ⟨n, hrun, hpos⟩, hQ⟩ := h
    exact ⟨t, ⟨n, hrun.between_mono hlo (Nat.le_refl hi), hpos⟩, hQ⟩
  | none =>
    obtain ⟨n, t, hrun, hlt, hrest⟩ := h
    exact ⟨n, t, hrun.between_mono hlo (Nat.le_refl hi), by omega, hrest⟩

/-- **Composition.** -/
theorem bind {f : α → Option β} {T : β → S → Prop} (h : Ends next pos lo mid s o Q) (hlo : lo ≤ mid)
    (hhi : mid ≤ hi) (hrest : ∀ a t, pos t = mid → Q a t → Ends next pos mid hi t (f a) T) :
    Ends next pos lo hi s (o.bind f) T := by
  cases o with
  | none =>
    obtain ⟨n, t, hrun, hlt, hgt, hnext⟩ := h
    exact ⟨n, t, hrun.between_mono (Nat.le_refl lo) hhi, hlt, by omega, hnext⟩
  | some a =>
    obtain ⟨t, ⟨n, hrun, hpos⟩, hQ⟩ := h
    have hrun' := hrun.between_mono (Nat.le_refl lo) hhi
    have hnext := hrest a t hpos hQ
    show Ends next pos lo hi s (f a) T
    cases hf : f a with
    | none =>
      rw [hf] at hnext
      obtain ⟨m, u, hrun₂, hlt, hgt, hstop⟩ := hnext
      exact ⟨n + m, u, hrun'.trans (hrun₂.between_mono hlo (Nat.le_refl hi)), by omega, hgt, hstop⟩
    | some b =>
      rw [hf] at hnext
      obtain ⟨u, ⟨m, hrun₂, hend⟩, hT⟩ := hnext
      exact ⟨u, ⟨n + m, hrun'.trans (hrun₂.between_mono hlo (Nat.le_refl hi)), hend⟩, hT⟩

/-- What a run leaves can be read off the value, and there is no run without one. -/
theorem finishes_iff {P : S → Prop} {V : α → Prop} (h : Ends next pos lo hi s o Q)
    (hPV : ∀ a t, Q a t → (P t ↔ V a)) : (∃ t, Finishes next pos lo hi s t ∧ P t) ↔ ∃ a, o = some a ∧ V a := by
  cases o with
  | some a =>
    obtain ⟨t, hfin, hQ⟩ := h
    constructor
    · rintro ⟨u, hfin', hP⟩
      obtain rfl := hfin.det hfin'
      exact ⟨a, rfl, (hPV a t hQ).1 hP⟩
    · rintro ⟨b, hb, hV⟩
      cases hb
      exact ⟨t, hfin, (hPV a t hQ).2 hV⟩
  | none =>
    obtain ⟨n, t, hrun, hlt, hgt, hnext⟩ := h
    constructor
    · rintro ⟨u, hfin, _⟩
      -- the run that finishes would go on behind the state where the machine is stuck
      have hstop : between next pos lo hi t = none := by
        rw [between, if_pos ⟨hlt, hgt⟩, hnext]
      have hstop' := hfin.stopped
      obtain ⟨m, hrun', hpos⟩ := hfin
      obtain rfl : m = n := Nat.le_antisymm (hrun'.le_of_stopped hrun hstop) (hrun.le_of_stopped hrun' hstop')
      obtain rfl := hrun.det hrun'
      omega
    · rintro ⟨_, ha, _⟩
      cases ha

end Ends

end Audesys.Lib
