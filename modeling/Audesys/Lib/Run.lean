import Mathlib.Logic.Basic

/-!
# `Lib.Run` — counted runs of a deterministic machine and code segments

A machine is a partial step function `next : S → Option S` (`none`: it has stopped). `RunN next n s t` is a
run of exactly `n` steps. Determinism makes runs comparable: of two runs from one state the shorter is an
initial piece of the longer (`RunN.suffix`), which is what turns a forward simulation into statements about
*every* state of a run. `CodeAt code b l` places the list `l` at index `b` of a program.
-/

namespace Audesys.Lib

variable {S : Type} {next : S → Option S}
variable {n : Nat}

/-- A run of exactly `n` steps. -/
inductive RunN (next : S → Option S) : Nat → S → S → Prop
  | refl (s : S) : RunN next 0 s s
  | step {n : Nat} {s t u : S} : next s = some t → RunN next n t u → RunN next (n + 1) s u

namespace RunN

theorem single {s t : S} (h : next s = some t) : RunN next 1 s t := .step h (.refl t)

theorem trans {m n : Nat} {s t u : S} (h₁ : RunN next m s t) (h₂ : RunN next n t u) :
    RunN next (m + n) s u := by
  induction h₁ with
  | refl s => rw [Nat.zero_add]; exact h₂
  | step hs _ ih => rw [Nat.succ_add]; exact .step hs (ih h₂)

/-- Append one step. -/
theorem snoc {s t u : S} (h : RunN next n s t) (hs : next t = some u) :
    RunN next (n + 1) s u := h.trans (single hs)

theorem zero_inv {s t : S} (h : RunN next 0 s t) : s = t := by cases h; rfl

theorem succ_inv {s u : S} (h : RunN next (n + 1) s u) : ∃ t, next s = some t ∧ RunN next n t u := by
  cases h with
  | step hs ht => exact ⟨_, hs, ht⟩

/-- The last step of a nonempty run. -/
theorem last {s u : S} (h : RunN next (n + 1) s u) : ∃ t, RunN next n s t ∧ next t = some u := by
  induction n generalizing s with
  | zero =>
    obtain ⟨t, hs, ht⟩ := h.succ_inv
    have htu : t = u := ht.zero_inv
    exact ⟨s, .refl s, htu ▸ hs⟩
  | succ n ih =>
    obtain ⟨t, hs, ht⟩ := h.succ_inv
    obtain ⟨v, hv, hl⟩ := ih ht
    exact ⟨v, .step hs hv, hl⟩

/-- **Determinism.** The shorter of two runs from `s` is an initial piece of the longer. -/
theorem suffix {m n : Nat} {s t u : S} (h₁ : RunN next m s t) (h₂ : RunN next n s u) (hmn : m ≤ n) :
    RunN next (n - m) t u := by
  induction h₁ generalizing n with
  | refl s => simpa using h₂
  | @step k s t' t hs _ ih =>
    cases n with
    | zero => omega
    | succ n =>
      obtain ⟨v, hv, hr⟩ := h₂.succ_inv
      have hvt : v = t' := Option.some.inj (hv.symm.trans hs)
      rw [Nat.succ_sub_succ]
      exact ih (hvt ▸ hr) (by omega)

theorem det {s t u : S} (h₁ : RunN next n s t) (h₂ : RunN next n s u) : t = u := by
  have h := h₁.suffix h₂ (Nat.le_refl n)
  rw [Nat.sub_self] at h
  exact h.zero_inv

/-- A stopped state ends every run through it. -/
theorem le_of_stopped {m n : Nat} {s t u : S} (h₁ : RunN next m s t) (h₂ : RunN next n s u)
    (hu : next u = none) : m ≤ n := by
  rcases Nat.lt_or_ge n m with hlt | hle
  · have h := h₂.suffix h₁ (by omega)
    obtain ⟨k, hk⟩ : ∃ k, m - n = k + 1 := ⟨m - n - 1, by omega⟩
    rw [hk] at h
    obtain ⟨v, hv, _⟩ := h.succ_inv
    rw [hu] at hv
    exact absurd hv (by simp)
  · exact hle

/-- A run of one machine is a run of every machine that makes the same steps. -/
theorem mono {next' : S → Option S} (hstep : ∀ s t, next s = some t → next' s = some t) {s t : S}
    (h : RunN next n s t) : RunN next' n s t := by
  induction h with
  | refl s => exact .refl s
  | step hs _ ih => exact .step (hstep _ _ hs) ih

/-- **Invariant rule.** What the start satisfies and every step keeps holds at the end of every run. -/
theorem invariant {Inv : S → Prop} (hstep : ∀ s t, next s = some t → Inv s → Inv t)
    {s u : S} (h : RunN next n s u) (hs : Inv s) : Inv u := by
  induction h with
  | refl s => exact hs
  | step hn _ ih => exact ih (hstep _ _ hn hs)

/-- The invariant rule for one run: the steps may use that they are steps of it. -/
theorem invariant_along (I : S → Prop) {s u : S} (h : RunN next n s u) (hs : I s)
    (hstep : ∀ k v w, k < n → RunN next k s v → next v = some w → I v → I w) : I u := by
  induction n generalizing u with
  | zero => exact h.zero_inv ▸ hs
  | succ n ih =>
    obtain ⟨t, ht, hlast⟩ := h.last
    have hinv : I t := ih ht fun k v w hk => hstep k v w (by omega)
    exact hstep n t u (Nat.lt_succ_self n) ht hlast hinv

end RunN

/-! ## Placement of code -/

/-- The list `l` sits in `code` from index `b` on. -/
def CodeAt {ι : Type} (code : List ι) (b : Nat) (l : List ι) : Prop :=
  ∃ pre post, code = pre ++ (l ++ post) ∧ pre.length = b

namespace CodeAt

variable {ι : Type} {code l l₁ l₂ : List ι} {b : Nat} {i : ι}

theorem head (h : CodeAt code b (i :: l)) : code[b]? = some i := by
  obtain ⟨pre, post, rfl, rfl⟩ := h
  simp

theorem left (h : CodeAt code b (l₁ ++ l₂)) : CodeAt code b l₁ := by
  obtain ⟨pre, post, rfl, rfl⟩ := h
  exact ⟨pre, l₂ ++ post, by rw [List.append_assoc], rfl⟩

theorem right (h : CodeAt code b (l₁ ++ l₂)) : CodeAt code (b + l₁.length) l₂ := by
  obtain ⟨pre, post, rfl, rfl⟩ := h
  exact ⟨pre ++ l₁, post, by simp, by simp⟩

theorem tail (h : CodeAt code b (i :: l)) : CodeAt code (b + 1) l :=
  right (show CodeAt code b ([i] ++ l) from h)

theorem bound (h : CodeAt code b l) : b + l.length ≤ code.length := by
  obtain ⟨pre, post, rfl, rfl⟩ := h
  simp

/-- The `k`-th instruction of a placed list. -/
theorem get (h : CodeAt code b l) {k : Nat} (hk : k < l.length) : code[b + k]? = some l[k] := by
  obtain ⟨pre, post, rfl, rfl⟩ := h
  rw [List.getElem?_append_right (by omega), Nat.add_sub_cancel_left, List.getElem?_append_left hk,
    List.getElem?_eq_getElem hk]

theorem whole (code : List ι) : CodeAt code 0 code := ⟨[], [], by simp, rfl⟩

end CodeAt

/-! ## Every position -/

/-- `P` holds at every position of the code that starts at `b`. -/
def Each {ι : Type} (P : Nat → ι → Prop) (b : Nat) (l : List ι) : Prop := ∀ k x, l[k]? = some x → P (b + k) x

section
variable {ι κ : Type} {P Q : Nat → ι → Prop} {b : Nat} {x : ι} {l l₁ l₂ : List ι}

@[simp] theorem each_nil : Each P b [] := by
  intro k x hx
  cases hx

@[simp] theorem each_cons : Each P b (x :: l) ↔ P b x ∧ Each P (b + 1) l := by
  constructor
  · intro h
    refine ⟨h 0 x rfl, ?_⟩
    intro k y hy
    have := h (k + 1) y hy
    rwa [← Nat.add_assoc, Nat.add_right_comm] at this
  · rintro ⟨hx, hl⟩ k y hy
    cases k with
    | zero =>
      cases hy
      exact hx
    | succ k =>
      have := hl k y hy
      rwa [Nat.add_right_comm, Nat.add_assoc] at this

theorem each_append : Each P b (l₁ ++ l₂) ↔ Each P b l₁ ∧ Each P (b + l₁.length) l₂ := by
  induction l₁ generalizing b with
  | nil => simp
  | cons x l₁ ih => simp only [List.cons_append, each_cons, ih, List.length_cons, and_assoc, Nat.add_assoc,
      Nat.add_comm 1]

theorem each_map {f : κ → ι} {l : List κ} : Each P b (l.map f) ↔ Each (fun i x => P i (f x)) b l := by
  induction l generalizing b with
  | nil => simp
  | cons x l ih => simp only [List.map_cons, each_cons, ih]

theorem Each.imp (h : Each P b l) (hPQ : ∀ i x, b ≤ i → i < b + l.length → P i x → Q i x) : Each Q b l := by
  intro k x hx
  have hk : k < l.length := (List.getElem?_eq_some_iff.1 hx).1
  exact hPQ _ _ (Nat.le_add_right _ _) (by omega) (h k x hx)

/-- What holds at every position of a placed list holds there in the program. -/
theorem CodeAt.each {code : List ι} (hat : CodeAt code b l) (h : Each P b l) {i : Nat} (hb : b ≤ i)
    (hi : i < b + l.length) (hx : code[i]? = some x) : P i x := by
  obtain ⟨k, rfl⟩ := Nat.exists_eq_add_of_le hb
  have hk : k < l.length := by omega
  rw [hat.get hk, Option.some.injEq] at hx
  exact h k x (hx ▸ List.getElem?_eq_getElem hk)

end

end Audesys.Lib
