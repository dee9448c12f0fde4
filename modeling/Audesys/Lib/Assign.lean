import Mathlib.Data.List.Induction
import Mathlib.Logic.Function.Basic

/-!
# `Lib.Assign` — assignments one after another

A list of assignments to variables, each with the variables that its value reads. Where every assignment comes after
those it reads from, the variables end with the values that solve all assignments at once (`Assignment.run_agrees`).
`setAll` is the map that a loop of `set` builds.
-/

open List

namespace Audesys.Lib

/-- A variable, and a value that depends on some others. -/
structure Assignment (X B : Type) where
  target : X
  reads : List X
  value : (X → B) → B
  depends : ∀ m m', (∀ x ∈ reads, m x = m' x) → value m = value m'

namespace Assignment

variable {X B : Type} [DecidableEq X]

def exec (m : X → B) (a : Assignment X B) : X → B := Function.update m a.target (a.value m)

def run (as : List (Assignment X B)) (m : X → B) : X → B := as.foldl exec m

theorem run_snoc (as : List (Assignment X B)) (a : Assignment X B) (m : X → B) : run (as ++ [a]) m = exec (run as m) a := by
  unfold run
  rw [foldl_append]
  rfl

/-- A variable that nothing is assigned to keeps its value. -/
theorem run_of_not_mem {as : List (Assignment X B)} {x : X} (h : x ∉ as.map target) (m : X → B) : run as m x = m x := by
  induction as using List.reverseRecOn with
  | nil => rfl
  | append_singleton as a ih =>
    rw [map_append, mem_append, not_or, map_singleton, mem_singleton] at h
    rw [run_snoc, exec, Function.update_of_ne h.2]
    exact ih h.1

/-- **Solved in order.** Where every variable that is read has been assigned before or has its value from the start,
the variables take the values that solve the assignments. -/
theorem run_agrees {as : List (Assignment X B)} {m solution : X → B}
    (hsolves : ∀ a ∈ as, solution a.target = a.value solution)
    (hreads : ∀ pre a post, as = pre ++ a :: post → ∀ x ∈ a.reads, x ∈ pre.map target ∨ m x = solution x) :
    ∀ x ∈ as.map target, run as m x = solution x := by
  induction as using List.reverseRecOn with
  | nil =>
    intro x hx
    cases hx
  | append_singleton as a ih =>
    have hbefore : ∀ x ∈ as.map target, run as m x = solution x := by
      apply ih
      · exact fun b hb => hsolves b (mem_append_left _ hb)
      · intro pre b post heq
        apply hreads pre b (post ++ [a])
        rw [heq, List.append_assoc, cons_append]
    have hvalue : a.value (run as m) = solution a.target := by
      rw [hsolves a (mem_append_right _ (mem_singleton_self a))]
      apply a.depends
      intro x hx
      by_cases hmem : x ∈ as.map target
      · exact hbefore x hmem
      · rw [run_of_not_mem hmem]
        exact (hreads as a [] rfl x hx).resolve_left hmem
    intro x hx
    rw [run_snoc, exec]
    by_cases heq : x = a.target
    · rw [heq, Function.update_self]
      exact hvalue
    · rw [Function.update_of_ne heq]
      apply hbefore
      rw [map_append, mem_append, map_singleton, mem_singleton] at hx
      exact hx.resolve_right heq

/-- **A solution.** Where nothing is assigned twice, and no variable is assigned after it was read, the values that the
variables end with solve the assignments. -/
theorem run_solves {as : List (Assignment X B)} (hnodup : (as.map target).Nodup)
    (hreads : ∀ pre a post, as = pre ++ a :: post → ∀ x ∈ a.reads, x ∉ (a :: post).map target) (m : X → B) :
    ∀ a ∈ as, run as m a.target = a.value (run as m) := by
  induction as using List.reverseRecOn with
  | nil =>
    intro a ha
    cases ha
  | append_singleton as b ih =>
    rw [map_append, nodup_append, map_singleton] at hnodup
    have hbefore : ∀ a ∈ as, run as m a.target = a.value (run as m) := by
      apply ih hnodup.1
      intro pre a post heq x hx hmem
      apply hreads pre a (post ++ [b]) (by rw [heq, List.append_assoc, cons_append]) x hx
      rw [← cons_append, map_append]
      exact mem_append_left _ hmem
    -- the last variable is not read by what came before, nor by its own assignment
    have hlast : ∀ a ∈ as ++ [b], a.value (run (as ++ [b]) m) = a.value (run as m) := by
      intro a ha
      rw [run_snoc, exec]
      apply a.depends
      intro x hx
      apply Function.update_of_ne
      rintro rfl
      rcases mem_append.1 ha with hold | hnew
      · obtain ⟨pre, post, heq⟩ := append_of_mem hold
        apply hreads pre a (post ++ [b]) (by rw [heq, List.append_assoc, cons_append]) _ hx
        rw [← cons_append, map_append]
        exact mem_append_right _ (mem_singleton_self _)
      · rw [mem_singleton.1 hnew] at hx
        exact hreads as b [] rfl _ hx (mem_singleton_self _)
    intro a ha
    rw [hlast a ha, run_snoc, exec]
    rcases mem_append.1 ha with hold | hnew
    · have hne : a.target ≠ b.target :=
        hnodup.2.2 a.target (mem_map.2 ⟨a, hold, rfl⟩) b.target (mem_singleton_self _)
      rw [Function.update_of_ne hne]
      exact hbefore a hold
    · rw [mem_singleton.1 hnew, Function.update_self]

end Assignment

/-! ## Maps -/

variable {K V : Type} [DecidableEq K]

/-- The map with all pairs set, of which the last one for a key counts. -/
def setAll (l : List (K × V)) : K → Option V := l.foldl (fun m p => Function.update m p.1 (some p.2)) fun _ => none

theorem setAll_snoc (l : List (K × V)) (p : K × V) : setAll (l ++ [p]) = Function.update (setAll l) p.1 (some p.2) := by
  unfold setAll
  rw [foldl_append]
  rfl

theorem setAll_eq_some {l : List (K × V)} (h : (l.map Prod.fst).Nodup) {k : K} {v : V} (hmem : (k, v) ∈ l) :
    setAll l k = some v := by
  induction l using List.reverseRecOn with
  | nil => cases hmem
  | append_singleton l p ih =>
    rw [map_append, nodup_append] at h
    rw [setAll_snoc]
    rcases mem_append.1 hmem with hmem | hmem
    · have hne : k ≠ p.1 := by
        apply h.2.2
        · exact mem_map.2 ⟨(k, v), hmem, rfl⟩
        · exact mem_map.2 ⟨p, mem_singleton_self p, rfl⟩
      rw [Function.update_of_ne hne]
      exact ih h.1 hmem
    · rw [← mem_singleton.1 hmem, Function.update_self]

theorem mem_of_setAll {l : List (K × V)} {k : K} {v : V} (h : setAll l k = some v) : (k, v) ∈ l := by
  induction l using List.reverseRecOn with
  | nil => cases h
  | append_singleton l p ih =>
    rw [setAll_snoc] at h
    by_cases hk : k = p.1
    · rw [hk, Function.update_self, Option.some.injEq] at h
      rw [hk, ← h]
      exact mem_append_right _ (mem_singleton_self p)
    · rw [Function.update_of_ne hk] at h
      exact mem_append_left _ (ih h)

/-- Where no key is listed twice the order does not matter. -/
theorem setAll_perm {l l' : List (K × V)} (h : (l.map Prod.fst).Nodup) (hperm : l.Perm l') : setAll l = setAll l' := by
  have h' : (l'.map Prod.fst).Nodup := (hperm.map _).nodup_iff.1 h
  funext k
  refine Option.ext fun v => ⟨fun hv => ?_, fun hv => ?_⟩
  · exact setAll_eq_some h' (hperm.mem_iff.1 (mem_of_setAll hv))
  · exact setAll_eq_some h (hperm.mem_iff.2 (mem_of_setAll hv))

theorem exists_setAll {l : List (K × V)} {k : K} (h : k ∈ l.map Prod.fst) : ∃ v, setAll l k = some v := by
  induction l using List.reverseRecOn with
  | nil => cases h
  | append_singleton l p ih =>
    rw [setAll_snoc]
    by_cases hk : k = p.1
    · rw [hk, Function.update_self]
      exact ⟨p.2, rfl⟩
    · rw [Function.update_of_ne hk]
      apply ih
      rw [map_append, mem_append, map_singleton, mem_singleton] at h
      exact h.resolve_right hk

end Audesys.Lib
