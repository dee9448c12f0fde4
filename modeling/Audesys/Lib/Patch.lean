import Mathlib.Logic.Basic

/-!
# `Lib.Patch` — code with open jumps, and backpatching

A one-pass generator emits a jump before it knows the target and patches the instruction by index later. The
list of what it has emitted so far is a list of `Slot`s: instructions that are finished, and holes, which are
instructions that still wait for the target of their kind `κ`. Emitting appends slots; patching every
recorded index of one kind is filling the holes of that kind (`patchAll_holes`). What the machine finally
runs is the list with every hole resolved.
-/

open List

namespace Audesys.Lib

/-- A generator that succeeds succeeds in each of its parts. -/
theorem bind_ok {ε α β : Type} {x : Except ε α} {f : α → Except ε β} {b : β} :
    (x >>= f) = .ok b ↔ ∃ a, x = .ok a ∧ f a = .ok b := by
  cases x with
  | error e => simp [bind, Except.bind]
  | ok a => simp [bind, Except.bind]

theorem bind_some {α β : Type} {x : Option α} {f : α → Option β} {b : β} :
    x >>= f = some b ↔ ∃ a, x = some a ∧ f a = some b :=
  Option.bind_eq_some_iff

variable {ι κ τ : Type}

/-! ## Patching by index -/

/-- Apply `g` at each of the indices. -/
def patchAll (g : ι → ι) (l : List ι) (is : List Nat) : List ι := is.foldl (fun l i => l.modify i g) l

theorem patchAll_cons (g : ι → ι) (l : List ι) (i : Nat) (is : List Nat) :
    patchAll g l (i :: is) = patchAll g (l.modify i g) is := rfl

theorem modify_behind (g : ι → ι) (pre l : List ι) (i : Nat) :
    (pre ++ l).modify (pre.length + i) g = pre ++ l.modify i g := by
  induction pre with
  | nil => simp
  | cons x pre ih =>
    rw [length_cons, Nat.succ_add, cons_append, modify_succ_cons, ih, cons_append]

theorem modify_front (g : ι → ι) {l : List ι} (post : List ι) {i : Nat} (h : i < l.length) :
    (l ++ post).modify i g = l.modify i g ++ post := by
  induction l generalizing i with
  | nil => cases h
  | cons x l ih =>
    cases i with
    | zero => rfl
    | succ i =>
      rw [cons_append, modify_succ_cons, modify_succ_cons, ih (Nat.lt_of_succ_lt_succ h),
        cons_append]

@[simp] theorem length_patchAll (g : ι → ι) (l : List ι) (is : List Nat) :
    (patchAll g l is).length = l.length := by
  induction is generalizing l with
  | nil => rfl
  | cons i is ih => rw [patchAll_cons, ih, length_modify]

/-- Patching behind a prefix. -/
theorem patchAll_shift (g : ι → ι) (pre l : List ι) (is : List Nat) :
    patchAll g (pre ++ l) (is.map (pre.length + ·)) = pre ++ patchAll g l is := by
  induction is generalizing l with
  | nil => rfl
  | cons i is ih =>
    rw [map_cons, patchAll_cons, patchAll_cons, modify_behind, ih]

/-- Patching in front of a suffix. -/
theorem patchAll_front (g : ι → ι) (l post : List ι) (is : List Nat) (h : ∀ i ∈ is, i < l.length) :
    patchAll g (l ++ post) is = patchAll g l is ++ post := by
  induction is generalizing l with
  | nil => rfl
  | cons i is ih =>
    have hi : i < l.length := h i mem_cons_self
    have hrest : ∀ j ∈ is, j < (l.modify i g).length := by
      intro j hj
      rw [length_modify]
      exact h j (mem_cons_of_mem _ hj)
    rw [patchAll_cons, patchAll_cons, modify_front g post hi, ih _ hrest]

/-! ## Slots -/

/-- One position of code under construction. -/
inductive Slot (κ ι : Type) where
  | done (i : ι)
  | hole (k : κ) (i : ι)

namespace Slot

/-- What stands at the position now. -/
def raw : Slot κ ι → ι
  | done i | hole _ i => i

/-- What stands there once the kinds that `f` knows have their targets. -/
def resolve (retarget : τ → ι → ι) (f : κ → Option τ) : Slot κ ι → ι
  | done i => i
  | hole k i =>
    match f k with
    | some t => retarget t i
    | none => i

/-- Give the holes of kind `k` their target. -/
def fill [DecidableEq κ] (retarget : τ → ι → ι) (k : κ) (t : τ) : Slot κ ι → Slot κ ι
  | done i => done i
  | hole k' i => if k' = k then done (retarget t i) else hole k' i

/-- Rename the kinds. -/
def relabel {κ' : Type} (f : κ → κ') : Slot κ ι → Slot κ' ι
  | done i => done i
  | hole k i => hole (f k) i

/-- Give the holes of the innermost kind `none` their target. -/
def fillNone (retarget : τ → ι → ι) (t : τ) : Slot (Option κ) ι → Slot κ ι
  | done i => done i
  | hole none i => done (retarget t i)
  | hole (some k) i => hole k i

@[simp] theorem raw_done (i : ι) : (done i : Slot κ ι).raw = i := rfl
@[simp] theorem raw_hole (k : κ) (i : ι) : (hole k i).raw = i := rfl
@[simp] theorem raw_comp_done : (raw : Slot κ ι → ι) ∘ done = id := rfl

@[simp] theorem raw_relabel {κ' : Type} (f : κ → κ') (s : Slot κ ι) : (s.relabel f).raw = s.raw := by
  cases s <;> rfl

@[simp] theorem raw_comp_relabel {κ' : Type} (f : κ → κ') :
    (raw : Slot κ' ι → ι) ∘ relabel f = raw := funext (raw_relabel f)

theorem raw_fill_unit (retarget : τ → ι → ι) (t : τ) (s : Slot Unit ι) :
    (s.fill retarget () t).raw = s.resolve retarget (fun _ => some t) := by
  cases s <;> rfl

end Slot

/-- The indices of the holes of one kind. -/
@[simp] def holes [DecidableEq κ] (k : κ) : List (Slot κ ι) → List Nat
  | [] => []
  | .done _ :: l => (holes k l).map (1 + ·)
  | .hole k' _ :: l => if k' = k then 0 :: (holes k l).map (1 + ·) else (holes k l).map (1 + ·)

section
variable [DecidableEq κ] (retarget : τ → ι → ι) (k : κ) (t : τ)

theorem holes_lt {l : List (Slot κ ι)} : ∀ i ∈ holes k l, i < l.length := by
  induction l with
  | nil => nofun
  | cons s l ih =>
    have hshift : ∀ i ∈ (holes k l).map (1 + ·), i < (s :: l).length := by
      intro i hi
      obtain ⟨j, hj, rfl⟩ := mem_map.1 hi
      have := ih j hj
      simp only [length_cons]; omega
    cases s with
    | done i => exact hshift
    | hole k' i =>
      intro j hj
      simp only [holes] at hj
      split at hj
      · rcases mem_cons.1 hj with rfl | hj
        · exact Nat.succ_pos _
        · exact hshift j hj
      · exact hshift j hj

theorem holes_append (l₁ l₂ : List (Slot κ ι)) :
    holes k (l₁ ++ l₂) = holes k l₁ ++ (holes k l₂).map (l₁.length + ·) := by
  have hmap : ∀ (is : List Nat) (n : Nat), (is.map (n + ·)).map (1 + ·) = is.map (n + 1 + ·) := by
    intro is n
    rw [map_map]
    refine map_congr_left fun i _ => ?_
    show 1 + (n + i) = n + 1 + i
    omega
  induction l₁ with
  | nil => simp [holes]
  | cons s l₁ ih =>
    cases s with
    | done i => simp [ih, hmap]
    | hole k' i =>
      simp [ih, hmap]
      split <;> rfl

@[simp] theorem holes_map_done (l : List ι) : holes k (l.map Slot.done) = [] := by
  induction l with
  | nil => rfl
  | cons i l ih => simp [holes, ih]

theorem holes_map_relabel {κ' : Type} [DecidableEq κ'] {f : κ → κ'} (hf : ∀ a b, f a = f b → a = b)
    (l : List (Slot κ ι)) : holes (f k) (l.map (Slot.relabel f)) = holes k l := by
  induction l with
  | nil => rfl
  | cons s l ih =>
    cases s with
    | done i => simp [Slot.relabel, ih]
    | hole k' i =>
      have hiff : f k' = f k ↔ k' = k := ⟨hf k' k, congrArg f⟩
      simp [Slot.relabel, ih, hiff]

@[simp] theorem holes_none_map_relabel (l : List (Slot κ ι)) : holes none (l.map (Slot.relabel some)) = [] := by
  induction l with
  | nil => rfl
  | cons s l ih => cases s <;> simp [Slot.relabel, holes, ih]

/-- Code without holes of a kind is what it will be. -/
theorem raw_of_holes_nil {f : κ → Option τ} (hf : ∀ k' t, f k' = some t → k' = k) {l : List (Slot κ ι)}
    (h : holes k l = []) : l.map Slot.raw = l.map (Slot.resolve retarget f) := by
  induction l with
  | nil => rfl
  | cons s l ih =>
    cases s with
    | done i =>
      simp only [holes, map_eq_nil_iff] at h
      simp [Slot.raw, Slot.resolve, ih h]
    | hole k' i =>
      by_cases hk : k' = k
      · simp [holes, hk] at h
      · simp [if_neg hk] at h
        cases hfk : f k' with
        | none => simp [Slot.raw, Slot.resolve, hfk, ih h]
        | some t => exact absurd (hf k' t hfk) hk

/-- **Backpatching.** Patching the recorded indices of a kind fills its holes. -/
theorem patchAll_holes (l : List (Slot κ ι)) :
    patchAll (retarget t) (l.map Slot.raw) (holes k l) = (l.map (Slot.fill retarget k t)).map Slot.raw := by
  induction l with
  | nil => rfl
  | cons s l ih =>
    have hshift : ∀ x, patchAll (retarget t) (x :: l.map Slot.raw) ((holes k l).map (1 + ·)) =
        x :: (l.map (Slot.fill retarget k t)).map Slot.raw := by
      intro x
      have h := patchAll_shift (retarget t) [x] (l.map Slot.raw) (holes k l)
      rw [ih] at h
      exact h
    cases s with
    | done i => exact hshift i
    | hole k' i =>
      simp only [holes, map_cons, Slot.fill]
      split
      · exact hshift (retarget t i)
      · exact hshift i

@[simp] theorem holes_map_fill_self (l : List (Slot κ ι)) : holes k (l.map (Slot.fill retarget k t)) = [] := by
  induction l with
  | nil => rfl
  | cons s l ih =>
    cases s with
    | done i => simp [Slot.fill, ih]
    | hole k' i =>
      by_cases hk : k' = k
      · simp [Slot.fill, if_pos hk, ih]
      · simp [Slot.fill, if_neg hk, ih]

theorem holes_map_fill_ne {k' : κ} (hne : k' ≠ k) (l : List (Slot κ ι)) :
    holes k' (l.map (Slot.fill retarget k t)) = holes k' l := by
  induction l with
  | nil => rfl
  | cons s l ih =>
    cases s with
    | done i => simp [Slot.fill, ih]
    | hole k'' i =>
      by_cases hk : k'' = k
      · simp [Slot.fill, if_pos hk, ih, if_neg (hk ▸ hne.symm : k'' ≠ k')]
      · simp [Slot.fill, if_neg hk, ih]

theorem holes_map_fillNone (l : List (Slot (Option κ) ι)) :
    holes k (l.map (Slot.fillNone retarget t)) = holes (some k) l := by
  induction l with
  | nil => rfl
  | cons s l ih =>
    rcases s with i | ⟨_ | k', i⟩
    · simp [Slot.fillNone, ih]
    · simp [Slot.fillNone, ih]
    · simp [Slot.fillNone, ih]

/-- Backpatching of the innermost kind. -/
theorem patchAll_holes_none (l : List (Slot (Option κ) ι)) :
    patchAll (retarget t) (l.map Slot.raw) (holes none l) = (l.map (Slot.fillNone retarget t)).map Slot.raw := by
  rw [patchAll_holes, map_map, map_map]
  refine map_congr_left fun s _ => ?_
  rcases s with i | ⟨_ | k', i⟩ <;> rfl

end

/-! ## A list of references -/

/-- The holes with their kinds, in the order of the code. -/
@[simp] def refs : List (Slot κ ι) → List (Nat × κ)
  | [] => []
  | .done _ :: l => (refs l).map fun r => (1 + r.1, r.2)
  | .hole k _ :: l => (0, k) :: (refs l).map fun r => (1 + r.1, r.2)

/-- Patch the recorded references, each with the target of its kind. -/
def patchRefs (retarget : τ → ι → ι) (f : κ → τ) (l : List ι) (rs : List (Nat × κ)) : List ι :=
  rs.foldl (fun l r => l.modify r.1 (retarget (f r.2))) l

theorem map_shift_shift (rs : List (Nat × κ)) (m n : Nat) :
    (rs.map fun r => (m + r.1, r.2)).map (fun r => (n + r.1, r.2)) = rs.map fun r => (m + n + r.1, r.2) := by
  rw [map_map]
  refine map_congr_left fun r _ => ?_
  show (n + (m + r.1), r.2) = (m + n + r.1, r.2)
  rw [Prod.mk.injEq]
  exact ⟨by omega, rfl⟩

theorem refs_append (l₁ l₂ : List (Slot κ ι)) :
    refs (l₁ ++ l₂) = refs l₁ ++ (refs l₂).map fun r => (l₁.length + r.1, r.2) := by
  induction l₁ with
  | nil => simp
  | cons s l₁ ih =>
    cases s with
    | done i =>
      show (refs (l₁ ++ l₂)).map _ = (refs l₁).map _ ++ _
      rw [ih, map_append, map_shift_shift, length_cons]
    | hole k i =>
      show (0, k) :: (refs (l₁ ++ l₂)).map _ = ((0, k) :: (refs l₁).map _) ++ _
      rw [ih, map_append, map_shift_shift, length_cons, cons_append]

theorem patchRefs_shift (retarget : τ → ι → ι) (f : κ → τ) (x : ι) (l : List ι) (rs : List (Nat × κ)) :
    patchRefs retarget f (x :: l) (rs.map fun r => (1 + r.1, r.2)) = x :: patchRefs retarget f l rs := by
  induction rs generalizing l with
  | nil => rfl
  | cons r rs ih =>
    have hmodify := modify_behind (retarget (f r.2)) [x] l r.1
    show patchRefs retarget f ((x :: l).modify (1 + r.1) (retarget (f r.2))) _ = _
    rw [show (x :: l).modify (1 + r.1) (retarget (f r.2)) = x :: l.modify r.1 (retarget (f r.2)) from hmodify, ih]
    rfl

/-- **Backpatching** all references resolves the code. -/
theorem patchRefs_refs (retarget : τ → ι → ι) (f : κ → τ) (l : List (Slot κ ι)) :
    patchRefs retarget f (l.map Slot.raw) (refs l) = l.map (Slot.resolve retarget fun k => some (f k)) := by
  induction l with
  | nil => rfl
  | cons s l ih =>
    cases s with
    | done i =>
      show patchRefs retarget f (i :: l.map Slot.raw) ((refs l).map _) = i :: _
      rw [patchRefs_shift, ih]
    | hole k i =>
      show patchRefs retarget f (retarget (f k) i :: l.map Slot.raw) ((refs l).map _) = retarget (f k) i :: _
      rw [patchRefs_shift, ih]

end Audesys.Lib
