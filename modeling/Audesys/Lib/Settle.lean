import Audesys.Lib.Assign
import Mathlib.Data.List.Count

/-!
# `Lib.Settle` — writing at the places of a list

A pass over a list writes at one place after another, and a place may be written more than once. What counts is the last
write (`getElem?_settle`). Where what is written at an item depends on the items listed before it, the last write is the
one for the last time the item is listed (`setAll_withBefore`).
-/

open List

namespace Audesys.Lib

variable {A V : Type}

/-! ## Writes -/

/-- One write after another, each at its place. -/
def settle (put : V → A → A) (xs : List A) (ws : List (Nat × V)) : List A :=
  ws.foldl (fun xs w => xs.modify w.1 (put w.2)) xs

section
variable {put : V → A → A}

theorem settle_append (xs : List A) (ws ws' : List (Nat × V)) :
    settle put xs (ws ++ ws') = settle put (settle put xs ws) ws' := foldl_append

theorem settle_snoc (xs : List A) (ws : List (Nat × V)) (w : Nat × V) :
    settle put xs (ws ++ [w]) = (settle put xs ws).modify w.1 (put w.2) := settle_append xs ws [w]

/-- **The last write counts**, where a write covers the one before it. -/
theorem getElem?_settle (hput : ∀ v u x, put v (put u x) = put v x) (xs : List A) (ws : List (Nat × V)) (i : Nat) :
    (settle put xs ws)[i]? = xs[i]?.map fun x => (setAll ws i).elim x fun v => put v x := by
  induction ws using List.reverseRecOn with
  | nil => exact (Option.map_id' (x := xs[i]?)).symm
  | append_singleton ws w ih =>
    rw [settle_snoc, getElem?_modify, Option.map_eq_map, ih, setAll_snoc, Option.map_map]
    apply congrArg (Option.map · xs[i]?)
    funext x
    by_cases hi : i = w.1
    · rw [hi, Function.update_self, Function.comp_apply, if_pos rfl]
      cases setAll ws w.1 with
      | none => rfl
      | some u => exact hput w.2 u x
    · rw [Function.update_of_ne hi, Function.comp_apply, if_neg (Ne.symm hi)]

/-- What no write touches is everywhere as it was. -/
theorem getElem?_settle_map {B : Type} {f : A → B} (hf : ∀ v x, f (put v x) = f x) (xs : List A) (ws : List (Nat × V))
    (i : Nat) : (settle put xs ws)[i]?.map f = xs[i]?.map f := by
  induction ws using List.reverseRecOn with
  | nil => rfl
  | append_singleton ws w ih =>
    rw [settle_snoc, getElem?_modify, Option.map_eq_map, ← ih, Option.map_map]
    apply congrArg (Option.map · _)
    funext x
    rw [Function.comp_apply]
    split
    · exact hf w.2 x
    · rfl

end

/-! ## The last of several values -/

section
variable {K L : Type} [DecidableEq K]

theorem setAll_append (l l' : List (K × V)) (k : K) : setAll (l ++ l') k = (setAll l' k).or (setAll l k) := by
  induction l' using List.reverseRecOn with
  | nil =>
    rw [List.append_nil]
    rfl
  | append_singleton l' p ih =>
    rw [← List.append_assoc, setAll_snoc, setAll_snoc]
    by_cases hk : k = p.1
    · rw [hk, Function.update_self, Function.update_self, Option.some_or]
    · rw [Function.update_of_ne hk, Function.update_of_ne hk, ih]

theorem setAll_singleton (p : K × V) (k : K) : setAll [p] k = if k = p.1 then some p.2 else none := by
  rw [← nil_append [p], setAll_snoc, Function.update_apply]
  rfl

theorem setAll_eq_none {l : List (K × V)} {k : K} (h : k ∉ l.map Prod.fst) : setAll l k = none := by
  cases hget : setAll l k with
  | none => rfl
  | some v => exact absurd (mem_map.2 ⟨(k, v), mem_of_setAll hget, rfl⟩) h

/-- Only one part of a list sets a key. -/
theorem setAll_flatMap {f : L → List (K × V)} {ls : List L} {l : L} {k : K} (hmem : l ∈ ls)
    (honly : ∀ l' ∈ ls, k ∈ (f l').map Prod.fst → l' = l) : setAll (ls.flatMap f) k = setAll (f l) k := by
  induction ls using List.reverseRecOn with
  | nil => cases hmem
  | append_singleton ls l' ih =>
    have hold : ∀ a ∈ ls, k ∈ (f a).map Prod.fst → a = l := fun a ha => honly a (mem_append_left _ ha)
    rw [flatMap_append, flatMap_singleton, setAll_append]
    by_cases hin : l ∈ ls
    · rw [ih hin hold]
      by_cases hkey : k ∈ (f l').map Prod.fst
      · rw [honly l' (mem_append_right _ (mem_singleton_self l')) hkey, Option.or_self]
      · rw [setAll_eq_none hkey, Option.none_or]
    · have hl : l = l' := by
        rw [mem_append, mem_singleton] at hmem
        exact hmem.resolve_left hin
      have hnone : k ∉ (ls.flatMap f).map Prod.fst := by
        intro hkey
        obtain ⟨p, hp, rfl⟩ := mem_map.1 hkey
        obtain ⟨a, ha, hpa⟩ := mem_flatMap.1 hp
        exact hin (hold a ha (mem_map_of_mem hpa) ▸ ha)
      rw [setAll_eq_none hnone, Option.or_none, hl]

theorem setAll_map_value {W : Type} (f : K → V → W) (l : List (K × V)) (k : K) :
    setAll (l.map fun p => (p.1, f p.1 p.2)) k = (setAll l k).map (f k) := by
  induction l using List.reverseRecOn with
  | nil => rfl
  | append_singleton l p ih =>
    rw [map_append, map_singleton, setAll_append, setAll_append, setAll_singleton, setAll_singleton, ih]
    by_cases hk : k = p.1
    · rw [if_pos hk, if_pos hk, hk]
      rfl
    · rw [if_neg hk, if_neg hk]
      rfl

/-- The last value that is made of the items with a key is made of the last of these items, where a value is made of all
of them or of none. -/
theorem setAll_filterMap {key : L → K} {mark : L → Option V} {ls : List L}
    (hmark : ∀ l ∈ ls, ∀ l' ∈ ls, key l = key l' → (mark l).isSome = (mark l').isSome) (k : K) :
    setAll (ls.filterMap fun l => (mark l).map (key l, ·)) k = (setAll (ls.map fun l => (key l, l)) k).bind mark := by
  induction ls using List.reverseRecOn with
  | nil => rfl
  | append_singleton ls l ih =>
    have hold := ih fun a ha b hb => hmark a (mem_append_left _ ha) b (mem_append_left _ hb)
    rw [filterMap_append, setAll_append, map_append, map_singleton, setAll_append, setAll_singleton,
      hold]
    cases hl : mark l with
    | some v =>
      have hnew : [l].filterMap (fun l => (mark l).map (key l, ·)) = [(key l, v)] := by
        rw [filterMap_cons, hl]
        rfl
      rw [hnew, setAll_singleton]
      by_cases hk : k = key l
      · rw [if_pos hk, if_pos hk, Option.some_or, Option.some_or, Option.bind_some, hl]
      · rw [if_neg hk, if_neg hk, Option.none_or, Option.none_or]
    | none =>
      have hnew : [l].filterMap (fun l => (mark l).map (key l, ·)) = [] := by
        rw [filterMap_cons, hl]
        rfl
      rw [hnew]
      by_cases hk : k = key l
      · rw [if_pos hk, Option.some_or, Option.bind_some, hl, hk]
        show (setAll (ls.map fun l => (key l, l)) (key l)).bind mark = none
        -- an item with this key before would be one that nothing is made of, too
        cases hget : setAll (ls.map fun l => (key l, l)) (key l) with
        | none => rfl
        | some l' =>
          obtain ⟨l'', hmem, heq⟩ := mem_map.1 (mem_of_setAll hget)
          rw [Prod.mk.injEq] at heq
          rw [← heq.2, Option.bind_some, ← Option.isNone_iff_eq_none, ← Option.not_isSome,
            hmark l'' (mem_append_left _ hmem) l (mem_append_right _ (mem_singleton_self l)) heq.1, hl]
          rfl
      · rw [if_neg hk, Option.none_or]
        rfl

end

/-! ## What was listed before -/

/-- The items of a list, each with those listed before it. -/
def withBefore (before : List A) : List A → List (List A × A)
  | [] => []
  | a :: l => (before, a) :: withBefore (before ++ [a]) l

theorem withBefore_snoc (before l : List A) (a : A) :
    withBefore before (l ++ [a]) = withBefore before l ++ [(before ++ l, a)] := by
  induction l generalizing before with
  | nil => exact congrArg (fun b => [(b, a)]) (List.append_nil before).symm
  | cons b l ih =>
    rw [cons_append, withBefore, withBefore, ih, List.append_assoc]
    rfl

theorem map_snd_withBefore (before l : List A) : (withBefore before l).map Prod.snd = l := by
  induction l generalizing before with
  | nil => rfl
  | cons a l ih => exact congrArg (a :: ·) (ih (before ++ [a]))

section
variable {K : Type} [DecidableEq K]

/-- What stands before the last `k` of a list. -/
def beforeLast (l : List K) (k : K) : List K := ((l.reverse.dropWhile (· ≠ k)).tail).reverse

theorem beforeLast_snoc (l : List K) (a k : K) : beforeLast (l ++ [a]) k = if k = a then l else beforeLast l k := by
  unfold beforeLast
  rw [reverse_append, reverse_singleton, singleton_append, dropWhile_cons]
  by_cases hk : k = a
  · rw [if_pos hk, if_neg (by simp only [hk, ne_eq, not_true_eq_false, decide_false, Bool.false_eq_true,
      not_false_eq_true]), tail_cons, reverse_reverse]
  · rw [if_neg hk, if_pos (decide_eq_true (Ne.symm hk))]

theorem beforeLast_filterMap {B : Type} [DecidableEq B] {f : K → Option B} {k : K} {b : B}
    (hf : ∀ a, f a = some b ↔ a = k) (l : List K) : beforeLast (l.filterMap f) b = (beforeLast l k).filterMap f := by
  induction l using List.reverseRecOn with
  | nil => rfl
  | append_singleton l a ih =>
    rw [filterMap_append, beforeLast_snoc]
    cases ha : f a with
    | none =>
      have hne : k ≠ a := by
        rintro rfl
        rw [(hf k).2 rfl] at ha
        cases ha
      rw [filterMap_cons_none ha, filterMap_nil, List.append_nil, if_neg hne, ih]
    | some b' =>
      rw [filterMap_cons_some ha, filterMap_nil, beforeLast_snoc, ih]
      by_cases hk : k = a
      · have hb : b = b' := Option.some.inj (((hf a).2 hk.symm).symm.trans ha)
        rw [if_pos hb, if_pos hk]
      · have hb : b ≠ b' := fun heq => hk ((hf a).1 (ha.trans (congrArg some heq.symm))).symm
        rw [if_neg hb, if_neg hk]

/-- The last time that an item is listed, and what was listed before. -/
theorem setAll_withBefore (l : List K) (k : K) :
    setAll ((withBefore [] l).map Prod.swap) k = if k ∈ l then some (beforeLast l k) else none := by
  induction l using List.reverseRecOn with
  | nil => rfl
  | append_singleton l a ih =>
    rw [withBefore_snoc, map_append, map_singleton, setAll_append, setAll_singleton, beforeLast_snoc,
      nil_append, ih]
    show (if k = a then some l else none).or _ = _
    by_cases hk : k = a
    · rw [if_pos hk, if_pos hk, Option.some_or,
        if_pos (mem_append_right _ (mem_singleton.2 hk))]
    · rw [if_neg hk, if_neg hk, Option.none_or]
      simp only [mem_append, mem_singleton, hk, or_false]

end

end Audesys.Lib
