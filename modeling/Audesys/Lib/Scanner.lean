import Mathlib.Data.List.Basic
import Mathlib.Data.List.Induction

/-!
# `Lib.Scanner` — decoders that are fed in chunks

A scanner takes one item off the front of its input: an item to keep, or one to skip. It waits where the input is too
short to tell, and what it has decided stays decided when more comes. `receive_eq` says that such a decoder gives the same
items for every way of cutting the input into chunks.
-/

namespace Audesys.Lib

variable {U F : Type}

/-- A scanner with what makes it a decoder of streams: each item is taken off the front, and more input behind it makes no
difference. -/
structure Scanner (U F : Type) where
  next : List U → Option (Option F × List U)
  shorter : ∀ {s x rest}, next s = some (x, rest) → rest.length < s.length
  extend : ∀ {s x rest}, next s = some (x, rest) → ∀ t, next (s ++ t) = some (x, rest ++ t)

namespace Scanner

variable (sc : Scanner U F)

def decodeAux : Nat → List U → List F × List U
  | 0, s => ([], s)
  | fuel + 1, s =>
    match sc.next s with
    | none => ([], s)
    | some (x, rest) => (x.toList ++ (decodeAux fuel rest).1, (decodeAux fuel rest).2)

/-- The items of the input as far as they can be told, and the rest of it. -/
def decode (s : List U) : List F × List U := sc.decodeAux s.length s

variable {sc}

/-- The length of the input is fuel enough. -/
theorem decodeAux_eq {n : Nat} {s : List U} (h : s.length ≤ n) : sc.decodeAux n s = sc.decode s := by
  unfold decode
  induction n using Nat.strongRecOn generalizing s with
  | _ n ih =>
    cases n with
    | zero => rw [Nat.le_zero.1 h]
    | succ n =>
      cases hs : s.length with
      | zero =>
        have hnil := List.length_eq_zero_iff.1 hs
        have hnext : sc.next s = none := by
          cases hnext : sc.next s with
          | none => rfl
          | some item =>
            have hlt := sc.shorter hnext
            rw [hs] at hlt
            exact absurd hlt (Nat.not_lt_zero _)
        unfold decodeAux
        rw [hnext]
      | succ k =>
        unfold decodeAux
        cases hnext : sc.next s with
        | none => rfl
        | some item =>
          obtain ⟨x, rest⟩ := item
          have hlt := sc.shorter hnext
          have hn : rest.length ≤ n := by omega
          have hk : rest.length ≤ k := by omega
          dsimp only
          rw [ih n (Nat.lt_succ_self n) hn, ih k (by omega) hk]

theorem decode_none {s : List U} (h : sc.next s = none) : sc.decode s = ([], s) := by
  unfold decode
  cases s.length with
  | zero => rfl
  | succ n =>
    unfold decodeAux
    rw [h]

theorem decode_some {s : List U} {x : Option F} {rest : List U} (h : sc.next s = some (x, rest)) :
    sc.decode s = (x.toList ++ (sc.decode rest).1, (sc.decode rest).2) := by
  have hlt := sc.shorter h
  cases hs : s.length with
  | zero =>
    rw [hs] at hlt
    exact absurd hlt (Nat.not_lt_zero _)
  | succ n =>
    have hn : rest.length ≤ n := by omega
    have hstep : sc.decode s = sc.decodeAux (n + 1) s := (decodeAux_eq (Nat.le_of_eq hs)).symm
    rw [hstep]
    unfold decodeAux
    rw [h]
    dsimp only
    rw [decodeAux_eq hn]

/-- Input behind the input: the items of the rest with what comes. -/
theorem decode_append (s t : List U) :
    sc.decode (s ++ t) = ((sc.decode s).1 ++ (sc.decode ((sc.decode s).2 ++ t)).1, (sc.decode ((sc.decode s).2 ++ t)).2) := by
  induction hn : s.length using Nat.strongRecOn generalizing s with
  | _ n ih =>
    cases hnext : sc.next s with
    | none =>
      rw [decode_none hnext]
      rfl
    | some item =>
      obtain ⟨x, rest⟩ := item
      have hlt := sc.shorter hnext
      rw [decode_some hnext, decode_some (sc.extend hnext t), ih rest.length (hn ▸ hlt) rest rfl]
      dsimp only
      rw [List.append_assoc]

/-! ## Chunks -/

variable (sc)

/-- A chunk comes: the items so far and what is left over. -/
def feed (state : List F × List U) (chunk : List U) : List F × List U :=
  (state.1 ++ (sc.decode (state.2 ++ chunk)).1, (sc.decode (state.2 ++ chunk)).2)

def receive (chunks : List (List U)) : List F × List U := chunks.foldl sc.feed ([], [])

variable {sc}

/-- **Chunks make no difference**: what is received is what the whole input decodes to. -/
theorem receive_eq (hnil : sc.next [] = none) (chunks : List (List U)) : sc.receive chunks = sc.decode chunks.flatten := by
  unfold receive
  induction chunks using List.reverseRecOn with
  | nil => exact (decode_none hnil).symm
  | append_singleton chunks chunk ih =>
    rw [List.foldl_append, List.foldl_cons, List.foldl_nil, ih, List.flatten_append, List.flatten_singleton,
      decode_append]
    rfl

/-- A stream of items decodes to them. -/
theorem decode_items (hnil : sc.next [] = none) {α : Type} {encode : α → List U} {item : α → F} {xs : List α}
    (h : ∀ x ∈ xs, ∀ t, sc.next (encode x ++ t) = some (some (item x), t)) :
    sc.decode (xs.flatMap encode) = (xs.map item, []) := by
  induction xs with
  | nil => exact decode_none hnil
  | cons x xs ih =>
    rw [List.flatMap_cons, decode_some (h x (List.mem_cons_self ..) _), ih fun y hy => h y (List.mem_cons_of_mem _ hy)]
    rfl

end Scanner

end Audesys.Lib
