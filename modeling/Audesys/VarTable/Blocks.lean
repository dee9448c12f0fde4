import Audesys.VarTable.Model

/-!
# `VarTable.Blocks` — the lines of a text and its first block

A text that is put together from lines has those lines (`splitLines_intercalate`), with either line end. So what
`serializeLocalVars` writes differs from the text in the lines inside the first block only (`FirstBlock.serialize`).
-/

open List

namespace Audesys.VarTable

open Audesys.Lib

/-! ## Lines -/

theorem stripCr_concat (l : List Char) : stripCr (l ++ ['\r']) = l := by
  unfold stripCr
  rw [getLast?_concat, if_pos rfl, dropLast_concat]

theorem stripCr_of_ne {l : List Char} (h : l.getLast? ≠ some '\r') : stripCr l = l := if_neg h

/-- Lines that end in a carriage return, the last one apart. -/
def withReturns (ls : List (List Char)) : List (List Char) := ls.dropLast.map (· ++ ['\r']) ++ ls.getLast?.toList

theorem intercalate_crlf (ls : List (List Char)) :
    ['\r', '\n'].intercalate ls = ['\n'].intercalate (withReturns ls) := by
  induction ls with
  | nil => rfl
  | cons l ls ih =>
    cases ls with
    | nil => rfl
    | cons l' ls =>
      have hcons : withReturns (l :: l' :: ls) = (l ++ ['\r']) :: withReturns (l' :: ls) := by
        unfold withReturns
        rw [dropLast_cons_of_ne_nil (cons_ne_nil _ _), getLast?_cons_cons]
        rfl
      have hne : withReturns (l' :: ls) ≠ [] := by
        unfold withReturns
        rw [getLast?_cons]
        exact append_ne_nil_of_right_ne_nil _ (cons_ne_nil _ _)
      obtain ⟨first, rest, hfirst⟩ := exists_cons_of_ne_nil hne
      rw [hcons, intercalate_cons_cons, ih, hfirst, intercalate_cons_cons]
      simp

/-- The line end in a text. -/
def eolOf (text : List Char) : List Char := if ['\r', '\n'] <:+: text then ['\r', '\n'] else ['\n']

/-- The lines can be put together with this line end. -/
def Joins (eol : List Char) (ls : List (List Char)) : Prop :=
  eol = ['\r', '\n'] ∨ (eol = ['\n'] ∧ ∀ l ∈ ls.dropLast, l.getLast? ≠ some '\r')

/-- What is behind the last line feed is a line as it is. -/
theorem splitLines_eq {text : List Char} {front : List (List Char)} {last : List Char}
    (h : text.splitOn '\n' = front ++ [last]) : splitLines text = front.map stripCr ++ [last] := by
  unfold splitLines
  rw [h]
  dsimp only
  rw [dropLast_concat, getLast?_concat]
  rfl

theorem exists_splitOn (text : List Char) : ∃ front last, text.splitOn '\n' = front ++ [last] :=
  (eq_nil_or_concat' (text.splitOn '\n')).resolve_left (splitOn_ne_nil '\n' text)

/-- **The lines** of a text that was put together from lines. -/
theorem splitLines_intercalate {ls : List (List Char)} {eol : List Char} (hne : ls ≠ []) (hfeed : ∀ l ∈ ls, '\n' ∉ l)
    (heol : Joins eol ls) : splitLines (eol.intercalate ls) = ls := by
  obtain ⟨front, last, rfl⟩ := (eq_nil_or_concat' ls).resolve_left hne
  rcases heol with rfl | ⟨rfl, hreturn⟩
  · have hreturns : withReturns (front ++ [last]) = front.map (· ++ ['\r']) ++ [last] := by
      unfold withReturns
      rw [dropLast_concat, getLast?_concat]
      rfl
    have hfeed' : ∀ l ∈ front.map (· ++ ['\r']) ++ [last], '\n' ∉ l := by
      intro l hl
      rcases mem_append.1 hl with hl | hl
      · obtain ⟨l', hl', rfl⟩ := mem_map.1 hl
        simpa using hfeed l' (mem_append_left _ hl')
      · exact hfeed l (mem_append_right _ hl)
    have hstrip : front.map (stripCr ∘ (· ++ ['\r'])) = front :=
      (map_congr_left fun l _ => stripCr_concat l).trans (map_id front)
    rw [intercalate_crlf, hreturns, splitLines_eq (splitOn_intercalate '\n' hfeed' (by simp)), map_map,
      hstrip]
  · rw [dropLast_concat] at hreturn
    have hstrip : front.map stripCr = front :=
      (map_congr_left fun l hl => stripCr_of_ne (hreturn l hl)).trans (map_id front)
    rw [splitLines_eq (splitOn_intercalate '\n' hfeed (by simp)), hstrip]

theorem feed_not_mem_splitLines {text l : List Char} (h : l ∈ splitLines text) : '\n' ∉ l := by
  have hpiece : ∀ piece ∈ text.splitOn '\n', '\n' ∉ piece := by
    intro piece hin hfeed
    have hsep := (mem_splitOnP hin _ hfeed).2
    cases hsep
  rcases mem_append.1 h with h | h
  · obtain ⟨piece, hin, rfl⟩ := mem_map.1 h
    intro hfeed
    exact hpiece piece (dropLast_subset _ hin) (stripCr_subset piece hfeed)
  · exact hpiece l (mem_of_getLast? (Option.mem_toList.1 h))

/-- Of lines joined with line feeds, one that is not the last ends where a line feed follows. -/
theorem crlf_of_mem {ls : List (List Char)} {l : List Char} (hl : l ∈ ls.dropLast) (hlast : l.getLast? = some '\r') :
    ['\r', '\n'] <:+: ['\n'].intercalate ls := by
  induction ls with
  | nil => cases hl
  | cons first ls ih =>
    cases ls with
    | nil => cases hl
    | cons second ls =>
      rw [intercalate_cons_cons]
      rw [dropLast_cons_of_ne_nil (cons_ne_nil _ _)] at hl
      rcases mem_cons.1 hl with rfl | hl
      · obtain ⟨front, rfl⟩ := getLast?_eq_some_iff.1 hlast
        exact ⟨front, ['\n'].intercalate (second :: ls), by simp⟩
      · exact (ih hl).trans (suffix_append _ _).isInfix

/-- The lines of a text can be put together with its line end. -/
theorem joins_splitLines (text : List Char) : Joins (eolOf text) (splitLines text) := by
  unfold Joins eolOf
  by_cases hcrlf : ['\r', '\n'] <:+: text
  · exact .inl (if_pos hcrlf)
  · refine .inr ⟨if_neg hcrlf, ?_⟩
    intro l hl hlast
    obtain ⟨front, last, hsplit⟩ := exists_splitOn text
    have hpieces : ∀ piece ∈ front, piece.getLast? ≠ some '\r' := by
      intro piece hin hend
      apply hcrlf
      have htext : ['\n'].intercalate (text.splitOn '\n') = text := intercalate_splitOn '\n'
      rw [← htext, hsplit]
      exact crlf_of_mem (by rwa [dropLast_concat]) hend
    rw [splitLines_eq hsplit, dropLast_concat] at hl
    obtain ⟨piece, hin, rfl⟩ := mem_map.1 hl
    rw [stripCr_of_ne (hpieces piece hin)] at hlast
    exact hpieces piece hin hlast

/-! ## The first block -/

/-- The first plain `VAR` block of lines. -/
structure FirstBlock (ls before : List (List Char)) (opening : List Char) (inner : List (List Char))
    (closing : List Char) (after : List (List Char)) : Prop where
  lines : ls = before ++ opening :: (inner ++ closing :: after)
  before : ∀ l ∈ before, trimText l ≠ "VAR".toList
  opening : trimText opening = "VAR".toList
  inner : ∀ l ∈ inner, trimText l ≠ "END_VAR".toList
  closing : trimText closing = "END_VAR".toList

/-- The first element with a property, and those in front of it. -/
theorem findIdx?_some_iff {α : Type} {p : α → Bool} {l : List α} {i : Nat} :
    l.findIdx? p = some i ↔
      ∃ pre x post, l = pre ++ x :: post ∧ pre.length = i ∧ p x = true ∧ ∀ y ∈ pre, p y = false := by
  constructor
  · intro h
    obtain ⟨hi, hx, hpre⟩ := findIdx?_eq_some_iff_getElem.1 h
    refine ⟨l.take i, l[i], l.drop (i + 1), ?_, length_take_of_le hi.le, hx, ?_⟩
    · rw [getElem_cons_drop, take_append_drop]
    · intro y hy
      obtain ⟨j, hj, rfl⟩ := mem_iff_getElem.1 hy
      rw [getElem_take]
      rw [length_take] at hj
      exact Bool.eq_false_iff.2 (hpre j (by omega))
  · rintro ⟨pre, x, post, rfl, rfl, hx, hpre⟩
    rw [findIdx?_append, findIdx?_eq_none_iff.2 hpre, findIdx?_cons, hx]
    simp

theorem findFirstLocalVarBlock_iff {text : List Char} {startLine endLine : Nat} :
    findFirstLocalVarBlock text = some (startLine, endLine) ↔ ∃ before opening inner closing after,
      FirstBlock (splitLines text) before opening inner closing after ∧ startLine = before.length ∧
        endLine = before.length + 1 + inner.length := by
  unfold findFirstLocalVarBlock
  simp only [Option.bind_eq_bind, Option.bind_eq_some_iff, Option.some.injEq, Prod.mk.injEq, findIdx?_some_iff,
    decide_eq_true_eq, decide_eq_false_iff_not]
  constructor
  · rintro ⟨_, ⟨before, opening, rest, hlines, rfl, hopening, hbefore⟩, _,
      ⟨inner, closing, after, hrest, rfl, hclosing, hinner⟩, rfl, rfl⟩
    have hdrop : (splitLines text).drop (before.length + 1) = rest := by
      rw [hlines, drop_length_add_append]
      rfl
    rw [hdrop] at hrest
    rw [hrest] at hlines
    exact ⟨before, opening, inner, closing, after, ⟨hlines, hbefore, hopening, hinner, hclosing⟩, rfl, rfl⟩
  · rintro ⟨before, opening, inner, closing, after, h, rfl, rfl⟩
    refine ⟨_, ⟨before, opening, _, h.lines, rfl, h.opening, h.before⟩, _, ⟨inner, closing, after, ?_, rfl, h.closing,
      h.inner⟩, rfl, rfl⟩
    rw [h.lines, drop_length_add_append]
    rfl

section
variable {text : List Char} {before inner after : List (List Char)} {opening closing : List Char}

theorem FirstBlock.find (h : FirstBlock (splitLines text) before opening inner closing after) :
    findFirstLocalVarBlock text = some (before.length, before.length + 1 + inner.length) :=
  findFirstLocalVarBlock_iff.2 ⟨_, _, _, _, _, h, rfl, rfl⟩

/-- The lines up to the one that opens the block, and those from the one that closes it. -/
theorem FirstBlock.around (h : FirstBlock (splitLines text) before opening inner closing after) :
    (splitLines text).take (before.length + 1) = before ++ [opening] ∧
      (splitLines text).take (before.length + 1 + inner.length) = before ++ [opening] ++ inner ∧
      (splitLines text).drop (before.length + 1 + inner.length) = closing :: after := by
  have hlines : splitLines text = (before ++ [opening]) ++ (inner ++ closing :: after) := by
    rw [h.lines, List.append_assoc]
    rfl
  have hlines' : splitLines text = (before ++ [opening] ++ inner) ++ closing :: after := by
    rw [hlines, List.append_assoc _ inner]
  have hlen : (before ++ [opening] ++ inner).length = before.length + 1 + inner.length := by
    rw [length_append, length_append, length_singleton]
  refine ⟨?_, ?_, ?_⟩
  · rw [hlines]
    exact take_left' (by rw [length_append, length_singleton])
  · rw [hlines']
    exact take_left' hlen
  · rw [hlines']
    exact drop_left' hlen

/-- The rows are those of the lines inside. -/
theorem FirstBlock.parse (h : FirstBlock (splitLines text) before opening inner closing after) :
    parseLocalVars text = inner.filterMap fun raw => declaration (trimText raw) := by
  have hinner : ((splitLines text).take (before.length + 1 + inner.length)).drop (before.length + 1) = inner := by
    rw [h.around.2.1]
    exact drop_left' (by rw [length_append, length_singleton])
  unfold parseLocalVars
  rw [h.find]
  dsimp only
  rw [hinner]

/-- A line that may stand inside the block. -/
structure IsInner (l : List Char) : Prop where
  feed : '\n' ∉ l
  last : l.getLast? ≠ some '\r'
  closing : trimText l ≠ "END_VAR".toList

/-- **What is written**: the same lines around the rows. -/
theorem FirstBlock.serialize (h : FirstBlock (splitLines text) before opening inner closing after)
    {vars : List GvlVariable} (hrows : ∀ v ∈ vars, IsInner (row v)) :
    FirstBlock (splitLines (serializeLocalVars text vars)) before opening (vars.map row) closing after := by
  obtain ⟨hhead, _, htail⟩ := h.around
  have hrow : ∀ l ∈ vars.map row, IsInner l := forall_mem_map.2 hrows
  have hmem : ∀ l, l ∈ before ++ [opening] ∨ l ∈ closing :: after → l ∈ splitLines text := by
    intro l hl
    rw [h.lines]
    simp at hl ⊢
    tauto
  -- the lines other than the last one
  have hdropLast : ∀ ls : List (List Char), (before ++ [opening] ++ ls ++ closing :: after).dropLast =
      before ++ [opening] ++ ls ++ (closing :: after).dropLast :=
    fun ls => dropLast_append_of_ne_nil (cons_ne_nil _ _)
  have hjoins : Joins (eolOf text) (before ++ [opening] ++ vars.map row ++ closing :: after) := by
    refine (joins_splitLines text).imp_right ?_
    rintro ⟨heol, hreturn⟩
    refine ⟨heol, ?_⟩
    have hlines : splitLines text = before ++ [opening] ++ inner ++ closing :: after := by
      rw [h.lines]
      simp
    rw [hlines, hdropLast] at hreturn
    intro l hl
    rw [hdropLast] at hl
    simp only [mem_append] at hl hreturn
    rcases hl with (hl | hl) | hl
    · exact hreturn l (.inl (.inl hl))
    · exact (hrow l hl).last
    · exact hreturn l (.inr hl)
  have hsplit : splitLines (serializeLocalVars text vars) = before ++ [opening] ++ vars.map row ++ closing :: after := by
    unfold serializeLocalVars
    rw [h.find]
    dsimp only
    rw [hhead, htail]
    apply splitLines_intercalate (by simp) _ hjoins
    intro l hl
    simp only [mem_append] at hl hmem
    rcases hl with (hl | hl) | hl
    · exact feed_not_mem_splitLines (hmem l (.inl hl))
    · exact (hrow l hl).feed
    · exact feed_not_mem_splitLines (hmem l (.inr hl))
  exact ⟨by rw [hsplit]; simp, h.before, h.opening, fun l hl => (hrow l hl).closing, h.closing⟩

end

end Audesys.VarTable
