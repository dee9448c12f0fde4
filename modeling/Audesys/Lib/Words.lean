import Audesys.Lib.Text

/-!
# `Lib.Words` — a text cut between its words

The words of a text are those in front of a cut and those behind it, unless the cut goes through a word
(`splitWhitespace_cut`). A text that has a first word is white space, that word, and the rest (`exists_of_words`).
-/

open List

namespace Audesys.Lib

/-- White space only. -/
def IsBlank (s : List Char) : Prop := ∀ c ∈ s, isWhitespace c = true

/-- No word goes on across the cut. -/
def IsCut (a b : List Char) : Prop :=
  a = [] ∨ b = [] ∨ (∃ c, a.getLast? = some c ∧ isWhitespace c = true) ∨ ∃ c, b.head? = some c ∧ isWhitespace c = true

theorem splitWhitespace_space (a : List Char) {c : Char} (hc : isWhitespace c = true) (b : List Char) :
    splitWhitespace (a ++ c :: b) = splitWhitespace a ++ splitWhitespace b := by
  unfold splitWhitespace
  rw [splitOnP_append_cons a b hc, filter_append]

theorem splitWhitespace_nil : splitWhitespace [] = [] := rfl

theorem splitWhitespace_space_cons {c : Char} (hc : isWhitespace c = true) (b : List Char) :
    splitWhitespace (c :: b) = splitWhitespace b :=
  splitWhitespace_space [] hc b

theorem splitWhitespace_concat (a : List Char) {c : Char} (hc : isWhitespace c = true) :
    splitWhitespace (a ++ [c]) = splitWhitespace a := by
  rw [splitWhitespace_space a hc, splitWhitespace_nil, List.append_nil]

/-- **The words on both sides of a cut.** -/
theorem splitWhitespace_cut {a b : List Char} (h : IsCut a b) :
    splitWhitespace (a ++ b) = splitWhitespace a ++ splitWhitespace b := by
  rcases h with rfl | rfl | ⟨c, hc, hspace⟩ | ⟨c, hc, hspace⟩
  · rfl
  · rw [List.append_nil, splitWhitespace_nil, List.append_nil]
  · obtain ⟨front, rfl⟩ := getLast?_eq_some_iff.1 hc
    rw [List.append_assoc, singleton_append, splitWhitespace_space front hspace, splitWhitespace_concat front hspace]
  · obtain ⟨rest, rfl⟩ := head?_eq_some_iff.1 hc
    rw [splitWhitespace_space a hspace, splitWhitespace_space_cons hspace]

theorem splitWhitespace_pad {pad : List Char} (h : IsBlank pad) (s : List Char) :
    splitWhitespace (pad ++ s) = splitWhitespace s := by
  induction pad with
  | nil => rfl
  | cons c pad ih =>
    rw [cons_append, splitWhitespace_space_cons (h c mem_cons_self), ih fun d hd => h d (mem_cons_of_mem _ hd)]

theorem splitWhitespace_blank {s : List Char} (h : IsBlank s) : splitWhitespace s = [] := by
  have hpad := splitWhitespace_pad h []
  rwa [List.append_nil, splitWhitespace_nil] at hpad

theorem splitWhitespace_append_blank (s : List Char) {pad : List Char} (h : IsBlank pad) :
    splitWhitespace (s ++ pad) = splitWhitespace s := by
  cases pad with
  | nil => rw [List.append_nil]
  | cons c pad =>
    rw [splitWhitespace_space s (h c mem_cons_self),
      splitWhitespace_blank fun d hd => h d (mem_cons_of_mem _ hd), List.append_nil]

/-- Without white space there is at most one word. -/
theorem splitWhitespace_solid {s : List Char} (h : ∀ c ∈ s, isWhitespace c = false) :
    splitWhitespace s = if s = [] then [] else [s] := by
  by_cases hs : s = []
  · rw [if_pos hs, hs, splitWhitespace_nil]
  · rw [if_neg hs, splitWhitespace_word ⟨hs, h⟩]

/-! ## The ends of a text -/

theorem trimEnd_eq_nil {s : List Char} : trimEnd s = [] ↔ IsBlank s := by
  unfold trimEnd
  rw [rdropWhile_eq_nil_iff]
  rfl

theorem exists_trimEnd (s : List Char) : ∃ pad, s = trimEnd s ++ pad ∧ IsBlank pad := by
  refine ⟨s.rtakeWhile isWhitespace, rdropWhile_append_rtakeWhile.symm, ?_⟩
  intro c hc
  exact mem_rtakeWhile_imp hc

theorem exists_trim (s : List Char) : ∃ pad, trimEnd s = pad ++ trim s ∧ IsBlank pad := by
  have hsplit : s.takeWhile isWhitespace ++ s.dropWhile isWhitespace = s := takeWhile_append_dropWhile
  have hblank : IsBlank (s.takeWhile isWhitespace) := fun c hc => mem_takeWhile_imp hc
  have hend := trimEnd_append (s.takeWhile isWhitespace) (s.dropWhile isWhitespace)
  rw [hsplit] at hend
  have htrim : trim s = trimEnd (s.dropWhile isWhitespace) := rfl
  rw [hend, htrim]
  split
  · rename_i hrest
    refine ⟨[], ?_, fun c hc => absurd hc not_mem_nil⟩
    rw [hrest, trimEnd_eq_nil.2 hblank]
    rfl
  · exact ⟨s.takeWhile isWhitespace, rfl, hblank⟩

theorem splitWhitespace_append_trimEnd (s t : List Char) : splitWhitespace (s ++ trimEnd t) = splitWhitespace (s ++ t) := by
  obtain ⟨pad, hpad, hblank⟩ := exists_trimEnd t
  have hwords := splitWhitespace_append_blank (s ++ trimEnd t) hblank
  rw [List.append_assoc, ← hpad] at hwords
  exact hwords.symm

theorem trim_isInfix (s : List Char) : trim s <:+: s := by
  obtain ⟨pad, hpad, _⟩ := exists_trim s
  obtain ⟨pad', hpad', _⟩ := exists_trimEnd s
  refine ⟨pad, pad', ?_⟩
  rw [← hpad, ← hpad']

theorem trimEnd_isPrefix (s : List Char) : trimEnd s <+: s := by
  obtain ⟨pad, hpad, _⟩ := exists_trimEnd s
  exact ⟨pad, hpad.symm⟩

/-! ## The first word -/

/-- The first run of characters that are no white space. -/
theorem exists_front (s : List Char) : ∃ w t, s = w ++ t ∧ (∀ c ∈ w, isWhitespace c = false) ∧
    (t = [] ∨ ∃ c t', t = c :: t' ∧ isWhitespace c = true) := by
  induction s with
  | nil => exact ⟨[], [], rfl, fun c hc => absurd hc not_mem_nil, .inl rfl⟩
  | cons c s ih =>
    by_cases hc : isWhitespace c = true
    · exact ⟨[], c :: s, rfl, fun c hc => absurd hc not_mem_nil, .inr ⟨c, s, rfl, hc⟩⟩
    · obtain ⟨w, t, rfl, hw, ht⟩ := ih
      refine ⟨c :: w, t, rfl, ?_, ht⟩
      intro d hd
      rcases mem_cons.1 hd with rfl | hd
      · exact Bool.not_eq_true _ ▸ hc
      · exact hw d hd

/-- White space or nothing. -/
def StartsBlank (t : List Char) : Prop := t = [] ∨ ∃ c t', t = c :: t' ∧ isWhitespace c = true

theorem StartsBlank.trimEnd {t : List Char} (h : StartsBlank t) : StartsBlank (trimEnd t) := by
  cases hend : Lib.trimEnd t with
  | nil => exact .inl rfl
  | cons c s =>
    obtain ⟨pad, hpad, _⟩ := exists_trimEnd t
    rw [hend] at hpad
    rcases h with rfl | ⟨d, t', rfl, hd⟩
    · cases hpad
    · cases hpad
      exact .inr ⟨_, _, rfl, hd⟩

theorem splitWhitespace_behind {w t : List Char} (hw : IsWord w) (ht : StartsBlank t) :
    splitWhitespace (w ++ t) = w :: splitWhitespace t := by
  rcases ht with rfl | ⟨c, t', rfl, hc⟩
  · rw [List.append_nil, splitWhitespace_word hw, splitWhitespace_nil]
  · rw [splitWhitespace_cons hw hc, splitWhitespace_space_cons hc]

/-- **The first word** of a text that has one. -/
theorem exists_of_words {s w : List Char} {ws : List (List Char)} (h : splitWhitespace s = w :: ws) :
    ∃ pad t, s = pad ++ (w ++ t) ∧ IsBlank pad ∧ IsWord w ∧ StartsBlank t ∧ splitWhitespace t = ws := by
  induction s with
  | nil => cases h
  | cons c s ih =>
    by_cases hc : isWhitespace c = true
    · rw [splitWhitespace_space_cons hc] at h
      obtain ⟨pad, t, rfl, hpad, hrest⟩ := ih h
      refine ⟨c :: pad, t, rfl, ?_, hrest⟩
      intro d hd
      rcases mem_cons.1 hd with rfl | hd
      · exact hc
      · exact hpad d hd
    · clear ih
      obtain ⟨v, t, hs, hv, ht⟩ := exists_front (c :: s)
      have hne : v ≠ [] := by
        rintro rfl
        rcases ht with rfl | ⟨d, t', rfl, hd⟩
        · cases hs
        · cases hs
          exact hc hd
      rw [hs, splitWhitespace_behind ⟨hne, hv⟩ ht] at h
      cases h
      exact ⟨[], t, hs, fun d hd => absurd hd not_mem_nil, ⟨hne, hv⟩, ht, rfl⟩

/-- The words hold the characters that are no white space. -/
theorem flatten_splitWhitespace (s : List Char) : (splitWhitespace s).flatten = s.filter fun c => !isWhitespace c := by
  unfold splitWhitespace
  rw [flatten_filter_not_isEmpty]
  induction s with
  | nil => rfl
  | cons c s ih =>
    rw [splitOnP_cons_eq_if_modifyHead, filter_cons]
    by_cases hc : isWhitespace c = true
    · rw [if_pos hc, flatten_cons, nil_append, ih, if_neg (by rw [hc]; decide)]
    · rw [if_neg hc, if_pos (by rw [Bool.not_eq_true] at hc; rw [hc]; rfl), ← ih]
      cases h : s.splitOnP isWhitespace with
      | nil => exact absurd h (splitOnP_ne_nil _ s)
      | cons first rest => rfl

/-- A text without words is white space. -/
theorem splitWhitespace_eq_nil {s : List Char} : splitWhitespace s = [] ↔ IsBlank s := by
  constructor
  · intro h c hc
    by_contra hspace
    have hin : c ∈ s.filter fun c => !isWhitespace c := mem_filter.2 ⟨hc, by simpa using hspace⟩
    rw [← flatten_splitWhitespace, h] at hin
    cases hin
  · exact splitWhitespace_blank

end Audesys.Lib
