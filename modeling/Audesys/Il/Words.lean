import Audesys.Il.Lines
import Audesys.Lib.Words

/-!
# `Il.Words` — a line by its words

The lexer takes a line by the words of its code, which is the line without its comments (`codeWords`). What it makes
of them is a function of the words alone (`wordTokens`), unless a comment stands in front of everything: then the line
is dropped (`tokenizeLine_eq`). White space around a line does not matter, and a word that no comment opens in is
a word of the code (`codeWords_cons`).
-/

open List

namespace Audesys.Il

open Audesys.Hal Audesys.Lib

/-! ## Comments -/

/-- No comment opens in the text. -/
def NoComment (s : List Char) : Prop := ¬ ['(', '*'] <:+: s

theorem NoComment.of_append {s t : List Char} (h : NoComment (s ++ t)) : NoComment s ∧ NoComment t :=
  ⟨fun hs => h (hs.trans (infix_append' [] s t)), fun ht => h (ht.trans (suffix_append s t).isInfix)⟩

theorem NoComment.of_not_paren {s : List Char} (h : '(' ∉ s) : NoComment s := fun hs => h (hs.subset mem_cons_self)

/-- A text in which no comment opens, the first character behind it included, is code. -/
theorem removeInlineComments_front {s t : List Char} (h : NoComment (s ++ t.take 1)) :
    removeInlineComments false (s ++ t) = s ++ removeInlineComments false t := by
  induction s with
  | nil => rfl
  | cons c s ih =>
    have hrest := ih fun hs => h (hs.trans (suffix_cons c _).isInfix)
    rw [cons_append, removeInlineComments, hrest, cons_append]
    rintro rest rfl heq
    apply h
    cases s with
    | nil =>
      rw [show t = '*' :: rest from heq]
      exact infix_refl _
    | cons d s =>
      cases heq
      exact (prefix_append ['(', '*'] (s ++ t.take 1)).isInfix

theorem removeInlineComments_code {s : List Char} (h : NoComment s) : removeInlineComments false s = s := by
  have hfront := @removeInlineComments_front s [] (by rw [take_nil, List.append_nil]; exact h)
  rwa [List.append_nil, removeInlineComments, List.append_nil] at hfront

/-- Two characters of a longer text are in the text, or the second is the new one. -/
theorem pair_infix_concat {x y c : Char} {s : List Char} (h : [x, y] <:+: s ++ [c]) :
    [x, y] <:+: s ∨ (s.getLast? = some x ∧ c = y) := by
  obtain ⟨a, b, heq⟩ := h
  rcases eq_nil_or_concat' b with rfl | ⟨b', d, rfl⟩
  · rw [List.append_nil] at heq
    have hsplit : (a ++ [x]) ++ [y] = s ++ [c] := by
      rw [List.append_assoc]
      exact heq
    obtain ⟨rfl, hc⟩ := append_inj' hsplit rfl
    cases hc
    exact .inr ⟨getLast?_concat .., rfl⟩
  · rw [← List.append_assoc] at heq
    obtain ⟨hs, _⟩ := append_inj' heq rfl
    exact .inl ⟨a, b', hs⟩

/-- A comment does not open with a character that is no star. -/
theorem NoComment.concat {s : List Char} (h : NoComment s) {c : Char} (hc : c ≠ '*') : NoComment (s ++ [c]) := fun hs =>
  (pair_infix_concat hs).elim h fun hpair => hc hpair.2

theorem removeInlineComments_pad {pad : List Char} (h : IsBlank pad) (s : List Char) :
    removeInlineComments false (pad ++ s) = pad ++ removeInlineComments false s :=
  removeInlineComments_append (fun hin => by cases h _ hin) s

theorem removeInlineComments_subset (inComment : Bool) (s : List Char) : removeInlineComments inComment s ⊆ s := by
  fun_induction removeInlineComments inComment s with
  | case1 => exact List.Subset.refl _
  | case2 _ rest ih => exact fun c hc => mem_cons_of_mem _ (mem_cons_of_mem _ (ih hc))
  | case3 rest ih => exact fun c hc => mem_cons_of_mem _ (mem_cons_of_mem _ (ih hc))
  | case4 c rest _ _ ih => exact fun d hd => mem_cons_of_mem _ (ih hd)
  | case5 c rest _ ih => exact cons_subset_cons _ ih

/-! ## The words of the code -/

/-- The words of a line without its comments. -/
def codeWords (line : List Char) : List (List Char) := splitWhitespace (removeInlineComments false (trim line))

theorem codeWords_trimEnd (s : List Char) : splitWhitespace (removeInlineComments false (trimEnd s)) = codeWords s := by
  obtain ⟨pad, hpad, hblank⟩ := exists_trim s
  rw [hpad, removeInlineComments_pad hblank, splitWhitespace_pad hblank]
  rfl

theorem codeWords_pad {pad : List Char} (h : IsBlank pad) (s : List Char) : codeWords (pad ++ s) = codeWords s := by
  rw [← codeWords_trimEnd, ← codeWords_trimEnd, trimEnd_append]
  split
  · rename_i hs
    rw [hs, trimEnd_eq_nil.2 h]
  · rw [removeInlineComments_pad h, splitWhitespace_pad h]

theorem codeWords_blank {s : List Char} (h : IsBlank s) : codeWords s = [] := by
  rw [← codeWords_trimEnd, trimEnd_eq_nil.2 h]
  rfl

/-- A text in which no comment opens has its own words. -/
theorem codeWords_code {s : List Char} (h : NoComment s) : codeWords s = splitWhitespace s := by
  have hend : NoComment (trimEnd s) := fun hs => h (hs.trans (trimEnd_isPrefix s).isInfix)
  rw [← codeWords_trimEnd, removeInlineComments_code hend]
  exact splitWhitespace_append_trimEnd [] s

/-- **A word of the code**, with white space behind it or nothing. -/
theorem codeWords_cons {w t : List Char} (hw : IsWord w) (hopen : NoComment w) (ht : StartsBlank t) :
    codeWords (w ++ t) = w :: codeWords t := by
  rw [← codeWords_trimEnd, ← codeWords_trimEnd, hw.trimEnd_append]
  rcases ht.trimEnd with hnil | ⟨c, s, hs, hc⟩
  · rw [hnil, List.append_nil, removeInlineComments_code hopen, splitWhitespace_word hw]
    rfl
  · have hne : c ≠ '*' := by
      rintro rfl
      cases hc
    have hpad := @removeInlineComments_pad [c] (fun d hd => mem_singleton.1 hd ▸ hc) s
    rw [singleton_append] at hpad
    rw [hs, removeInlineComments_front (hopen.concat hne), hpad, singleton_append, splitWhitespace_cons hw hc,
      splitWhitespace_space_cons hc]

section
variable [CaseMap]

/-- The tokens of the words of a line. -/
def wordTokens : List (List Char) → List Token
  | [] => []
  | first :: rest =>
    let labelled :=
      if first.getLast? = some ':' then .label (String.ofList first.dropLast) :: rest.map labelledToken else []
    let plain :=
      match mnemonic first with
      | some tok => tok :: (rest.head?.map fun operand => .ident (String.ofList operand)).toList
      | none => []
    labelled ++ plain

/-- **A line by its words**, if it does not start with a comment. -/
theorem tokenizeLine_eq_words {line : List Char} (h : ¬ ['(', '*'] <+: trim line) :
    tokenizeLine line = wordTokens (codeWords line) := by
  unfold tokenizeLine codeWords
  by_cases hempty : trim line = []
  · rw [hempty]
    rfl
  · have hskip : ((trim line).isEmpty || ['(', '*'].isPrefixOf (trim line)) = false := by
      rw [Bool.or_eq_false_iff, isEmpty_eq_false_iff, ← Bool.not_eq_true, isPrefixOf_iff_prefix]
      exact ⟨hempty, h⟩
    simp only [hskip, Bool.false_eq_true, if_false]
    rfl

theorem tokenizeLine_comment {line : List Char} (h : ['(', '*'] <+: trim line) : tokenizeLine line = [] := by
  unfold tokenizeLine
  rw [if_pos]
  rw [Bool.or_eq_true, isPrefixOf_iff_prefix]
  exact .inr h

/-- **A line that starts with a word** in which no comment opens. -/
theorem tokenizeLine_words {pad w t : List Char} (hpad : IsBlank pad) (hw : IsWord w) (hopen : NoComment w)
    (ht : StartsBlank t) : tokenizeLine (pad ++ (w ++ t)) = wordTokens (w :: codeWords t) := by
  rw [tokenizeLine_eq_words, codeWords_pad hpad, codeWords_cons hw hopen ht]
  rw [trim_word hpad hw]
  intro hprefix
  -- the comment would open in the word, or in the white space behind it
  match w, hw, hopen with
  | [], hw, _ => exact hw.ne_nil rfl
  | [c], _, _ =>
    rcases ht.trimEnd with hnil | ⟨d, s, hs, hd⟩
    · rw [hnil] at hprefix
      exact absurd hprefix.length_le (by simp)
    · rw [hs] at hprefix
      have hstar : '*' = d := (cons_prefix_cons.1 (cons_prefix_cons.1 hprefix).2).1
      rw [← hstar] at hd
      cases hd
  | c :: d :: w, _, hopen =>
    obtain ⟨rfl, hrest⟩ := cons_prefix_cons.1 hprefix
    obtain ⟨rfl, _⟩ := cons_prefix_cons.1 hrest
    exact hopen (prefix_append ['(', '*'] w).isInfix

/-- The characters of a mnemonic word that upper case leaves as they are. -/
theorem not_mem_of_mnemonic {w : List Char} {tok : Token} (h : mnemonic w = some tok) {c : Char}
    (hascii : c.toNat < 128) (hupper : c.toUpper = c) (hc : isMnemonicChar c = false) : c ∉ w := by
  intro hin
  have hmem : c ∈ toUppercase w := by
    refine mem_flatMap.2 ⟨c, hin, ?_⟩
    rw [CaseMap.upper_ascii c hascii, hupper]
    exact mem_singleton_self c
  have hall := (parseMnemonic_chars h).2
  rw [String.toList_ofList] at hall
  rw [all_eq_true.1 hall c hmem] at hc
  cases hc

/-- A text without a line feed is one line. -/
theorem tokenize_line {line : List Char} (h : '\n' ∉ line) : tokenize (String.ofList line) = tokenizeLine line := by
  unfold tokenize lines
  rw [String.toList_ofList, splitOn_eq_singleton h]
  cases line with
  | nil => rfl
  | cons c line => exact List.append_nil _

end

end Audesys.Il
