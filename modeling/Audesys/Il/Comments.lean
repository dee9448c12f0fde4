import Audesys.Il.Labels

/-!
# `Il.Comments` — a comment between the words of a line

Three parts of the lexer deal with comments: a line that starts with one is dropped, a scanner cuts them out of the
other lines, and white space splits what is left. The scanner looks for the start of a comment inside comments too, so
that a text with a parenthesis in front of the closing star leaves its comment open (`removeInlineComments_reopened`).
A comment is white space behind the first word, if it closes or if nothing is behind it (`commented_iff`).
-/

open List

namespace Audesys.Il

open Audesys.Hal Audesys.Lib

/-! ## The scanner -/

/-- No comment closes in the text. -/
def NoClose (s : List Char) : Prop := ¬ ['*', ')'] <:+: s

/-- A comment in one line. -/
def comment (text : List Char) : List Char := '(' :: '*' :: (text ++ ['*', ')'])

/-- Inside a comment a text is dropped in which no comment opens or closes, the first character behind it included. -/
theorem removeInlineComments_inside {s t : List Char} (hopen : NoComment (s ++ t.take 1)) (hclose : NoClose (s ++ t.take 1)) :
    removeInlineComments true (s ++ t) = removeInlineComments true t := by
  induction s with
  | nil => rfl
  | cons c s ih =>
    have hrest := ih (fun hs => hopen (hs.trans (suffix_cons c _).isInfix))
      (fun hs => hclose (hs.trans (suffix_cons c _).isInfix))
    -- two characters of the text and the one behind it
    have hpair : ∀ (x y : Char) rest, c = x → s ++ t = y :: rest → [x, y] <:+: c :: s ++ t.take 1 := by
      rintro x y rest rfl heq
      cases s with
      | nil =>
        rw [show t = y :: rest from heq]
        exact infix_refl _
      | cons d s =>
        cases heq
        exact (prefix_append [c, y] (s ++ t.take 1)).isInfix
    rw [cons_append, removeInlineComments, hrest]
    · intro rest hc heq
      exact hopen (hpair '(' '*' rest hc heq)
    · intro rest hc heq
      exact hclose (hpair '*' ')' rest hc heq)

section
variable {text : List Char} (hopen : NoComment text) (hclose : NoClose text)
include hopen hclose

/-- **A comment** that does not end with a parenthesis is cut out. -/
theorem removeInlineComments_comment (hlast : text.getLast? ≠ some '(') (s : List Char) :
    removeInlineComments false (comment text ++ s) = removeInlineComments false s := by
  have hopen' : NoComment (text ++ ('*' :: ')' :: s).take 1) := fun h =>
    (pair_infix_concat h).elim hopen fun hpair => hlast hpair.1
  have hclose' : NoClose (text ++ ('*' :: ')' :: s).take 1) := fun h =>
    (pair_infix_concat h).elim hclose fun hpair => absurd hpair.2 (by decide)
  have hinside := removeInlineComments_inside hopen' hclose'
  have happend : comment text ++ s = '(' :: '*' :: (text ++ '*' :: ')' :: s) := by
    simp [comment]
  rw [happend, removeInlineComments, hinside, removeInlineComments]

/-- **A comment that stays open**: the parenthesis and the star behind it open one once more. -/
theorem removeInlineComments_reopened (hlast : text.getLast? = some '(') (s : List Char) :
    removeInlineComments false (comment text ++ s) = removeInlineComments true s := by
  obtain ⟨front, rfl⟩ := getLast?_eq_some_iff.1 hlast
  have hinside : removeInlineComments true (front ++ '(' :: '*' :: ')' :: s) =
      removeInlineComments true ('(' :: '*' :: ')' :: s) := removeInlineComments_inside hopen hclose
  have happend : comment (front ++ ['(']) ++ s = '(' :: '*' :: (front ++ '(' :: '*' :: ')' :: s) := by
    simp [comment]
  rw [happend, removeInlineComments, hinside, removeInlineComments, removeInlineComments]
  · rintro rest ⟨⟩
  · rintro rest ⟨⟩

end

/-- A text in which no comment closes is dropped inside a comment. -/
theorem removeInlineComments_rest {s : List Char} (hopen : NoComment s) (hclose : NoClose s) :
    removeInlineComments true s = [] := by
  have hinside := @removeInlineComments_inside s [] (by rwa [take_nil, List.append_nil])
    (by rwa [take_nil, List.append_nil])
  rwa [List.append_nil, removeInlineComments] at hinside

/-! ## The line -/

theorem trimEnd_comment (text s : List Char) : trimEnd (comment text ++ s) = comment text ++ trimEnd s := by
  rw [trimEnd_append]
  split
  · rename_i hs
    have hcomment : comment text = '(' :: '*' :: (text ++ ['*']) ++ [')'] := by
      simp [comment]
    rw [hs, List.append_nil, hcomment]
    exact rdropWhile_concat_neg _ _ _ (by decide)
  · rfl

theorem comment_ne_nil (text s : List Char) : comment text ++ s ≠ [] := cons_ne_nil _ _

theorem trimEnd_commented (a text b : List Char) : trimEnd (a ++ (comment text ++ b)) = a ++ (comment text ++ trimEnd b) := by
  rw [trimEnd_append, trimEnd_comment, if_neg (comment_ne_nil _ _)]

section
variable [CaseMap]

/-- The words of a line: a label, a statement, or both. -/
def IsOneLine (words : List (List Char)) : Prop :=
  IsStatement words ∨ ∃ label ws, words = (label ++ [':']) :: ws ∧ (ws = [] ∨ IsStatement ws)

theorem IsOneLine.ne_nil {words : List (List Char)} (h : IsOneLine words) : words ≠ [] := by
  rintro rfl
  rcases h with ⟨m, tok, _, hone | ⟨operand, htwo⟩⟩ | ⟨label, ws, hwords, _⟩
  · cases hone
  · cases htwo
  · cases hwords

/-- As many words of a line as one takes from the front, as many tokens. -/
theorem IsOneLine.length_wordTokens {front back : List (List Char)} (h : IsOneLine (front ++ back)) (hne : front ≠ []) :
    (wordTokens front).length = front.length := by
  obtain ⟨first, rest, rfl⟩ := exists_cons_of_ne_nil hne
  rcases h with ⟨m, tok, hm, hwords⟩ | ⟨label, ws, hwords, _⟩
  · obtain ⟨operands, hall, hone⟩ : ∃ operands, first :: (rest ++ back) = m :: operands ∧ operands.length ≤ 1 := by
      rcases hwords with hwords | ⟨operand, hwords⟩
      · exact ⟨[], hwords, Nat.zero_le 1⟩
      · exact ⟨[operand], hwords, le_refl 1⟩
    obtain ⟨rfl, rfl⟩ := List.cons.inj hall
    have hlen : rest.length ≤ 1 := (length_append ▸ Nat.le_add_right ..).trans hone
    rw [wordTokens_plain hm]
    match rest, hlen with
    | [], _ => rfl
    | [_], _ => rfl
  · rw [cons_append] at hwords
    injection hwords with hfirst _
    rw [hfirst, wordTokens_label, length_cons, length_map, length_cons]

variable {a b text : List Char}

/-- A comment in front of the first word. -/
theorem tokenizeLine_commented_front (ha : IsBlank a) : tokenizeLine (a ++ (comment text ++ b)) = [] := by
  have hword : IsWord ['(', '*'] := .of_all (by decide) (by decide)
  refine tokenizeLine_comment ?_
  have htrim := trim_word ha hword (text ++ ['*', ')'] ++ b)
  rw [show a ++ (comment text ++ b) = a ++ (['(', '*'] ++ (text ++ ['*', ')'] ++ b)) from rfl, htrim]
  exact prefix_append _ _

/-- A comment behind a word. -/
theorem tokenizeLine_commented (ha : ¬ IsBlank a) (hcode : NoComment a) :
    tokenizeLine (a ++ (comment text ++ b)) =
      wordTokens (splitWhitespace (a ++ removeInlineComments false (comment text ++ trimEnd b))) := by
  have hfront : NoComment (a ++ (comment text ++ trimEnd b).take 1) := hcode.concat (by decide)
  have hwords : codeWords (a ++ (comment text ++ b)) =
      splitWhitespace (a ++ removeInlineComments false (comment text ++ trimEnd b)) := by
    rw [← codeWords_trimEnd, trimEnd_commented, removeInlineComments_front hfront]
  rw [tokenizeLine_eq_words, hwords]
  -- the line starts with a word, and the parenthesis behind it opens the comment no sooner
  intro hprefix
  cases hsplit : splitWhitespace a with
  | nil => exact ha (splitWhitespace_eq_nil.1 hsplit)
  | cons w ws =>
    obtain ⟨pad, t, rfl, hpad, hw, _⟩ := exists_of_words hsplit
    have hsolid : NoComment (w ++ t) := hcode.of_append.2
    have hlen : 0 < w.length := length_pos_iff.2 hw.ne_nil
    have htrim : trim (pad ++ (w ++ t) ++ (comment text ++ b)) =
        (w ++ t ++ ['(']) ++ ('*' :: (text ++ ['*', ')']) ++ trimEnd b) := by
      rw [List.append_assoc, List.append_assoc, trim_word hpad hw, trimEnd_commented]
      simp [comment]
    rw [htrim] at hprefix
    refine hsolid.concat (c := '(') (by decide) (List.IsPrefix.isInfix ?_)
    refine prefix_of_prefix_length_le hprefix (prefix_append _ _) ?_
    simp
    omega

/-- **Comments as white space**: a closed comment in one line, put between the words of a statement in which no comment
opens or closes, does not change the tokens exactly if it is behind the first word, and does not end with a parenthesis or
has nothing behind it. -/
theorem commented_iff (hcut : IsCut a b) (hline : IsOneLine (splitWhitespace (a ++ b))) (hfeed : '\n' ∉ a ++ b)
    (hcode : NoComment (a ++ b)) (hplain : NoClose (a ++ b)) (hopen : NoComment text) (hclose : NoClose text)
    (hfeed' : '\n' ∉ text) :
    tokenize (String.ofList (a ++ (comment text ++ b))) = tokenize (String.ofList (a ++ b)) ↔
      ¬ IsBlank a ∧ (text.getLast? = some '(' → IsBlank b) := by
  have hall : '\n' ∉ a ++ (comment text ++ b) := by
    simp only [comment, mem_append, mem_cons, not_mem_nil, or_false, not_or] at hfeed ⊢
    exact ⟨hfeed.1, ⟨by decide, by decide, hfeed', by decide, by decide⟩, hfeed.2⟩
  obtain ⟨hcodeA, hcodeB⟩ := hcode.of_append
  have hwords := splitWhitespace_cut hcut
  have htokens : tokenizeLine (a ++ b) = wordTokens (splitWhitespace a ++ splitWhitespace b) := by
    rw [tokenizeLine_eq_words, codeWords_code hcode, hwords]
    exact fun hprefix => hcode (List.IsInfix.trans hprefix.isInfix (trim_isInfix _))
  rw [hwords] at hline
  rw [tokenize_line hall, tokenize_line hfeed, htokens]
  have hlength : splitWhitespace a ++ splitWhitespace b ≠ [] →
      (wordTokens (splitWhitespace a ++ splitWhitespace b)).length =
        (splitWhitespace a).length + (splitWhitespace b).length := by
    intro hne
    rw [← length_append]
    exact @IsOneLine.length_wordTokens _ _ [] (by rwa [List.append_nil]) hne
  by_cases ha : IsBlank a
  · -- the line is dropped
    rw [tokenizeLine_commented_front ha]
    refine iff_of_false ?_ fun h => h.1 ha
    intro hnil
    have hne := hline.ne_nil
    have hzero := hlength hne
    rw [← hnil, length_nil] at hzero
    exact hne (length_eq_zero_iff.1 (by rw [length_append]; exact hzero.symm))
  · have hfront : splitWhitespace a ≠ [] := fun hnil => ha (splitWhitespace_eq_nil.1 hnil)
    have hopenB : NoComment (trimEnd b) := fun hs => hcodeB (hs.trans (trimEnd_isPrefix b).isInfix)
    have hcloseB : NoClose (trimEnd b) := fun hs =>
      hplain (hs.trans ((trimEnd_isPrefix b).isInfix.trans (suffix_append a b).isInfix))
    rw [tokenizeLine_commented ha hcodeA]
    by_cases hlast : text.getLast? = some '('
    · -- the rest of the line is lost
      rw [removeInlineComments_reopened hopen hclose hlast, removeInlineComments_rest hopenB hcloseB, List.append_nil]
      simp only [ha, hlast, not_false_eq_true, true_and, forall_const]
      rw [← splitWhitespace_eq_nil]
      constructor
      · intro heq
        have hlen := congrArg List.length heq
        rw [hline.length_wordTokens hfront, hlength (by simp [hfront])] at hlen
        exact length_eq_zero_iff.1 (by omega)
      · intro hnil
        rw [hnil, List.append_nil]
    · rw [removeInlineComments_comment hopen hclose hlast, removeInlineComments_code hopenB, splitWhitespace_append_trimEnd,
        hwords]
      exact iff_of_true rfl ⟨ha, fun h => absurd h hlast⟩

end

end Audesys.Il

namespace Audesys.Il

open Audesys.Lib

local instance asciiComments : CaseMap := .ascii

/-- A comment behind the mnemonic. -/
theorem commented_load :
    tokenize (String.ofList ("LD ".toList ++ (comment " input ".toList ++ " X1".toList))) =
        tokenize (String.ofList ("LD ".toList ++ " X1".toList)) ↔
      ¬ IsBlank "LD ".toList ∧ (" input ".toList.getLast? = some '(' → IsBlank " X1".toList) := by
  refine commented_iff (.inr (.inr (.inl ⟨' ', rfl, rfl⟩))) (.inl ?_) (by decide) ?_ ?_ ?_ ?_ (by decide)
  · exact ⟨['L', 'D'], .ld, rfl, .inr ⟨['X', '1'], rfl⟩⟩
  · exact .of_not_paren (by decide)
  · exact fun h => absurd (h.subset mem_cons_self) (by decide)
  · exact .of_not_paren (by decide)
  · exact fun h => absurd (h.subset mem_cons_self) (by decide)

/-- A comment in front of a statement drops it, and one that ends with a parenthesis the rest of it. -/
theorem commented_dropped :
    tokenize "(* input *) LD X1" = [] ∧ tokenize "LD (*f(*) X1" = [.ld] ∧ tokenize "LD X1" = [.ld, .ident "X1"] :=
  ⟨rfl, rfl, rfl⟩

end Audesys.Il
