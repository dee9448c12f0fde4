import Audesys.Il.Words

/-!
# `Il.Labels` — a line behind a label

The lexer has two loops. Without a label the first word must be a mnemonic, and the second is an identifier whatever it
is. Behind a label each word is a mnemonic if it can be one. So a label changes how an operand is read that is spelled
like a mnemonic, in any case (`labelled_iff`).
-/

open List

namespace Audesys.Il

open Audesys.Hal Audesys.Lib

section
variable [CaseMap]

/-- The words of a statement: a mnemonic, in any case, and at most one operand. -/
def IsStatement (words : List (List Char)) : Prop :=
  ∃ m tok, mnemonic m = some tok ∧ (words = [m] ∨ ∃ operand, words = [m, operand])

/-- No mnemonic is an identifier. -/
theorem mnemonic_ne_ident {w : List Char} {name : String} : mnemonic w ≠ some (.ident name) := by
  unfold mnemonic parseMnemonic
  split <;> simp

theorem labelledToken_eq_ident {w : List Char} : labelledToken w = .ident (String.ofList w) ↔ mnemonic w = none := by
  unfold labelledToken
  cases h : mnemonic w with
  | none => simp
  | some tok =>
    rw [Option.getD_some]
    constructor
    · rintro rfl
      exact absurd h mnemonic_ne_ident
    · intro hnone
      cases hnone

theorem wordTokens_plain {m : List Char} {tok : Token} (h : mnemonic m = some tok) (rest : List (List Char)) :
    wordTokens (m :: rest) = tok :: (rest.head?.map fun operand => .ident (String.ofList operand)).toList := by
  have hcolon : m.getLast? ≠ some ':' := fun hlast =>
    not_mem_of_mnemonic h (by decide) (by decide) (by decide) (mem_of_getLast? hlast)
  simp [wordTokens, if_neg hcolon, h]

theorem wordTokens_label (label : List Char) (rest : List (List Char)) :
    wordTokens ((label ++ [':']) :: rest) = .label (String.ofList label) :: rest.map labelledToken := by
  have hmnemonic : mnemonic (label ++ [':']) = none := by
    cases h : mnemonic (label ++ [':']) with
    | none => rfl
    | some tok => exact absurd (by simp) (not_mem_of_mnemonic (c := ':') h (by decide) (by decide) (by decide))
  have hcolon : (label ++ [':']).getLast? = some ':' := getLast?_concat ..
  simp [wordTokens, hmnemonic]

/-- The code of a statement is its mnemonic and at most one operand, cut short where a comment opens in it. -/
theorem IsStatement.code {s : List Char} (h : IsStatement (splitWhitespace s)) :
    ∃ pad m t tok, s = pad ++ (m ++ t) ∧ IsBlank pad ∧ IsWord m ∧ NoComment m ∧ StartsBlank t ∧
      mnemonic m = some tok ∧ (codeWords t = [] ∨ ∃ operand, codeWords t = [operand]) := by
  obtain ⟨m, tok, hm, hwords⟩ := h
  have hopen : NoComment m := .of_not_paren (not_mem_of_mnemonic hm (by decide) (by decide) (by decide))
  have hsplit : ∃ ws, splitWhitespace s = m :: ws ∧ (ws = [] ∨ ∃ operand, ws = [operand]) := by
    rcases hwords with hone | ⟨operand, htwo⟩
    · exact ⟨[], hone, .inl rfl⟩
    · exact ⟨[operand], htwo, .inr ⟨operand, rfl⟩⟩
  obtain ⟨ws, hsplit, hws⟩ := hsplit
  obtain ⟨pad, t, hs, hpad, hw, ht, hrest⟩ := exists_of_words hsplit
  refine ⟨pad, m, t, tok, hs, hpad, hw, hopen, ht, hm, ?_⟩
  rcases hws with rfl | ⟨operand, rfl⟩
  · exact .inl (codeWords_blank (splitWhitespace_eq_nil.1 hrest))
  · obtain ⟨pad', t', rfl, hpad', hw', ht', hblank⟩ := exists_of_words hrest
    have hend : trimEnd (operand ++ t') = operand := by
      rw [trimEnd_append, if_pos (trimEnd_eq_nil.2 (splitWhitespace_eq_nil.1 hblank)), hw'.trimEnd]
    rw [codeWords_pad hpad', ← codeWords_trimEnd, hend]
    have hsolid : ∀ c ∈ removeInlineComments false operand, isWhitespace c = false := fun c hc =>
      hw'.not_space c (removeInlineComments_subset false operand hc)
    rw [splitWhitespace_solid hsolid]
    split
    · exact .inl rfl
    · exact .inr ⟨_, rfl⟩

/-- **Behind a label** a statement is read as it is alone, with its label in front, exactly if its operand, where it has
one, is not spelled like a mnemonic. -/
theorem labelled_iff {label statement : String} (hlabel : ∀ c ∈ label.toList, isWhitespace c = false)
    (hopen : NoComment label.toList) (hfeed : '\n' ∉ statement.toList)
    (hstatement : IsStatement (splitWhitespace statement.toList)) :
    (tokenize (label ++ ": " ++ statement) = .label label :: tokenize statement ∧
        parse (tokenize (label ++ ": " ++ statement)) = .label label :: parse (tokenize statement)) ↔
      ∀ operand ∈ (codeWords statement.toList).tail, mnemonic operand = none := by
  obtain ⟨pad, m, t, tok, hs, hpad, hw, hopen', ht, hm, hwords⟩ := hstatement.code
  have hcolon : IsWord (label.toList ++ [':']) := by
    refine ⟨by simp, fun c hc => ?_⟩
    rcases mem_append.1 hc with hc | hc
    · exact hlabel c hc
    · rw [mem_singleton.1 hc]
      rfl
  have hline : (label ++ ": " ++ statement).toList = [] ++ (label.toList ++ [':'] ++ ' ' :: statement.toList) := by
    rw [String.toList_append, String.toList_append]
    simp
  have hlabelFeed : '\n' ∉ label.toList := fun hin => by
    have hspace := hlabel _ hin
    cases hspace
  have htokens : tokenize statement = wordTokens (m :: codeWords t) := by
    rw [← String.ofList_toList (s := statement), tokenize_line hfeed, hs, tokenizeLine_words hpad hw hopen' ht]
  have hcode : codeWords statement.toList = m :: codeWords t := by
    rw [hs, codeWords_pad hpad, codeWords_cons hw hopen' ht]
  have hfeed' : '\n' ∉ [] ++ (label.toList ++ [':'] ++ ' ' :: statement.toList) := by
    simp only [nil_append, mem_append, mem_cons, not_mem_nil, or_false, not_or]
    exact ⟨⟨hlabelFeed, by decide⟩, by decide, hfeed⟩
  -- each word behind a label is a token of its own
  have hlabelled : tokenize (label ++ ": " ++ statement) = .label label :: (m :: codeWords t).map labelledToken := by
    have hblank : codeWords (' ' :: statement.toList) = codeWords statement.toList :=
      @codeWords_pad [' '] (fun c hc => mem_singleton.1 hc ▸ rfl) statement.toList
    rw [← String.ofList_toList (s := label ++ ": " ++ statement), hline, tokenize_line hfeed',
      tokenizeLine_words (fun c hc => absurd hc not_mem_nil) hcolon (hopen.concat (by decide)) (.inr ⟨_, _, rfl, rfl⟩),
      wordTokens_label, hblank, hcode, String.ofList_toList]
  have hfirst : labelledToken m = tok := by
    unfold labelledToken
    rw [hm, Option.getD_some]
  rw [hlabelled, htokens, wordTokens_plain hm, hcode, tail_cons, map_cons, hfirst]
  -- without an operand nothing can go wrong
  rcases hwords with hnone | ⟨operand, hsome⟩
  · rw [hnone]
    constructor
    · intro _ operand hin
      cases hin
    · intro _
      exact ⟨rfl, parse_alone rfl _⟩
  · rw [hsome]
    simp only [map_cons, map_nil, head?_cons, Option.map_some, Option.toList_some]
    constructor
    · rintro ⟨heq, _⟩ operand' hin
      rw [mem_singleton.1 hin, ← labelledToken_eq_ident]
      simp only [List.cons.injEq, true_and, and_true] at heq
      exact heq
    · intro hnone
      have hident := labelledToken_eq_ident.2 (hnone operand mem_cons_self)
      rw [hident]
      exact ⟨rfl, parse_alone rfl _⟩

end

end Audesys.Il

namespace Audesys.Il

open Audesys.Lib

local instance asciiLabels : CaseMap := .ascii

/-- Behind the label the operand `X1` is read as it is alone. -/
theorem labelled_load :
    (tokenize ("start" ++ ": " ++ "LD X1") = .label "start" :: tokenize "LD X1" ∧
        parse (tokenize ("start" ++ ": " ++ "LD X1")) = .label "start" :: parse (tokenize "LD X1")) ↔
      ∀ operand ∈ (codeWords "LD X1".toList).tail, mnemonic operand = none := by
  have hlabel : IsWord "start".toList := .of_all (by decide) rfl
  refine labelled_iff hlabel.not_space (.of_not_paren (by decide)) (by decide) ?_
  exact ⟨['L', 'D'], .ld, rfl, .inr ⟨['X', '1'], rfl⟩⟩

/-- Behind a label the operand `S` is a statement of its own. -/
theorem labelled_set : parse (tokenize "LD S") = [.load "S"] ∧
    parse (tokenize "start: LD S") = [.label "start", .load "?", .set "?"] ∧
      tokenize "start: LD S" ≠ .label "start" :: tokenize "LD S" := by
  refine ⟨rfl, rfl, ?_⟩
  rw [show tokenize "start: LD S" = [.label "start", .ld, .s] from rfl, show tokenize "LD S" = [.ld, .ident "S"] from rfl]
  decide

end Audesys.Il
