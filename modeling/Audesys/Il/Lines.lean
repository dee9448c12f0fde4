import Audesys.Il.Layout
import Audesys.Il.Syntax

/-!
# `Il.Lines` — a text is read line by line

Every line of Instruction List is read for itself (`statements_lines`), so the statements of a text put together from
pieces that end in a line feed are the statements of its pieces (`statements_feed`). A line that starts with a mnemonic
reads the first word behind it as its operand, whatever else stands there (`readLine_mnemonic`).
-/

open List

namespace Audesys.Il

open Audesys.Hal Audesys.Lib

/-! ## Tokens of one line, then of the next -/

/-- Not the operand of something in front. -/
def Leads (toks : List Token) : Prop := ∀ name rest, toks ≠ .ident name :: rest

theorem Leads.nil : Leads [] := by
  intro name rest h
  cases h

theorem Leads.append {ts us : List Token} (ht : Leads ts) (hu : Leads us) : Leads (ts ++ us) := by
  intro name rest
  cases ts with
  | nil => exact hu name rest
  | cons tok ts =>
    intro h
    cases h
    exact ht name ts rfl

theorem parse_alone {tok : Token} (h : tok.withOperand? = none) (rest : List Token) :
    parse (tok :: rest) = tok.alone?.toList ++ parse rest := by
  rw [parse, h]

theorem parse_operand {tok : Token} {statement : String → ILStatement} (h : tok.withOperand? = some statement)
    (name : String) (rest : List Token) : parse (tok :: .ident name :: rest) = statement name :: parse rest := by
  rw [parse, h]

/-- A missing operand. -/
theorem parse_missing {tok : Token} {statement : String → ILStatement} (h : tok.withOperand? = some statement)
    {rest : List Token} (hrest : Leads rest) : parse (tok :: rest) = statement "?" :: parse rest := by
  rw [parse, h]
  cases rest with
  | nil => rfl
  | cons t rest =>
    cases t with
    | ident name => exact absurd rfl (hrest name rest)
    | _ => rfl

/-- No statement has its operand in the next line. -/
theorem parse_append (ts : List Token) {us : List Token} (h : Leads us) : parse (ts ++ us) = parse ts ++ parse us := by
  induction hlen : ts.length using Nat.strong_induction_on generalizing ts with
  | _ n ih =>
    cases ts with
    | nil => rfl
    | cons tok ts =>
      have hts : parse (ts ++ us) = parse ts ++ parse us := ih ts.length (hlen ▸ Nat.lt_succ_self _) ts rfl
      rw [cons_append]
      cases htok : tok.withOperand? with
      | none => rw [parse_alone htok, parse_alone htok, hts, List.append_assoc]
      | some statement =>
        by_cases hident : ∃ name rest, ts = .ident name :: rest
        · -- the operand is in front of the break
          obtain ⟨name, rest, rfl⟩ := hident
          rw [length_cons, length_cons] at hlen
          rw [cons_append, parse_operand htok, parse_operand htok, ih rest.length (by omega) rest rfl]
          rfl
        · have hleads : Leads ts := by
            intro name rest heq
            exact hident ⟨name, rest, heq⟩
          rw [parse_missing htok (hleads.append h), parse_missing htok hleads, hts]
          rfl

section
variable [CaseMap]

theorem tokenizeLine_leads (line : List Char) : Leads (tokenizeLine line) := by
  have hident : ∀ word name, mnemonic word ≠ some (.ident name) := by
    intro word name h
    unfold mnemonic parseMnemonic at h
    split at h <;> cases h
  unfold tokenizeLine
  intro name rest
  simp only
  split
  · exact Leads.nil name rest
  · split
    · exact Leads.nil name rest
    · rename_i first words _
      split
      · rintro ⟨⟩
      · cases hfirst : mnemonic first with
        | none => exact Leads.nil name rest
        | some tok =>
          rintro ⟨⟩
          exact hident _ _ hfirst

/-- The statements of one line. -/
def readLine (line : List Char) : List ILStatement := parse (tokenizeLine line)

/-- The statements of a text. -/
def statements (text : List Char) : List ILStatement := parse (tokenize (String.ofList text))

/-- White space around a line is not read. -/
theorem readLine_trim {line line' : List Char} (h : trim line = trim line') : readLine line = readLine line' := by
  unfold readLine tokenizeLine
  rw [h]

theorem readLine_nil : readLine [] = [] := rfl

/-- **Line by line.** -/
theorem statements_lines (text : List Char) : statements text = (lines text).flatMap readLine := by
  unfold statements tokenize
  rw [String.toList_ofList]
  induction lines text with
  | nil => rfl
  | cons line rest ih =>
    have hleads : Leads (rest.flatMap tokenizeLine) := by
      clear ih
      induction rest with
      | nil => exact Leads.nil
      | cons l rest ih =>
        rw [flatMap_cons]
        exact (tokenizeLine_leads l).append ih
    rw [flatMap_cons, flatMap_cons, parse_append _ hleads, ih]
    rfl

/-- Line ends of either kind. -/
theorem statements_eq (text : List Char) : statements text = (text.splitOn '\n').flatMap readLine := by
  rw [statements_lines]
  unfold lines
  rcases eq_nil_or_concat' (text.splitOn '\n') with hnil | ⟨front, last, heq⟩
  · exact absurd hnil (splitOn_ne_nil _ _)
  have hfront : (front.map stripCr).flatMap readLine = front.flatMap readLine := by
    rw [flatMap_map]
    refine congrArg List.flatten (map_congr_left ?_)
    intro l _
    exact readLine_trim (trim_stripCr l)
  rw [heq]
  simp only [dropLast_concat, getLast?_concat]
  rw [flatMap_append, flatMap_append, hfront]
  cases last with
  | nil => rfl
  | cons c l => rfl

/-- The statements in front of a line feed and those behind it. -/
theorem statements_feed (front back : List Char) :
    statements (front ++ '\n' :: back) = statements front ++ statements back := by
  rw [statements_eq, statements_eq, statements_eq, splitOn_append_cons_self, flatMap_append]

/-- A text without a line feed is one line. -/
theorem statements_line {line : List Char} (h : '\n' ∉ line) : statements line = readLine line := by
  rw [statements_eq, splitOn_eq_singleton h, flatMap_singleton]

theorem statements_nil : statements [] = [] := rfl

/-- A line and what is behind it. -/
theorem statements_cons {line : List Char} (h : '\n' ∉ line) (back : List Char) :
    statements (line ++ '\n' :: back) = readLine line ++ statements back := by
  rw [statements_feed, statements_line h]

/-- White space at the end of a text is not read. -/
theorem statements_concat (text : List Char) {c : Char} (hc : isWhitespace c = true) :
    statements (text ++ [c]) = statements text := by
  induction hlen : text.length using Nat.strong_induction_on generalizing text with
  | _ n ih =>
    by_cases hin : '\n' ∈ text
    · obtain ⟨front, back, rfl⟩ := append_of_mem hin
      rw [List.append_assoc, cons_append, statements_feed, statements_feed, ih back.length ?_ back rfl]
      rw [← hlen, length_append, length_cons]
      omega
    · by_cases hfeed : c = '\n'
      · rw [hfeed, statements_feed, statements_nil, List.append_nil]
      · have hin' : '\n' ∉ text ++ [c] := by
          simp [hin, Ne.symm hfeed]
        rw [statements_line hin, statements_line hin', readLine_trim (trim_concat text hc)]

theorem statements_trimEnd (text : List Char) : statements (trimEnd text) = statements text := by
  unfold trimEnd
  induction text using List.reverseRecOn with
  | nil => rfl
  | append_singleton text c ih =>
    by_cases hc : isWhitespace c = true
    · rw [rdropWhile_concat_pos _ _ _ hc, ih, statements_concat text hc]
    · rw [rdropWhile_concat_neg _ _ _ hc]

end

/-! ## Texts of whole lines -/

/-- Empty, or with a line feed at the end. -/
def Closed (text : List Char) : Prop := text = [] ∨ ∃ front, text = front ++ ['\n']

theorem Closed.nil : Closed [] := .inl rfl

theorem Closed.line (line : List Char) : Closed (line ++ ['\n']) := .inr ⟨line, rfl⟩

theorem Closed.append {s t : List Char} (hs : Closed s) (ht : Closed t) : Closed (s ++ t) := by
  rcases ht with rfl | ⟨front, rfl⟩
  · rw [List.append_nil]
    exact hs
  · exact .inr ⟨s ++ front, (List.append_assoc _ _ _).symm⟩

/-- A line in front of whole lines. -/
theorem Closed.feed (line : List Char) {t : List Char} (ht : Closed t) : Closed (line ++ '\n' :: t) := by
  rcases ht with rfl | ⟨front, rfl⟩
  · exact .line line
  · exact .inr ⟨line ++ '\n' :: front, (List.append_assoc line ('\n' :: front) ['\n']).symm⟩

theorem Closed.flatMap {α : Type} {f : α → List Char} {l : List α} (h : ∀ a ∈ l, Closed (f a)) : Closed (l.flatMap f) := by
  induction l with
  | nil => exact .nil
  | cons a l ih =>
    rw [flatMap_cons]
    exact (h a mem_cons_self).append (ih fun b hb => h b (mem_cons_of_mem _ hb))

/-- **Behind whole lines** a text is read as if it stood alone. -/
theorem statements_append [CaseMap] {s : List Char} (hs : Closed s) (t : List Char) :
    statements (s ++ t) = statements s ++ statements t := by
  rcases hs with rfl | ⟨front, rfl⟩
  · rfl
  · rw [List.append_assoc]
    show statements (front ++ '\n' :: t) = statements (front ++ '\n' :: []) ++ statements t
    rw [statements_feed, statements_feed, statements_nil, List.append_nil]

theorem statements_flatMap [CaseMap] {α : Type} {f : α → List Char} {g : α → List ILStatement} {l : List α}
    (hclosed : ∀ a ∈ l, Closed (f a)) (h : ∀ a ∈ l, statements (f a) = g a) : statements (l.flatMap f) = l.flatMap g := by
  induction l with
  | nil => rfl
  | cons a l ih =>
    have hl := ih (fun b hb => hclosed b (mem_cons_of_mem _ hb)) fun b hb => h b (mem_cons_of_mem _ hb)
    rw [flatMap_cons, flatMap_cons, statements_append (hclosed a mem_cons_self), h a mem_cons_self, hl]

/-! ## Lines that start with a mnemonic -/

/-- The operand that is read behind a mnemonic. -/
def readOperand (s : List Char) : String :=
  match operandWord? s with
  | some word => String.ofList word
  | none => "?"

/-- A name is read as it is written. -/
theorem readOperand_name {x : String} (hx : IsName x) : readOperand x.toList = x := by
  unfold readOperand
  rw [operandWord?_name hx]
  exact String.ofList_toList

variable [CaseMap]

/-- **A line** that starts with a mnemonic is one statement. -/
theorem readLine_mnemonic {pad : List Char} (hpad : pad.all isWhitespace = true) {m : String} {tok : Token}
    (hm : parseMnemonic m = some tok) {statement : String → ILStatement} (hstatement : tok.withOperand? = some statement)
    (s : List Char) : readLine (pad ++ (m.toList ++ ' ' :: s)) = [statement (readOperand s)] := by
  unfold readLine readOperand
  rw [tokenizeLine_mnemonic hpad hm]
  cases operandWord? s with
  | none => exact parse_missing hstatement Leads.nil
  | some word => exact parse_operand hstatement _ []

theorem readLine_ld (s : List Char) : readLine ("LD ".toList ++ s) = [.load (readOperand s)] :=
  @readLine_mnemonic _ [] rfl "LD" .ld rfl _ rfl s

theorem readLine_st (s : List Char) : readLine ("ST ".toList ++ s) = [.store (readOperand s)] :=
  @readLine_mnemonic _ [] rfl "ST" .st rfl _ rfl s

/-- A line that starts with another word is not read, if that word is no label. -/
theorem readLine_other {pad : List Char} (hpad : pad.all isWhitespace = true) {w : List Char} (hw : IsWord w)
    (hparen : '(' ∉ w) (hcolon : w.getLast? ≠ some ':') (hupper : IsUpper w)
    (hother : parseMnemonic (String.ofList w) = none) (s : List Char) : readLine (pad ++ (w ++ ' ' :: s)) = [] := by
  have hmnemonic : mnemonic w = none := by
    unfold mnemonic
    rw [hupper.eq, hother]
  unfold readLine
  rw [tokenizeLine_word hpad hw hparen, if_neg hcolon, hmnemonic]
  rfl

/-- A line that starts with a semicolon is not read. -/
theorem readLine_comment (s : List Char) : readLine (';' :: ' ' :: s) = [] := by
  have hword : IsWord [';'] := .of_all (by decide) (by decide)
  exact @readLine_other _ [] rfl _ hword (by decide) (by decide) (IsUpper.of_ascii (by decide)) (by decide) s

/-! ## The program of a text -/

/-- **A text that compiles** has the code of its statements, with a register for each operand that needs one. -/
theorem ilCompile_some [Target] {text : List Char} {program : HalProgram}
    (h : ilCompile (String.ofList text) = some program) :
    ∃ regs, Assigned regs (statements text) ∧ program.instructions = linked regs (statements text) := by
  unfold ilCompile at h
  change (compileAst (statements text)).bind _ = some program at h
  cases hcompile : compileAst (statements text) with
  | none =>
    rw [hcompile] at h
    cases h
  | some code =>
    rw [hcompile, Option.bind_some, Option.some.injEq] at h
    obtain ⟨regs, hregs, hcode⟩ := compileAst_some hcompile
    refine ⟨regs, hregs, ?_⟩
    rw [← h]
    exact hcode

end Audesys.Il
