import Audesys.Il.Codegen
import Audesys.Lib.Text

/-!
# `Il.Syntax` — the text of Instruction List

The lexer and the parser of `audesys-il-compiler`, line by line: a mnemonic and its operand become two tokens, and
two tokens become a statement. What is not a mnemonic is skipped, and a missing operand is the variable `?`. Lines
of a mnemonic and a name are read as they are written (`parse_lines`).
-/

namespace Audesys.Il

open Audesys.Hal Audesys.Lib

/-! ## Tokens -/

inductive Token where
  | ld | ldn | st | and | andn | or | orn | xor | add | sub | mul | div | mod | gt | ge | eq | ne | le | lt
  | jmp | jmpc | jmpcn | cal | ret | s | r | not | ton | tof | tp | ctu | ctd | rTrig | fTrig | sr | rs
  | ident (name : String)
  | label (name : String)
  deriving DecidableEq

def parseMnemonic : String → Option Token
  | "LD" => some .ld
  | "LDN" => some .ldn
  | "ST" => some .st
  | "AND" => some .and
  | "ANDN" => some .andn
  | "OR" => some .or
  | "ORN" => some .orn
  | "XOR" => some .xor
  | "ADD" => some .add
  | "SUB" => some .sub
  | "MUL" => some .mul
  | "DIV" => some .div
  | "MOD" => some .mod
  | "GT" => some .gt
  | "GE" => some .ge
  | "EQ" => some .eq
  | "NE" => some .ne
  | "LE" => some .le
  | "LT" => some .lt
  | "JMP" => some .jmp
  | "JMPC" => some .jmpc
  | "JMPCN" => some .jmpcn
  | "CAL" => some .cal
  | "RET" => some .ret
  | "S" => some .s
  | "R" => some .r
  | "NOT" => some .not
  | "TON" => some .ton
  | "TOF" => some .tof
  | "TP" => some .tp
  | "CTU" => some .ctu
  | "CTD" => some .ctd
  | "R_TRIG" => some .rTrig
  | "F_TRIG" => some .fTrig
  | "SR" => some .sr
  | "RS" => some .rs
  | _ => none

/-! ## The lexer -/

/-- `remove_inline_comments`, from inside a comment or outside one. -/
def removeInlineComments : Bool → List Char → List Char
  | _, [] => []
  | _, '(' :: '*' :: rest => removeInlineComments true rest
  | true, '*' :: ')' :: rest => removeInlineComments false rest
  | true, _ :: rest => removeInlineComments true rest
  | false, c :: rest => c :: removeInlineComments false rest

section
variable [CaseMap]

/-- The mnemonic that a word is, in any case. -/
def mnemonic (word : List Char) : Option Token := parseMnemonic (String.ofList (toUppercase word))

/-- The words behind a label. -/
def labelledToken (word : List Char) : Token := (mnemonic word).getD (.ident (String.ofList word))

/-- One line. -/
def tokenizeLine (line : List Char) : List Token :=
  let trimmed := trim line
  if trimmed.isEmpty || ['(', '*'].isPrefixOf trimmed then []
  else
    match splitWhitespace (removeInlineComments false trimmed) with
    | [] => []
    | first :: rest =>
      let labelled :=
        if first.getLast? = some ':' then .label (String.ofList first.dropLast) :: rest.map labelledToken else []
      let plain :=
        match mnemonic first with
        | some tok => tok :: (rest.head?.map fun operand => .ident (String.ofList operand)).toList
        | none => []
      labelled ++ plain

def tokenize (source : String) : List Token := (lines source.toList).flatMap tokenizeLine

end

/-! ## The parser -/

/-- The statement of a token that takes an operand. -/
def Token.withOperand? : Token → Option (String → ILStatement)
  | ld => some .load
  | ldn => some .loadNot
  | st => some .store
  | and => some .and
  | andn => some .andNot
  | or => some .or
  | orn => some .orNot
  | xor => some .xor
  | add => some .add
  | sub => some .sub
  | mul => some .mul
  | div => some .div
  | mod => some .mod
  | gt => some (.cmp .gt)
  | ge => some (.cmp .ge)
  | eq => some (.cmp .eq)
  | ne => some (.cmp .ne)
  | le => some (.cmp .le)
  | lt => some (.cmp .lt)
  | jmp => some .jump
  | jmpc => some .jumpIf
  | jmpcn => some .jumpIfNot
  | cal => some .call
  | s => some .set
  | r => some .reset
  | ton => some .ton
  | tof => some .tof
  | tp => some .tp
  | ctu => some .ctu
  | ctd => some .ctd
  | rTrig => some .rTrig
  | fTrig => some .fTrig
  | sr => some .sr
  | rs => some .rs
  | ret | not | ident _ | label _ => none

/-- The statement of a token alone; a stray identifier has none. -/
def Token.alone? : Token → Option ILStatement
  | ret => some .ret
  | not => some .not
  | label name => some (.label name)
  | _ => none

/-- `parse`, with `expect_ident` for the operand. -/
def parse : List Token → List ILStatement
  | [] => []
  | tok :: rest =>
    match tok.withOperand? with
    | some statement =>
      match rest with
      | .ident name :: rest => statement name :: parse rest
      | rest => statement "?" :: parse rest
    | none => tok.alone?.toList ++ parse rest

/-! ## The compiler -/

section
variable [Target]

/-- The signal a `Store` names. -/
def storedSignal (inst : Instruction) : Option String :=
  match inst.opcode, inst.operands with
  | .store, .signalName name :: _ => some name
  | _, _ => none

/-- One binding for each signal that some `Store` names, in order of first occurrence. -/
def signalBindings : List String → List Instruction → List SignalBinding
  | _, [] => []
  | seen, inst :: rest =>
    match storedSignal inst with
    | some name =>
      if name ∈ seen then signalBindings seen rest
      else ⟨name, name, .write, .s32⟩ :: signalBindings (name :: seen) rest
    | none => signalBindings seen rest

/-- `il_compile`; `none` is the panic on an eleventh variable. The code has no path to an `Err`. -/
def ilCompile [CaseMap] (source : String) : Option HalProgram := do
  let instructions ← compileAst (parse (tokenize source))
  some { HalProgram.new "il_program" instructions with signals := signalBindings [] instructions }

end

/-! ## Reading what was written -/

theorem removeInlineComments_append {s : List Char} (h : '(' ∉ s) (t : List Char) :
    removeInlineComments false (s ++ t) = s ++ removeInlineComments false t := by
  induction s with
  | nil => rfl
  | cons c s ih =>
    have hc : c ≠ '(' := fun heq => h (heq ▸ List.mem_cons_self)
    have hrest := ih fun hin => h (List.mem_cons_of_mem _ hin)
    rw [List.cons_append, removeInlineComments, hrest, List.cons_append]
    rintro rest ⟨⟩
    exact absurd rfl hc

theorem removeInlineComments_eq {s : List Char} (h : '(' ∉ s) : removeInlineComments false s = s := by
  have heq := removeInlineComments_append h []
  rwa [List.append_nil, removeInlineComments, List.append_nil] at heq

/-- A name: a word that no comment starts in. -/
structure IsName (x : String) : Prop where
  word : IsWord x.toList
  not_paren : '(' ∉ x.toList

/-- The characters of mnemonics: upper case letters and the underscore. -/
def isMnemonicChar (c : Char) : Bool := (65 ≤ c.toNat && c.toNat ≤ 90) || c.toNat = 95

theorem parseMnemonic_chars {m : String} {tok : Token} (h : parseMnemonic m = some tok) :
    m.toList ≠ [] ∧ m.toList.all isMnemonicChar = true := by
  unfold parseMnemonic at h
  split at h
  all_goals first
    | exact ⟨by decide, by decide⟩
    | cases h

section
variable {c : Char} (h : isMnemonicChar c = true)

theorem toNat_of_mnemonicChar (h : isMnemonicChar c = true) : (65 ≤ c.toNat ∧ c.toNat ≤ 90) ∨ c.toNat = 95 := by
  simpa [isMnemonicChar] using h

theorem not_space_of_mnemonicChar (h : isMnemonicChar c = true) : isWhitespace c = false := by
  have := toNat_of_mnemonicChar h
  simp only [isWhitespace, Bool.or_eq_false_iff, Bool.and_eq_false_iff, decide_eq_false_iff_not]
  omega

theorem upper_of_mnemonicChar (h : isMnemonicChar c = true) : c.toNat < 128 ∧ c.toUpper = c := by
  have := toNat_of_mnemonicChar h
  refine ⟨by omega, ?_⟩
  unfold Char.toUpper
  refine dif_neg ?_
  rintro ⟨hlow, _⟩
  have hlow : 97 ≤ c.toNat := hlow
  omega

theorem ne_of_mnemonicChar (h : isMnemonicChar c = true) {d : Char} (hd : isMnemonicChar d = false) : c ≠ d := by
  rintro rfl
  rw [h] at hd
  cases hd

end

theorem isWord_mnemonic {m : String} {tok : Token} (h : parseMnemonic m = some tok) : IsWord m.toList :=
  ⟨(parseMnemonic_chars h).1, fun c hc =>
    not_space_of_mnemonicChar (List.all_eq_true.1 (parseMnemonic_chars h).2 c hc)⟩

theorem toList_line (m x : String) : (m ++ " " ++ x).toList = m.toList ++ ' ' :: x.toList := by
  rw [String.toList_append, String.toList_append, List.append_assoc]
  rfl

/-- A line of a mnemonic and a name, with its statement. -/
inductive Written : String → ILStatement → Prop
  | mk {m x : String} {tok : Token} {statement : String → ILStatement} : parseMnemonic m = some tok →
      tok.withOperand? = some statement → IsName x → Written (m ++ " " ++ x) (statement x)

section
variable [CaseMap]

/-- The first word behind a mnemonic. -/
def operandWord? (s : List Char) : Option (List Char) := (splitWhitespace (removeInlineComments false (trimEnd s))).head?

omit [CaseMap] in
theorem operandWord?_name {x : String} (hx : IsName x) : operandWord? x.toList = some x.toList := by
  unfold operandWord?
  rw [hx.word.trimEnd, removeInlineComments_eq hx.not_paren, splitWhitespace_word hx.word]
  rfl

/-- The tokens of a line by its first word, which no comment starts in. -/
theorem tokenizeLine_word {pad : List Char} (hpad : pad.all isWhitespace = true) {w : List Char} (hw : IsWord w)
    (hparen : '(' ∉ w) (s : List Char) :
    tokenizeLine (pad ++ (w ++ ' ' :: s)) =
      (if w.getLast? = some ':' then
        .label (String.ofList w.dropLast) ::
          (splitWhitespace (removeInlineComments false (trimEnd s))).map labelledToken
      else []) ++
      (match mnemonic w with
      | some tok => tok :: ((operandWord? s).map fun word => .ident (String.ofList word)).toList
      | none => []) := by
  obtain ⟨d, rest, hd⟩ := List.exists_cons_of_ne_nil hw.ne_nil
  have hmem : d ∈ w := by
    rw [hd]
    exact List.mem_cons_self
  -- the blank behind the word is cut off if nothing is behind it
  have htrim : trim (pad ++ (w ++ ' ' :: s)) = w ++ if trimEnd s = [] then [] else ' ' :: trimEnd s := by
    rw [trim_word (List.all_eq_true.1 hpad) hw]
    exact congrArg (w ++ ·) (trimEnd_append [' '] s)
  have hwords : splitWhitespace (removeInlineComments false (trim (pad ++ (w ++ ' ' :: s)))) =
      w :: splitWhitespace (removeInlineComments false (trimEnd s)) := by
    rw [htrim]
    split
    · rename_i hblank
      rw [hblank, List.append_nil, removeInlineComments_eq hparen, splitWhitespace_word hw]
      rfl
    · rw [removeInlineComments_append hparen]
      have hblank : removeInlineComments false (' ' :: trimEnd s) = ' ' :: removeInlineComments false (trimEnd s) := by
        rw [removeInlineComments]
        rintro rest ⟨⟩
      rw [hblank, splitWhitespace_cons hw (by decide)]
  have hopen : ((trim (pad ++ (w ++ ' ' :: s))).isEmpty ||
      ['(', '*'].isPrefixOf (trim (pad ++ (w ++ ' ' :: s)))) = false := by
    have hd' : '(' ≠ d := fun heq => hparen (heq ▸ hmem)
    rw [htrim, hd]
    split <;> simp [List.isPrefixOf, hd']
  unfold tokenizeLine operandWord?
  simp only [hopen, hwords, Bool.false_eq_true, if_false]

/-- **One line** that starts with a mnemonic. -/
theorem tokenizeLine_mnemonic {pad : List Char} (hpad : pad.all isWhitespace = true) {m : String} {tok : Token}
    (hm : parseMnemonic m = some tok) (s : List Char) :
    tokenizeLine (pad ++ (m.toList ++ ' ' :: s)) =
      tok :: ((operandWord? s).map fun word => .ident (String.ofList word)).toList := by
  have hchars := List.all_eq_true.1 (parseMnemonic_chars hm).2
  have hupper : IsUpper m.toList := by
    intro c hc
    obtain ⟨hascii, heq⟩ := upper_of_mnemonicChar (hchars c hc)
    rw [CaseMap.upper_ascii c hascii, heq]
  have hparen : '(' ∉ m.toList := fun hin => ne_of_mnemonicChar (hchars _ hin) (by decide) rfl
  have hcolon : m.toList.getLast? ≠ some ':' := by
    intro hlast
    exact ne_of_mnemonicChar (hchars _ (List.mem_of_getLast? hlast)) (by decide) rfl
  have hmnemonic : mnemonic m.toList = some tok := by
    unfold mnemonic
    rw [hupper.eq, String.ofList_toList, hm]
  rw [tokenizeLine_word hpad (isWord_mnemonic hm) hparen, if_neg hcolon, hmnemonic]
  rfl

/-- **One line** of a mnemonic and a name. -/
theorem tokenizeLine_eq {m x : String} {tok : Token} (hm : parseMnemonic m = some tok) (hx : IsName x) :
    tokenizeLine (m ++ " " ++ x).toList = [tok, .ident x] := by
  have hline := @tokenizeLine_mnemonic _ [] rfl m tok hm x.toList
  rw [operandWord?_name hx, List.nil_append] at hline
  rw [toList_line, hline, Option.map_some, String.ofList_toList]
  rfl

omit [CaseMap] in
theorem isLine_written {line : String} {stmt : ILStatement} (h : Written line stmt) : IsLine line.toList := by
  obtain @⟨m, x, _, _, hm, _, hx⟩ := h
  rw [toList_line]
  exact @isLine_pair [] _ _ rfl (isWord_mnemonic hm) hx.word

/-- **A text of lines** that each consist of a mnemonic and a name is read as their statements. -/
theorem parse_lines {ls : List String} {stmts : List ILStatement} (h : List.Forall₂ Written ls stmts) :
    parse (tokenize ("\n".intercalate ls)) = stmts := by
  have hlines : lines ("\n".intercalate ls).toList = ls.map String.toList := by
    rw [String.toList_intercalate]
    refine lines_intercalate ?_
    intro l hl
    induction h with
    | nil => cases hl
    | cons hwritten _ ih =>
      rcases List.mem_cons.1 hl with rfl | hl
      · exact isLine_written hwritten
      · exact ih hl
  unfold tokenize
  rw [hlines]
  clear hlines
  induction h with
  | nil => rfl
  | @cons line stmt ls stmts hwritten _ ih =>
    obtain ⟨hm, hstatement, hx⟩ := hwritten
    rw [List.map_cons, List.flatMap_cons, tokenizeLine_eq hm hx]
    show parse (_ :: .ident _ :: _) = _
    rw [parse, hstatement]
    exact congrArg _ ih

end

end Audesys.Il
