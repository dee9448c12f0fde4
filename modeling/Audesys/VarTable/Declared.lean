import Audesys.St.Parser
import Audesys.St.Positions
import Audesys.VarTable.RoundTrip

/-!
# `VarTable.Declared` — lines that the parser of Structured Text accepts

What the lexer and the parser of Structured Text make of a line of a variable block. The parser knows declarations
`name : type;` and no initial values. So a row that has none is accepted if its type is one of those that are a single
word and its comment is (`accepts_row_iff`).
-/

open List

namespace Audesys.VarTable

open Audesys.Hal Audesys.Lib Audesys.St

variable [Target] [CharTable] [F64Math]
variable {rest : List TokenInfo} {vars : List Variable} {fuel : Nat} {c : Char}

/-! ## Tokens -/

/-- The tokens of a text that begins at a position. -/
def LexesFrom (cs : List Char) (line col : Nat) (ts : List TokenInfo) : Prop :=
  tokenizeFrom cs.length cs line col = .ok ts

variable {cs : List Char} {line col : Nat} {ts : List TokenInfo}

/-- A round, if it is known what it does. -/
theorem lexesFrom_step {token : Option Token} {cursor : Cursor}
    (hstep : tokenizeStep c cs line col = .ok (token, cursor)) : LexesFrom (c :: cs) line col ts ↔
      ∃ ts', LexesFrom cursor.rest cursor.line cursor.col ts' ∧ ts = (token.map (⟨·, ⟨line, col⟩⟩)).toList ++ ts' := by
  have hshorter := (tokenizeStep_round hstep).shorter
  rw [length_cons] at hshorter
  have hfuel : tokenizeFrom cs.length cursor.rest cursor.line cursor.col =
      tokenizeFrom cursor.rest.length cursor.rest cursor.line cursor.col :=
    tokenizeFrom_of_length_le (by omega) (Nat.le_refl _) _ _
  unfold LexesFrom
  rw [length_cons, tokenizeFrom, hstep]
  simp only [bind, Except.bind, hfuel]
  cases tokenizeFrom cursor.rest.length cursor.rest cursor.line cursor.col with
  | error e => simp
  | ok ts' => simp [pure, Except.pure, eq_comm]

omit [Target] [CharTable] [F64Math] in
theorem rest_skipComment (depth : Nat) (cs : List Char) (line col line' col' : Nat) :
    (skipComment depth cs line col).rest = (skipComment depth cs line' col').rest := by
  fun_induction skipComment depth cs line col generalizing line' col' with
  | case1 cs line col => rw [skipComment]
  | case2 depth line col => rw [skipComment]
  | case3 depth cs line col ih => exact ih _ _
  | case4 depth cs line col ih => exact ih _ _
  | case5 depth cs line col hopen hclose ih =>
    rw [skipComment]
    · exact ih _ _
    · exact hopen
    · exact hclose
  | case6 depth c cs line col hopen hclose hc ih =>
    rw [skipComment, if_neg hc]
    · exact ih _ _
    · exact hopen
    · exact hclose

/-- Where a round starts changes neither its token nor what is left. -/
theorem tokenizeStep_shift {token : Option Token} {cursor : Cursor}
    (h : tokenizeStep c cs line col = .ok (token, cursor)) (line' col' : Nat) :
    ∃ cursor', tokenizeStep c cs line' col' = .ok (token, cursor') ∧ cursor'.rest = cursor.rest := by
  unfold tokenizeStep at h ⊢
  split at h
  · rename_i hfeed
    cases h
    rw [if_pos hfeed]
    exact ⟨_, rfl, rfl⟩
  · rename_i hfeed
    rw [if_neg hfeed]
    split at h
    · rename_i hblank
      cases h
      rw [if_pos hblank]
      exact ⟨_, rfl, rfl⟩
    · rename_i hblank
      rw [if_neg hblank]
      split at h
      · rename_i hopen
        cases h
        rw [if_pos hopen]
        exact ⟨_, rfl, rest_skipComment _ _ _ _ _ _⟩
      · rename_i hopen
        rw [if_neg hopen]
        split at h
        · cases h
          exact ⟨_, rfl, rfl⟩
        · split at h
          · rename_i hletter
            cases h
            rw [if_pos hletter]
            exact ⟨_, rfl, rfl⟩
          · rename_i hletter
            rw [if_neg hletter]
            split at h
            · rename_i hdigit
              cases h
              rw [if_pos hdigit]
              exact ⟨_, rfl, rfl⟩
            · cases h

/-- A text has the same tokens wherever it stands. -/
theorem LexesFrom.shift (h : LexesFrom cs line col ts) (line' col' : Nat) :
    ∃ ts', LexesFrom cs line' col' ts' ∧ ts'.map (·.token) = ts.map (·.token) := by
  induction hlen : cs.length using Nat.strong_induction_on generalizing cs line col ts line' col' with
  | _ n ih =>
    cases cs with
    | nil => exact ⟨ts, h, rfl⟩
    | cons c cs =>
      cases hstep : tokenizeStep c cs line col with
      | error e =>
        unfold LexesFrom at h
        rw [length_cons, tokenizeFrom, hstep] at h
        cases h
      | ok r =>
        obtain ⟨token, cursor⟩ := r
        obtain ⟨ts', hts', rfl⟩ := (lexesFrom_step hstep).1 h
        obtain ⟨cursor', hstep', hrest⟩ := tokenizeStep_shift hstep line' col'
        have hshorter := (tokenizeStep_round hstep).shorter
        rw [hlen] at hshorter
        obtain ⟨ts'', hts'', hsame⟩ := ih _ hshorter hts' cursor'.line cursor'.col rfl
        rw [← hrest] at hts''
        refine ⟨_, (lexesFrom_step hstep').2 ⟨ts'', hts'', rfl⟩, ?_⟩
        cases token <;> simp [hsame]

/-- The tokens of a text, wherever it stands. -/
def Spells (text : List Char) (tokens : List Token) : Prop :=
  ∃ ts, tokenize (String.ofList text) = .ok ts ∧ ts.map (·.token) = tokens

variable {tokens : List Token}

theorem spells_iff (line col : Nat) :
    Spells cs tokens ↔ ∃ ts, LexesFrom cs line col ts ∧ ts.map (·.token) = tokens := by
  unfold Spells tokenize
  rw [String.toList_ofList]
  constructor
  · rintro ⟨ts, hts, rfl⟩
    have hts' : LexesFrom cs 1 1 ts := hts
    exact hts'.shift line col
  · rintro ⟨ts, hts, rfl⟩
    exact hts.shift 1 1

/-- A round, if it is known what it does. -/
theorem spells_step {token : Option Token} {cursor : Cursor}
    (hstep : tokenizeStep c cs line col = .ok (token, cursor)) :
    Spells (c :: cs) tokens ↔ ∃ tokens', Spells cursor.rest tokens' ∧ tokens = token.toList ++ tokens' := by
  rw [spells_iff line col]
  simp only [spells_iff cursor.line cursor.col, lexesFrom_step hstep]
  constructor
  · rintro ⟨_, ⟨ts, hts, rfl⟩, rfl⟩
    refine ⟨_, ⟨ts, hts, rfl⟩, ?_⟩
    cases token <;> simp
  · rintro ⟨_, ⟨ts, hts, rfl⟩, rfl⟩
    refine ⟨_, ⟨ts, hts, rfl⟩, ?_⟩
    cases token <;> simp

theorem spells_blank (hc : c = ' ' ∨ c = '\r' ∨ c = '\t') : Spells (c :: cs) tokens ↔ Spells cs tokens := by
  have hne : c ≠ '\n' := by
    rintro rfl
    revert hc
    decide
  have hstep : tokenizeStep c cs 1 1 = .ok (none, ⟨cs, 1, 2⟩) := by
    unfold tokenizeStep
    rw [if_neg hne, if_pos hc]
  rw [spells_step hstep]
  simp

theorem spells_semicolon :
    Spells (';' :: cs) tokens ↔ ∃ tokens', Spells cs tokens' ∧ tokens = .semicolon :: tokens' := by
  have hstep : tokenizeStep ';' cs 1 1 = .ok (some .semicolon, ⟨cs, 1, 2⟩) := rfl
  rw [spells_step hstep]
  simp

theorem spells_assign :
    Spells (':' :: '=' :: cs) tokens ↔ ∃ tokens', Spells cs tokens' ∧ tokens = .assign :: tokens' := by
  have hstep : tokenizeStep ':' ('=' :: cs) 1 1 = .ok (some .assign, ⟨cs, 1, 3⟩) := rfl
  rw [spells_step hstep]
  simp

theorem spells_colon (hc : c ≠ '=') :
    Spells (':' :: c :: cs) tokens ↔ ∃ tokens', Spells (c :: cs) tokens' ∧ tokens = .colon :: tokens' := by
  have hstep : tokenizeStep ':' (c :: cs) 1 1 = .ok (some .colon, ⟨c :: cs, 1, 2⟩) := by
    have hassign : [':', '='].isPrefixOf (':' :: c :: cs) = false := by simp [List.isPrefixOf, hc.symm]
    have hfind : (symbols : List (List Char × Token)).find? (fun symbol => symbol.1.isPrefixOf (':' :: c :: cs)) =
        some ([':'], .colon) := by
      unfold symbols
      simp only [find?_cons, hassign]
      rfl
    unfold tokenizeStep
    rw [hfind]
    rfl
  rw [spells_step hstep]
  simp

omit [Target] [F64Math] in
theorem isNameChar_of_isIdentPart (h : isIdentPart c = true) : isNameChar c = true := by
  have hascii : c.toNat < 128 := Nat.lt_of_le_of_lt (toNat_of_isIdentPart h).2 (by decide)
  unfold isIdentPart Char.isAlphanum at h
  unfold isNameChar
  rw [CharTable.ascii_isAlphabetic c hascii, CharTable.ascii_isNumeric c hascii]
  simpa using h

omit [CharTable] [F64Math] in
/-- No symbol begins as an identifier does. -/
theorem symbols_of_isIdentStart (h : isIdentStart c = true) (cs : List Char) :
    (symbols : List (List Char × Token)).find? (fun symbol => symbol.1.isPrefixOf (c :: cs)) = none := by
  have hfirst : ∀ symbol ∈ (symbols : List (List Char × Token)), ∃ d text, symbol.1 = d :: text ∧
      isIdentStart d = false := by
    simp [symbols, isIdentStart, Char.isAlpha, Char.isUpper, Char.isLower]
  refine find?_eq_none.2 fun symbol hsymbol hstarts => ?_
  obtain ⟨d, text, htext, hd⟩ := hfirst symbol hsymbol
  rw [htext, isPrefixOf_cons_cons, Bool.and_eq_true, beq_iff_eq] at hstarts
  rw [hstarts.1, h] at hd
  cases hd

theorem spells_name {name : List Char} (hname : IsIdent name) {rest : List Char}
    (hstop : ∀ c ∈ rest.head?, isNameChar c = false) : Spells (name ++ rest) tokens ↔
      ∃ tokens', Spells rest tokens' ∧ tokens = matchKeyword (String.ofList name) :: tokens' := by
  have hall : ∀ c ∈ name, isNameChar c = true := fun c hc => isNameChar_of_isIdentPart (hname.isIdentPart c hc)
  have htake : (name ++ rest).takeWhile isNameChar = name := by
    rw [takeWhile_append_of_pos hall]
    cases rest with
    | nil => exact List.append_nil name
    | cons d rest =>
      have hd := hstop d rfl
      rw [takeWhile_cons_of_neg (Bool.eq_false_iff.1 hd), List.append_nil]
  have hdrop : (name ++ rest).dropWhile isNameChar = rest := by
    rw [dropWhile_append_of_pos hall]
    cases rest with
    | nil => rfl
    | cons d rest => exact dropWhile_cons_of_neg (Bool.eq_false_iff.1 (hstop d rfl))
  obtain ⟨c, tail, rfl, hc, _⟩ := hname
  have hne : ∀ d, isIdentStart d = false → c ≠ d := by
    rintro d hd rfl
    rw [hc] at hd
    cases hd
  have hblank : ¬ (c = ' ' ∨ c = '\r' ∨ c = '\t') := by
    simp only [not_or]
    exact ⟨hne ' ' (by decide), hne '\r' (by decide), hne '\t' (by decide)⟩
  have hletter : (CharTable.isAlphabetic c || c == '_') = true := by
    have hascii : c.toNat < 128 :=
      Nat.lt_of_le_of_lt (toNat_of_isIdentPart (isIdentPart_of_isIdentStart hc)).2 (by decide)
    rw [CharTable.ascii_isAlphabetic c hascii]
    unfold isIdentStart at hc
    simpa using hc
  have hstep (line col : Nat) : tokenizeStep c (tail ++ rest) line col =
      .ok (some (matchKeyword (String.ofList (c :: tail))), ⟨rest, line, col + (c :: tail).length⟩) := by
    rw [cons_append] at htake hdrop
    unfold tokenizeStep
    rw [if_neg (hne '\n' (by decide)), if_neg hblank, if_neg fun h => hne '(' (by decide) h.1,
      symbols_of_isIdentStart hc]
    dsimp only
    rw [if_pos hletter, htake, hdrop]
  rw [cons_append, spells_step (hstep 1 1)]
  simp

/-! ## Declarations -/

/-- The types of one word. -/
def wordType : Token → Option VarType
  | .string => some .string
  | token => simpleType token

section
omit [CharTable] [F64Math]

theorem expect_eq_ok {token : Token} {ti : TokenInfo} {u : Unit} :
    expect token (ti :: ts) = .ok u rest ↔ ti.token = token ∧ rest = ts := by
  unfold expect
  rw [advance_bind]
  dsimp only [head?_cons, tail_cons]
  by_cases htoken : ti.token = token
  · rw [if_pos htoken, Lib.Parser.pure_apply, Lib.Parsed.ok.injEq]
    exact ⟨fun h => ⟨htoken, h.2.symm⟩, fun h => ⟨rfl, h.2.symm⟩⟩
  · rw [if_neg htoken]
    exact ⟨fun h => (by cases h), fun h => absurd h.1 htoken⟩

theorem expectIdent_eq_ok {ti : TokenInfo} {found : String × Span} :
    expectIdent (ti :: ts) = .ok found rest ↔ ti.token = .identifier found.1 ∧ found.2 = ti.span ∧ rest = ts := by
  obtain ⟨name, span⟩ := found
  unfold expectIdent
  rw [advance_bind]
  dsimp only [head?_cons, tail_cons]
  generalize ti.token = token
  split
  · simp [eq_comm, and_assoc]
  · rename_i hident
    exact ⟨fun h => (by cases h), fun h => absurd h.1 (hident _)⟩

/-- Behind a type of one word neither a length nor bounds follow. -/
theorem parseVarType_eq_ok {ti next : TokenInfo} {varType : VarType}
    (hlparen : next.token ≠ .lparen) (hlbracket : next.token ≠ .lbracket) :
    parseVarType (fuel + 1) (ti :: next :: ts) = .ok varType rest ↔
      wordType ti.token = some varType ∧ rest = next :: ts := by
  unfold parseVarType
  rw [advance_bind]
  dsimp only [head?_cons, tail_cons]
  generalize ti.token = token
  by_cases hstring : token = .string
  · have hlength : parseStringLength (next :: ts) = .ok () (next :: ts) := by
      unfold parseStringLength
      rw [peekToken_bind, head?_cons, Option.map_some, if_neg fun h => hlparen (Option.some.inj h)]
      rfl
    rw [hstring]
    dsimp only
    rw [Lib.Parser.bind_ok hlength, Lib.Parser.pure_apply, Lib.Parsed.ok.injEq, eq_comm (a := rest)]
    unfold wordType
    rw [Option.some.injEq]
  · by_cases harray : token = .array
    · have hbracket : (expect .lbracket : Parser Unit) (next :: ts) = .error (unexpected next) := by
        unfold expect
        rw [advance_bind, head?_cons]
        dsimp only
        rw [if_neg hlbracket]
        rfl
      rw [harray]
      dsimp only
      rw [Lib.Parser.bind_error hbracket]
      simp [wordType, simpleType]
    · have hword : wordType token = simpleType token := by
        unfold wordType
        split
        · exact absurd rfl hstring
        · rfl
      rw [hword]
      split
      · exact absurd rfl hstring
      · exact absurd rfl harray
      · cases simpleType token with
        | none => simp
        | some varType' => simp [eq_comm]

/-- A declaration is read if a semicolon follows the word of the type. -/
theorem parseDeclaration_eq_ok {name colon type next : TokenInfo} {v : Variable}
    {n : Nat} (hcolon : colon.token = .colon) (hlparen : next.token ≠ .lparen) (hlbracket : next.token ≠ .lbracket) :
    parseDeclaration (fuel + 1) (name :: colon :: type :: next :: ts) = .ok (v, n) rest ↔
      name.token = .identifier v.name ∧ wordType type.token = some v.varType ∧ next.token = .semicolon ∧ rest = ts ∧
        n = name.span.line := by
  unfold parseDeclaration
  simp only [Lib.Parser.bind_eq_ok]
  constructor
  · rintro ⟨⟨ident, span⟩, _, hident, _, _, hexpect, varType, _, htype, _, _, hsemicolon, hpure⟩
    obtain ⟨hname, rfl, rfl⟩ := expectIdent_eq_ok.1 hident
    obtain ⟨-, rfl⟩ := expect_eq_ok.1 hexpect
    obtain ⟨hword, rfl⟩ := (parseVarType_eq_ok hlparen hlbracket).1 htype
    obtain ⟨hnext, rfl⟩ := expect_eq_ok.1 hsemicolon
    rw [Lib.Parser.pure_apply, Lib.Parsed.ok.injEq, Prod.mk.injEq] at hpure
    obtain ⟨⟨rfl, rfl⟩, rfl⟩ := hpure
    exact ⟨hname, hword, hnext, rfl, rfl⟩
  · rintro ⟨hname, htype, hnext, rfl, rfl⟩
    exact ⟨(v.name, name.span), _, expectIdent_eq_ok.2 ⟨hname, rfl, rfl⟩, (), _, expect_eq_ok.2 ⟨hcolon, rfl⟩,
      v.varType, _, (parseVarType_eq_ok hlparen hlbracket).2 ⟨htype, rfl⟩, (), _, expect_eq_ok.2 ⟨hnext, rfl⟩, rfl⟩

theorem parseDeclaration_zero {v : Variable} {n : Nat} : parseDeclaration 0 ts ≠ .ok (v, n) rest := by
  unfold parseDeclaration
  simp only [ne_eq, Lib.Parser.bind_eq_ok]
  rintro ⟨_, _, _, _, _, _, _, _, htype, _⟩
  cases htype

/-- The loop over declarations only adds to them. -/
theorem parseDeclarations_subset {stop : Token} {acc vars : List Variable}
    (h : parseDeclarations fuel stop acc ts = .ok vars rest) : acc ⊆ vars := by
  induction fuel generalizing acc ts with
  | zero => cases h
  | succ fuel ih =>
    unfold parseDeclarations at h
    rw [peekToken_bind] at h
    split at h
    · obtain ⟨⟨v, n⟩, ts', -, hrest⟩ := Lib.Parser.bind_eq_ok.1 h
      dsimp only at hrest
      split at hrest
      · cases hrest
      · exact List.Subset.trans (subset_append_left acc [v]) (ih hrest)
    · rw [Lib.Parser.pure_apply, Lib.Parsed.ok.injEq] at h
      rw [h.1]
      exact List.Subset.refl _

/-- Declarations in front only have to have other names. -/
theorem parseDeclarations_append {stop : Token} {acc acc' vars : List Variable}
    (hfresh : ∀ a ∈ acc, ∀ v ∈ acc', a.name ≠ v.name) :
    parseDeclarations fuel stop (acc ++ acc') ts = .ok vars rest ↔
      ∃ vars', parseDeclarations fuel stop acc' ts = .ok vars' rest ∧ (∀ a ∈ acc, ∀ v ∈ vars', a.name ≠ v.name) ∧
        vars = acc ++ vars' := by
  induction fuel generalizing acc' ts with
  | zero => exact ⟨fun h => (by cases h), fun ⟨_, h, _⟩ => (by cases h)⟩
  | succ fuel ih =>
    unfold parseDeclarations
    rw [peekToken_bind, peekToken_bind]
    split
    · simp only [Lib.Parser.bind_eq_ok]
      constructor
      · rintro ⟨⟨v, n⟩, ts', hv, hrest⟩
        dsimp only at hrest
        split at hrest
        · cases hrest
        · rename_i hnew
          simp at hnew
          have hfresh' : ∀ a ∈ acc, ∀ w ∈ acc' ++ [v], a.name ≠ w.name := by
            intro a ha w hw
            rcases mem_append.1 hw with hw | hw
            · exact hfresh a ha w hw
            · rw [mem_singleton.1 hw]
              exact hnew.1 a ha
          rw [List.append_assoc] at hrest
          obtain ⟨vars', hvars', hnames, rfl⟩ := (ih hfresh').1 hrest
          refine ⟨vars', ⟨(v, n), ts', hv, ?_⟩, hnames, rfl⟩
          dsimp only
          rw [if_neg (by simpa using hnew.2)]
          exact hvars'
      · rintro ⟨vars', ⟨⟨v, n⟩, ts', hv, hrest⟩, hnames, rfl⟩
        refine ⟨(v, n), ts', hv, ?_⟩
        dsimp only at hrest ⊢
        split at hrest
        · cases hrest
        · rename_i hnew
          have hmem : v ∈ vars' := parseDeclarations_subset hrest (mem_append_right _ (mem_singleton_self v))
          have hfresh' : ∀ a ∈ acc, ∀ w ∈ acc' ++ [v], a.name ≠ w.name := fun a ha w hw =>
            hnames a ha w (parseDeclarations_subset hrest hw)
          have hnew' : ¬ (acc ++ acc').any (·.name == v.name) = true := by
            rw [any_append, Bool.or_eq_true, not_or]
            refine ⟨?_, hnew⟩
            simp only [any_eq_true, beq_iff_eq, not_exists, not_and]
            exact fun a ha => hnames a ha v hmem
          rw [if_neg hnew', List.append_assoc]
          exact (ih hfresh').2 ⟨vars', hrest, hnames, rfl⟩
    · simp only [Lib.Parser.pure_apply, Lib.Parsed.ok.injEq]
      constructor
      · rintro ⟨rfl, rfl⟩
        exact ⟨acc', ⟨rfl, rfl⟩, hfresh, rfl⟩
      · rintro ⟨_, ⟨rfl, rfl⟩, -, rfl⟩
        exact ⟨rfl, rfl⟩

end

/-! ## Rows -/

/-- Between `VAR` and `END_VAR` the parser reads the text as declarations of the variables. -/
def Accepts (text : List Char) (vars : List Variable) : Prop :=
  ∃ ts start stop fuel, Spells text (ts.map (·.token)) ∧
    parseVarBlock fuel (⟨.var, start⟩ :: (ts ++ [⟨.endVar, stop⟩])) = .ok vars []

/-- The text declares the variable. -/
def Declares (text : List Char) (v : Variable) : Prop := ∃ vars, Accepts text vars ∧ v ∈ vars

/-- The name and the type of a row are those of a variable. -/
structure Reads (row : GvlVariable) (v : Variable) : Prop where
  name : matchKeyword (String.ofList row.name) = (.identifier v.name : Token)
  type : wordType (matchKeyword (String.ofList row.type) : Token) = some v.varType
  init : row.init = []

omit [Target] [F64Math] in
theorem isNameChar_ascii (hascii : c.toNat < 128) : isNameChar c = (c.isAlpha || c.isDigit || c == '_') := by
  unfold isNameChar
  rw [CharTable.ascii_isAlphabetic c hascii, CharTable.ascii_isNumeric c hascii]

/-- The tokens of a row, up to those of the initial value. -/
theorem spells_row {r : GvlVariable} (hr : Writable r) : Spells (row r) tokens ↔
    ∃ tokens', Spells (initText r.init ++ ';' :: commentText r.comment) tokens' ∧
      tokens = matchKeyword (String.ofList r.name) :: .colon :: matchKeyword (String.ofList r.type) :: tokens' := by
  have hblank : ∀ rest : List Char, ∀ c ∈ (' ' :: rest).head?, isNameChar c = false := by
    rintro rest c hc
    obtain rfl := Option.some.inj hc
    rw [isNameChar_ascii (by decide)]
    decide
  have hstop : ∀ c ∈ (initText r.init ++ ';' :: commentText r.comment).head?, isNameChar c = false := by
    unfold initText
    split
    · rintro c hc
      obtain rfl := Option.some.inj hc
      rw [isNameChar_ascii (by decide)]
      decide
    · exact hblank _
  have hrow : row r = ' ' :: ' ' :: ' ' :: ' ' :: (r.name ++ ' ' :: ':' :: ' ' ::
      (r.type ++ (initText r.init ++ ';' :: commentText r.comment))) := by
    rw [row_eq]
    rfl
  rw [hrow]
  simp only [spells_blank (c := ' ') (.inl rfl), spells_name hr.name (hblank _), spells_colon (c := ' ') (by decide),
    spells_name hr.type hstop]
  constructor
  · rintro ⟨_, ⟨_, ⟨tokens', h, rfl⟩, rfl⟩, rfl⟩
    exact ⟨tokens', h, rfl⟩
  · rintro ⟨tokens', h, rfl⟩
    exact ⟨_, ⟨_, ⟨tokens', h, rfl⟩, rfl⟩, rfl⟩

section
omit [CharTable] [F64Math]

/-- The block that is left behind a declaration at its front. -/
theorem parseVarBlock_iff {start : Span} : parseVarBlock fuel (⟨.var, start⟩ :: ts) = .ok vars [] ↔
      ∃ rest, parseDeclarations fuel .endVar [] ts = .ok vars rest ∧
        (rest.map (·.token) = [.endVar] ∨ rest.map (·.token) = [.endVar, .semicolon]) := by
  have hvar : expect .var (⟨.var, start⟩ :: ts) = .ok () ts := expect_eq_ok.2 ⟨rfl, rfl⟩
  unfold parseVarBlock
  rw [Lib.Parser.bind_ok hvar]
  constructor
  · intro h
    obtain ⟨vars', rest, hvars, hclose⟩ := Lib.Parser.bind_eq_ok.1 h
    obtain ⟨_, more, hend, htail⟩ := Lib.Parser.bind_eq_ok.1 hclose
    clear h hclose
    cases rest with
    | nil => cases hend
    | cons ti rest =>
      obtain ⟨hti, rfl⟩ := expect_eq_ok.1 hend
      rw [peekToken_bind] at htail
      cases more with
      | nil =>
        obtain rfl := (Lib.Parsed.ok.inj htail).1
        exact ⟨_, hvars, .inl (by rw [map_singleton, hti])⟩
      | cons ti' more =>
        split at htail
        · rename_i hsemicolon
          obtain ⟨rfl, rfl⟩ := Lib.Parsed.ok.inj htail
          have hti' : ti'.token = .semicolon := Option.some.inj hsemicolon
          refine ⟨_, hvars, .inr ?_⟩
          rw [map_cons, map_singleton, hti, hti']
        · obtain ⟨-, hnil⟩ := Lib.Parsed.ok.inj htail
          cases hnil
  · rintro ⟨rest, hvars, hend | hend⟩
    · obtain ⟨ti, rest, rfl, hti, hnil⟩ := map_eq_cons_iff.1 hend
      obtain rfl := map_eq_nil_iff.1 hnil
      have hexpect : expect .endVar [ti] = .ok () [] := expect_eq_ok.2 ⟨hti, rfl⟩
      rw [Lib.Parser.bind_ok hvars, Lib.Parser.bind_ok hexpect]
      rfl
    · obtain ⟨ti, rest, rfl, hti, hmore⟩ := map_eq_cons_iff.1 hend
      obtain ⟨ti', rest, rfl, hti', hnil⟩ := map_eq_cons_iff.1 hmore
      obtain rfl := map_eq_nil_iff.1 hnil
      have hexpect : expect .endVar [ti, ti'] = .ok () [ti'] := expect_eq_ok.2 ⟨hti, rfl⟩
      have hsemicolon : [ti'].head?.map (·.token) = some .semicolon := congrArg some hti'
      rw [Lib.Parser.bind_ok hvars, Lib.Parser.bind_ok hexpect, peekToken_bind, if_pos hsemicolon]
      rfl

/-- The loop does not get past a declaration with less fuel. -/
theorem parseDeclarations_fuel {name : TokenInfo}
    (hname : name.token ≠ .endVar) (h : parseDeclarations fuel .endVar [] (name :: ts) = .ok vars rest) :
    ∃ k, fuel = k + 2 := by
  have hpeek : (name :: ts).head?.map (·.token) ≠ some .endVar := fun h => hname (Option.some.inj h)
  match fuel with
  | 0 => cases h
  | 1 =>
    rw [parseDeclarations, peekToken_bind, if_pos hpeek] at h
    obtain ⟨⟨v, n⟩, mid, hv, -⟩ := Lib.Parser.bind_eq_ok.1 h
    exact absurd hv parseDeclaration_zero
  | k + 2 => exact ⟨k, rfl⟩

/-- The loop over declarations at the tokens of one. -/
theorem parseDeclarations_cons {name colon type next : TokenInfo}
    (hname : name.token ≠ .endVar) (hcolon : colon.token = .colon)
    (hlparen : next.token ≠ .lparen) (hlbracket : next.token ≠ .lbracket) :
    parseDeclarations (fuel + 2) .endVar [] (name :: colon :: type :: next :: ts) = .ok vars rest ↔
      ∃ v more, name.token = .identifier v.name ∧ wordType type.token = some v.varType ∧ next.token = .semicolon ∧
        parseDeclarations (fuel + 1) .endVar [] ts = .ok more rest ∧ (∀ w ∈ more, v.name ≠ w.name) ∧
          vars = v :: more := by
  have hpeek : (name :: colon :: type :: next :: ts).head?.map (·.token) ≠ some .endVar :=
    fun h => hname (Option.some.inj h)
  have hany (v : Variable) : ¬ ([] : List Variable).any (·.name == v.name) = true := Bool.false_ne_true
  have happend (v : Variable) : parseDeclarations (fuel + 1) .endVar ([] ++ [v]) ts = .ok vars rest ↔
      ∃ more, parseDeclarations (fuel + 1) .endVar [] ts = .ok more rest ∧ (∀ w ∈ more, v.name ≠ w.name) ∧
        vars = v :: more := by
    have hnone : ∀ a ∈ [v], ∀ w ∈ ([] : List Variable), a.name ≠ w.name := fun _ _ w hw => absurd hw not_mem_nil
    rw [nil_append, ← List.append_nil [v], parseDeclarations_append hnone]
    simp
  rw [parseDeclarations, peekToken_bind, if_pos hpeek, Lib.Parser.bind_eq_ok]
  constructor
  · rintro ⟨⟨v, n⟩, mid, hv, hmore⟩
    obtain ⟨hident, htype, hnext, rfl, -⟩ := (parseDeclaration_eq_ok hcolon hlparen hlbracket).1 hv
    dsimp only at hmore
    rw [if_neg (hany v)] at hmore
    obtain ⟨more, hloop, hfresh, rfl⟩ := (happend v).1 hmore
    exact ⟨v, more, hident, htype, hnext, hloop, hfresh, rfl⟩
  · rintro ⟨v, more, hident, htype, hnext, hmore, hfresh, rfl⟩
    refine ⟨(v, _), ts, (parseDeclaration_eq_ok hcolon hlparen hlbracket).2 ⟨hident, htype, hnext, rfl, rfl⟩, ?_⟩
    dsimp only
    rw [if_neg (hany v)]
    exact (happend v).2 ⟨more, hmore, hfresh, rfl⟩

end

/-- The tokens of a row from the initial value on. -/
theorem spells_initText {init comment : List Char} : Spells (initText init ++ ';' :: comment) tokens ↔
    (init = [] ∧ ∃ tokens', Spells comment tokens' ∧ tokens = .semicolon :: tokens') ∨
      (init ≠ [] ∧ ∃ tokens', Spells (init ++ ';' :: comment) tokens' ∧ tokens = .assign :: tokens') := by
  unfold initText
  by_cases hinit : init = []
  · rw [if_pos hinit, nil_append, spells_semicolon]
    simp [hinit]
  · have htext : " := ".toList ++ init ++ ';' :: comment = ' ' :: ':' :: '=' :: ' ' :: (init ++ ';' :: comment) := rfl
    rw [if_neg hinit, htext, spells_blank (.inl rfl), spells_assign]
    simp [hinit, spells_blank]

/-- **A row is accepted** if it has no initial value and its comment is accepted. -/
theorem accepts_row_iff {r : GvlVariable} (hr : Writable r) : Accepts (row r) vars ↔
    ∃ v more, Reads r v ∧ Accepts (commentText r.comment) more ∧ (∀ w ∈ more, v.name ≠ w.name) ∧ vars = v :: more := by
  constructor
  · rintro ⟨ts, start, stop, fuel, hspells, hparse⟩
    obtain ⟨tokens, htokens, hts⟩ := (spells_row hr).1 hspells
    obtain ⟨name, ts, rfl, hname, hts⟩ := map_eq_cons_iff.1 hts
    obtain ⟨colon, ts, rfl, hcolon, hts⟩ := map_eq_cons_iff.1 hts
    obtain ⟨type, ts, rfl, htype, rfl⟩ := map_eq_cons_iff.1 hts
    obtain ⟨rest, hloop, hend⟩ := parseVarBlock_iff.1 hparse
    have hopen : name.token ≠ .endVar := by
      intro hclose
      cases fuel with
      | zero => cases hloop
      | succ fuel =>
        rw [parseDeclarations, peekToken_bind, if_neg (by simpa using hclose)] at hloop
        obtain ⟨-, rfl⟩ := Lib.Parsed.ok.inj hloop
        rcases hend with hend | hend <;> simpa using congrArg List.length hend
    obtain ⟨fuel, rfl⟩ := parseDeclarations_fuel hopen hloop
    rcases spells_initText.1 htokens with ⟨hinit, tokens, hcomment, hts⟩ | ⟨-, tokens, -, hts⟩
    · obtain ⟨next, ts, rfl, hnext, rfl⟩ := map_eq_cons_iff.1 hts
      obtain ⟨v, more, hident, hword, -, hmore, hfresh, rfl⟩ :=
        (parseDeclarations_cons hopen hcolon (by rw [hnext]; nofun) (by rw [hnext]; nofun)).1 hloop
      rw [hname] at hident
      rw [htype] at hword
      exact ⟨v, more, ⟨hident, hword, hinit⟩, ⟨ts, start, stop, _, hcomment, parseVarBlock_iff.2 ⟨rest, hmore, hend⟩⟩,
        hfresh, rfl⟩
    · obtain ⟨next, ts, rfl, hnext, rfl⟩ := map_eq_cons_iff.1 hts
      obtain ⟨v, more, -, -, hsemicolon, -⟩ :=
        (parseDeclarations_cons hopen hcolon (by rw [hnext]; nofun) (by rw [hnext]; nofun)).1 hloop
      rw [hnext] at hsemicolon
      cases hsemicolon
  · rintro ⟨v, more, ⟨hname, htype, hinit⟩, ⟨ts, start, stop, fuel, hcomment, hparse⟩, hfresh, rfl⟩
    obtain ⟨rest, hmore, hend⟩ := parseVarBlock_iff.1 hparse
    have hspells : Spells (row r) ((⟨.identifier v.name, start⟩ :: ⟨.colon, start⟩ ::
        ⟨matchKeyword (String.ofList r.type), start⟩ :: ⟨.semicolon, start⟩ :: ts : List TokenInfo).map (·.token)) := by
      rw [spells_row hr, hname]
      exact ⟨_, spells_initText.2 (.inl ⟨hinit, _, hcomment, rfl⟩), rfl⟩
    obtain ⟨fuel, rfl⟩ : ∃ k, fuel = k + 1 := by
      cases fuel with
      | zero => cases hmore
      | succ fuel => exact ⟨fuel, rfl⟩
    refine ⟨_, start, stop, fuel + 2, hspells, parseVarBlock_iff.2 ⟨rest, ?_, hend⟩⟩
    exact (parseDeclarations_cons (by nofun) rfl (by nofun) (by nofun)).2
      ⟨v, more, rfl, htype, rfl, hmore, hfresh, rfl⟩

end Audesys.VarTable
