import Audesys.Gcode.Compiler

/-!
# `Gcode.Lines` — programs as lists of lines

Lines are taken as lists of words, without their numbers, and a program by what it compiles to up to the line number of
its modal state (`outcome`). Then a program runs line by line (`outcome_eq`), and lines can be replaced by others
exactly where they do the same in the state that is reached (`interchangeable_iff`).
-/

namespace Audesys.Gcode

open Audesys.Hal Audesys.Hal.F64 Audesys.Cnc.Motion

variable [Target]

/-! ## Without line numbers -/

def GCodeCommand.unnumbered (cmd : GCodeCommand) : GCodeCommand := { cmd with line := 0 }

def ModalState.unnumbered (state : ModalState) : ModalState := { state with lineNumber := 0 }

theorem setMode_unnumbered (state : ModalState) (g : Nat) :
    (state.setMode g).unnumbered = state.unnumbered.setMode g := by
  unfold ModalState.setMode
  repeat' split
  all_goals rfl

theorem setMode_lineNumber (state : ModalState) (g : Nat) : (state.setMode g).lineNumber = state.lineNumber := by
  unfold ModalState.setMode
  repeat' split
  all_goals rfl

theorem advance_lineNumber (state : ModalState) (cmd : GCodeCommand) :
    (state.advance cmd).lineNumber = cmd.line := by
  unfold ModalState.advance
  cases cmd.kind with
  | modal =>
    cases cmd.gCode with
    | none => rfl
    | some g => exact setMode_lineNumber _ g
  | _ => rfl

theorem advance_unnumbered (state : ModalState) (cmd : GCodeCommand) :
    (state.advance cmd).unnumbered = state.unnumbered.advance cmd.unnumbered := by
  obtain ⟨kind, gCode, mCode, x, y, z, i, j, k, r, f, s, p, t, line⟩ := cmd
  cases kind with
  | modal =>
    cases gCode with
    | none => rfl
    | some g => exact setMode_unnumbered _ g
  | _ => rfl

/-! ## Words -/

/-- A line as its words. -/
def wordsOf (line : List LexedToken) : List Token := line.map LexedToken.token

/-- The command that words make, on no line. -/
def parseWords (words : List Token) : GCodeCommand := (words.foldl GCodeCommand.put (.new 0)).classify

theorem put_unnumbered (cmd : GCodeCommand) (t : Token) : (cmd.put t).unnumbered = cmd.unnumbered.put t := by
  cases t <;> rfl

theorem putAll_unnumbered (cmd : GCodeCommand) (line : List LexedToken) :
    (putAll cmd line).unnumbered = (wordsOf line).foldl GCodeCommand.put cmd.unnumbered := by
  induction line generalizing cmd with
  | nil => rfl
  | cons tok line ih =>
    show (putAll (cmd.put tok.token) line).unnumbered = _
    rw [ih, put_unnumbered]
    rfl

/-- A line with a word on it gives the command of its words. -/
theorem lineCommand_of_word {line : List LexedToken} (h : line.any (·.token.isWord) = true) :
    ∃ cmd, lineCommand line = some cmd ∧ cmd.unnumbered = parseWords (wordsOf line) := by
  refine ⟨parseLine line, if_pos h, ?_⟩
  cases line with
  | nil => cases h
  | cons first rest =>
    rw [parseLine_cons h]
    show (GCodeCommand.unnumbered _).classify = _
    rw [putAll_unnumbered]
    rfl

/-- Without a word nothing is stored. -/
theorem put_of_not_isWord {t : Token} (h : t.isWord = false) (cmd : GCodeCommand) : cmd.put t = cmd := by
  cases t with
  | lineNum | star | slash | percent | eol | eof => rfl
  | _ => cases h

theorem parseWords_of_no_word {words : List Token} (h : words.any Token.isWord = false) :
    parseWords words = .new 0 := by
  have hfold : words.foldl GCodeCommand.put (.new 0) = .new 0 := by
    induction words with
    | nil => rfl
    | cons t words ih =>
      rw [List.any_cons, Bool.or_eq_false_iff] at h
      rw [List.foldl_cons, put_of_not_isWord h.1, ih h.2]
  unfold parseWords
  rw [hfold]
  rfl

theorem parseWords_line (words : List Token) : (parseWords words).line = 0 := by
  have hput : ∀ (cmd : GCodeCommand) (t : Token), (cmd.put t).line = cmd.line := by
    intro cmd t
    cases t <;> rfl
  have hfold : ∀ cmd : GCodeCommand, (words.foldl GCodeCommand.put cmd).line = cmd.line := by
    induction words with
    | nil => exact fun _ => rfl
    | cons t words ih => exact fun cmd => (ih (cmd.put t)).trans (hput cmd t)
  exact hfold (.new 0)

/-! ## Running lines -/

variable [F64Math]

/-- What a command does in a state: what it pushes, and the state behind it. -/
def step (state : ModalState) (cmd : GCodeCommand) : Option (Output × ModalState) :=
  (emit cmd state).toOption.map fun out => (out, state.advance cmd)

def runLines (state : ModalState) : List (List Token) → Option (Output × ModalState)
  | [] => some (.empty, state)
  | words :: rest =>
    (step state (parseWords words)).bind fun first =>
      (runLines first.2 rest).map fun more => (first.1.append more.1, more.2)

theorem runLines_cons (state : ModalState) (words : List Token) (rest : List (List Token)) :
    runLines state (words :: rest) = (step state (parseWords words)).bind fun first =>
      (runLines first.2 rest).map fun more => (first.1.append more.1, more.2) := rfl

/-- What a stream of tokens compiles to, up to the line number of the modal state at its end. -/
def outcome (tokens : List LexedToken) (initial : ModalState) : Option (HalProgram × ModalState) :=
  (compileTokens tokens initial).toOption.map fun result => (result.1, result.2.unnumbered)

/-- The program of what the commands push. -/
def programOf (out : Output) : HalProgram :=
  ⟨"gcode_program", (prelude.append out).signals, (prelude.append out).instructions, []⟩

theorem programOf_inj {a b : Output} (h : programOf a = programOf b) : a = b := by
  unfold programOf at h
  rw [HalProgram.mk.injEq] at h
  apply Output.append_left_cancel (a := prelude)
  rw [Output.append, Output.append, Output.mk.injEq]
  exact ⟨h.2.2.1, h.2.1⟩

/-- No line number goes into what is pushed. -/
theorem emit_unnumbered (cmd : GCodeCommand) (state : ModalState) :
    emit cmd.unnumbered state.unnumbered = emit cmd state := by
  obtain ⟨kind, gCode, mCode, x, y, z, i, j, k, r, f, s, p, t, line⟩ := cmd
  cases kind with
  | motion =>
    unfold emit
    rfl
  | _ => rfl

theorem runLines_singleton (state : ModalState) (words : List Token) :
    runLines state [words] = step state (parseWords words) := by
  rw [runLines_cons]
  cases step state (parseWords words) with
  | none => rfl
  | some first =>
    show some (first.1.append .empty, first.2) = _
    rw [Output.append_empty]

/-- The state behind lines has no line number. -/
theorem runLines_lineNumber {state state' : ModalState} {lines : List (List Token)} {out : Output}
    (h : runLines state lines = some (out, state')) (hline : state.lineNumber = 0) : state'.lineNumber = 0 := by
  induction lines generalizing state out with
  | nil =>
    cases h
    exact hline
  | cons words rest ih =>
    rw [runLines_cons, Option.bind_eq_some_iff] at h
    obtain ⟨first, hfirst, hrest⟩ := h
    obtain ⟨more, hmore, heq⟩ := Option.map_eq_some_iff.1 hrest
    cases heq
    apply ih hmore
    obtain ⟨_, _, rfl⟩ := Option.map_eq_some_iff.1 hfirst
    exact (advance_lineNumber state _).trans (parseWords_line words)

theorem runLines_append (state : ModalState) (a b : List (List Token)) :
    runLines state (a ++ b) = (runLines state a).bind fun first =>
      (runLines first.2 b).map fun more => (first.1.append more.1, more.2) := by
  induction a generalizing state with
  | nil =>
    show runLines state b = (runLines state b).map _
    cases runLines state b <;> rfl
  | cons words a ih =>
    rw [List.cons_append, runLines_cons, runLines_cons]
    cases step state (parseWords words) with
    | none => rfl
    | some first =>
      rw [Option.bind_some, Option.bind_some, ih]
      cases runLines first.2 a with
      | none => rfl
      | some second =>
        show Option.map _ ((runLines second.2 b).map _) = (runLines second.2 b).map _
        cases runLines second.2 b with
        | none => rfl
        | some third =>
          show some (first.1.append (second.1.append third.1), third.2) =
            some ((first.1.append second.1).append third.1, third.2)
          rw [Output.append_assoc]

/-- A line without a word does nothing. -/
theorem step_of_no_word {state : ModalState} (h : state.lineNumber = 0) {words : List Token}
    (hwords : words.any Token.isWord = false) : step state (parseWords words) = some (.empty, state) := by
  rw [parseWords_of_no_word hwords]
  show some (Output.empty, { state with lineNumber := 0 }) = _
  rw [← h]

/-- A stream runs line by line. -/
theorem compileFrom_commandsOf (state : ModalState) (lines : List (List LexedToken)) :
    ((compileFrom state (commandsOf lines)).toOption.map fun out =>
        (out, (state.after (commandsOf lines)).unnumbered)) = runLines state.unnumbered (lines.map wordsOf) := by
  induction lines generalizing state with
  | nil => rfl
  | cons line lines ih =>
    rw [List.map_cons, runLines_cons]
    by_cases hword : line.any (·.token.isWord) = true
    · obtain ⟨cmd, hcmd, hwords⟩ := lineCommand_of_word hword
      have hcommands : commandsOf (line :: lines) = cmd :: commandsOf lines := by
        unfold commandsOf
        rw [List.filterMap_cons, hcmd]
      rw [hcommands, ← hwords, ModalState.after_cons]
      unfold step
      rw [emit_unnumbered]
      cases hemit : emit cmd state with
      | error e =>
        rw [compileFrom]
        unfold emitCommand
        rw [hemit]
        rfl
      | ok first =>
        show _ = (runLines (state.unnumbered.advance cmd.unnumbered) (lines.map wordsOf)).map _
        rw [← advance_unnumbered, ← ih, compileFrom, emitCommand_ok.2 hemit]
        cases compileFrom (state.advance cmd) (commandsOf lines) <;> rfl
    · have hnone : (wordsOf line).any Token.isWord = false := by
        unfold wordsOf
        rw [List.any_map]
        exact Bool.eq_false_iff.2 hword
      have hcommands : commandsOf (line :: lines) = commandsOf lines := by
        unfold commandsOf
        rw [List.filterMap_cons, lineCommand, if_neg hword]
      rw [hcommands, ih, step_of_no_word rfl hnone]
      show _ = (runLines state.unnumbered (lines.map wordsOf)).map _
      cases runLines state.unnumbered (lines.map wordsOf) <;> rfl

/-- **A program runs line by line.** -/
theorem outcome_eq (tokens : List LexedToken) (initial : ModalState) :
    outcome tokens initial = (runLines initial.unnumbered ((tokenLines tokens).map wordsOf)).map
      fun result => (programOf result.1, result.2) := by
  rw [← compileFrom_commandsOf]
  unfold outcome compileTokens compileCommands
  rw [parseAll_eq]
  cases compileFrom initial (commandsOf (tokenLines tokens)) <;> rfl

/-! ## Replacing lines -/

/-- In a program that starts with the lines `before`, the lines `lines` can be replaced by `lines'`: whatever follows,
the program is the same, and so is the modal state at its end, but for its line number. -/
def Interchangeable (initial : ModalState) (before lines lines' : List (List Token)) : Prop :=
  ∀ rest tokens tokens', (tokenLines tokens).map wordsOf = before ++ lines ++ rest →
    (tokenLines tokens').map wordsOf = before ++ lines' ++ rest → outcome tokens initial = outcome tokens' initial

/-- No word of a line ends it. -/
def InnerWords (lines : List (List Token)) : Prop := ∀ words ∈ lines, ∀ t ∈ words, t.endsLine = false

omit [F64Math] in
/-- Every list of lines is the lines of a stream. -/
theorem exists_stream {lines : List (List Token)} (h : InnerWords lines) :
    ∃ tokens, (tokenLines tokens).map wordsOf = lines := by
  refine ⟨stream 0 (lines.map fun words => words.map fun t => ⟨t, 0⟩), ?_⟩
  rw [tokenLines_stream]
  · rw [List.map_map]
    refine (List.map_congr_left ?_).trans (List.map_id lines)
    intro words _
    show List.map _ (List.map _ words) = words
    rw [List.map_map]
    exact List.map_id words
  · intro line hline tok htok
    obtain ⟨words, hwords, rfl⟩ := List.mem_map.1 hline
    obtain ⟨t, ht, rfl⟩ := List.mem_map.1 htok
    exact h words hwords t ht

/-- **Lines can be replaced** exactly where they do the same in the state that is reached. -/
theorem interchangeable_iff {initial : ModalState} {before lines lines' : List (List Token)}
    (h : InnerWords (before ++ lines)) (h' : InnerWords (before ++ lines')) :
    Interchangeable initial before lines lines' ↔
      ∀ out state, runLines initial.unnumbered before = some (out, state) →
        runLines state lines = runLines state lines' := by
  constructor
  · intro hsame out state hbefore
    obtain ⟨tokens, htokens⟩ := exists_stream h
    obtain ⟨tokens', htokens'⟩ := exists_stream h'
    have heq := hsame [] tokens tokens' (by rw [htokens, List.append_nil]) (by rw [htokens', List.append_nil])
    rw [outcome_eq, outcome_eq, htokens, htokens', runLines_append, runLines_append, hbefore] at heq
    cases hrun : runLines state lines with
    | none =>
      cases hrun' : runLines state lines' with
      | none => rfl
      | some second =>
        simp only [Option.bind_some, hrun, hrun', Option.map_none, Option.map_some] at heq
        cases heq
    | some first =>
      cases hrun' : runLines state lines' with
      | none =>
        simp only [Option.bind_some, hrun, hrun', Option.map_none, Option.map_some] at heq
        cases heq
      | some second =>
        simp [hrun, hrun'] at heq
        rw [Option.some.injEq]
        exact Prod.ext (Output.append_left_cancel (programOf_inj heq.1)) heq.2
  · intro hsame rest tokens tokens' htokens htokens'
    rw [outcome_eq, outcome_eq, htokens, htokens', List.append_assoc, List.append_assoc, runLines_append,
      runLines_append initial.unnumbered before]
    cases hbefore : runLines initial.unnumbered before with
    | none => rfl
    | some first =>
      have hlines := hsame first.1 first.2 hbefore
      rw [Option.bind_some, Option.bind_some, runLines_append, runLines_append first.2 lines', hlines]

end Audesys.Gcode
