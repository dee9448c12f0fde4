import Audesys.Gcode.Compiler

/-!
# `Gcode.Inherit` — lines without a motion word

A line of axis words alone should move in the mode in force. The parser gives it no G word, so it is of no kind the
compiler knows; and without a G word and an M word an unknown command is no error but nothing. The mode in force, which
`emit_motion` looks up for commands without a G word, is never looked up.

* `inherits_iff` — such a line compiles as with the mode in force written in front exactly where it names the position
  and the feedrate that are in force anyway, in G1.
-/

open List

namespace Audesys.Gcode

open Audesys.Hal Audesys.Hal.F64 Audesys.Cnc.Motion

variable [Target]

/-! ## Lines of axis words -/

/-- `X`, `Y`, `Z` and `F`. -/
def Token.isAxisWord : Token → Bool
  | .x _ | .y _ | .z _ | .f _ => true
  | _ => false

/-- A line of axis words, one at least. -/
structure AxisLine (line : List LexedToken) : Prop where
  nonempty : line ≠ []
  words : ∀ tok ∈ line, tok.token.isAxisWord = true

/-- The line with a G word in front. -/
def withWord (g : Nat) (line : List LexedToken) : List LexedToken :=
  ⟨.g g, (line.head?.map LexedToken.line).getD 0⟩ :: line

theorem isAxisWord_isWord {t : Token} (h : t.isAxisWord = true) : t.isWord = true := by
  unfold Token.isAxisWord at h
  split at h <;> first | rfl | cases h

theorem isAxisWord_inner {tok : LexedToken} (h : tok.token.isAxisWord = true) : Inner tok := by
  unfold Inner
  cases htok : tok.token with
  | eol | eof =>
    rw [htok] at h
    cases h
  | _ => rfl

/-- The slots that axis words leave alone: the G word, the M word, and what an arc needs. -/
structure SameSlots (cmd cmd' : GCodeCommand) : Prop where
  gCode : cmd'.gCode = cmd.gCode
  mCode : cmd'.mCode = cmd.mCode
  i : cmd'.i = cmd.i
  j : cmd'.j = cmd.j
  k : cmd'.k = cmd.k
  r : cmd'.r = cmd.r

theorem SameSlots.trans {a b c : GCodeCommand} (h₁ : SameSlots a b) (h₂ : SameSlots b c) : SameSlots a c :=
  ⟨h₂.gCode.trans h₁.gCode, h₂.mCode.trans h₁.mCode, h₂.i.trans h₁.i, h₂.j.trans h₁.j, h₂.k.trans h₁.k,
    h₂.r.trans h₁.r⟩

theorem put_axisWord {t : Token} (h : t.isAxisWord = true) (cmd : GCodeCommand) (g : Option Nat) :
    { cmd with gCode := g }.put t = { cmd.put t with gCode := g } ∧ SameSlots cmd (cmd.put t) := by
  unfold Token.isAxisWord at h
  split at h
  · exact ⟨rfl, rfl, rfl, rfl, rfl, rfl, rfl⟩
  · exact ⟨rfl, rfl, rfl, rfl, rfl, rfl, rfl⟩
  · exact ⟨rfl, rfl, rfl, rfl, rfl, rfl, rfl⟩
  · exact ⟨rfl, rfl, rfl, rfl, rfl, rfl, rfl⟩
  · cases h

theorem putAll_axisWords {line : List LexedToken} (h : ∀ tok ∈ line, tok.token.isAxisWord = true)
    (cmd : GCodeCommand) (g : Option Nat) :
    putAll { cmd with gCode := g } line = { putAll cmd line with gCode := g } ∧ SameSlots cmd (putAll cmd line) := by
  induction line generalizing cmd with
  | nil => exact ⟨rfl, rfl, rfl, rfl, rfl, rfl, rfl⟩
  | cons tok line ih =>
    obtain ⟨hput, hslots⟩ := put_axisWord (h tok (mem_cons_self ..)) cmd g
    obtain ⟨hput', hslots'⟩ := ih (fun t ht => h t (mem_cons_of_mem _ ht)) (cmd.put tok.token)
    refine ⟨?_, hslots.trans hslots'⟩
    show putAll ({ cmd with gCode := g }.put tok.token) line = _
    rw [hput, hput']
    rfl

/-- A line of axis words is a command. -/
theorem any_isWord_of_axisLine {line : List LexedToken} (h : AxisLine line) :
    line.any (·.token.isWord) = true := by
  obtain ⟨first, rest, rfl⟩ := exists_cons_of_ne_nil h.nonempty
  rw [any_cons, isAxisWord_isWord (h.words first (mem_cons_self ..)), Bool.true_or]

/-- What a line of axis words is parsed to: no G word and no M word, so of no known kind. -/
theorem parseLine_axisLine {line : List LexedToken} (h : AxisLine line) :
    (parseLine line).kind = .unknown ∧ SameSlots (.new 0) (parseLine line) := by
  have hword := any_isWord_of_axisLine h
  obtain ⟨first, rest, rfl⟩ := exists_cons_of_ne_nil h.nonempty
  obtain ⟨_, hslots⟩ := putAll_axisWords h.words (.new first.line) none
  rw [parseLine_cons hword]
  refine ⟨?_, hslots.gCode, hslots.mCode, hslots.i, hslots.j, hslots.k, hslots.r⟩
  show GCodeCommand.classOf _ _ = _
  rw [hslots.gCode, hslots.mCode]
  rfl

/-- The G word in front decides the kind, and nothing else of the command changes. -/
theorem parseLine_withWord {line : List LexedToken} (h : AxisLine line) (g : Nat) :
    parseLine (withWord g line) =
      { parseLine line with gCode := some g, kind := GCodeCommand.classOf (some g) none } := by
  have hword := any_isWord_of_axisLine h
  obtain ⟨first, rest, rfl⟩ := exists_cons_of_ne_nil h.nonempty
  obtain ⟨hput, hslots⟩ := putAll_axisWords h.words (.new first.line) (some g)
  have hparse : parseLine (withWord g (first :: rest)) =
      (putAll { GCodeCommand.new first.line with gCode := some g } (first :: rest)).classify := parseLine_cons rfl
  rw [hparse, parseLine_cons hword, hput]
  unfold GCodeCommand.classify
  dsimp only
  rw [hslots.mCode]
  rfl

theorem lineCommand_axisLine {line : List LexedToken} (h : AxisLine line) :
    lineCommand line = some (parseLine line) := if_pos (any_isWord_of_axisLine h)

theorem lineCommand_withWord (line : List LexedToken) (g : Nat) :
    lineCommand (withWord g line) = some (parseLine (withWord g line)) := if_pos rfl

/-! ## The mode in force -/

/-- Once a motion word was read the mode in force is one. -/
theorem advance_motionMode {state : ModalState} (h : isMotionWord state.motionMode = true) (cmd : GCodeCommand) :
    isMotionWord (state.advance cmd).motionMode = true := by
  unfold ModalState.advance
  cases cmd.kind with
  | motion =>
    show isMotionWord ((cmd.gCode.filter isMotionWord).getD state.motionMode) = true
    cases hg : cmd.gCode.filter isMotionWord with
    | none => exact h
    | some g => exact (Option.filter_eq_some_iff.1 hg).2
  | modal =>
    cases cmd.gCode with
    | none => exact h
    | some g =>
      show isMotionWord (ModalState.setMode _ g).motionMode = true
      unfold ModalState.setMode
      repeat' split
      all_goals first | exact h | rfl
  | _ => exact h

theorem after_motionMode {state : ModalState} {commands : List GCodeCommand}
    (h : ∃ cmd ∈ commands, cmd.kind = .motion ∧ (cmd.gCode = some 0 ∨ cmd.gCode = some 1)) :
    isMotionWord (state.after commands).motionMode = true := by
  obtain ⟨cmd, hmem, hkind, hg⟩ := h
  obtain ⟨before, rest, rfl⟩ := append_of_mem hmem
  clear hmem
  rw [ModalState.after_append, ModalState.after_cons]
  have hset : isMotionWord ((state.after before).advance cmd).motionMode = true := by
    unfold ModalState.advance
    rw [hkind]
    rcases hg with hg | hg
    · show isMotionWord ((cmd.gCode.filter isMotionWord).getD _) = true
      rw [hg]
      rfl
    · show isMotionWord ((cmd.gCode.filter isMotionWord).getD _) = true
      rw [hg]
      rfl
  generalize (state.after before).advance cmd = s at hset ⊢
  induction rest generalizing s with
  | nil => exact hset
  | cons c rest ih => exact ih _ (advance_motionMode hset c)

/-! ## The line itself -/

/-- The words of a command name what is in force: no axis changes, and the feedrate does not. -/
structure Restates (state : ModalState) (cmd : GCodeCommand) : Prop where
  x : ModalState.moveAxis state.coordMode state.currentX cmd.x = state.currentX
  y : ModalState.moveAxis state.coordMode state.currentY cmd.y = state.currentY
  z : ModalState.moveAxis state.coordMode state.currentZ cmd.z = state.currentZ
  f : cmd.f.getD state.feedrate = state.feedrate

/-- What a command of motion does to the state. -/
theorem advance_motion {state : ModalState} {cmd : GCodeCommand} {g : Nat} (hkind : cmd.kind = .motion)
    (hg : cmd.gCode = some g) (hmotion : isMotionWord g = true) : state.advance cmd =
      { state with
        motionMode := g
        currentX := ModalState.moveAxis state.coordMode state.currentX cmd.x
        currentY := ModalState.moveAxis state.coordMode state.currentY cmd.y
        currentZ := ModalState.moveAxis state.coordMode state.currentZ cmd.z
        feedrate := cmd.f.getD state.feedrate
        lineNumber := cmd.line } := by
  have hfilter : (cmd.gCode.filter isMotionWord).getD state.motionMode = g := by
    rw [hg, Option.filter_some, if_pos hmotion]
    rfl
  unfold ModalState.advance
  rw [hkind]
  show ModalState.move _ _ = _
  unfold ModalState.move
  dsimp only
  rw [hfilter]
  rfl

/-- The command with the mode in force written in front. -/
def withMode (cmd : GCodeCommand) (state : ModalState) : GCodeCommand :=
  { cmd with gCode := some state.motionMode, kind := .motion }

/-- Both versions leave the same state exactly where the words name what is in force. -/
theorem advance_withMode_iff {state : ModalState} {cmd : GCodeCommand} (hkind : cmd.kind = .unknown)
    (hmode : isMotionWord state.motionMode = true) :
    state.advance cmd = state.advance (withMode cmd state) ↔ Restates state cmd := by
  have hplain : state.advance cmd = { state with lineNumber := cmd.line } := by
    unfold ModalState.advance
    rw [hkind]
  have hkind' : (withMode cmd state).kind = .motion := rfl
  have hg : (withMode cmd state).gCode = some state.motionMode := rfl
  rw [hplain, advance_motion hkind' hg hmode, ModalState.mk.injEq]
  constructor
  · rintro ⟨_, _, _, _, hf, _, _, hx, hy, hz, _⟩
    exact ⟨hx.symm, hy.symm, hz.symm, hf.symm⟩
  · rintro ⟨hx, hy, hz, hf⟩
    exact ⟨rfl, rfl, rfl, rfl, hf.symm, rfl, rfl, hx.symm, hy.symm, hz.symm, rfl⟩

variable [F64Math]

/-- A line of axis words adds nothing in the mode in force: the mode is G1, the words name what is in force, and the
move from the position to itself has no length. -/
structure AddsNothing (state : ModalState) (cmd : GCodeCommand) : Prop where
  mode : state.motionMode = 1
  restates : Restates state cmd
  still : g1Profile state state = none

/-- An arc needs the words of its center. -/
theorem emitArc_of_noCenter {cmd : GCodeCommand} (h : SameSlots (.new 0) cmd) (g : Nat) (prev next : ModalState)
    (cmd' : GCodeCommand) (hi : cmd'.i = cmd.i) (hj : cmd'.j = cmd.j) (hk : cmd'.k = cmd.k) (hr : cmd'.r = cmd.r) :
    ∃ e, emitArc g prev next cmd' = .error e := by
  unfold emitArc
  split
  · exact ⟨_, rfl⟩
  · rename_i axes _
    have hnone : calculateArcCenter axes cmd' prev.plane = .error (.unsupported "arc missing I/J/K or R") := by
      unfold calculateArcCenter
      rw [hi, hj, hk, hr, h.i, h.j, h.k, h.r]
      rfl
    rw [hnone]
    exact ⟨_, rfl⟩

omit [F64Math] in
/-- A rapid move always stores the first axis. -/
theorem emitG0_eq (state : ModalState) : ∃ rest, emitG0 state = loadF64 regX state.currentX :: rest := by
  unfold emitG0 storeAxis
  rw [List.append_assoc, cons_append]
  exact ⟨_, rfl⟩

theorem g1Profile_congr {state next : ModalState} (hx : next.currentX = state.currentX)
    (hy : next.currentY = state.currentY) (hz : next.currentZ = state.currentZ) :
    g1Profile state next = none ↔ g1Profile state state = none := by
  unfold g1Profile
  rw [hx, hy, hz]
  dsimp only
  split
  · exact ⟨fun h => (by cases h), fun h => (by cases h)⟩
  · exact Iff.rfl

/-- A straight move pushes nothing exactly where it has no length. -/
theorem emitLinear_eq_empty_iff {prev next : ModalState} :
    emitLinear prev next = .ok .empty ↔ g1Profile prev next = none := by
  unfold emitLinear
  constructor
  · intro h
    split at h
    · assumption
    · split at h
      · cases h
      · -- a move of the generator declares its signals
        rename_i program hprogram
        have hsignals : program.signals ≠ [] := signals_ne_nil hprogram
        injection h with h
        injection h with _ h
        exact absurd h hsignals
  · intro h
    rw [h]

/-- **The line.** With the mode in force in front it pushes nothing and leaves the same state exactly where it adds
nothing. -/
theorem emit_withMode_iff {state : ModalState} {cmd : GCodeCommand} (hkind : cmd.kind = .unknown)
    (hslots : SameSlots (.new 0) cmd) (hmode : isMotionWord state.motionMode = true) :
    emit (withMode cmd state) state = .ok .empty ∧ state.advance cmd = state.advance (withMode cmd state) ↔
      AddsNothing state cmd := by
  rw [advance_withMode_iff hkind hmode]
  have hemit : emit (withMode cmd state) state = emitMotion (withMode cmd state) state := rfl
  rw [hemit]
  unfold emitMotion
  dsimp only
  show (if state.motionMode = 0 then _ else if state.motionMode = 1 then _ else _) = _ ∧ _ ↔ _
  by_cases hzero : state.motionMode = 0
  · rw [if_pos hzero]
    constructor
    · rintro ⟨h, _⟩
      obtain ⟨rest, hcode⟩ := emitG0_eq (state.advance (withMode cmd state))
      rw [hcode] at h
      cases h
    · intro h
      rw [h.mode] at hzero
      cases hzero
  · rw [if_neg hzero]
    by_cases hone : state.motionMode = 1
    · rw [if_pos hone]
      have hstill : Restates state cmd → (g1Profile state (state.advance (withMode cmd state)) = none ↔
          g1Profile state state = none) := by
        intro hrestates
        have hsame := (advance_withMode_iff hkind hmode).2 hrestates
        rw [← hsame]
        unfold ModalState.advance
        rw [hkind]
        exact g1Profile_congr rfl rfl rfl
      rw [emitLinear_eq_empty_iff]
      constructor
      · rintro ⟨h, hrestates⟩
        exact ⟨hone, hrestates, (hstill hrestates).1 h⟩
      · intro h
        exact ⟨(hstill h.restates).2 h.still, h.restates⟩
    · rw [if_neg hone]
      constructor
      · rintro ⟨h, _⟩
        -- the mode is an arc
        obtain ⟨e, he⟩ := emitArc_of_noCenter hslots state.motionMode state (state.advance (withMode cmd state))
          (withMode cmd state) rfl rfl rfl rfl
        change (if _ then _ else _) = _ at h
        split at h
        · rw [he] at h
          cases h
        · cases h
      · intro h
        exact absurd h.mode hone

/-! ## Programs -/

/-- The line behind `before` compiles as with the mode in force written in front, in every program that goes on from
there: to the same instructions and the same modal state. -/
def Inherits (initial : ModalState) (before : List (List LexedToken)) (line : List LexedToken) : Prop :=
  ∀ rest tokens tokens', tokenLines tokens = before ++ line :: rest →
    tokenLines tokens' = before ++ withWord (initial.after (commandsOf before)).motionMode line :: rest →
    compileTokens tokens initial = compileTokens tokens' initial

omit [Target] [F64Math] in
theorem commandsOf_append [Target] (a b : List (List LexedToken)) :
    commandsOf (a ++ b) = commandsOf a ++ commandsOf b := filterMap_append

/-- Two commands that push nothing and lead to one state are the same to a program. -/
theorem compileTokens_congr {tokens tokens' : List LexedToken} {initial : ModalState} {before rest : List GCodeCommand}
    {cmd cmd' : GCodeCommand} (h : parseAll tokens = before ++ cmd :: rest)
    (h' : parseAll tokens' = before ++ cmd' :: rest) (hemit : emit cmd (initial.after before) = .ok .empty)
    (hemit' : emit cmd' (initial.after before) = .ok .empty)
    (hstate : (initial.after before).advance cmd = (initial.after before).advance cmd') :
    compileTokens tokens initial = compileTokens tokens' initial := by
  have hcode : compileFrom initial (before ++ cmd :: rest) = compileFrom initial (before ++ cmd' :: rest) := by
    apply compileFrom_congr
    rw [compileFrom, compileFrom, emitCommand_ok.2 hemit, emitCommand_ok.2 hemit', hstate]
  have hfinal : initial.after (before ++ cmd :: rest) = initial.after (before ++ cmd' :: rest) := by
    rw [ModalState.after_append, ModalState.after_append, ModalState.after_cons, ModalState.after_cons, hstate]
  unfold compileTokens compileCommands
  rw [h, h', hcode, hfinal]

/-- Programs that end with the two commands tell them apart. -/
theorem same_of_compileTokens {tokens tokens' : List LexedToken} {initial : ModalState} {before : List GCodeCommand}
    {cmd cmd' : GCodeCommand} {out first : Output} (h : parseAll tokens = before ++ [cmd])
    (h' : parseAll tokens' = before ++ [cmd']) (hbefore : compileFrom initial before = .ok out)
    (hemit : emit cmd (initial.after before) = .ok first)
    (hsame : compileTokens tokens initial = compileTokens tokens' initial) :
    emit cmd' (initial.after before) = .ok first ∧
      (initial.after before).advance cmd = (initial.after before).advance cmd' := by
  have hwhole : compileFrom initial (before ++ [cmd]) = .ok (out.append (first.append .empty)) :=
    compileFrom_append_ok.2 ⟨out, _, hbefore, compileFrom_cons_ok.2 ⟨_, _, hemit, rfl, rfl⟩, rfl⟩
  have hprogram := compileCommands_ok.2 ⟨_, hwhole, rfl⟩
  rw [← h] at hprogram
  rw [compileTokens_ok.2 ⟨hprogram, rfl⟩] at hsame
  obtain ⟨hother, hfinal⟩ := compileTokens_ok.1 hsame.symm
  rw [h'] at hother
  obtain ⟨out', hout', heq⟩ := compileCommands_ok.1 hother
  obtain ⟨o₁, o₂, h₁, h₂, rfl⟩ := compileFrom_append_ok.1 hout'
  obtain ⟨o₃, o₄, h₃, h₄, rfl⟩ := compileFrom_cons_ok.1 h₂
  rw [hbefore] at h₁
  cases h₁
  cases h₄
  rw [HalProgram.mk.injEq] at heq
  have hout : prelude.append (out.append (first.append .empty)) = prelude.append (out.append (o₃.append .empty)) := by
    rw [Output.append, Output.append, Output.mk.injEq]
    exact ⟨heq.2.2.1, heq.2.1⟩
  have hfirst := Output.append_left_cancel (Output.append_left_cancel hout)
  rw [Output.append_empty, Output.append_empty] at hfirst
  rw [h, h', ModalState.after_append, ModalState.after_append] at hfinal
  exact ⟨by rw [h₃, hfirst], hfinal⟩

section
variable {initial : ModalState} {before : List (List LexedToken)} {line : List LexedToken}

omit [F64Math] in
/-- The commands around a line of axis words. -/
theorem commandsOf_axisLine (hline : AxisLine line) (rest : List (List LexedToken)) :
    commandsOf (before ++ line :: rest) = commandsOf before ++ parseLine line :: commandsOf rest := by
  rw [commandsOf_append]
  unfold commandsOf
  rw [filterMap_cons, lineCommand_axisLine hline]

omit [F64Math] in
/-- The commands around the line with the mode in force in front. -/
theorem commandsOf_withWord {state : ModalState} (hmode : isMotionWord state.motionMode = true)
    (hline : AxisLine line) (rest : List (List LexedToken)) :
    commandsOf (before ++ withWord state.motionMode line :: rest) =
      commandsOf before ++ withMode (parseLine line) state :: commandsOf rest := by
  have hword : parseLine (withWord state.motionMode line) = withMode (parseLine line) state := by
    rw [parseLine_withWord hline]
    unfold withMode GCodeCommand.classOf
    rw [Option.any_some, if_pos hmode]
  rw [commandsOf_append, ← hword]
  unfold commandsOf
  rw [filterMap_cons, lineCommand_withWord]

/-- Without a G word and an M word a line is no error, and pushes nothing. -/
theorem emit_axisLine (hline : AxisLine line) (state : ModalState) : emit (parseLine line) state = .ok .empty := by
  obtain ⟨hkind, hslots⟩ := parseLine_axisLine hline
  unfold emit emitUnknown
  rw [hkind, hslots.gCode, hslots.mCode]
  rfl

/-- A line that inherits the mode adds nothing. -/
theorem addsNothing_of_inherits {out : Output} (hinner : ∀ l ∈ before, ∀ tok ∈ l, Inner tok)
    (hbefore : compileFrom initial (commandsOf before) = .ok out)
    (hmode : isMotionWord (initial.after (commandsOf before)).motionMode = true) (hline : AxisLine line)
    (h : Inherits initial before line) :
    AddsNothing (initial.after (commandsOf before)) (parseLine line) := by
  obtain ⟨hkind, hslots⟩ := parseLine_axisLine hline
  have hinnerLine : ∀ tok ∈ line, Inner tok := fun tok htok => isAxisWord_inner (hline.words tok htok)
  have hlines : ∀ l ∈ before ++ [line], ∀ tok ∈ l, Inner tok := by
    intro l hl
    rcases mem_append.1 hl with hl | hl
    · exact hinner l hl
    · rw [mem_singleton.1 hl]
      exact hinnerLine
  have hlines' : ∀ l ∈ before ++ [withWord (initial.after (commandsOf before)).motionMode line],
      ∀ tok ∈ l, Inner tok := by
    intro l hl
    rcases mem_append.1 hl with hl | hl
    · exact hinner l hl
    · rw [mem_singleton.1 hl]
      intro tok htok
      rcases mem_cons.1 htok with rfl | htok
      · rfl
      · exact hinnerLine tok htok
  -- the two programs that end with the line
  have hstream := tokenLines_stream 0 hlines
  have hstream' := tokenLines_stream 0 hlines'
  have hparse := (parseAll_eq _).trans (hstream ▸ commandsOf_axisLine hline [])
  have hparse' := (parseAll_eq _).trans (hstream' ▸ commandsOf_withWord hmode hline [])
  rw [← emit_withMode_iff hkind hslots hmode]
  exact same_of_compileTokens hparse hparse' hbefore (emit_axisLine hline _) (h [] _ _ hstream hstream')

/-- **Where motion is modal.** Behind a line with G0 or G1 a line of axis words compiles as with the mode in force in
front exactly where it adds nothing. -/
theorem inherits_iff {rest : List (List LexedToken)} {tokens : List LexedToken} {out : Output}
    (hlines : tokenLines tokens = before ++ line :: rest)
    (hbefore : compileFrom initial (commandsOf before) = .ok out)
    (hmotion : ∃ cmd ∈ commandsOf before, cmd.kind = .motion ∧ (cmd.gCode = some 0 ∨ cmd.gCode = some 1))
    (hline : AxisLine line) :
    Inherits initial before line ↔ AddsNothing (initial.after (commandsOf before)) (parseLine line) := by
  have hmode : isMotionWord (initial.after (commandsOf before)).motionMode = true := after_motionMode hmotion
  have hinner : ∀ l ∈ before, ∀ tok ∈ l, Inner tok := by
    intro l hl
    have hmem : l ∈ tokenLines tokens := by
      rw [hlines]
      exact mem_append_left _ hl
    exact inner_of_mem_tokenLines hmem
  constructor
  · exact addsNothing_of_inherits hinner hbefore hmode hline
  · intro h rest' tokens₁ tokens₂ h₁ h₂
    obtain ⟨hkind, hslots⟩ := parseLine_axisLine hline
    obtain ⟨hemit, hstate⟩ := (emit_withMode_iff hkind hslots hmode).2 h
    have hparse₁ := (parseAll_eq tokens₁).trans (h₁ ▸ commandsOf_axisLine hline rest')
    have hparse₂ := (parseAll_eq tokens₂).trans (h₂ ▸ commandsOf_withWord hmode hline rest')
    exact compileTokens_congr hparse₁ hparse₂ (emit_axisLine hline _) hemit hstate

end

end Audesys.Gcode

/-! ## Two programs -/

namespace Audesys.Gcode

open Audesys.Hal Audesys.Hal.F64 Audesys.Cnc.Motion

local instance inheritFractions : Target := fractions
local instance inheritFractionMath : F64Math := fractionMath

/-- A line that repeats the target and the feedrate of the line in front. -/
theorem repeated_inherits :
    ∃ before line rest, tokenLines (tokenize "G1 X5 F600\nX5 F600\nM30\n") = before ++ line :: rest ∧
      before.length = 1 ∧ Inherits .new before line := by
  have hlines : tokenLines (tokenize "G1 X5 F600\nX5 F600\nM30\n") =
      [[⟨.g 1, 1⟩, ⟨.x (5 : Rat), 1⟩, ⟨.f (600 : Rat), 1⟩]] ++
        [⟨.x (5 : Rat), 2⟩, ⟨.f (600 : Rat), 2⟩] :: [[⟨.m 30, 3⟩], []] := by decide +kernel
  have hok : (compileFrom ModalState.new (commandsOf [[⟨.g 1, 1⟩, ⟨.x (5 : Rat), 1⟩, ⟨.f (600 : Rat), 1⟩]])).isOk =
      true := by decide +kernel
  obtain ⟨out, hout⟩ := exists_of_isOk hok
  refine ⟨_, _, _, hlines, rfl, ?_⟩
  apply (inherits_iff hlines hout (by decide +kernel) ⟨cons_ne_nil _ _, by decide +kernel⟩).2
  exact ⟨by decide +kernel, ⟨by decide +kernel, by decide +kernel, by decide +kernel, by decide +kernel⟩,
    by decide +kernel⟩

/-- A second target after a rapid move is dropped. -/
theorem secondTarget_not_inherits :
    ∃ before line rest, tokenLines (tokenize "G0 X10\nY20\nM30\n") = before ++ line :: rest ∧
      AxisLine line ∧ (∃ cmd ∈ commandsOf before, cmd.kind = .motion ∧ cmd.gCode = some 0) ∧
      ¬ Inherits .new before line := by
  have hlines : tokenLines (tokenize "G0 X10\nY20\nM30\n") =
      [[⟨.g 0, 1⟩, ⟨.x (10 : Rat), 1⟩]] ++ [⟨.y (20 : Rat), 2⟩] :: [[⟨.m 30, 3⟩], []] := by decide +kernel
  have hok : (compileFrom ModalState.new (commandsOf [[⟨.g 0, 1⟩, ⟨.x (10 : Rat), 1⟩]])).isOk = true := by
    decide +kernel
  obtain ⟨out, hout⟩ := exists_of_isOk hok
  have hline : AxisLine [⟨.y (20 : Rat), 2⟩] := ⟨cons_ne_nil _ _, by decide +kernel⟩
  refine ⟨_, _, _, hlines, hline, by decide +kernel, ?_⟩
  intro h
  have hmode := (addsNothing_of_inherits (by decide +kernel) hout (by decide +kernel) hline h).mode
  have hzero : (ModalState.new.after (commandsOf [[⟨.g 0, 1⟩, ⟨.x (10 : Rat), 1⟩]])).motionMode = 0 := by
    decide +kernel
  rw [hzero] at hmode
  cases hmode

end Audesys.Gcode
