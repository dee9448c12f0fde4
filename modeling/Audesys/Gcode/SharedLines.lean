import Mathlib.Data.List.Induction
import Audesys.Gcode.Inherit
import Audesys.Gcode.Lines

/-!
# `Gcode.SharedLines` — several G words on a line

A command has one slot for a G word and one kind, so of several G words on a line the last one counts, and not even that
one where an M word decides the kind. Written one per line, in front of the rest of the line, the words of the plane,
the units and the distance mode all count.

* `separable_iff` — a line can be written in parts exactly where no word of it is lost.
-/

open List

namespace Audesys.Gcode

open Audesys.Hal Audesys.Hal.F64 Audesys.Cnc.Motion

variable [Target]
variable {cmd : GCodeCommand} {state : ModalState} {words : List Token} {prev next : ModalState} {g : Nat}
variable {state' : ModalState}

/-! ## The parts of a line -/

/-- The words of the plane, the units and the distance mode. -/
def isModeWord (g : Nat) : Bool :=
  g == 17 || g == 18 || g == 19 || g == 20 || g == 21 || g == 90 || g == 91

namespace Token

def gWord : Token → Option Nat
  | .g n => some n
  | _ => none

def isMode (t : Token) : Bool := t.gWord.any isModeWord

end Token

/-- The mode words of a line. -/
def modesOf (words : List Token) : List Nat := words.filterMap fun t => t.gWord.filter isModeWord

/-- The line without them. -/
def restOf (words : List Token) : List Token := words.filter fun t => !t.isMode

/-- The line in parts: a line for each mode word, and a line for the rest. -/
def separated (words : List Token) : List (List Token) := (modesOf words).map (fun g => [.g g]) ++ [restOf words]

/-- The last G word of a line. -/
def lastG (words : List Token) : Option Nat := (words.filterMap Token.gWord).getLast?

/-- A command without its G word and its kind. -/
def GCodeCommand.others (cmd : GCodeCommand) : GCodeCommand := { cmd with gCode := none, kind := .unknown }

theorem others_put {a b : GCodeCommand} (h : a.others = b.others) (t : Token) : (a.put t).others = (b.put t).others := by
  have hput : ∀ cmd : GCodeCommand, (cmd.put t).others = (cmd.others.put t).others := by
    intro cmd
    cases t <;> rfl
  rw [hput a, hput b, h]

theorem others_put_mode {t : Token} (h : t.isMode = true) (cmd : GCodeCommand) : (cmd.put t).others = cmd.others := by
  cases t with
  | g n => rfl
  | _ => cases h

/-- The mode words of a line touch no slot but that of the G word. -/
theorem others_foldl_restOf {a b : GCodeCommand} (h : a.others = b.others) (words : List Token) :
    (words.foldl GCodeCommand.put a).others = ((restOf words).foldl GCodeCommand.put b).others := by
  induction words generalizing a b with
  | nil => exact h
  | cons t words ih =>
    by_cases ht : t.isMode = true
    · have hrest : restOf (t :: words) = restOf words := filter_cons_of_neg (by simp [ht])
      rw [hrest, foldl_cons]
      exact ih ((others_put_mode ht a).trans h)
    · have hrest : restOf (t :: words) = t :: restOf words := filter_cons_of_pos (by simp [ht])
      rw [hrest, foldl_cons, foldl_cons]
      exact ih (others_put h t)

/-- The slot of the G word holds the last one. -/
theorem foldl_put_gCode (cmd : GCodeCommand) (words : List Token) :
    (words.foldl GCodeCommand.put cmd).gCode = (lastG words).or cmd.gCode := by
  induction words using List.reverseRecOn generalizing cmd with
  | nil => rfl
  | append_singleton words t ih =>
    rw [foldl_append, foldl_cons, foldl_nil]
    unfold lastG at ih ⊢
    rw [filterMap_append]
    cases hg : t.gWord with
    | none =>
      have hput : ∀ c : GCodeCommand, (c.put t).gCode = c.gCode := by
        intro c
        cases t with
        | g n => cases hg
        | _ => rfl
      rw [hput, ih]
      simp [hg]
    | some n =>
      have ht : t = .g n := by
        cases t with
        | g m =>
          cases hg
          rfl
        | _ => cases hg
      subst ht
      simp [hg]
      rfl

/-- The G words of the rest are the G words that are no mode words. -/
theorem gWords_restOf (words : List Token) :
    (restOf words).filterMap Token.gWord = (words.filterMap Token.gWord).filter fun g => !isModeWord g := by
  induction words with
  | nil => rfl
  | cons t words ih =>
    cases hg : t.gWord with
    | none =>
      have hmode : t.isMode = false := by
        unfold Token.isMode
        rw [hg]
        rfl
      have hrest : restOf (t :: words) = t :: restOf words := filter_cons_of_pos (by simp [hmode])
      rw [hrest, filterMap_cons_none hg, filterMap_cons_none hg, ih]
    | some n =>
      have hmode : t.isMode = isModeWord n := by
        unfold Token.isMode
        rw [hg]
        rfl
      rw [filterMap_cons_some hg]
      by_cases hn : isModeWord n = true
      · have hrest : restOf (t :: words) = restOf words := filter_cons_of_neg (by simp [hmode, hn])
        rw [hrest, filter_cons_of_neg (by simp [hn]), ih]
      · have hrest : restOf (t :: words) = t :: restOf words := filter_cons_of_pos (by simp [hmode, hn])
        rw [hrest, filterMap_cons_some hg, filter_cons_of_pos (by simp [hn]), ih]

/-- The last G word of the rest is no mode word. -/
theorem lastG_restOf (h : lastG (restOf words) = some g) : isModeWord g = false := by
  unfold lastG at h
  rw [gWords_restOf] at h
  have hmem := mem_of_getLast? h
  have hnot := (mem_filter.1 hmem).2
  simpa using hnot

/-- Where the last G word is no mode word it is the last one of the rest. -/
theorem lastG_restOf_eq (h : (lastG words).any isModeWord = false) : lastG (restOf words) = lastG words := by
  unfold lastG at h ⊢
  rw [gWords_restOf]
  generalize words.filterMap Token.gWord = gs at h ⊢
  induction gs using List.reverseRecOn with
  | nil => rfl
  | append_singleton gs g _ =>
    rw [getLast?_append, getLast?_singleton, Option.some_or] at h ⊢
    rw [filter_append, filter_cons_of_pos (by simpa using h), filter_nil, getLast?_append,
      getLast?_singleton, Option.some_or]

/-- The command of a line and the command of its rest: the same but for the G word, and so for the kind. -/
theorem parseWords_restOf (words : List Token) : parseWords words =
        { parseWords (restOf words) with
          gCode := lastG words, kind := GCodeCommand.classOf (lastG words) (parseWords (restOf words)).mCode } ∧
      (parseWords words).gCode = lastG words ∧ (parseWords (restOf words)).gCode = lastG (restOf words) := by
  have hothers := others_foldl_restOf (a := .new 0) (b := .new 0) rfl words
  have hg := foldl_put_gCode (.new 0) words
  have hg' := foldl_put_gCode (.new 0) (restOf words)
  rw [show (GCodeCommand.new 0).gCode = none from rfl, Option.or_none] at hg hg'
  refine ⟨?_, hg, hg'⟩
  unfold parseWords GCodeCommand.classify
  generalize words.foldl GCodeCommand.put (.new 0) = a at hothers hg
  generalize (restOf words).foldl GCodeCommand.put (.new 0) = b at hothers hg'
  unfold GCodeCommand.others at hothers
  rw [GCodeCommand.mk.injEq] at hothers ⊢
  obtain ⟨_, _, hm, hx, hy, hz, hi, hj, hk, hr, hf, hs, hp, ht, hl⟩ := hothers
  exact ⟨by rw [hg, hm], hg, hm, hx, hy, hz, hi, hj, hk, hr, hf, hs, hp, ht, hl⟩

/-! ## Modes -/

/-- The words of a line that set modes, one after the other. -/
def ModalState.setModes (state : ModalState) (gs : List Nat) : ModalState := gs.foldl ModalState.setMode state

/-- Two states that differ in nothing but plane, units and distance mode. -/
def SameButModes (state state' : ModalState) : Prop :=
  state' = { state with plane := state'.plane, unitMode := state'.unitMode, coordMode := state'.coordMode }

theorem SameButModes.trans {a b c : ModalState} (h₁ : SameButModes a b) (h₂ : SameButModes b c) : SameButModes a c := by
  unfold SameButModes at h₁ h₂ ⊢
  rw [h₂, h₁]

theorem sameButModes_setMode (state : ModalState) (h : isModeWord g = true) :
    SameButModes state (state.setMode g) := by
  unfold ModalState.setMode
  by_cases hplane : g = 17 ∨ g = 18 ∨ g = 19
  · rw [if_pos hplane]
    rfl
  · rw [if_neg hplane]
    by_cases hunit : g = 20 ∨ g = 21
    · rw [if_pos hunit]
      rfl
    · rw [if_neg hunit]
      by_cases hcoord : g = 90 ∨ g = 91
      · rw [if_pos hcoord]
        rfl
      · -- no other word is a mode word
        unfold isModeWord at h
        simp only [Bool.or_eq_true, beq_iff_eq] at h
        omega

theorem sameButModes_setModes (state : ModalState) {gs : List Nat} (h : ∀ g ∈ gs, isModeWord g = true) :
    SameButModes state (state.setModes gs) := by
  induction gs generalizing state with
  | nil => rfl
  | cons g gs ih =>
    have hrest := ih (state.setMode g) fun g' hg' => h g' (mem_cons_of_mem _ hg')
    exact (sameButModes_setMode state (h g (mem_cons_self ..))).trans hrest

theorem SameButModes.symm {a b : ModalState} (h : SameButModes a b) : SameButModes b a := by
  unfold SameButModes at h ⊢
  rw [h]

theorem SameButModes.lineNumber (h : SameButModes state state') : state'.lineNumber = state.lineNumber := by
  rw [h]

/-- States that differ in modes are the same where the modes are. -/
theorem SameButModes.eq (h : SameButModes state state') (hplane : state.plane = state'.plane)
    (hunit : state.unitMode = state'.unitMode) (hcoord : state.coordMode = state'.coordMode) : state = state' := by
  rw [h, ← hplane, ← hunit, ← hcoord]

/-- A command whose G word is no mode word. -/
def NoModeWord (cmd : GCodeCommand) : Prop := ∀ g, cmd.gCode = some g → isModeWord g = false

/-- Such a command leaves the modes alone. -/
theorem advance_modes (h : NoModeWord cmd) (state : ModalState) :
    (state.advance cmd).plane = state.plane ∧ (state.advance cmd).unitMode = state.unitMode ∧
      (state.advance cmd).coordMode = state.coordMode := by
  unfold ModalState.advance
  cases cmd.kind with
  | modal =>
    cases hg : cmd.gCode with
    | none => exact ⟨rfl, rfl, rfl⟩
    | some g =>
      have hnot := h g hg
      unfold isModeWord at hnot
      simp at hnot
      obtain ⟨⟨⟨⟨⟨⟨h17, h18⟩, h19⟩, h20⟩, h21⟩, h90⟩, h91⟩ := hnot
      show (ModalState.setMode _ g).plane = _ ∧ (ModalState.setMode _ g).unitMode = _ ∧
        (ModalState.setMode _ g).coordMode = _
      unfold ModalState.setMode
      rw [if_neg (by omega), if_neg (by omega), if_neg (by omega)]
      split <;> exact ⟨rfl, rfl, rfl⟩
  | _ => exact ⟨rfl, rfl, rfl⟩

/-- So it does not make up for a difference in modes. -/
theorem SameButModes.eq_of_advance (h : SameButModes state state')
    (hcmd : NoModeWord cmd) (hadvance : state.advance cmd = state'.advance cmd) : state = state' := by
  obtain ⟨hplane, hunit, hcoord⟩ := advance_modes hcmd state
  obtain ⟨hplane', hunit', hcoord'⟩ := advance_modes hcmd state'
  rw [hadvance] at hplane hunit hcoord
  exact h.eq (hplane.symm.trans hplane') (hunit.symm.trans hunit') (hcoord.symm.trans hcoord')

/-! ## Running the parts -/

theorem isModeWord_of_mem_modesOf (h : g ∈ modesOf words) : isModeWord g = true := by
  obtain ⟨t, _, ht⟩ := mem_filterMap.1 h
  exact (Option.filter_eq_some_iff.1 ht).2

omit [Target] in
/-- A mode word is of the modal kind, unless an M word says otherwise. -/
theorem classOf_mode (h : isModeWord g = true) (mCode : Option Nat) :
    GCodeCommand.classOf (some g) mCode = if mCode.any isSpindleWord then .spindle else .modal := by
  unfold isModeWord at h
  simp only [Bool.or_eq_true, beq_iff_eq] at h
  have hmotion : isMotionWord g = false := by
    unfold isMotionWord
    simp
    omega
  have hmodal : isModalWord g = true := by
    unfold isModalWord
    simp only [Bool.or_eq_true, beq_iff_eq]
    omega
  unfold GCodeCommand.classOf
  rw [Option.any_some, Option.any_some, hmotion, hmodal]
  rfl

variable [F64Math]

theorem step_mode (h : state.lineNumber = 0) (hg : isModeWord g = true) :
    step state (parseWords [.g g]) = some (.empty, state.setMode g) := by
  have hcmd : parseWords [.g g] = { GCodeCommand.new 0 with gCode := some g, kind := .modal } := by
    show { GCodeCommand.new 0 with gCode := some g, kind := GCodeCommand.classOf (some g) none } = _
    rw [classOf_mode hg]
    rfl
  rw [hcmd]
  show some (Output.empty, ModalState.setMode { state with lineNumber := 0 } g) = _
  rw [← h]

/-- The mode words one per line. -/
theorem runLines_modes (h : state.lineNumber = 0) {gs : List Nat} (hgs : ∀ g ∈ gs, isModeWord g = true) :
    runLines state (gs.map fun g => [.g g]) = some (.empty, state.setModes gs) := by
  induction gs generalizing state with
  | nil => rfl
  | cons g gs ih =>
    have hg := hgs g (mem_cons_self ..)
    have hline := (sameButModes_setMode state hg).lineNumber.trans h
    rw [map_cons, runLines, step_mode h hg, Option.bind_some,
      ih hline fun g' hg' => hgs g' (mem_cons_of_mem _ hg')]
    rfl

/-- The line in parts: the modes first, then the rest of the line. -/
theorem runLines_separated (h : state.lineNumber = 0) (words : List Token) :
    runLines state (separated words) = step (state.setModes (modesOf words)) (parseWords (restOf words)) := by
  unfold separated
  rw [runLines_append, runLines_modes h fun g hg => isModeWord_of_mem_modesOf hg, Option.bind_some, runLines_singleton]
  show (step _ _).map _ = _
  cases step (state.setModes (modesOf words)) (parseWords (restOf words)) <;> rfl

/-! ## Commands that do nothing -/

/-- The arc has a center and no sweep. -/
def arcVanishes (gCode : Nat) (prev next : ModalState) (cmd : GCodeCommand) : Bool :=
  match arcAxes prev next with
  | none => false
  | some axes =>
    match calculateArcCenter axes cmd prev.plane with
    | .error _ => false
    | .ok center =>
      !lt (arcRadius axes center) tolerance && lt (F64Math.abs (arcSweep gCode axes center)) tolerance

theorem emitArc_eq_nil_iff {gCode : Nat} :
    emitArc gCode prev next cmd = .ok [] ↔ arcVanishes gCode prev next cmd = true := by
  unfold emitArc arcVanishes
  cases arcAxes prev next with
  | none =>
    constructor
    · intro h
      cases h
    · intro h
      cases h
  | some axes =>
    dsimp only
    cases calculateArcCenter axes cmd prev.plane with
    | error e =>
      constructor
      · intro h
        cases h
      · intro h
        cases h
    | ok center =>
      simp [bind, Except.bind]
      by_cases hradius : lt (arcRadius axes center) tolerance = true
      · rw [if_pos hradius, hradius]
        constructor
        · intro h
          cases h
        · rintro ⟨h, _⟩
          cases h
      · rw [if_neg hradius]
        by_cases hsweep : lt (F64Math.abs (arcSweep gCode axes center)) tolerance = true
        · rw [if_pos hsweep]
          exact ⟨fun _ => ⟨Bool.eq_false_iff.2 hradius, hsweep⟩, fun _ => rfl⟩
        · rw [if_neg hsweep]
          constructor
          · intro h
            cases h
          · intro h
            exact absurd h.2 hsweep

/-- The command pushes nothing and leaves the state as it is: it has no words that count; or it ends canned cycles in
G0; or it is a move in the mode in force, of the position to itself. -/
def Idle (state : ModalState) (cmd : GCodeCommand) : Prop :=
  match cmd.kind with
  | .unknown => cmd.gCode = none ∧ cmd.mCode = none
  | .modal => state.motionMode = 0
  | .motion =>
    cmd.gCode = some state.motionMode ∧ Restates state cmd ∧
      (state.motionMode = 1 ∧ g1Profile state state = none ∨
        (state.motionMode = 2 ∨ state.motionMode = 3) ∧ arcVanishes state.motionMode state state cmd = true)
  | .spindle | .programControl => False

/-- A command as the parser gives it, with no line and no mode word. -/
structure Plain (cmd : GCodeCommand) : Prop where
  line : cmd.line = 0
  kind : cmd.kind = GCodeCommand.classOf cmd.gCode cmd.mCode
  noMode : NoModeWord cmd

section
omit [F64Math]

theorem exists_motionWord (h : Plain cmd) (hkind : cmd.kind = .motion) :
    ∃ g, cmd.gCode = some g ∧ isMotionWord g = true := by
  rw [h.kind] at hkind
  unfold GCodeCommand.classOf at hkind
  split at hkind
  · rename_i hg
    exact (Option.any_eq_true ..).1 hg
  · repeat' split at hkind
    all_goals cases hkind

theorem exists_spindleWord (h : Plain cmd) (hkind : cmd.kind = .spindle) :
    ∃ m, cmd.mCode = some m ∧ isSpindleWord m = true := by
  rw [h.kind] at hkind
  unfold GCodeCommand.classOf at hkind
  split at hkind
  · cases hkind
  · split at hkind
    · rename_i hm
      exact (Option.any_eq_true ..).1 hm
    · repeat' split at hkind
      all_goals cases hkind

theorem exists_endWord (h : Plain cmd) (hkind : cmd.kind = .programControl) :
    ∃ m, cmd.mCode = some m ∧ isEndWord m = true := by
  rw [h.kind] at hkind
  unfold GCodeCommand.classOf at hkind
  repeat' split at hkind
  all_goals first
    | exact (Option.any_eq_true ..).1 ‹_›
    | cases hkind

/-- A spindle command loads a constant and stores it, first of all. -/
theorem emitSpindle_eq (h : ∃ m, cmd.mCode = some m ∧ isSpindleWord m = true) :
    ∃ v name rest, emitSpindle cmd = .loadImm regStep v :: store name regStep :: rest := by
  obtain ⟨m, hm, hword⟩ := h
  unfold emitSpindle
  rw [hm]
  cases cmd.s with
  | some s => exact ⟨_, _, _, rfl⟩
  | none =>
    unfold isSpindleWord at hword
    simp at hword
    rcases hword with (rfl | rfl) | rfl
    · exact ⟨_, _, _, rfl⟩
    · exact ⟨_, _, _, rfl⟩
    · exact ⟨_, _, _, rfl⟩

theorem halt_mem_emitProgramControl (h : ∃ m, cmd.mCode = some m ∧ isEndWord m = true) :
    Instruction.halt ∈ emitProgramControl cmd := by
  obtain ⟨m, hm, hword⟩ := h
  have hends : cmd.mCode = some 2 ∨ cmd.mCode = some 30 := by
    unfold isEndWord at hword
    simp at hword
    rcases hword with rfl | rfl
    · exact Or.inl hm
    · exact Or.inr hm
  unfold emitProgramControl
  rw [if_pos hends]
  exact mem_append_right _ (mem_singleton_self _)

end

/-- A move that leaves the state as it is pushes nothing exactly where it has no length or no sweep. -/
theorem emitMotion_eq_empty_iff (hg : cmd.gCode = some state.motionMode)
    (hmotion : isMotionWord state.motionMode = true) (hsame : state.advance cmd = state) :
    emitMotion cmd state = .ok .empty ↔
      (state.motionMode = 1 ∧ g1Profile state state = none ∨
        (state.motionMode = 2 ∨ state.motionMode = 3) ∧ arcVanishes state.motionMode state state cmd = true) := by
  unfold emitMotion
  rw [hsame, hg]
  dsimp only [Option.getD_some]
  by_cases hzero : state.motionMode = 0
  -- a rapid move always pushes its axes
  · rw [if_pos hzero]
    obtain ⟨rest, hcode⟩ := emitG0_eq state
    rw [hcode]
    constructor
    · intro h
      cases h
    · intro h
      omega
  · rw [if_neg hzero]
    by_cases hone : state.motionMode = 1
    · rw [if_pos hone, emitLinear_eq_empty_iff]
      constructor
      · exact fun h => Or.inl ⟨hone, h⟩
      · rintro (h | h)
        · exact h.2
        · omega
    · rw [if_neg hone]
      -- the other words are those of arcs
      have harc : state.motionMode = 2 ∨ state.motionMode = 3 := by
        unfold isMotionWord at hmotion
        simp at hmotion
        omega
      rw [if_pos harc, ← emitArc_eq_nil_iff]
      constructor
      · intro h
        right
        refine ⟨harc, ?_⟩
        cases hemit : emitArc state.motionMode state state cmd with
        | error e =>
          rw [hemit] at h
          cases h
        | ok is =>
          rw [hemit] at h
          injection h with h
          injection h with h _
          rw [h]
      · rintro (h | h)
        · exact absurd h.1 hone
        · rw [h.2]
          rfl

/-- **Idle commands** are those that push nothing and leave the state as it is. -/
theorem idle_iff (hline : state.lineNumber = 0) (hcmd : Plain cmd) :
    emit cmd state = .ok .empty ∧ state.advance cmd = state ↔ Idle state cmd := by
  unfold Idle emit
  cases hkind : cmd.kind with
  | unknown =>
    dsimp only
    unfold emitUnknown
    constructor
    · rintro ⟨h, _⟩
      split at h
      · cases h
      · cases h
      · exact ⟨‹_›, ‹_›⟩
    · rintro ⟨hg, hm⟩
      rw [hg, hm]
      refine ⟨rfl, ?_⟩
      unfold ModalState.advance
      rw [hkind, hcmd.line, ← hline]
  | modal =>
    -- the one modal word that is no mode word
    have h80 : cmd.gCode = some 80 := by
      have hclass := hcmd.kind
      rw [hkind] at hclass
      unfold GCodeCommand.classOf at hclass
      split at hclass
      · cases hclass
      · split at hclass
        · cases hclass
        · split at hclass
          · rename_i hmodal
            obtain ⟨g, hg, hword⟩ := (Option.any_eq_true ..).1 hmodal
            have hnot := hcmd.noMode g hg
            unfold isModalWord at hword
            unfold isModeWord at hnot
            simp at hword hnot
            rw [hg]
            congr 1
            omega
          · split at hclass
            · cases hclass
            · cases hclass
    have hadvance : state.advance cmd = { state with motionMode := 0, lineNumber := 0 } := by
      unfold ModalState.advance
      rw [hkind, h80, hcmd.line]
      rfl
    dsimp only
    rw [hadvance]
    constructor
    · rintro ⟨_, h⟩
      rw [← h]
    · intro h
      refine ⟨rfl, ?_⟩
      rw [ModalState.mk.injEq]
      exact ⟨h.symm, rfl, rfl, rfl, rfl, rfl, rfl, rfl, rfl, rfl, hline.symm⟩
  | motion =>
    obtain ⟨g, hg, hmotion⟩ := exists_motionWord hcmd hkind
    -- the state stays as it is if the command says again what it says
    have hsame : state.advance cmd = state ↔ cmd.gCode = some state.motionMode ∧ Restates state cmd := by
      have hstate : state = { state with lineNumber := 0 } := by rw [← hline]
      rw [advance_motion hkind hg hmotion, hg, hcmd.line]
      constructor
      · intro h
        have hfields := h.trans hstate
        rw [ModalState.mk.injEq] at hfields
        obtain ⟨hmode, _, _, _, hf, _, _, hx, hy, hz, _⟩ := hfields
        exact ⟨congrArg some hmode, hx, hy, hz, hf⟩
      · rintro ⟨hmode, hx, hy, hz, hf⟩
        rw [hx, hy, hz, hf, Option.some.inj hmode]
        exact hstate.symm
    dsimp only
    constructor
    · rintro ⟨h, hadvance⟩
      obtain ⟨hmode, hrestates⟩ := hsame.1 hadvance
      rw [hg, Option.some.injEq] at hmode
      rw [hmode] at hg hmotion
      exact ⟨hg, hrestates, (emitMotion_eq_empty_iff hg hmotion hadvance).1 h⟩
    · rintro ⟨hmode, hrestates, h⟩
      have hadvance := hsame.2 ⟨hmode, hrestates⟩
      rw [hg, Option.some.injEq] at hmode
      rw [hmode] at hg hmotion
      exact ⟨(emitMotion_eq_empty_iff hg hmotion hadvance).2 h, hadvance⟩
  | spindle =>
    -- the spindle stores its command, and the end of a program halts
    constructor
    · rintro ⟨h, _⟩
      obtain ⟨v, name, rest, hcode⟩ := emitSpindle_eq (exists_spindleWord hcmd hkind)
      rw [hcode] at h
      cases h
    · intro h
      cases h
  | programControl =>
    constructor
    · rintro ⟨h, _⟩
      have hhalt := halt_mem_emitProgramControl (exists_endWord hcmd hkind)
      injection h with h
      injection h with h _
      rw [h] at hhalt
      cases hhalt
    · intro h
      cases h

/-! ## What a line loses -/

/-- The arc has no plane, no center or no radius. -/
def arcRefused (prev next : ModalState) (cmd : GCodeCommand) : Bool :=
  match arcAxes prev next with
  | none => true
  | some axes =>
    match calculateArcCenter axes cmd prev.plane with
    | .error _ => true
    | .ok center => lt (arcRadius axes center) tolerance

theorem isOk_emitArc {gCode : Nat} : (emitArc gCode prev next cmd).isOk = !arcRefused prev next cmd := by
  unfold emitArc arcRefused
  cases arcAxes prev next with
  | none => rfl
  | some axes =>
    dsimp only
    cases calculateArcCenter axes cmd prev.plane with
    | error e => rfl
    | ok center =>
      simp only [bind, Except.bind]
      by_cases hradius : lt (arcRadius axes center) tolerance = true
      · rw [if_pos hradius, hradius]
        rfl
      · rw [if_neg hradius, Bool.eq_false_iff.2 hradius]
        split <;> rfl

/-- The straight move takes more cycles than the generator counts. -/
def linearRefused (prev next : ModalState) : Bool :=
  (g1Profile prev next).any fun profile => (generateTrapezoidalProgram profile).isNone

theorem isOk_emitLinear : (emitLinear prev next).isOk = !linearRefused prev next := by
  unfold emitLinear linearRefused
  cases g1Profile prev next with
  | none => rfl
  | some profile =>
    dsimp only [Option.any_some]
    cases generateTrapezoidalProgram profile <;> rfl

/-- The compiler refuses the command: it has a word and none that is known, or it is a move that cannot be made. -/
def Refused (state : ModalState) (cmd : GCodeCommand) : Prop :=
  match cmd.kind with
  | .unknown => cmd.gCode ≠ none ∨ cmd.mCode ≠ none
  | .motion =>
    cmd.gCode = some 1 ∧ linearRefused state (state.advance cmd) = true ∨
      (cmd.gCode = some 2 ∨ cmd.gCode = some 3) ∧ arcRefused state (state.advance cmd) cmd = true
  | .spindle | .modal | .programControl => False

/-- **Refused commands** are those that give no code. -/
theorem refused_iff (hcmd : Plain cmd) : (emit cmd state).isOk = false ↔ Refused state cmd := by
  unfold Refused emit
  cases hkind : cmd.kind with
  | unknown =>
    dsimp only
    unfold emitUnknown
    cases cmd.gCode with
    | some g =>
      constructor
      · exact fun _ => Or.inl (Option.some_ne_none g)
      · exact fun _ => rfl
    | none =>
      cases cmd.mCode with
      | some m =>
        constructor
        · exact fun _ => Or.inr (Option.some_ne_none m)
        · exact fun _ => rfl
      | none =>
        constructor
        · intro h
          cases h
        · rintro (h | h)
          · exact absurd rfl h
          · exact absurd rfl h
  | motion =>
    obtain ⟨g, hg, hmotion⟩ := exists_motionWord hcmd hkind
    have hword : g = 0 ∨ g = 1 ∨ g = 2 ∨ g = 3 := by
      unfold isMotionWord at hmotion
      simp at hmotion
      omega
    dsimp only
    unfold emitMotion
    rw [hg]
    dsimp only [Option.getD_some]
    simp only [Option.some.injEq]
    -- a rapid move always gives code, the other moves may be refused
    rcases hword with rfl | rfl | harc
    · rw [if_pos rfl]
      constructor
      · intro h
        cases h
      · intro h
        omega
    · rw [if_neg (by decide), if_pos rfl, isOk_emitLinear, Bool.not_eq_false']
      constructor
      · exact fun h => Or.inl ⟨rfl, h⟩
      · rintro (h | h)
        · exact h.2
        · omega
    · rw [if_neg (by omega), if_neg (by omega), if_pos harc]
      have hmap : ((emitArc g state (state.advance cmd) cmd).map Output.code).isOk =
          (emitArc g state (state.advance cmd) cmd).isOk := by
        cases emitArc g state (state.advance cmd) cmd <;> rfl
      rw [hmap, isOk_emitArc, Bool.not_eq_false']
      constructor
      · exact fun h => Or.inr ⟨harc, h⟩
      · rintro (h | h)
        · omega
        · exact h.2
  | spindle | modal | programControl =>
    constructor
    · intro h
      cases h
    · intro h
      cases h

/-- The mode words of a line change nothing. -/
def ModesInForce (state : ModalState) (words : List Token) : Prop := state.setModes (modesOf words) = state

instance (state : ModalState) (words : List Token) : Decidable (ModesInForce state words) :=
  inferInstanceAs (Decidable (_ = _))

/-- The mode words of a line change no more than the last one of them does. -/
def OtherModesInForce (state : ModalState) (words : List Token) : Prop :=
  ∀ g, lastG words = some g → state.setModes (modesOf words) = state.setMode g

/-- No word of the line is lost. Where the last G word is no mode word, the mode words are lost, so they have to be in
force, if the line is not refused with and without them. Where it is a mode word and the line has a spindle word, the
mode words and the word of motion are lost. Else the other mode words and everything that is no mode word is. -/
def LosesNothing (state : ModalState) (words : List Token) : Prop :=
  if (lastG words).any isModeWord then
    if (parseWords words).mCode.any isSpindleWord then
      ModesInForce state words ∧ (lastG (restOf words)).any isMotionWord = false
    else OtherModesInForce state words ∧ Idle (state.setModes (modesOf words)) (parseWords (restOf words))
  else
    ModesInForce state words ∨
      Refused state (parseWords words) ∧ Refused (state.setModes (modesOf words)) (parseWords words)

theorem step_eq_none_iff (hcmd : Plain cmd) : step state cmd = none ↔ Refused state cmd := by
  rw [← refused_iff hcmd]
  unfold step
  cases emit cmd state with
  | error e => exact ⟨fun _ => rfl, fun _ => rfl⟩
  | ok out =>
    constructor
    · intro h
      cases h
    · intro h
      cases h

theorem step_eq_some_iff {out : Output} :
    step state cmd = some (out, state') ↔ emit cmd state = .ok out ∧ state.advance cmd = state' := by
  unfold step
  cases emit cmd state with
  | error e =>
    constructor
    · intro h
      cases h
    · rintro ⟨h, _⟩
      cases h
  | ok o =>
    constructor
    · intro h
      cases h
      exact ⟨rfl, rfl⟩
    · rintro ⟨h, rfl⟩
      cases h
      rfl

omit [F64Math] in
theorem plain_parseWords (h : ∀ g, lastG words = some g → isModeWord g = false) : Plain (parseWords words) := by
  refine ⟨parseWords_line words, rfl, ?_⟩
  intro g hg
  exact h g ((parseWords_restOf words).2.1 ▸ hg)

/-- **One command in two states.** Modes that differ make a difference, if the command is not refused in both. -/
theorem step_eq_iff (h : SameButModes state state') (hcmd : Plain cmd) :
    step state cmd = step state' cmd ↔ state' = state ∨ Refused state cmd ∧ Refused state' cmd := by
  constructor
  · intro heq
    cases hstep : step state cmd with
    | none =>
      rw [hstep] at heq
      exact Or.inr ⟨(step_eq_none_iff hcmd).1 hstep, (step_eq_none_iff hcmd).1 heq.symm⟩
    | some result =>
      obtain ⟨out, next⟩ := result
      rw [hstep] at heq
      obtain ⟨_, hnext⟩ := step_eq_some_iff.1 hstep
      obtain ⟨_, hnext'⟩ := step_eq_some_iff.1 heq.symm
      exact Or.inl (h.eq_of_advance hcmd.noMode (hnext.trans hnext'.symm)).symm
  · rintro (rfl | ⟨hrefused, hrefused'⟩)
    · rfl
    · rw [(step_eq_none_iff hcmd).2 hrefused, (step_eq_none_iff hcmd).2 hrefused']

/-- The code of an arc is empty, or goes on with the load of a position. -/
theorem second_emitArc {gCode : Nat} {is : List Instruction}
    (h : emitArc gCode prev next cmd = .ok is) : is = [] ∨ ∃ first x rest, is = first :: loadF64 regX x :: rest := by
  unfold emitArc at h
  split at h
  · cases h
  · rename_i axes _
    cases hcenter : calculateArcCenter axes cmd prev.plane with
    | error e =>
      rw [hcenter] at h
      cases h
    | ok center =>
      rw [hcenter] at h
      simp only [bind, Except.bind] at h
      split at h
      · cases h
      · split at h
        · cases h
          exact Or.inl rfl
        · right
          -- there is one chord at least
          obtain ⟨n, hn⟩ : ∃ n, max (F64Math.toU32 (F64Math.ceil (F64Math.abs (arcSweep gCode axes center) /
              if gt (arcRadius axes center) chordTolerance then
                F64Math.min (ofNat 2 * F64Math.acos (ofNat 1 - chordTolerance / arcRadius axes center)) maxAngularStep
              else maxAngularStep))).toNat 1 = n + 1 := ⟨_, (Nat.sub_add_cancel (Nat.le_max_right _ 1)).symm⟩
          rw [hn] at h
          cases h
          exact ⟨_, _, _, rfl⟩

/-- No move has the code of a spindle command. -/
theorem emitMotion_ne_emitSpindle {cmd cmd' : GCodeCommand}
    (h : ∃ m, cmd'.mCode = some m ∧ isSpindleWord m = true) :
    emitMotion cmd state ≠ .ok (.code (emitSpindle cmd')) := by
  obtain ⟨v, name, rest, hcode⟩ := emitSpindle_eq h
  rw [hcode]
  intro hmove
  unfold emitMotion at hmove
  dsimp only at hmove
  split at hmove
  · obtain ⟨rest', hrapid⟩ := emitG0_eq (state.advance cmd)
    rw [hrapid] at hmove
    injection hmove with hmove
    injection hmove with hmove _
    injection hmove with hmove _
    -- a rapid move starts with another register
    injection hmove with _ hregs
    injection hregs with hreg _
    injection hreg with hreg
    exact absurd hreg (by decide)
  · split at hmove
    · unfold emitLinear at hmove
      split at hmove
      · cases hmove
      · split at hmove
        · cases hmove
        · rename_i program hprogram
          injection hmove with hmove
          injection hmove with _ hsignals
          exact signals_ne_nil hprogram hsignals
    · split at hmove
      · cases hmove
      · split at hmove
        · rename_i g _ _
          cases harc : emitArc g state (state.advance cmd) cmd with
          | error e =>
            rw [harc] at hmove
            cases hmove
          | ok is =>
            rw [harc] at hmove
            injection hmove with hmove
            injection hmove with hmove _
            rcases second_emitArc harc with hnil | ⟨first, x, more, hcons⟩
            · rw [hnil] at hmove
              cases hmove
            · rw [hcons] at hmove
              injection hmove with _ hmove
              injection hmove with hmove _
              injection hmove with hop _
              cases hop
        · cases hmove

/-! ## Lines in parts -/

section

omit [F64Math] in
/-- A line whose last G word is no mode word is the command of its rest. -/
theorem parseWords_restOf_of_not_mode (h : (lastG words).any isModeWord = false) :
    parseWords (restOf words) = parseWords words := by
  obtain ⟨hcmd, _, hrest⟩ := parseWords_restOf words
  have hkind : (parseWords (restOf words)).kind =
      GCodeCommand.classOf (parseWords (restOf words)).gCode (parseWords (restOf words)).mCode := rfl
  rw [hcmd, ← lastG_restOf_eq h, ← hrest, ← hkind]

omit [F64Math] in
theorem plain_restOf (words : List Token) : Plain (parseWords (restOf words)) :=
  plain_parseWords fun _ h => lastG_restOf h

/-- The last G word is a mode word, and a spindle word decides the kind. -/
theorem step_separated_of_spindle (hg : lastG words = some g) (hmode : isModeWord g = true)
    (hspindle : (parseWords words).mCode.any isSpindleWord = true) :
    step state (parseWords words) = step (state.setModes (modesOf words)) (parseWords (restOf words)) ↔
      ModesInForce state words ∧ (lastG (restOf words)).any isMotionWord = false := by
  obtain ⟨hcmd, _, hrest⟩ := parseWords_restOf words
  have hplain := plain_restOf words
  have hsame : SameButModes state (state.setModes (modesOf words)) :=
    sameButModes_setModes state fun g hg => isModeWord_of_mem_modesOf hg
  generalize parseWords (restOf words) = r at hcmd hrest hplain ⊢
  have hm : (parseWords words).mCode = r.mCode := by rw [hcmd]
  rw [hm] at hspindle
  rw [hg, classOf_mode hmode, if_pos hspindle] at hcmd
  have hword : ∃ m, r.mCode = some m ∧ isSpindleWord m = true := (Option.any_eq_true ..).1 hspindle
  have hstep : step state (parseWords words) =
      some (.code (emitSpindle r), { state with lineNumber := r.line, spindleRpm := r.s.getD state.spindleRpm }) := by
    rw [hcmd]
    rfl
  rw [hstep, eq_comm, step_eq_some_iff]
  -- the rest of the line is a motion if it has the word of one, and the spindle is lost
  by_cases hmotion : (lastG (restOf words)).any isMotionWord = true
  · have hkind : r.kind = .motion := by
      rw [hplain.kind, hrest]
      unfold GCodeCommand.classOf
      rw [if_pos hmotion]
    constructor
    · rintro ⟨h, _⟩
      unfold emit at h
      rw [hkind] at h
      exact absurd h (emitMotion_ne_emitSpindle hword)
    · rintro ⟨_, h⟩
      rw [hmotion] at h
      cases h
  -- otherwise it is the spindle word again, which keeps the modes
  · have hkind : r.kind = .spindle := by
      rw [hplain.kind, hrest]
      unfold GCodeCommand.classOf
      rw [if_neg hmotion, if_pos hspindle]
    have hemit : ∀ s, emit r s = .ok (.code (emitSpindle r)) := by
      intro s
      unfold emit
      rw [hkind]
    have hadvance : ∀ s : ModalState,
        s.advance r = { s with lineNumber := r.line, spindleRpm := r.s.getD s.spindleRpm } := by
      intro s
      unfold ModalState.advance
      rw [hkind]
    constructor
    · rintro ⟨_, h⟩
      rw [← hadvance state] at h
      exact ⟨(hsame.eq_of_advance hplain.noMode h.symm).symm, Bool.eq_false_iff.2 hmotion⟩
    · rintro ⟨h, _⟩
      unfold ModesInForce at h
      rw [h]
      exact ⟨hemit state, hadvance state⟩

/-- The last G word is a mode word, and it decides the kind. -/
theorem step_separated_of_mode (hline : state.lineNumber = 0) (hg : lastG words = some g)
    (hmode : isModeWord g = true) (hspindle : (parseWords words).mCode.any isSpindleWord = false) :
    step state (parseWords words) = step (state.setModes (modesOf words)) (parseWords (restOf words)) ↔
      OtherModesInForce state words ∧ Idle (state.setModes (modesOf words)) (parseWords (restOf words)) := by
  obtain ⟨hcmd, _, _⟩ := parseWords_restOf words
  have hplain := plain_restOf words
  have hsame : SameButModes state (state.setModes (modesOf words)) :=
    sameButModes_setModes state fun g hg => isModeWord_of_mem_modesOf hg
  have hm : (parseWords words).mCode = (parseWords (restOf words)).mCode := by rw [hcmd]
  rw [hm] at hspindle
  rw [hg, classOf_mode hmode, hspindle] at hcmd
  have hstep : step state (parseWords words) = some (.empty, state.setMode g) := by
    rw [hcmd]
    show some (Output.empty, ModalState.setMode { state with lineNumber := (parseWords (restOf words)).line } g) = _
    rw [hplain.line, ← hline]
  have hothers : OtherModesInForce state words ↔ state.setModes (modesOf words) = state.setMode g := by
    unfold OtherModesInForce
    rw [hg]
    constructor
    · exact fun h => h g rfl
    · intro h g' hg'
      cases hg'
      exact h
  rw [hstep, eq_comm, step_eq_some_iff, hothers, ← idle_iff (hsame.lineNumber.trans hline) hplain]
  constructor
  · rintro ⟨hemit, hadvance⟩
    -- the rest of the line leaves the modes alone, so they are those of the last word
    obtain ⟨hplane, hunit, hcoord⟩ := advance_modes hplain.noMode (state.setModes (modesOf words))
    rw [hadvance] at hplane hunit hcoord
    have heq : state.setModes (modesOf words) = state.setMode g :=
      (hsame.symm.trans (sameButModes_setMode state hmode)).eq hplane.symm hunit.symm hcoord.symm
    exact ⟨heq, hemit, hadvance.trans heq.symm⟩
  · rintro ⟨heq, hemit, hadvance⟩
    exact ⟨hemit, hadvance.trans heq⟩

/-- **A line and its parts** do the same in a state exactly where the line loses nothing. -/
theorem runLines_separated_iff (hline : state.lineNumber = 0) :
    runLines state [words] = runLines state (separated words) ↔ LosesNothing state words := by
  rw [runLines_singleton, runLines_separated hline]
  unfold LosesNothing
  by_cases hlast : (lastG words).any isModeWord = true
  · rw [if_pos hlast]
    obtain ⟨g, hg, hmode⟩ := (Option.any_eq_true ..).1 hlast
    by_cases hspindle : (parseWords words).mCode.any isSpindleWord = true
    · rw [if_pos hspindle]
      exact step_separated_of_spindle hg hmode hspindle
    · rw [if_neg hspindle]
      exact step_separated_of_mode hline hg hmode (Bool.eq_false_iff.2 hspindle)
  · rw [if_neg hlast, parseWords_restOf_of_not_mode (Bool.eq_false_iff.2 hlast)]
    apply step_eq_iff (sameButModes_setModes state fun g hg => isModeWord_of_mem_modesOf hg)
    apply plain_parseWords
    intro g hg
    apply Bool.eq_false_iff.2
    intro hmode
    rw [hg, Option.any_some] at hlast
    exact hlast hmode

end

omit [F64Math] in
/-- The parts of a line have no word that ends a line. -/
theorem innerWords_separated (h : ∀ t ∈ words, t.endsLine = false) :
    ∀ part ∈ separated words, ∀ t ∈ part, t.endsLine = false := by
  intro part hpart t ht
  rcases mem_append.1 hpart with hpart | hpart
  · obtain ⟨g, _, rfl⟩ := mem_map.1 hpart
    rw [mem_singleton.1 ht]
    rfl
  · rw [mem_singleton.1 hpart] at ht
    exact h t (mem_filter.1 ht).1

/-- **When words can share a line.** In a program, a line can be written in parts, the words of the plane, the units and
the distance mode one per line in front of the rest, exactly where no word of the line is lost. -/
theorem separable_iff {initial : ModalState} {before rest : List (List Token)} {words : List Token}
    {tokens : List LexedToken} (hlines : (tokenLines tokens).map wordsOf = before ++ words :: rest) :
    Interchangeable initial before [words] (separated words) ↔
      ∀ out state, runLines initial.unnumbered before = some (out, state) → LosesNothing state words := by
  have hinner : InnerWords (before ++ words :: rest) := by
    intro part hpart t ht
    rw [← hlines] at hpart
    obtain ⟨line, hline, rfl⟩ := mem_map.1 hpart
    obtain ⟨tok, htok, rfl⟩ := mem_map.1 ht
    exact inner_of_mem_tokenLines hline tok htok
  have hwords : ∀ t ∈ words, t.endsLine = false :=
    hinner words (mem_append_right _ (mem_cons_self ..))
  have hline : InnerWords (before ++ [words]) := by
    intro part hpart
    rcases mem_append.1 hpart with hpart | hpart
    · exact hinner part (mem_append_left _ hpart)
    · rw [mem_singleton.1 hpart]
      exact hwords
  have hparts : InnerWords (before ++ separated words) := by
    intro part hpart
    rcases mem_append.1 hpart with hpart | hpart
    · exact hinner part (mem_append_left _ hpart)
    · exact innerWords_separated hwords part hpart
  rw [interchangeable_iff hline hparts]
  constructor
  · intro h out state hbefore
    exact (runLines_separated_iff (runLines_lineNumber hbefore rfl)).1 (h out state hbefore)
  · intro h out state hbefore
    exact (runLines_separated_iff (runLines_lineNumber hbefore rfl)).2 (h out state hbefore)

end Audesys.Gcode

/-! ## Two lines -/

namespace Audesys.Gcode

open Audesys.Hal Audesys.Hal.F64 Audesys.Cnc.Motion

local instance sharedFractions : Target := fractions
local instance sharedFractionMath : F64Math := fractionMath

/-- G90 is in force from the start. -/
theorem absolute_separable :
    ∃ words rest, (tokenLines (tokenize "G90 G0 X5\nM30\n")).map wordsOf = words :: rest ∧
      separated words = [[.g 90], [.g 0, .x (5 : Rat)]] ∧ Interchangeable .new [] [words] (separated words) := by
  have hlines : (tokenLines (tokenize "G90 G0 X5\nM30\n")).map wordsOf =
      [] ++ [.g 90, .g 0, .x (5 : Rat)] :: [[.m 30], []] := by decide +kernel
  refine ⟨_, _, hlines, by decide +kernel, ?_⟩
  apply (separable_iff hlines).2
  intro out state hbefore
  cases hbefore
  unfold LosesNothing
  rw [if_neg (by decide +kernel)]
  exact Or.inl (by decide +kernel)

/-- G91 is lost in front of a word of motion. -/
theorem relative_not_separable :
    ∃ words rest, (tokenLines (tokenize "G91 G0 X5\nM30\n")).map wordsOf = words :: rest ∧
      words.filterMap Token.gWord = [91, 0] ∧ ¬ Interchangeable .new [] [words] (separated words) := by
  have hlines : (tokenLines (tokenize "G91 G0 X5\nM30\n")).map wordsOf =
      [] ++ [.g 91, .g 0, .x (5 : Rat)] :: [[.m 30], []] := by decide +kernel
  refine ⟨_, _, hlines, by decide +kernel, ?_⟩
  intro h
  -- the distance mode at the end tells the two programs apart
  have hsame := h [[.m 30], []] (tokenize "G91 G0 X5\nM30\n") (tokenize "G91\nG0 X5\nM30\n") hlines
    (by decide +kernel)
  have hlost : (outcome (tokenize "G91 G0 X5\nM30\n") .new).map (·.2.coordMode) = some 90 := by decide +kernel
  have hkept : (outcome (tokenize "G91\nG0 X5\nM30\n") .new).map (·.2.coordMode) = some 91 := by decide +kernel
  rw [hsame, hkept] at hlost
  cases hlost

end Audesys.Gcode
