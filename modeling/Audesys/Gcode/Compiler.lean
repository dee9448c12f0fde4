import Audesys.Cnc.Profile
import Audesys.Gcode.Parser

/-!
# `Gcode.Compiler` — from commands to a program

`compiler.rs`: the modal state that the commands advance, and the code each command gives. The emitters of the source
push onto one list and none of them looks at what is there, so each is the list of what it pushes; the code of a program
is what its commands push, one after the other (`compileFrom`).

Every error of the compiler is an `UnsupportedCommand` with the line of the command; the emitters give its text and
`emitCommand` adds the line.
-/

namespace Audesys.Gcode

open Audesys.Hal Audesys.Hal.F64 Audesys.Cnc.Motion

variable [Target]
variable {state : ModalState}
variable {out : Output}

inductive GCodeError where
  | unsupportedCommand (line : Nat) (code : String)
  deriving DecidableEq

/-- Why no program comes out: an error, or an `unwrap` or an overflow that panics. -/
inductive Failure where
  | error (e : GCodeError)
  | panic
  deriving DecidableEq

/-- A failure, before the line is known. -/
inductive Stop where
  | unsupported (code : String)
  | panic
  deriving DecidableEq

def Stop.onLine (line : Nat) : Stop → Failure
  | unsupported code => .error (.unsupportedCommand line code)
  | panic => .panic

/-! ## Modal state -/

structure ModalState where
  motionMode : Nat
  coordMode : Nat
  unitMode : Nat
  plane : Nat
  feedrate : Target.F64
  spindleRpm : Target.F64
  acceleration : Target.F64
  currentX : Target.F64
  currentY : Target.F64
  currentZ : Target.F64
  lineNumber : Nat
  deriving DecidableEq

namespace ModalState

/-- `ModalState::new`. -/
def new [F64Math] : ModalState :=
  { motionMode := 0, coordMode := 90, unitMode := 21, plane := 17, feedrate := zero, spindleRpm := zero,
    acceleration := ofNat 500, currentX := zero, currentY := zero, currentZ := zero, lineNumber := 0 }

/-- One axis of `update_position`. -/
def moveAxis (coordMode : Nat) (current : Target.F64) (word : Option Target.F64) : Target.F64 :=
  match word with
  | none => current
  | some v => if coordMode = 90 then v else current + v

/-- `update_position`. -/
def updatePosition (state : ModalState) (cmd : GCodeCommand) : ModalState :=
  { state with
    currentX := moveAxis state.coordMode state.currentX cmd.x
    currentY := moveAxis state.coordMode state.currentY cmd.y
    currentZ := moveAxis state.coordMode state.currentZ cmd.z }

/-- A modal word. -/
def setMode (state : ModalState) (g : Nat) : ModalState :=
  if g = 17 ∨ g = 18 ∨ g = 19 then { state with plane := g }
  else if g = 20 ∨ g = 21 then { state with unitMode := g }
  else if g = 90 ∨ g = 91 then { state with coordMode := g }
  else if g = 80 then { state with motionMode := 0 }
  else state

/-- A command of motion. -/
def move (state : ModalState) (cmd : GCodeCommand) : ModalState :=
  let state := { state with motionMode := (cmd.gCode.filter isMotionWord).getD state.motionMode }
  let state := state.updatePosition cmd
  { state with feedrate := cmd.f.getD state.feedrate }

/-- `advance`. -/
def advance (state : ModalState) (cmd : GCodeCommand) : ModalState :=
  let next := { state with lineNumber := cmd.line }
  match cmd.kind with
  | .motion => next.move cmd
  | .spindle => { next with spindleRpm := cmd.s.getD next.spindleRpm }
  | .modal => cmd.gCode.elim next next.setMode
  | .programControl | .unknown => next

end ModalState

/-! ## Emitters -/

def regStep : UInt8 := 0
def regX : UInt8 := 2
def regY : UInt8 := 3
def regZ : UInt8 := 4
def regNull : UInt8 := 5
def regUnit : UInt8 := 6

def store (signal : String) (reg : UInt8) : Instruction := ⟨.store, [.signalName signal, .register reg]⟩

/-- What a command pushes. -/
structure Output where
  instructions : List Instruction
  signals : List SignalBinding
  deriving DecidableEq

namespace Output

def empty : Output := ⟨[], []⟩
def code (instructions : List Instruction) : Output := ⟨instructions, []⟩
def append (a b : Output) : Output := ⟨a.instructions ++ b.instructions, a.signals ++ b.signals⟩

end Output

/-- A position is stored, and its axis enabled. -/
def storeAxis (reg : UInt8) (position : Target.F64) (pos enable : String) : List Instruction :=
  [loadF64 reg position, store pos reg, .loadImm regStep (.bool true), store enable regStep]

/-- `emit_g0`. -/
def emitG0 (state : ModalState) : List Instruction :=
  storeAxis regX state.currentX "axis.0.pos" "axis.0.enable" ++
    (if ne state.currentY zero then storeAxis regY state.currentY "axis.1.pos" "axis.1.enable" else []) ++
    (if ne state.currentZ zero then storeAxis regZ state.currentZ "axis.2.pos" "axis.2.enable" else [])

/-- `emit_spindle`. -/
def emitSpindle (cmd : GCodeCommand) : List Instruction :=
  (match cmd.s with
    | some s => [loadF64 regStep s, store "spindle.rpm" regStep]
    | none => []) ++
  (match cmd.mCode with
    | some 3 => [.loadImm regStep (.bool true), store "spindle.cw" regStep]
    | some 4 => [.loadImm regStep (.bool true), store "spindle.ccw" regStep]
    | some 5 =>
      [.loadImm regStep (.bool false), store "spindle.cw" regStep, store "spindle.ccw" regStep,
        loadF64 regStep zero, store "spindle.rpm" regStep]
    | _ => [])

/-- `emit_program_control`. -/
def emitProgramControl (cmd : GCodeCommand) : List Instruction :=
  (if cmd.mCode = some 30 then
    [.loadImm regStep (.bool false), store "spindle.cw" regStep, store "spindle.ccw" regStep]
  else []) ++
  (if cmd.mCode = some 2 ∨ cmd.mCode = some 30 then [.halt] else [])

variable [F64Math]

/-! ### Arcs -/

/-- The two axes of the plane and the third one, by where they start and end and by their signals. -/
structure ArcAxes where
  startA : Target.F64
  startB : Target.F64
  startLinear : Target.F64
  endA : Target.F64
  endB : Target.F64
  endLinear : Target.F64
  aSignal : String
  bSignal : String
  linearSignal : String
  enableA : String
  enableB : String
  enableLinear : String

omit [F64Math] in
def arcAxes (prev next : ModalState) : Option ArcAxes :=
  if prev.plane = 17 then
    some { startA := prev.currentX, startB := prev.currentY, startLinear := prev.currentZ,
           endA := next.currentX, endB := next.currentY, endLinear := next.currentZ,
           aSignal := "axis.0.pos", bSignal := "axis.1.pos", linearSignal := "axis.2.pos",
           enableA := "axis.0.enable", enableB := "axis.1.enable", enableLinear := "axis.2.enable" }
  else if prev.plane = 18 then
    some { startA := prev.currentZ, startB := prev.currentX, startLinear := prev.currentY,
           endA := next.currentZ, endB := next.currentX, endLinear := next.currentY,
           aSignal := "axis.2.pos", bSignal := "axis.0.pos", linearSignal := "axis.1.pos",
           enableA := "axis.2.enable", enableB := "axis.0.enable", enableLinear := "axis.1.enable" }
  else if prev.plane = 19 then
    some { startA := prev.currentY, startB := prev.currentZ, startLinear := prev.currentX,
           endA := next.currentY, endB := next.currentZ, endLinear := next.currentX,
           aSignal := "axis.1.pos", bSignal := "axis.2.pos", linearSignal := "axis.0.pos",
           enableA := "axis.1.enable", enableB := "axis.2.enable", enableLinear := "axis.0.enable" }
  else none

/-- `CHORD_TOLERANCE`. -/
def chordTolerance : Target.F64 := F64Math.decimal 5 3

/-- `MAX_ANGULAR_STEP`. -/
def maxAngularStep : Target.F64 := F64Math.pi / ofNat 6

/-- `powi(2)`. -/
def square (v : Target.F64) : Target.F64 := v * v

/-- `calculate_arc_center`. -/
def calculateArcCenter (axes : ArcAxes) (cmd : GCodeCommand) (plane : Nat) : Except Stop (Target.F64 × Target.F64) :=
  if cmd.i.isSome || cmd.j.isSome || cmd.k.isSome then
    let i := cmd.i.getD zero
    let j := cmd.j.getD zero
    let k := cmd.k.getD zero
    if plane = 17 then .ok (axes.startA + i, axes.startB + j)
    else if plane = 18 then .ok (axes.startA + k, axes.startB + i)
    else if plane = 19 then .ok (axes.startA + j, axes.startB + k)
    else .error (.unsupported ("plane G" ++ toString plane))
  else
    match cmd.r with
    | none => .error (.unsupported "arc missing I/J/K or R")
    | some radius =>
      let dx := axes.endA - axes.startA
      let dy := axes.endB - axes.startB
      let chordLen := F64Math.sqrt (dx * dx + dy * dy)
      if lt chordLen tolerance then .error (.unsupported "zero-length arc with R")
      else
        let rAbs := F64Math.abs radius
        if lt rAbs (chordLen / ofNat 2 - tolerance) then
          .error (.unsupported
            ("radius " ++ F64Math.display rAbs ++ " too small for chord length " ++ F64Math.display chordLen))
        else
          let halfChord := chordLen / ofNat 2
          let centerOffset := F64Math.sqrt (F64Math.max (rAbs * rAbs - halfChord * halfChord) zero)
          let midA := (axes.startA + axes.endA) / ofNat 2
          let midB := (axes.startB + axes.endB) / ofNat 2
          let perpA := -dy / chordLen
          let perpB := dx / chordLen
          let sign : Target.F64 := if gt radius zero then ofNat 1 else -ofNat 1
          .ok (midA + sign * perpA * centerOffset, midB + sign * perpB * centerOffset)

def arcRadius (axes : ArcAxes) (center : Target.F64 × Target.F64) : Target.F64 :=
  F64Math.sqrt (square (axes.startA - center.1) + square (axes.startB - center.2))

def startAngle (axes : ArcAxes) (center : Target.F64 × Target.F64) : Target.F64 :=
  F64Math.atan2 (axes.startB - center.2) (axes.startA - center.1)

def endAngle (axes : ArcAxes) (center : Target.F64 × Target.F64) : Target.F64 :=
  F64Math.atan2 (axes.endB - center.2) (axes.endA - center.1)

/-- The sweep of an arc: down for G2, up for G3, and all the way round where it ends where it starts. -/
def arcSweep (gCode : Nat) (axes : ArcAxes) (center : Target.F64 × Target.F64) : Target.F64 :=
  if lt (F64Math.hypot (axes.endA - axes.startA) (axes.endB - axes.startB)) (F64Math.decimal 1 6) then
    if gCode = 2 then -ofNat 2 * F64Math.pi else ofNat 2 * F64Math.pi
  else
    let s := endAngle axes center - startAngle axes center
    if gCode = 2 then (if gt s zero then s - ofNat 2 * F64Math.pi else s)
    else if lt s zero then s + ofNat 2 * F64Math.pi
    else s

/-- One chord: the positions of the three axes. -/
def emitChord (axes : ArcAxes) (a b l : Target.F64) : List Instruction :=
  [loadF64 regX a, store axes.aSignal regX, store axes.enableA regStep,
    loadF64 regX b, store axes.bSignal regX, store axes.enableB regStep,
    loadF64 regX l, store axes.linearSignal regX, store axes.enableLinear regStep]

/-- `emit_arc`. -/
def emitArc (gCode : Nat) (prev next : ModalState) (cmd : GCodeCommand) : Except Stop (List Instruction) :=
  match arcAxes prev next with
  | none => .error (.unsupported ("G" ++ toString gCode))
  | some axes => do
    let center ← calculateArcCenter axes cmd prev.plane
    let radius := arcRadius axes center
    if lt radius tolerance then .error (.unsupported "zero-radius arc")
    else
      let sweep := arcSweep gCode axes center
      if lt (F64Math.abs sweep) tolerance then .ok []
      else
        let angularStep : Target.F64 :=
          if gt radius chordTolerance then
            F64Math.min (ofNat 2 * F64Math.acos (ofNat 1 - chordTolerance / radius)) maxAngularStep
          else maxAngularStep
        let numSegments := max (F64Math.toU32 (F64Math.ceil (F64Math.abs sweep / angularStep))).toNat 1
        let anglePerSegment := sweep / ofNat numSegments
        let linearPerSegment := (axes.endLinear - axes.startLinear) / ofNat numSegments
        .ok (.loadImm regStep (.bool true) :: (List.range' 1 numSegments).flatMap fun i =>
          let angle := startAngle axes center + ofNat i * anglePerSegment
          emitChord axes (center.1 + radius * F64Math.cos angle) (center.2 + radius * F64Math.sin angle)
            (axes.startLinear + ofNat i * linearPerSegment))

/-! ### Commands -/

/-- The profile of a straight move from `prev` to `next`, where the move has a length. -/
def g1Profile (prev next : ModalState) : Option TrapezoidalProfile :=
  let dx := next.currentX - prev.currentX
  let dy := next.currentY - prev.currentY
  let dz := next.currentZ - prev.currentZ
  if ge (length3 dx dy dz) tolerance then
    some { dx, dy, dz, feedrate := next.feedrate, acceleration := next.acceleration, dt := F64Math.decimal 1 2,
           startX := prev.currentX, startY := prev.currentY, startZ := prev.currentZ }
  else none

/-- A straight move, as the generator of the motion crate gives it. -/
def emitLinear (prev next : ModalState) : Except Stop Output :=
  match g1Profile prev next with
  | none => .ok .empty
  | some profile =>
    match generateTrapezoidalProgram profile with
    | none => .error .panic
    | some program => .ok ⟨program.instructions, program.signals⟩

/-- `emit_motion`. Without a G word on the command the mode in force counts, but an arc and an unknown mode unwrap the
word. -/
def emitMotion (cmd : GCodeCommand) (state : ModalState) : Except Stop Output :=
  let next := state.advance cmd
  let mode := cmd.gCode.getD state.motionMode
  if mode = 0 then .ok (.code (emitG0 next))
  else if mode = 1 then emitLinear state next
  else
    match cmd.gCode with
    | none => .error .panic
    | some g =>
      if g = 2 ∨ g = 3 then (emitArc g state next cmd).map .code
      else .error (.unsupported ("G" ++ toString g))

/-- What is pushed for a command of an unknown kind: nothing, unless it has a G word or an M word. -/
def emitUnknown (cmd : GCodeCommand) : Except Stop Output :=
  match cmd.gCode, cmd.mCode with
  | some g, _ => .error (.unsupported ("G" ++ toString g))
  | none, some m => .error (.unsupported ("M" ++ toString m))
  | none, none => .ok .empty

/-- The dispatch in the loop of `compile_commands`. -/
def emit (cmd : GCodeCommand) (state : ModalState) : Except Stop Output :=
  match cmd.kind with
  | .motion => emitMotion cmd state
  | .spindle => .ok (.code (emitSpindle cmd))
  | .modal => .ok .empty
  | .programControl => .ok (.code (emitProgramControl cmd))
  | .unknown => emitUnknown cmd

def emitCommand (cmd : GCodeCommand) (state : ModalState) : Except Failure Output :=
  (emit cmd state).mapError (Stop.onLine cmd.line)

/-- The loop of `compile_commands`. -/
def compileFrom (state : ModalState) : List GCodeCommand → Except Failure Output
  | [] => .ok .empty
  | cmd :: rest => do
    let out ← emitCommand cmd state
    let more ← compileFrom (state.advance cmd) rest
    pure (out.append more)

omit [F64Math] in
/-- A signal is declared once. -/
def declare (signals : List SignalBinding) (name : String) (pinType : HalPinType) : List SignalBinding :=
  if signals.any (·.halSignalName == name) then signals
  else signals ++ [⟨name, name.map fun c => if c = '.' then '_' else c, .write, pinType⟩]

omit [F64Math] in
/-- `ensure_axis_signals`. -/
def ensureAxisSignals (signals : List SignalBinding) : List SignalBinding :=
  [("axis.0.pos", HalPinType.f64), ("axis.0.enable", .bool), ("axis.1.pos", .f64), ("axis.1.enable", .bool),
    ("axis.2.pos", .f64), ("axis.2.enable", .bool), ("spindle.rpm", .f64), ("spindle.cw", .bool),
    ("spindle.ccw", .bool)].foldl (fun signals s => declare signals s.1 s.2) signals

/-- What stands in front of the commands. -/
def prelude : Output :=
  ⟨[loadF64 regNull zero, loadF64 regUnit (ofNat 1)], ensureAxisSignals []⟩

/-- `compile_commands`. -/
def compileCommands (commands : List GCodeCommand) (initial : ModalState) : Except Failure HalProgram := do
  let out ← compileFrom initial commands
  let out := prelude.append out
  pure { name := "gcode_program", instructions := out.instructions, signals := out.signals, functionTable := [] }

/-- `gcode_compile`. -/
def gcodeCompile (source : String) : Except Failure HalProgram :=
  compileCommands (parseAll (tokenize source)) .new

omit [F64Math] in
/-- The modal state behind a list of commands. -/
def ModalState.after (state : ModalState) (commands : List GCodeCommand) : ModalState :=
  commands.foldl ModalState.advance state

/-- The program that the commands of a stream of tokens give, with the modal state at its end. -/
def compileTokens (tokens : List LexedToken) (initial : ModalState) : Except Failure (HalProgram × ModalState) :=
  (compileCommands (parseAll tokens) initial).map fun program => (program, initial.after (parseAll tokens))

/-! ## Lists of commands -/

section
omit [F64Math]

@[simp] theorem ModalState.after_cons (state : ModalState) (cmd : GCodeCommand) (commands : List GCodeCommand) :
    state.after (cmd :: commands) = (state.advance cmd).after commands := rfl

theorem ModalState.after_append (state : ModalState) (a b : List GCodeCommand) :
    state.after (a ++ b) = (state.after a).after b := List.foldl_append ..

namespace Output

theorem append_left_cancel {a b c : Output} (h : a.append b = a.append c) : b = c := by
  obtain ⟨is, ss⟩ := a
  obtain ⟨is₁, ss₁⟩ := b
  obtain ⟨is₂, ss₂⟩ := c
  rw [append, append, mk.injEq, List.append_right_inj, List.append_right_inj] at h
  rw [mk.injEq]
  exact h

theorem append_assoc (a b c : Output) : (a.append b).append c = a.append (b.append c) := by
  simp only [append, List.append_assoc]

@[simp] theorem append_empty (a : Output) : a.append empty = a := by
  simp only [append, empty, List.append_nil]

end Output

end

theorem emitCommand_ok {cmd : GCodeCommand} : emitCommand cmd state = .ok out ↔ emit cmd state = .ok out := by
  unfold emitCommand
  cases emit cmd state with
  | error e =>
    constructor
    · intro h
      cases h
    · intro h
      cases h
  | ok o =>
    constructor
    · intro h
      cases h
      rfl
    · intro h
      cases h
      rfl

/-- A command and what follows it. -/
theorem compileFrom_cons_ok {cmd : GCodeCommand} {rest : List GCodeCommand} :
    compileFrom state (cmd :: rest) = .ok out ↔
      ∃ first more, emit cmd state = .ok first ∧ compileFrom (state.advance cmd) rest = .ok more ∧
        out = first.append more := by
  rw [compileFrom]
  cases hfirst : emitCommand cmd state with
  | error e =>
    constructor
    · intro h
      cases h
    · rintro ⟨first, more, hemit, _, _⟩
      rw [emitCommand_ok.2 hemit] at hfirst
      cases hfirst
  | ok first =>
    rw [emitCommand_ok] at hfirst
    cases hmore : compileFrom (state.advance cmd) rest with
    | error e =>
      constructor
      · intro h
        cases h
      · rintro ⟨_, more, _, h, _⟩
        cases h
    | ok more =>
      constructor
      · intro h
        cases h
        exact ⟨first, more, hfirst, rfl, rfl⟩
      · rintro ⟨first', more', hfirst', hmore', rfl⟩
        rw [hfirst] at hfirst'
        cases hfirst'
        cases hmore'
        rfl

/-- **Commands in two parts.** The code of a list is the code of its parts, the second compiled in the state behind the
first. -/
theorem compileFrom_append_ok {a b : List GCodeCommand} : compileFrom state (a ++ b) = .ok out ↔
      ∃ first more, compileFrom state a = .ok first ∧ compileFrom (state.after a) b = .ok more ∧
        out = first.append more := by
  induction a generalizing state out with
  | nil =>
    constructor
    · intro h
      exact ⟨.empty, out, rfl, h, rfl⟩
    · rintro ⟨first, more, hfirst, hmore, rfl⟩
      cases hfirst
      exact hmore
  | cons cmd a ih =>
    rw [List.cons_append, compileFrom_cons_ok]
    constructor
    · rintro ⟨first, more, hfirst, hmore, rfl⟩
      obtain ⟨m₁, m₂, h₁, h₂, rfl⟩ := ih.1 hmore
      exact ⟨first.append m₁, m₂, compileFrom_cons_ok.2 ⟨first, m₁, hfirst, h₁, rfl⟩, h₂, (first.append_assoc ..).symm⟩
    · rintro ⟨first, more, hfirst, hmore, rfl⟩
      obtain ⟨f₁, f₂, h₁, h₂, rfl⟩ := compileFrom_cons_ok.1 hfirst
      exact ⟨f₁, f₂.append more, h₁, ih.2 ⟨f₂, more, h₂, hmore, rfl⟩, f₁.append_assoc ..⟩

/-- What comes behind a list of commands counts only in the state behind them. -/
theorem compileFrom_congr {a b b' : List GCodeCommand}
    (h : compileFrom (state.after a) b = compileFrom (state.after a) b') :
    compileFrom state (a ++ b) = compileFrom state (a ++ b') := by
  induction a generalizing state with
  | nil => exact h
  | cons cmd a ih =>
    rw [List.cons_append, List.cons_append, compileFrom, compileFrom, ih h]

theorem compileTokens_ok {tokens : List LexedToken} {initial final : ModalState} {program : HalProgram} :
    compileTokens tokens initial = .ok (program, final) ↔
      compileCommands (parseAll tokens) initial = .ok program ∧ final = initial.after (parseAll tokens) := by
  unfold compileTokens
  cases compileCommands (parseAll tokens) initial with
  | error e =>
    constructor
    · intro h
      cases h
    · rintro ⟨h, _⟩
      cases h
  | ok p =>
    constructor
    · intro h
      cases h
      exact ⟨rfl, rfl⟩
    · rintro ⟨h, rfl⟩
      cases h
      rfl

theorem compileCommands_ok {commands : List GCodeCommand} {initial : ModalState} {program : HalProgram} :
    compileCommands commands initial = .ok program ↔
      ∃ out, compileFrom initial commands = .ok out ∧
        program = ⟨"gcode_program", (prelude.append out).signals, (prelude.append out).instructions, []⟩ := by
  unfold compileCommands
  cases compileFrom initial commands with
  | error e =>
    constructor
    · intro h
      cases h
    · rintro ⟨_, h, _⟩
      cases h
  | ok out =>
    constructor
    · intro h
      cases h
      exact ⟨out, rfl, rfl⟩
    · rintro ⟨out', h, rfl⟩
      cases h
      rfl

omit [Target] [F64Math] in
theorem exists_of_isOk {ε α : Type} {x : Except ε α} (h : x.isOk = true) : ∃ a, x = .ok a := by
  cases x with
  | error e => cases h
  | ok a => exact ⟨a, rfl⟩

end Audesys.Gcode
