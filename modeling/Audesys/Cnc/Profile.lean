import Audesys.Hal.F64
import Audesys.Hal.Vm

/-!
# `Cnc.Profile` — the trapezoidal velocity profile of a straight move

The generator of the motion crate (`profile.rs`). A move accelerates, cruises and decelerates, each phase a loop of its
own; a move too short to cruise accelerates and decelerates in one loop with a switch in it. The addresses of the loops
are indices into the list the generator writes.
-/

namespace Audesys.Cnc.Motion

open Audesys.Hal Audesys.Hal.F64

def regCounter : UInt8 := 0
def regPosX : UInt8 := 1
def regPosY : UInt8 := 2
def regPosZ : UInt8 := 3
def regZero : UInt8 := 4
def regOne : UInt8 := 5
def regVel : UInt8 := 6
def regVstep : UInt8 := 7
def regTstep : UInt8 := 8
def regRatio : UInt8 := 9
def regAxisStep : UInt8 := 10
def regDt : UInt8 := 11

variable [Target] [F64Math]

structure TrapezoidalProfile where
  dx : Target.F64
  dy : Target.F64
  dz : Target.F64
  feedrate : Target.F64
  acceleration : Target.F64
  dt : Target.F64
  startX : Target.F64
  startY : Target.F64
  startZ : Target.F64

/-- `1e-9`: what is shorter is no move. -/
def tolerance : Target.F64 := F64Math.decimal 1 9

/-- The length of a move. -/
def length3 (dx dy dz : Target.F64) : Target.F64 := F64Math.sqrt (dx * dx + dy * dy + dz * dz)

namespace TrapezoidalProfile

variable (p : TrapezoidalProfile)

def distance : Target.F64 := length3 p.dx p.dy p.dz

/-- `if profile.dy.abs() > 1e-9`. -/
def movesY : Bool := gt (F64Math.abs p.dy) tolerance
def movesZ : Bool := gt (F64Math.abs p.dz) tolerance

def vTarget : Target.F64 := (if gt p.feedrate zero then p.feedrate else ofNat 100) / ofNat 60
def tAccel : Target.F64 := p.vTarget / p.acceleration
def cyclesAccel : UInt32 := F64Math.toU32 (F64Math.ceil (p.tAccel / p.dt))
def distAccel : Target.F64 := F64Math.decimal 5 1 * p.acceleration * p.tAccel * p.tAccel
def distCruise : Target.F64 := p.distance - ofNat 2 * p.distAccel
def cyclesCruise : UInt32 := F64Math.toU32 (F64Math.ceil (p.distCruise / p.vTarget / p.dt))
def vPeak : Target.F64 := F64Math.sqrt (p.distance * p.acceleration)
def cyclesHalf : UInt32 :=
  F64Math.toU32 (F64Math.max (F64Math.ceil (p.vPeak / p.acceleration / p.dt)) (ofNat 1))

end TrapezoidalProfile

/-! ## Emitters -/

def loadF64 (reg : UInt8) (x : Target.F64) : Instruction := .loadImm reg (.f64 x)

/-- `emit_axis_step`: `pos += tstep * ratio`, and the store. -/
def emitAxisStep (ratio : Target.F64) (posReg : UInt8) (signal : String) : List Instruction :=
  [loadF64 regRatio ratio, .arith .mul regTstep regRatio regAxisStep, .arith .add posReg regAxisStep posReg,
    ⟨.store, [.signalName signal, .register posReg]⟩]

/-- The steps of the axes that move; the first axis always does. -/
def axisSteps (p : TrapezoidalProfile) : List Instruction :=
  emitAxisStep (p.dx / p.distance) regPosX "axis.0.pos" ++
    (if p.movesY then emitAxisStep (p.dy / p.distance) regPosY "axis.1.pos" else []) ++
    (if p.movesZ then emitAxisStep (p.dz / p.distance) regPosZ "axis.2.pos" else [])

/-- The start positions of the second and the third axis. -/
def loadStartYZ (p : TrapezoidalProfile) : List Instruction :=
  (if p.movesY then [loadF64 regPosY p.startY] else []) ++ (if p.movesZ then [loadF64 regPosZ p.startZ] else [])

/-- One pass of a loop ends: count down, and go back to the start of the loop. -/
def loopEnd (loopStart : UInt32) : List Instruction :=
  [.arith .sub regCounter regOne regCounter, .cmp .gt regCounter regZero, .jumpIf loopStart]

/-- `emit_profile_phase`. -/
def emitProfilePhase (instructions : List Instruction) (p : TrapezoidalProfile) (phaseCycles : UInt32)
    (isAccel isDecel : Bool) : List Instruction :=
  if phaseCycles = 0 then instructions
  else
    let instructions := instructions ++ [loadF64 regVstep (p.acceleration * p.dt),
      loadF64 regVel (if isAccel then zero else p.vTarget), loadF64 regCounter (ofNat phaseCycles.toNat)]
    let loopStart := UInt32.ofNat instructions.length
    instructions ++ [.arith .mul regVel regDt regTstep] ++ axisSteps p ++
      (if isAccel then [.arith .add regVel regVstep regVel]
        else if isDecel then [.arith .sub regVel regVstep regVel]
        else []) ++
      loopEnd loopStart

/-- `emit_triangular_motion`. Doubling the cycles overflows for a move of more than `2³¹` cycles. -/
def emitTriangularMotion (p : TrapezoidalProfile) (cyclesHalf : UInt32) (instructions : List Instruction) :
    Option (List Instruction) := do
  let instructions := instructions ++ loadStartYZ p
  let total ← MachineInt.mul cyclesHalf 2
  let instructions := instructions ++ [loadF64 regCounter (ofNat total.toNat),
    loadF64 regRatio (ofNat cyclesHalf.toNat)]
  let loopStart := UInt32.ofNat instructions.length
  let instructions := instructions ++ [.arith .mul regVel regDt regTstep] ++ axisSteps p ++
    [.cmp .gt regCounter regRatio]
  -- two placeholders, patched once the second branch has its index
  let jifIdx := instructions.length
  let instructions := instructions ++ [⟨.nop, []⟩, .arith .add regVel regVstep regVel]
  let jumpIdx := instructions.length
  let instructions := instructions ++ [⟨.nop, []⟩]
  let decelStart := UInt32.ofNat instructions.length
  let instructions := instructions ++ [.arith .sub regVel regVstep regVel]
  let instructions := (instructions.set jifIdx (.jumpIf decelStart)).set jumpIdx (.jump (decelStart + 1))
  some (instructions ++ loopEnd loopStart)

/-- `emit_g1`. -/
def emitG1 (p : TrapezoidalProfile) (instructions : List Instruction) : Option (List Instruction) :=
  if lt p.distance tolerance then some instructions
  else if gt p.distCruise zero then
    let instructions := instructions ++ [loadF64 regPosX p.startX] ++ loadStartYZ p
    let instructions := emitProfilePhase instructions p p.cyclesAccel true false
    let instructions := emitProfilePhase instructions p p.cyclesCruise false false
    some (emitProfilePhase instructions p p.cyclesAccel false true)
  else
    emitTriangularMotion p p.cyclesHalf (instructions ++ [loadF64 regVel zero,
      loadF64 regVstep (p.vPeak / ofNat p.cyclesHalf.toNat), loadF64 regPosX p.startX])

/-- `signal_binding`. -/
def signalBinding (name signal : String) : SignalBinding := ⟨signal, name, .write, .f64⟩

/-- `generate_trapezoidal_program`. -/
def generateTrapezoidalProgram (p : TrapezoidalProfile) : Option HalProgram := do
  let instructions ← emitG1 p [loadF64 regDt p.dt, loadF64 regZero zero, loadF64 regOne (ofNat 1)]
  some { name := "trapezoidal_motion"
         signals := [signalBinding "axis.0.pos" "axis.0.pos", signalBinding "axis.1.pos" "axis.1.pos",
           signalBinding "axis.2.pos" "axis.2.pos"]
         instructions, functionTable := [] }

/-- The program of a move declares the position signals. -/
theorem signals_ne_nil {p : TrapezoidalProfile} {program : HalProgram}
    (h : generateTrapezoidalProgram p = some program) : program.signals ≠ [] := by
  unfold generateTrapezoidalProgram at h
  simp [Option.bind_eq_some_iff] at h
  obtain ⟨_, _, rfl⟩ := h
  exact List.cons_ne_nil _ _

/-! ## Loops -/

/-- The move goes on for a cycle at least: it has a length, and where it cruises not both of its ramps and its cruise
round to no cycle. -/
def TrapezoidalProfile.HasCycles (p : TrapezoidalProfile) : Prop :=
  lt p.distance tolerance = false ∧ (gt p.distCruise zero = true → p.cyclesAccel ≠ 0 ∨ p.cyclesCruise ≠ 0)

instance (p : TrapezoidalProfile) : Decidable p.HasCycles := inferInstanceAs (Decidable (_ ∧ _))

omit [F64Math] in
/-- A loop ends in the jump back. -/
theorem jumpIf_mem_loopEnd (loopStart : UInt32) : Instruction.jumpIf loopStart ∈ loopEnd loopStart :=
  List.mem_cons_of_mem _ (List.mem_cons_of_mem _ (List.mem_cons_self ..))

/-- A phase without cycles writes nothing. -/
theorem emitProfilePhase_zero (is : List Instruction) (p : TrapezoidalProfile) (isAccel isDecel : Bool) :
    emitProfilePhase is p 0 isAccel isDecel = is := if_pos rfl

/-- A phase keeps what is there. -/
theorem mem_emitProfilePhase {is : List Instruction} {inst : Instruction} (p : TrapezoidalProfile) (n : UInt32)
    (isAccel isDecel : Bool) (h : inst ∈ is) : inst ∈ emitProfilePhase is p n isAccel isDecel := by
  unfold emitProfilePhase
  split
  · exact h
  · simp only [List.mem_append]
    exact Or.inl (Or.inl (Or.inl (Or.inl (Or.inl h))))

/-- A phase with cycles is a loop. -/
theorem exists_jumpIf_emitProfilePhase (is : List Instruction) (p : TrapezoidalProfile) {n : UInt32} (hn : n ≠ 0)
    (isAccel isDecel : Bool) : ∃ t, Instruction.jumpIf t ∈ emitProfilePhase is p n isAccel isDecel := by
  unfold emitProfilePhase
  rw [if_neg hn]
  exact ⟨_, List.mem_append_right _ (jumpIf_mem_loopEnd _)⟩

/-- **A move with cycles has a loop.** -/
theorem exists_jumpIf {p : TrapezoidalProfile} (h : p.HasCycles) {program : HalProgram}
    (hprogram : generateTrapezoidalProgram p = some program) : ∃ t, Instruction.jumpIf t ∈ program.instructions := by
  obtain ⟨hlength, hcycles⟩ := h
  unfold generateTrapezoidalProgram emitG1 at hprogram
  simp [hlength, Option.bind_eq_some_iff] at hprogram
  obtain ⟨is, his, rfl⟩ := hprogram
  by_cases hcruise : gt p.distCruise zero = true
  · rw [if_pos hcruise, Option.some.injEq] at his
    subst his
    rcases hcycles hcruise with haccel | hconst
    · exact exists_jumpIf_emitProfilePhase _ p haccel _ _
    · obtain ⟨t, ht⟩ := exists_jumpIf_emitProfilePhase _ p hconst _ _
      exact ⟨t, mem_emitProfilePhase p _ _ _ ht⟩
  · rw [if_neg hcruise] at his
    unfold emitTriangularMotion at his
    simp only [Option.bind_eq_bind, Option.bind_eq_some_iff, Option.some.injEq] at his
    obtain ⟨total, -, rfl⟩ := his
    exact ⟨_, List.mem_append_right _ (jumpIf_mem_loopEnd _)⟩

theorem mem_loadStartYZ {p : TrapezoidalProfile} {inst : Instruction} (h : inst ∈ loadStartYZ p) :
    ∃ reg x, inst = loadF64 reg x ∧ reg.toNat < registerCount := by
  unfold loadStartYZ at h
  rcases List.mem_append.1 h with h | h
  · split at h
    · exact ⟨_, _, List.mem_singleton.1 h, by decide⟩
    · cases h
  · split at h
    · exact ⟨_, _, List.mem_singleton.1 h, by decide⟩
    · cases h

/-- A move without cycles loads constants and no more. -/
theorem loadF64_of_not_hasCycles {p : TrapezoidalProfile} (h : ¬ p.HasCycles) {program : HalProgram}
    (hprogram : generateTrapezoidalProgram p = some program) {inst : Instruction}
    (hmem : inst ∈ program.instructions) : ∃ reg x, inst = loadF64 reg x ∧ reg.toNat < registerCount := by
  have hthree : ∀ inst ∈ [loadF64 regDt p.dt, loadF64 regZero zero, loadF64 regOne (ofNat 1)],
      ∃ reg x, inst = loadF64 reg x ∧ reg.toNat < registerCount := by
    simp only [List.mem_cons, List.not_mem_nil, or_false]
    rintro inst (rfl | rfl | rfl) <;> exact ⟨_, _, rfl, by decide⟩
  unfold generateTrapezoidalProgram at hprogram
  simp [Option.bind_eq_some_iff] at hprogram
  obtain ⟨is, his, rfl⟩ := hprogram
  unfold emitG1 at his
  by_cases hlength : lt p.distance tolerance = true
  · rw [if_pos hlength, Option.some.injEq] at his
    subst his
    exact hthree inst hmem
  · rw [if_neg hlength] at his
    by_cases hcruise : gt p.distCruise zero = true ∧ p.cyclesAccel = 0 ∧ p.cyclesCruise = 0
    · obtain ⟨hlong, haccel, hconst⟩ := hcruise
      rw [if_pos hlong, haccel, hconst] at his
      simp only [emitProfilePhase_zero, Option.some.injEq] at his
      subst his
      rcases List.mem_append.1 hmem with hmem | hmem
      · rcases List.mem_append.1 hmem with hmem | hmem
        · exact hthree inst hmem
        · exact ⟨_, _, List.mem_singleton.1 hmem, by decide⟩
      · exact mem_loadStartYZ hmem
    · refine absurd ?_ h
      refine ⟨Bool.eq_false_iff.2 hlength, ?_⟩
      intro hlong
      by_cases haccel : p.cyclesAccel = 0
      · exact Or.inr fun hconst => hcruise ⟨hlong, haccel, hconst⟩
      · exact Or.inl haccel

end Audesys.Cnc.Motion
