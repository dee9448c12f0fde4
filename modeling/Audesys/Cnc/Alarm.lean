import Mathlib.Data.List.Basic
import Audesys.Cnc.Emit

/-!
# `Cnc.Alarm` — the alarm program

`alarm.rs` collects the fault signals of all axes in one register: for each of them, a skip around setting it. The skips
do not skip (`Cnc.Emit`), so the register is set as soon as the group has an axis, and the alarm is raised for good
(`effect_alarmState`). The state that is there is loaded and not looked at, so an emergency stop is replaced as well
(`aggregates_iff`).
-/

namespace Audesys.Cnc

open Audesys.Hal Audesys.Lib

variable [Target] [F64Literals]

/-! ## Alarm states -/

def alarmNormal : UInt8 := 0
def alarmWarning : UInt8 := 1
def alarmEstop : UInt8 := 3

namespace Alarm

/-! ## The generator -/

def rAnyFault : UInt8 := 0
def rState : UInt8 := 1
def rNewState : UInt8 := 2
def rScratch : UInt8 := 3
def rZero : UInt8 := 4
def rOne : UInt8 := 5

/-- `cmp_ne_imm` of the alarm generator: the scratch register is borrowed, also where it is the one to compare. -/
abbrev cmpNeImm (reg : UInt8) (imm : Target.F64) (dst : UInt8) : Emit Unit := Cnc.cmpNeImm reg imm dst rScratch rZero
abbrev emitJumpIfNot (condReg : UInt8) : Emit Nat := skipIfNot condReg rState

/-- Load a fault signal and note it where it is not zero. -/
def emitFault (name : String) : Emit Unit := do
  loadSignal rScratch name
  cmpNeImm rScratch f0 rScratch
  let skip ← emitJumpIfNot rScratch
  loadF64 rAnyFault f1
  patchJump skip (← len)

def emitAxis (pfx : String) : Emit Unit := do
  emitFault (signal pfx "pos_fault")
  emitFault (signal pfx "vel_fault")

/-- Write `any_fault`, and the new state, which is `any_fault` too. -/
def emitState (name : String) : Emit Unit := do
  storeSignal (signal name "any_fault") rAnyFault
  loadSignal rState (signal name "alarm_state")
  copyReg rAnyFault rNewState rZero
  storeSignal (signal name "alarm_state") rNewState

def axisBindings (pfx : String) : List SignalBinding :=
  [axisBinding pfx "pos_fault" .read .bool, axisBinding pfx "vel_fault" .read .bool]

end Alarm

open Alarm

/-- `generate_alarm_program`. -/
def generateAlarmProgram (cfg : AxisGroupConfig) : HalProgram where
  name := "alarm_" ++ cfg.name
  signals :=
    [⟨signal cfg.name "alarm_state", "alarm_state", .readWrite, .u8⟩,
      ⟨signal cfg.name "any_fault", "any_fault", .write, .bool⟩] ++
    cfg.axes.flatMap fun axis => axisBindings (cfg.signalPrefix axis.index)
  instructions := emitted do
    emitConstants rZero rOne
    loadF64 rAnyFault f0
    cfg.axes.forM fun axis => emitAxis (cfg.signalPrefix axis.index)
    emitState cfg.name
    push .halt
  functionTable := []

namespace Alarm

/-! ## What a scan does -/

/-- The constants, and what has been noted of the faults. -/
def noted (x : Target.F64) : List (UInt8 × HalValue) := [(rZero, .f64 f0), (rOne, .f64 f1), (rAnyFault, .f64 x)]

theorem noted_of {st : SymState} {x : Target.F64} (hzero : st.regs rZero = some (.value (.f64 f0)))
    (hone : st.regs rOne = some (.value (.f64 f1))) (hx : st.regs rAnyFault = some (.value (.f64 x))) :
    ∀ p ∈ noted x, st.regs p.1 = some (.value p.2) := by
  intro p hp
  rcases List.mem_cons.1 hp with rfl | hp
  · exact hzero
  · rcases List.mem_cons.1 hp with rfl | hp
    · exact hone
    · rw [List.mem_singleton.1 hp]
      exact hx

/-- What the program starts with. -/
def startCode : List Instruction :=
  [.loadImm rZero (.f64 f0), .loadImm rOne (.f64 f1), .loadImm rAnyFault (.f64 f0)]

theorem straight_startCode : Straight startCode (Holds []) (Holds (noted f0)) (fun σ => σ) :=
  Straight.ofRun ⟨_, []⟩ rfl (noted_of rfl rfl rfl)

/-- The code of an axis notes a fault. -/
theorem exists_axisCode (pfx : String) :
    ∃ l, Emits (emitAxis pfx) l ∧ ∀ x, Straight l (Holds (noted x)) (Holds (noted f1)) (fun σ => σ) := by
  apply Exists.intro
  refine ⟨?emits, ?straight⟩
  case emits =>
    unfold emitAxis emitFault
    repeat' with_reducible first
      | infer_instance
      | apply Emits.bind
      | intro _
  case straight =>
    intro x
    exact Straight.ofRun ⟨_, []⟩ rfl (noted_of rfl rfl rfl)

/-- The two stores of the program. -/
def stateStores (name : String) (x : Target.F64) : List (String × Sym) :=
  [(signal name "any_fault", .value (.f64 x)),
    (signal name "alarm_state", .add (.value (.f64 x)) (.value (.f64 f0)))]

theorem exists_stateCode (name : String) :
    ∃ l, Emits (emitState name) l ∧
      ∀ x, Straight l (Holds (noted x)) (Holds []) (fun σ => applyStores σ (stateStores name x)) := by
  apply Exists.intro
  refine ⟨?emits, ?straight⟩
  case emits =>
    unfold emitState
    repeat' with_reducible first
      | infer_instance
      | apply Emits.bind
      | intro _
  case straight =>
    intro x
    refine Straight.ofRun ⟨_, stateStores name x⟩ rfl ?_
    intro p hp
    cases hp

/-- What has been noted behind the axes. -/
def anyFault (cfg : AxisGroupConfig) : Target.F64 := if cfg.axes.isEmpty then f0 else f1

/-- The blocks of the axes. -/
theorem straight_axes (code : AxisConfig → List Instruction)
    (h : ∀ axis x, Straight (code axis) (Holds (noted x)) (Holds (noted f1)) (fun σ => σ)) (axes : List AxisConfig) :
    Straight (axes.flatMap code) (Holds (noted f0)) (Holds (noted (if axes.isEmpty then f0 else f1))) (fun σ => σ) := by
  cases axes with
  | nil => exact .nil
  | cons axis rest =>
    have hrest : Straight (rest.flatMap code) (Holds (noted f1)) (Holds (noted f1)) _ :=
      .flatMap fun axis _ => h axis f1
    have hboth := (h axis f0).append hrest
    rw [List.flatMap_cons]
    show Straight _ _ (Holds (noted f1)) _
    simpa only [List.foldl_fixed] using hboth

/-- The alarm program, as a function of the signal table. -/
def effect (cfg : AxisGroupConfig) (σ : SignalTable) : SignalTable :=
  applyStores σ (stateStores cfg.name (anyFault cfg))

theorem exists_code (cfg : AxisGroupConfig) :
    ∃ l, (generateAlarmProgram cfg).instructions.map Instruction.blind = l ++ [.halt] ∧
      Straight l (Holds []) (Holds []) (effect cfg) := by
  choose code hcode using fun axis : AxisConfig => exists_axisCode (cfg.signalPrefix axis.index)
  obtain ⟨last, hlast, hstate⟩ := exists_stateCode cfg.name
  refine ⟨startCode ++ (cfg.axes.flatMap code ++ last), ?_,
    straight_startCode.append ((straight_axes code (fun axis => (hcode axis).2) cfg.axes).append (hstate _))⟩
  have hemits : Emits (do
      emitConstants rZero rOne
      loadF64 rAnyFault f0
      cfg.axes.forM fun axis => emitAxis (cfg.signalPrefix axis.index)
      emitState cfg.name
      push .halt) _ :=
    Emits.bind emits_emitConstants fun _ => Emits.bind (.loadF64 ..) fun _ =>
      Emits.bind (.forM fun axis => (hcode axis).1) fun _ => Emits.bind hlast fun _ => .push _
  simp only [List.append_assoc]
  exact hemits.emitted

/-- Every scan of the alarm program ends. -/
theorem scans (cfg : AxisGroupConfig) (σ : SignalTable) : Scans (generateAlarmProgram cfg) σ (effect cfg σ) := by
  obtain ⟨l, hcode, hstraight⟩ := exists_code cfg
  exact hstraight.scans hcode σ

/-! ## The alarm -/

theorem effect_anyFault (cfg : AxisGroupConfig) (σ : SignalTable) :
    effect cfg σ (signal cfg.name "any_fault") = some (.f64 (anyFault cfg)) := by
  show applyStores σ ([(signal cfg.name "any_fault", _)] ++ [(signal cfg.name "alarm_state", _)]) _ = _
  rw [applyStores_snoc, SignalTable.write_ne]
  · exact SignalTable.write_self _ _ _
  · exact signal_ne (by decide) (by decide) (by decide)

theorem effect_alarmState (hlaws : LiteralLaws) (cfg : AxisGroupConfig) (σ : SignalTable) :
    effect cfg σ (signal cfg.name "alarm_state") = some (.f64 (anyFault cfg)) := by
  have hcopy : FloatFormat.add (anyFault cfg) f0 = anyFault cfg := by
    unfold anyFault
    split
    · exact hlaws.zero_add_zero
    · exact hlaws.one_add_zero
  show applyStores σ ([(signal cfg.name "any_fault", _)] ++ [(signal cfg.name "alarm_state", _)]) _ = _
  rw [applyStores_snoc, SignalTable.write_self]
  show some (HalValue.f64 (FloatFormat.add (anyFault cfg) f0)) = _
  rw [hcopy]

/-- A state as the bindings have it, or as a double. -/
def IsState (state : UInt8) (v : HalValue) : Prop := v = .u8 state ∨ v = .f64 (F64Literals.ofU8 state)

/-- Some axis has a fault. -/
def Faulty (cfg : AxisGroupConfig) (σ : SignalTable) : Prop :=
  ∃ axis ∈ cfg.axes, isSet (σ.read (signal (cfg.signalPrefix axis.index) "pos_fault")) = true ∨
    isSet (σ.read (signal (cfg.signalPrefix axis.index) "vel_fault")) = true

/-- What the alarm asks for: the flag tells whether some axis has a fault, and so does the state, where it is no
emergency stop. -/
def Aggregates (cfg : AxisGroupConfig) (σ σ' : SignalTable) : Prop :=
  (isSet (σ'.read (signal cfg.name "any_fault")) = true ↔ Faulty cfg σ) ∧
    (IsState alarmEstop (σ.read (signal cfg.name "alarm_state")) →
      σ' (signal cfg.name "alarm_state") = σ (signal cfg.name "alarm_state")) ∧
    (¬ IsState alarmEstop (σ.read (signal cfg.name "alarm_state")) →
      (Faulty cfg σ → IsState alarmWarning (σ'.read (signal cfg.name "alarm_state"))) ∧
        (¬ Faulty cfg σ → IsState alarmNormal (σ'.read (signal cfg.name "alarm_state"))))

theorem isSet_anyFault (hlaws : LiteralLaws) (cfg : AxisGroupConfig) :
    isSet (.f64 (anyFault cfg)) = true ↔ cfg.axes ≠ [] := by
  have hne : (f1 : Target.F64) ≠ f0 := by
    rw [← hlaws.ofU8_one, ← hlaws.ofU8_zero]
    intro h
    exact absurd (hlaws.ofU8_inj _ _ h) (by decide)
  unfold anyFault isSet
  cases cfg.axes with
  | nil => simp
  | cons axis rest => simpa using hne

/-- The double that is written is no emergency stop. -/
theorem anyFault_ne_estop (hlaws : LiteralLaws) (cfg : AxisGroupConfig) :
    ¬ IsState alarmEstop (.f64 (anyFault cfg)) := by
  have hcases : ∃ state : UInt8, state ≠ alarmEstop ∧ anyFault cfg = F64Literals.ofU8 state := by
    unfold anyFault
    split
    · exact ⟨0, by decide, hlaws.ofU8_zero.symm⟩
    · exact ⟨1, by decide, hlaws.ofU8_one.symm⟩
  obtain ⟨state, hne, heq⟩ := hcases
  rintro (h | h)
  · cases h
  · rw [heq, HalValue.f64.injEq] at h
    exact hne (hlaws.ofU8_inj _ _ h)

theorem effect_aggregates_iff (hlaws : LiteralLaws) (cfg : AxisGroupConfig) (σ : SignalTable) :
    Aggregates cfg σ (effect cfg σ) ↔
      (cfg.axes = [] ∨ Faulty cfg σ) ∧ ¬ IsState alarmEstop (σ.read (signal cfg.name "alarm_state")) := by
  have hstate := effect_alarmState hlaws cfg σ
  unfold Aggregates
  rw [SignalTable.read_of_eq (effect_anyFault cfg σ), SignalTable.read_of_eq hstate, hstate, isSet_anyFault hlaws]
  have hnone : cfg.axes = [] → ¬ Faulty cfg σ := by
    rintro hnil ⟨axis, haxis, _⟩
    rw [hnil] at haxis
    cases haxis
  constructor
  · rintro ⟨hflag, hestop, _⟩
    refine ⟨?_, ?_⟩
    · by_cases hnil : cfg.axes = []
      · exact .inl hnil
      · exact .inr (hflag.1 hnil)
    · intro hstop
      have hkept := hestop hstop
      rw [SignalTable.read_of_eq hkept.symm] at hstop
      exact anyFault_ne_estop hlaws cfg hstop
  · rintro ⟨hcond, hstop⟩
    have hflag : cfg.axes ≠ [] ↔ Faulty cfg σ := by
      constructor
      · exact hcond.resolve_left
      · intro hfaulty hnil
        exact hnone hnil hfaulty
    refine ⟨hflag, fun h => absurd h hstop, fun _ => ⟨?_, ?_⟩⟩
    · intro hfaulty
      have hany : anyFault cfg = f1 := if_neg (by simpa using hflag.2 hfaulty)
      rw [hany, ← hlaws.ofU8_one]
      exact .inr rfl
    · intro hfaulty
      have hany : anyFault cfg = f0 := if_pos (by simpa using mt hflag.1 hfaulty)
      rw [hany, ← hlaws.ofU8_zero]
      exact .inr rfl

/-- **Alarm.** The program aggregates the faults exactly when the group has no axis or some axis has a fault, and the state
is no emergency stop. -/
theorem aggregates_iff (hlaws : LiteralLaws) (cfg : AxisGroupConfig) (σ : SignalTable) :
    (∃ σ', Scans (generateAlarmProgram cfg) σ σ' ∧ Aggregates cfg σ σ') ↔
      (cfg.axes = [] ∨ Faulty cfg σ) ∧ ¬ IsState alarmEstop (σ.read (signal cfg.name "alarm_state")) := by
  rw [← effect_aggregates_iff hlaws]
  constructor
  · rintro ⟨σ', hscan, h⟩
    rwa [hscan.det (scans cfg σ)] at h
  · intro h
    exact ⟨_, scans cfg σ, h⟩

end Alarm

end Audesys.Cnc

/-! ## A group without faults -/

namespace Audesys.Cnc.Alarm

open Audesys.Hal

local instance wholeAlarm : Target := whole
local instance wholeAlarmLiterals : F64Literals := wholeLiterals

/-- One axis. -/
def alarmGroup : AxisGroupConfig where
  name := "group.0"
  axes := [{
    index := 0
    softLimitMin := (0 : Int)
    softLimitMax := (1000 : Int)
    softLimitEnable := true
    backlashDistance := (0 : Int)
    backlashEnable := false
    homeSearchVel := (50 : Int)
    homeLatchVel := (5 : Int)
    homeOffset := (0 : Int)
    homeDirection := .negative }]

/-- The fault signals of the axis are `b`. -/
def faultTable (b : Bool) : SignalTable := fun name =>
  if name = "group.0.alarm_state" then some (.u8 alarmNormal) else some (.bool b)

/-- Without a fault the alarm is raised. -/
theorem quietGroup_alarmed :
    ¬ ∃ σ', Scans (generateAlarmProgram alarmGroup) (faultTable false) σ' ∧
      Aggregates alarmGroup (faultTable false) σ' := by
  rintro ⟨σ', hscan, h⟩
  rw [hscan.det (scans _ _), effect_aggregates_iff literalLaws_whole] at h
  rcases h.1 with hnil | ⟨axis, haxis, hfault⟩
  · cases hnil
  · rw [List.mem_singleton.1 haxis] at hfault
    revert hfault
    decide

theorem aggregates_faulty :
    (∃ σ', Scans (generateAlarmProgram alarmGroup) (faultTable true) σ' ∧
      Aggregates alarmGroup (faultTable true) σ') ↔
      (alarmGroup.axes = [] ∨ Faulty alarmGroup (faultTable true)) ∧
        ¬ IsState alarmEstop ((faultTable true).read (signal alarmGroup.name "alarm_state")) :=
  aggregates_iff literalLaws_whole alarmGroup (faultTable true)

end Audesys.Cnc.Alarm
