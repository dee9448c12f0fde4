import Audesys.Cnc.Emit

/-!
# `Cnc.Limits` — the soft-limit program

`limits.rs` emits three skips for an axis: around everything where the axis is not homed, and around each clamp where
its bound is kept. None of them skips (`Cnc.Emit`). So both clamps are done, homed or not, and the second one copies a
register that its own skip has borrowed: every axis with soft limits gets the position zero and a fault
(`effect_signals`). That is what the limits ask for on few tables only (`clampsHomed_iff`).
-/

namespace Audesys.Cnc

open Audesys.Hal Audesys.Lib

/-- Outside of the limits and clamped to `z`. -/
theorem clamp_outside_iff {α : Type} [LinearOrder α] {lo hi p z : α} (hle : lo ≤ hi) :
    z = max lo (min hi p) ∧ (p < lo ∨ hi < p) ↔ p < lo ∧ lo = z ∨ hi < p ∧ hi = z := by
  constructor
  · rintro ⟨hz, hlow | hhigh⟩
    · rw [min_eq_right (hlow.le.trans hle), max_eq_left hlow.le] at hz
      exact .inl ⟨hlow, hz.symm⟩
    · rw [min_eq_left hhigh.le, max_eq_right hle] at hz
      exact .inr ⟨hhigh, hz.symm⟩
  · rintro (⟨hlow, rfl⟩ | ⟨hhigh, rfl⟩)
    · exact ⟨by rw [min_eq_right (hlow.le.trans hle), max_eq_left hlow.le], .inl hlow⟩
    · exact ⟨by rw [min_eq_left hhigh.le, max_eq_right hle], .inr hhigh⟩

variable [Target] [F64Literals]

namespace Limits

/-! ## The generator -/

def rPos : UInt8 := 0
def rHomed : UInt8 := 1
def rMin : UInt8 := 2
def rMax : UInt8 := 3
def rFault : UInt8 := 4
def rScratch : UInt8 := 5
def rZero : UInt8 := 6
def rOne : UInt8 := 7

abbrev cmpLt (a b dst : UInt8) : Emit Unit := cmpReg .lt a b dst rZero
abbrev cmpGt (a b dst : UInt8) : Emit Unit := cmpReg .gt a b dst rZero
abbrev emitJumpIfNot (condReg : UInt8) : Emit Nat := skipIfNot condReg rMax

/-- The check of one axis. -/
def emitAxis (pfx : String) (axis : AxisConfig) : Emit Unit := do
  loadSignal rPos (signal pfx "pos_cmd")
  loadSignal rHomed (signal pfx "homed")
  -- not homed: skip the checks
  copyReg rHomed rScratch rZero
  cmpEqImm rScratch f1 rMax
  let skipIdx ← emitJumpIfNot rScratch
  -- lower bound
  loadF64 rFault f0
  loadF64 rMin axis.softLimitMin
  cmpLt rPos rMin rScratch
  let noLowerFault ← emitJumpIfNot rScratch
  copyReg rMin rPos rZero
  loadF64 rFault f1
  patchJump noLowerFault (← len)
  -- upper bound
  loadF64 rMax axis.softLimitMax
  cmpGt rPos rMax rScratch
  let noUpperFault ← emitJumpIfNot rScratch
  copyReg rMax rPos rZero
  loadF64 rFault f1
  patchJump noUpperFault (← len)
  storeSignal (signal pfx "pos_fault") rFault
  storeSignal (signal pfx "pos_cmd") rPos
  patchJump skipIdx (← len)

def axisBindings (pfx : String) : List SignalBinding :=
  [axisBinding pfx "pos_cmd" .readWrite .f64, axisBinding pfx "homed" .read .bool,
    axisBinding pfx "pos_fault" .write .bool]

end Limits

open Limits

/-- `generate_soft_limits_program`. -/
def generateSoftLimitsProgram (cfg : AxisGroupConfig) : HalProgram where
  name := "soft_limits_" ++ cfg.name
  signals := cfg.axes.flatMap fun axis =>
    if !axis.softLimitEnable then [] else axisBindings (cfg.signalPrefix axis.index)
  instructions := emitted do
    emitConstants rZero rOne
    cfg.axes.forM fun axis => if !axis.softLimitEnable then pure () else emitAxis (cfg.signalPrefix axis.index) axis
    push .halt
  functionTable := []

namespace Limits

/-! ## What a scan does -/

/-- The stores of an axis. The position is a copy of `R_MAX`, which the skip in front has set to zero. -/
def axisStores (pfx : String) : List (String × Sym) :=
  [(signal pfx "pos_fault", .value (.f64 f1)),
    (signal pfx "pos_cmd", .add (.value (.f64 f0)) (.value (.f64 f0)))]

/-- The code of an axis runs both clamps. -/
theorem exists_axisCode (pfx : String) (axis : AxisConfig) :
    ∃ l, Emits (emitAxis pfx axis) l ∧
      Straight l (Holds (consts rZero rOne)) (Holds (consts rZero rOne)) (fun σ => applyStores σ (axisStores pfx)) := by
  apply Exists.intro
  refine ⟨?emits, ?straight⟩
  case emits =>
    unfold emitAxis
    repeat' with_reducible first
      | infer_instance
      | apply Emits.bind
      | intro _
  case straight => exact Straight.ofRun ⟨_, axisStores pfx⟩ rfl (consts_of rfl rfl)

/-- What the axis does to the signal table. -/
def axisEffect (cfg : AxisGroupConfig) (axis : AxisConfig) (σ : SignalTable) : SignalTable :=
  if !axis.softLimitEnable then σ else applyStores σ (axisStores (cfg.signalPrefix axis.index))

/-- The soft-limit program, as a function of the signal table. -/
def effect (cfg : AxisGroupConfig) (σ : SignalTable) : SignalTable :=
  cfg.axes.foldl (fun τ axis => axisEffect cfg axis τ) σ

theorem exists_code (cfg : AxisGroupConfig) :
    ∃ l, (generateSoftLimitsProgram cfg).instructions.map Instruction.blind = l ++ [.halt] ∧
      Straight l (Holds []) (Holds (consts rZero rOne)) (effect cfg) := by
  have hall : ∀ axis, ∃ l,
      Emits (if !axis.softLimitEnable then pure () else emitAxis (cfg.signalPrefix axis.index) axis) l ∧ 0 ≤ l.length ∧
        Straight l (Holds (consts rZero rOne)) (Holds (consts rZero rOne)) (axisEffect cfg axis) := by
    intro axis
    unfold axisEffect
    split
    · exact ⟨[], .pure _, Nat.le_refl _, .nil⟩
    · obtain ⟨l, hemits, hstraight⟩ := exists_axisCode (cfg.signalPrefix axis.index) axis
      exact ⟨l, hemits, Nat.zero_le _, hstraight⟩
  obtain ⟨l, hcode, _, hstraight⟩ := exists_axesCode 0 (by decide) (by decide) (by decide) hall
  exact ⟨l, hcode, hstraight⟩

/-- Every scan of the soft-limit program ends. -/
theorem scans (cfg : AxisGroupConfig) (σ : SignalTable) : Scans (generateSoftLimitsProgram cfg) σ (effect cfg σ) := by
  obtain ⟨l, hcode, hstraight⟩ := exists_code cfg
  exact hstraight.scans hcode σ

theorem axisEffect_eq (cfg : AxisGroupConfig) {axis : AxisConfig} (henable : axis.softLimitEnable = true)
    (σ : SignalTable) :
    axisEffect cfg axis σ =
      (σ.write (signal (cfg.signalPrefix axis.index) "pos_fault") (.f64 f1)).write
        (signal (cfg.signalPrefix axis.index) "pos_cmd") (.f64 (FloatFormat.add f0 f0)) := by
  unfold axisEffect
  rw [henable]
  rfl

/-- Both signals of an axis, behind its own block and behind those of the other axes. -/
theorem axisEffect_signals (cfg : AxisGroupConfig) (pfx : String) (axis : AxisConfig) (σ : SignalTable)
    (h : axis.softLimitEnable = true ∧ cfg.signalPrefix axis.index = pfx ∨
      σ (signal pfx "pos_cmd") = some (.f64 (FloatFormat.add f0 f0)) ∧ σ (signal pfx "pos_fault") = some (.f64 f1)) :
    axisEffect cfg axis σ (signal pfx "pos_cmd") = some (.f64 (FloatFormat.add f0 f0)) ∧
      axisEffect cfg axis σ (signal pfx "pos_fault") = some (.f64 f1) := by
  by_cases henable : axis.softLimitEnable = true
  · rw [axisEffect_eq cfg henable]
    by_cases hpfx : cfg.signalPrefix axis.index = pfx
    · rw [hpfx]
      refine ⟨SignalTable.write_self _ _ _, ?_⟩
      rw [SignalTable.write_ne _ _ (signal_ne (by decide) (by decide) (by decide)), SignalTable.write_self]
    · have hne : ∀ a b, Dotless a → Dotless b → signal pfx a ≠ signal (cfg.signalPrefix axis.index) b := by
        intro a b ha hb heq
        exact hpfx ((signal_inj ha hb).1 heq).1.symm
      obtain ⟨hpos, hfault⟩ := h.resolve_left fun h => hpfx h.2
      refine ⟨?_, ?_⟩
      · rw [SignalTable.write_ne _ _ (hne _ _ (by decide) (by decide)),
          SignalTable.write_ne _ _ (hne _ _ (by decide) (by decide)), hpos]
      · rw [SignalTable.write_ne _ _ (hne _ _ (by decide) (by decide)),
          SignalTable.write_ne _ _ (hne _ _ (by decide) (by decide)), hfault]
  · unfold axisEffect
    rw [if_pos (by simpa using henable)]
    exact h.resolve_left fun h => henable h.1

/-- **The clamp.** Every axis with soft limits is put to zero, with a fault. -/
theorem effect_signals {cfg : AxisGroupConfig} {axis : AxisConfig} (haxis : axis ∈ cfg.axes)
    (henable : axis.softLimitEnable = true) (σ : SignalTable) :
    effect cfg σ (signal (cfg.signalPrefix axis.index) "pos_cmd") = some (.f64 (FloatFormat.add f0 f0)) ∧
      effect cfg σ (signal (cfg.signalPrefix axis.index) "pos_fault") = some (.f64 f1) := by
  refine foldl_establishes (P := fun τ : SignalTable =>
    τ (signal (cfg.signalPrefix axis.index) "pos_cmd") = _ ∧ τ (signal (cfg.signalPrefix axis.index) "pos_fault") = _)
    haxis ?_ ?_ σ
  · intro τ
    exact axisEffect_signals cfg _ axis τ (.inl ⟨henable, rfl⟩)
  · intro τ hτ axis' _
    exact axisEffect_signals cfg _ axis' τ (.inr hτ)

/-- The signals that the limits are about. -/
def IsLimited (cfg : AxisGroupConfig) (name : String) : Prop :=
  ∃ axis ∈ cfg.axes, axis.softLimitEnable = true ∧
    (name = signal (cfg.signalPrefix axis.index) "pos_cmd" ∨ name = signal (cfg.signalPrefix axis.index) "pos_fault")

/-- No other signal is written. -/
theorem effect_other {cfg : AxisGroupConfig} {name : String} (hname : ¬ IsLimited cfg name) (σ : SignalTable) :
    effect cfg σ name = σ name := by
  refine List.foldlRecOn (motive := fun τ : SignalTable => τ name = σ name) _ _ rfl ?_
  intro τ hτ axis haxis
  by_cases henable : axis.softLimitEnable = true
  · rw [axisEffect_eq cfg henable, SignalTable.write_ne, SignalTable.write_ne]
    · exact hτ
    · intro heq
      exact hname ⟨axis, haxis, henable, .inr heq⟩
    · intro heq
      exact hname ⟨axis, haxis, henable, .inl heq⟩
  · unfold axisEffect
    rw [if_pos (by simpa using henable)]
    exact hτ

/-! ## The limits -/

section
variable [LinearOrder Target.F64]

/-- What the limits ask for: a homed axis at `p` is clamped, with a fault exactly when it was outside; an axis that is not
homed is left alone, and so is every other signal. -/
def ClampsHomed (cfg : AxisGroupConfig) (σ σ' : SignalTable) : Prop :=
  (∀ axis ∈ cfg.axes, axis.softLimitEnable = true →
    ∀ p, σ (signal (cfg.signalPrefix axis.index) "pos_cmd") = some (.f64 p) →
      if isSet (σ.read (signal (cfg.signalPrefix axis.index) "homed")) then
        σ' (signal (cfg.signalPrefix axis.index) "pos_cmd") =
            some (.f64 (max axis.softLimitMin (min axis.softLimitMax p))) ∧
          (isSet (σ'.read (signal (cfg.signalPrefix axis.index) "pos_fault")) = true ↔
            p < axis.softLimitMin ∨ axis.softLimitMax < p)
      else
        σ' (signal (cfg.signalPrefix axis.index) "pos_cmd") = σ (signal (cfg.signalPrefix axis.index) "pos_cmd") ∧
          σ' (signal (cfg.signalPrefix axis.index) "pos_fault") =
            σ (signal (cfg.signalPrefix axis.index) "pos_fault")) ∧
    ∀ name, ¬ IsLimited cfg name → σ' name = σ name

/-- The tables on which zero and a fault are right: a homed axis is outside of a limit that is zero; an axis that is not
homed is at zero, with a fault. -/
def ZeroIsRight (cfg : AxisGroupConfig) (σ : SignalTable) : Prop :=
  ∀ axis ∈ cfg.axes, axis.softLimitEnable = true →
    ∀ p, σ (signal (cfg.signalPrefix axis.index) "pos_cmd") = some (.f64 p) →
      if isSet (σ.read (signal (cfg.signalPrefix axis.index) "homed")) then
        p < axis.softLimitMin ∧ axis.softLimitMin = f0 ∨ axis.softLimitMax < p ∧ axis.softLimitMax = f0
      else p = f0 ∧ σ (signal (cfg.signalPrefix axis.index) "pos_fault") = some (.f64 f1)

theorem effect_clampsHomed_iff (hexact : ExactF64) {cfg : AxisGroupConfig}
    (hlimits : ∀ axis ∈ cfg.axes, axis.softLimitMin ≤ axis.softLimitMax) (σ : SignalTable) :
    ClampsHomed cfg σ (effect cfg σ) ↔ ZeroIsRight cfg σ := by
  have hone : isSet (.f64 f1) = true := decide_eq_true hexact.zero_lt_one.ne'
  unfold ClampsHomed ZeroIsRight
  rw [and_iff_left fun name hname => effect_other hname σ]
  refine forall₃_congr fun axis haxis henable => forall₂_congr fun p hp => ?_
  obtain ⟨hpos, hfault⟩ := effect_signals haxis henable σ
  rw [hpos, SignalTable.read_of_eq hfault, hfault, hp, hexact.add_zero, hone]
  split
  · rw [← clamp_outside_iff (hlimits axis haxis)]
    simp only [Option.some.injEq, HalValue.f64.injEq, true_iff]
  · simp only [Option.some.injEq, HalValue.f64.injEq]
    exact and_congr eq_comm eq_comm

end

/-- **Soft limits.** With exact doubles and every minimum below its maximum, the program clamps exactly the homed axes
when zero and a fault happen to be right for every axis, and on no other table. -/
theorem clampsHomed_iff [LinearOrder Target.F64] (hexact : ExactF64) (cfg : AxisGroupConfig)
    (hlimits : ∀ axis ∈ cfg.axes, axis.softLimitMin ≤ axis.softLimitMax) (σ : SignalTable) :
    (∃ σ', Scans (generateSoftLimitsProgram cfg) σ σ' ∧ ClampsHomed cfg σ σ') ↔ ZeroIsRight cfg σ := by
  rw [← effect_clampsHomed_iff hexact hlimits]
  constructor
  · rintro ⟨σ', hscan, hclamps⟩
    rwa [hscan.det (scans cfg σ)] at hclamps
  · intro hclamps
    exact ⟨_, scans cfg σ, hclamps⟩

end Limits

end Audesys.Cnc

/-! ## A homed axis in the middle -/

namespace Audesys.Cnc.Limits

open Audesys.Hal

local instance wholeLimits : Target := whole
local instance wholeLimitsLiterals : F64Literals := wholeLiterals
local instance wholeLimitsOrder : LinearOrder Target.F64 := inferInstanceAs (LinearOrder Int)

/-- One axis with the limits `lo` and `hi`. -/
def limitedAxis (lo hi : Int) : AxisGroupConfig where
  name := "group.0"
  axes := [{
    index := 0
    softLimitMin := lo
    softLimitMax := hi
    softLimitEnable := true
    backlashDistance := (0 : Int)
    backlashEnable := false
    homeSearchVel := (50 : Int)
    homeLatchVel := (5 : Int)
    homeOffset := (0 : Int)
    homeDirection := .negative }]

/-- Homed, and at position 5. -/
def homedAtFive : SignalTable := fun name =>
  if name = "group.group.0.axis.0.pos_cmd" then some (.f64 (5 : Int))
  else if name = "group.group.0.axis.0.homed" then some (.bool true)
  else none

theorem limitedAxis_ordered {lo hi : Int} (h : lo ≤ hi) :
    ∀ axis ∈ (limitedAxis lo hi).axes, axis.softLimitMin ≤ axis.softLimitMax := by
  intro axis haxis
  rw [List.mem_singleton.1 haxis]
  exact h

/-- Between the limits 0 and 1000 the position 5 is to stay, without a fault; the program puts it to zero. -/
theorem homedAtFive_moved :
    ¬ ∃ σ', Scans (generateSoftLimitsProgram (limitedAxis 0 1000)) homedAtFive σ' ∧
      ClampsHomed (limitedAxis 0 1000) homedAtFive σ' := by
  rintro ⟨σ', hscan, hclamps⟩
  rw [hscan.det (scans _ _), effect_clampsHomed_iff exactF64_whole (limitedAxis_ordered (by decide))] at hclamps
  have hzero := hclamps _ (List.mem_singleton_self _) rfl (5 : Int) rfl
  revert hzero
  decide

/-- Above a maximum of zero the program does what it should. -/
theorem clampsHomed_aboveZero :
    (∃ σ', Scans (generateSoftLimitsProgram (limitedAxis (-10) 0)) homedAtFive σ' ∧
      ClampsHomed (limitedAxis (-10) 0) homedAtFive σ') ↔ ZeroIsRight (limitedAxis (-10) 0) homedAtFive :=
  clampsHomed_iff exactF64_whole (limitedAxis (-10) 0) (limitedAxis_ordered (by decide)) homedAtFive

end Audesys.Cnc.Limits
