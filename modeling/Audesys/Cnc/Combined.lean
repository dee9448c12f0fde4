import Audesys.Lib.Trace
import Audesys.Cnc.Homing
import Audesys.Cnc.Limits
import Audesys.Cnc.Backlash
import Audesys.Cnc.Alarm

/-!
# `Cnc.Combined` — the combined program of an axis group

`generate_combined_program` puts the four programs one behind the other, without their `Halt`s, and leaves jump targets as
they are. The skips are no harm, since they do not skip; the one `Jump` that works is in the backlash program, and where
that program has an axis the jump leads back into the homing code: the combined program never ends
(`not_haltsAt_combined`). Without such an axis it does what its parts do one after the other (`sameAsParts_iff`).
-/

open List

namespace Audesys.Cnc

open Audesys.Hal Audesys.Lib
open Backlash (isCompensated)

variable [Target]
variable {cfg : AxisGroupConfig}

/-! ## Without halts -/

/-- The instructions of a part, without `Halt`. -/
def withoutHalts (prog : HalProgram) : List Instruction := prog.instructions.filter fun inst => inst.opcode != .halt

theorem map_blind_filter (is : List Instruction) :
    (is.filter fun inst => inst.opcode != .halt).map Instruction.blind =
      (is.map Instruction.blind).filter fun inst => inst.opcode != .halt := by
  rw [filter_map]
  congr 1
  apply filter_congr
  intro inst _
  by_cases h : inst.opcode = .jumpIf
  · have hblind : inst.blind.opcode ≠ .halt := by
      unfold Instruction.blind
      rw [if_pos h]
      split
      · exact Opcode.noConfusion
      · exact Opcode.noConfusion
    rw [h, Function.comp_apply, (bne_iff_ne).2 hblind]
    rfl
  · rw [Function.comp_apply, blind_of_ne h]

theorem withoutHalts_blind {prog : HalProgram} {body : List Instruction}
    (hcode : prog.instructions.map Instruction.blind = body ++ [.halt]) (hbody : ∀ inst ∈ body, inst.opcode ≠ .halt) :
    (withoutHalts prog).map Instruction.blind = body := by
  unfold withoutHalts
  rw [map_blind_filter, hcode, filter_append, filter_eq_self.2]
  · exact List.append_nil _
  · intro inst hmem
    exact bne_iff_ne.2 (hbody inst hmem)

theorem ne_halt_of_plain {inst : Instruction} (h : inst.opcode.isPlain = true) : inst.opcode ≠ .halt := by
  intro hhalt
  rw [hhalt] at h
  cases h

variable [F64Literals]

/-! ## The generator -/

/-- Merge the bindings of a part, by signal name. -/
def mergeSignals (signals : List SignalBinding) (prog : HalProgram) : List SignalBinding :=
  prog.signals.foldl
    (fun signals s => if signals.any (fun existing => existing.halSignalName == s.halSignalName)
      then signals else signals ++ [s])
    signals

/-- `generate_combined_program`. -/
def generateCombinedProgram (cfg : AxisGroupConfig) : HalProgram :=
  let homing := generateHomingProgram cfg
  let limits := generateSoftLimitsProgram cfg
  let backlash := generateBacklashProgram cfg
  let alarm := generateAlarmProgram cfg
  { name := "axis_group_" ++ cfg.name
    signals := [limits, backlash, alarm].foldl mergeSignals homing.signals
    instructions := [homing, limits, backlash, alarm].flatMap withoutHalts ++ [.halt]
    functionTable := [] }

namespace Combined

/-! ## The code by its parts -/

/-- The code of the backlash program behind its two constants. -/
def backlashBody (cfg : AxisGroupConfig) : List Instruction :=
  constantsCode Backlash.rZero Backlash.rOne ++ (Backlash.axesCode cfg cfg.axes 2).map Instruction.blind

theorem backlash_blind (cfg : AxisGroupConfig) :
    (generateBacklashProgram cfg).instructions.map Instruction.blind = backlashBody cfg ++ [.halt] := by
  rw [Backlash.instructions_eq, map_append, map_append]
  rfl

theorem backlashBody_ne_halt (cfg : AxisGroupConfig) : ∀ inst ∈ backlashBody cfg, inst.opcode ≠ .halt := by
  intro inst hmem
  rcases mem_append.1 hmem with hmem | hmem
  · exact ne_halt_of_plain (Backlash.straight_constants.plain inst hmem)
  · rcases Backlash.axesCode_forward hmem with hplain | ⟨t, _, rfl⟩
    · exact ne_halt_of_plain hplain
    · exact Opcode.noConfusion

/-- The code of the combined program, by its parts. -/
theorem exists_code (cfg : AxisGroupConfig) :
    ∃ homing limits alarm, (generateCombinedProgram cfg).instructions.map Instruction.blind =
        homing ++ (limits ++ (backlashBody cfg ++ (alarm ++ [.halt]))) ∧
      67 * cfg.axes.length ≤ homing.length ∧
      Straight homing (Holds []) (Holds []) (Homing.effect cfg) ∧
      Straight limits (Holds []) (Holds []) (Limits.effect cfg) ∧
      Straight alarm (Holds []) (Holds []) (Alarm.effect cfg) := by
  obtain ⟨homing, hhoming, hlen, hstraight₁⟩ := Homing.exists_code cfg
  obtain ⟨limits, hlimits, hstraight₂⟩ := Limits.exists_code cfg
  obtain ⟨alarm, halarm, hstraight₃⟩ := Alarm.exists_code cfg
  refine ⟨homing, limits, alarm, ?_, hlen, hstraight₁.forget, hstraight₂.forget, hstraight₃⟩
  show (([generateHomingProgram cfg, generateSoftLimitsProgram cfg, generateBacklashProgram cfg,
    generateAlarmProgram cfg].flatMap withoutHalts) ++ [Instruction.halt]).map Instruction.blind = _
  simp
  rw [withoutHalts_blind hhoming fun inst h => ne_halt_of_plain (hstraight₁.plain inst h),
    withoutHalts_blind hlimits fun inst h => ne_halt_of_plain (hstraight₂.plain inst h),
    withoutHalts_blind (backlash_blind cfg) (backlashBody_ne_halt cfg),
    withoutHalts_blind halarm fun inst h => ne_halt_of_plain (hstraight₃.plain inst h)]
  rfl

/-! ## With and without a jump -/

/-- A backlash program without axes is its two constants. -/
theorem axesCode_nil {axes : List AxisConfig} {b : Nat}
    (h : ∀ axis ∈ axes, isCompensated axis = false) : Backlash.axesCode cfg axes b = [] := by
  induction axes with
  | nil => rfl
  | cons axis rest ih =>
    rw [Backlash.axesCode, h axis (mem_cons_self ..)]
    exact ih fun axis' hmem => h axis' (mem_cons_of_mem _ hmem)

theorem backlash_scans (h : ∀ axis ∈ cfg.axes, isCompensated axis = false) (σ : SignalTable) :
    Scans (generateBacklashProgram cfg) σ σ := by
  have hbody : (generateBacklashProgram cfg).instructions.map Instruction.blind =
      constantsCode Backlash.rZero Backlash.rOne ++ [.halt] := by
    rw [backlash_blind, backlashBody, axesCode_nil h]
    rfl
  exact Backlash.straight_constants.scans hbody σ

/-- Without a compensated axis the combined program does what its parts do. -/
theorem combined_scans (h : ∀ axis ∈ cfg.axes, isCompensated axis = false) (σ : SignalTable) :
    Scans (generateCombinedProgram cfg) σ (Alarm.effect cfg (Limits.effect cfg (Homing.effect cfg σ))) := by
  obtain ⟨homing, limits, alarm, hcode, _, hhoming, hlimits, halarm⟩ := exists_code cfg
  have hbacklash : Straight (backlashBody cfg) (Holds []) (Holds []) (fun σ => σ) := by
    rw [backlashBody, axesCode_nil h]
    exact Backlash.straight_constants.forget
  have hall := ((hhoming.append hlimits).append hbacklash).append halarm
  refine hall.scans ?_ σ
  rw [hcode]
  simp only [List.append_assoc]

/-- **The loop.** With a compensated axis the combined program never ends: its jump leads back into the homing code. -/
theorem not_haltsAt_combined (h : ∃ axis ∈ cfg.axes, isCompensated axis = true) {vm vm' : Vm}
    (hip : vm.ip = 0) : ¬ HaltsAt (generateCombinedProgram cfg).instructions vm vm' := by
  obtain ⟨homing, limits, alarm, hcode, hlen, hhoming, hlimits, _⟩ := exists_code cfg
  obtain ⟨pre, axis, post, haxes, hc, hpre⟩ := exists_first h
  have hnone : ∀ axis' ∈ pre, isCompensated axis' = false := fun axis' hmem => Bool.eq_false_iff.2 (hpre axis' hmem)
  have hbody : backlashBody cfg =
      constantsCode Backlash.rZero Backlash.rOne ++
        (((Backlash.frontCode (cfg.signalPrefix axis.index) 2).map Instruction.blind) ++
          .jump (.ofNat 19) :: ((Backlash.negativeCode 2 ++ Backlash.backCode (cfg.signalPrefix axis.index) axis 2 ++
            Backlash.axesCode cfg post 35).map Instruction.blind)) := by
    rw [backlashBody, haxes, Backlash.axesCode_append, axesCode_nil hnone, Backlash.axesCode, if_pos hc,
      Backlash.axisCode]
    simp only [map_append, map_cons, List.append_assoc, cons_append, nil_append, blind_jump]
    rfl
  let before := homing ++ (limits ++ constantsCode Backlash.rZero Backlash.rOne)
  have hplain : ∀ inst ∈ before, inst.opcode.isPlain = true := by
    intro inst hmem
    rcases mem_append.1 hmem with hmem | hmem
    · exact hhoming.plain inst hmem
    · rcases mem_append.1 hmem with hmem | hmem
      · exact hlimits.plain inst hmem
      · exact Backlash.straight_constants.plain inst hmem
  -- the homing code of the axis is long enough for the target to lie behind
  have hlong : 67 ≤ before.length := by
    have hpos : 0 < cfg.axes.length := by
      rw [haxes, length_append, length_cons]
      omega
    rw [length_append]
    omega
  have hstays := Backlash.staysBelow_axisCode before
    ((Backlash.negativeCode 2 ++ Backlash.backCode (cfg.signalPrefix axis.index) axis 2 ++
      Backlash.axesCode cfg post 35).map Instruction.blind ++ (alarm ++ [.halt]))
    (cfg.signalPrefix axis.index) axis 2 19 (fun inst hmem => .inl (hplain inst hmem))
    (by rw [UInt32.toNat_ofNat']; omega)
  rw [← haltsAt_blind, hcode, hbody]
  refine not_haltsAt_of_staysBelow (before.length + 10) ?_ (by omega)
  simpa only [before, List.append_assoc, cons_append, nil_append] using hstays

/-! ## Main result -/

/-- A scan of the combined program ends, with the table that the parts leave, one after the other, each from a reset
machine. -/
def SameAsParts (cfg : AxisGroupConfig) (σ : SignalTable) : Prop :=
  ∃ σ₁ σ₂ σ₃ σ', Scans (generateHomingProgram cfg) σ σ₁ ∧ Scans (generateSoftLimitsProgram cfg) σ₁ σ₂ ∧
    Scans (generateBacklashProgram cfg) σ₂ σ₃ ∧ Scans (generateAlarmProgram cfg) σ₃ σ' ∧
    Scans (generateCombinedProgram cfg) σ σ'

theorem not_sameAsParts (h : ∃ axis ∈ cfg.axes, isCompensated axis = true) (σ : SignalTable) :
    ¬ SameAsParts cfg σ := by
  rintro ⟨_, _, _, _, _, _, _, _, hscan⟩
  obtain ⟨vm', hhalt, _⟩ := hscan .new
  exact not_haltsAt_combined h rfl hhalt

/-- **The combined program** is the sequence of its parts exactly when no axis has a backlash to compensate. -/
theorem sameAsParts_iff (cfg : AxisGroupConfig) (σ : SignalTable) :
    SameAsParts cfg σ ↔ ∀ axis ∈ cfg.axes, isCompensated axis = false := by
  constructor
  · intro hsame axis haxis
    rw [← Bool.not_eq_true]
    intro hc
    exact not_sameAsParts ⟨axis, haxis, hc⟩ σ hsame
  · intro h
    exact ⟨_, _, _, _, Homing.scans cfg σ, Limits.scans cfg _, backlash_scans h _, Alarm.scans cfg _, combined_scans h σ⟩

end Combined

end Audesys.Cnc

/-! ## An axis with backlash -/

namespace Audesys.Cnc.Combined

open Audesys.Hal

local instance wholeCombined : Target := whole
local instance wholeCombinedLiterals : F64Literals := wholeLiterals

/-- The combined program of one axis with a backlash of 2 loops. -/
theorem looseGroup_loops : ¬ SameAsParts Backlash.looseGroup (fun _ => none) :=
  not_sameAsParts ⟨Backlash.looseAxis, mem_singleton_self _, by decide⟩ _

end Audesys.Cnc.Combined
