import Audesys.Cnc.Emit

/-!
# `Cnc.Homing` — the homing program

`homing.rs` lays the state machine IDLE, SEEK, LATCH, BACKOFF, DONE out as one straight program with a skip around the
block of each state. The skips do not skip (`Cnc.Emit`), so a scan runs the blocks of all states of all axes one after
the other: whatever the state and the limit switch were, every axis is DONE and homed behind the first scan
(`effect_state`). The state machine is what it should be only where no axis is there to home (`safeHoming_iff`).
-/

namespace Audesys.Cnc

open Audesys.Hal Audesys.Lib

variable [Target] [F64Literals]

namespace Homing

variable {cfg : AxisGroupConfig} {axis : AxisConfig}

/-! ## Registers and states -/

def rIdx : UInt8 := 0
def rState : UInt8 := 1
def rLimit : UInt8 := 2
def rVel : UInt8 := 3
def rDir : UInt8 := 4
def rScratch : UInt8 := 5
def rZero : UInt8 := 6
def rOne : UInt8 := 7

def stIdle : UInt8 := 0
def stSeek : UInt8 := 1
def stLatch : UInt8 := 2
def stBackoff : UInt8 := 3
def stDone : UInt8 := 4

/-! ## The generator -/

/-- `limit_signal_name`. -/
def limitSignalName (pfx : String) : HomeDirection → String
  | .positive => signal pfx "limit_pos"
  | .negative => signal pfx "limit_neg"

/-- `emit_set_state`. -/
def emitSetState (pfx : String) (state : UInt8) : Emit Unit := do
  push (.loadImm rScratch (.u8 state))
  storeSignal (signal pfx "homing_state") rScratch

/-- `emit_write_vel`: `vel_cmd = vel_reg * direction`. -/
def emitWriteVel (pfx : String) (velReg : UInt8) : Emit Unit := do
  push (.arith .mul velReg rDir rScratch)
  storeSignal (signal pfx "vel_cmd") rScratch

abbrev emitCopy (src dst zeroReg : UInt8) : Emit Unit := copyReg src dst zeroReg
abbrev emitCmpEqImm (reg : UInt8) (imm : Target.F64) : Emit Unit := cmpEqImm reg imm rVel

/-- `emit_jump_if_not`: this one loads a one first. -/
def emitJumpIfNot (condReg : UInt8) : Emit Nat := do
  loadF64 rDir f1
  skipIfNot condReg rDir

/-- The state machine of one axis. -/
def emitAxis (pfx : String) (axis : AxisConfig) : Emit Unit := do
  push (.loadImm rIdx (.u32 axis.index.toUInt32))
  loadSignal rState (signal pfx "homing_state")
  -- IDLE: start homing
  emitCopy rState rScratch rZero
  emitCmpEqImm rScratch (F64Literals.ofU8 stIdle)
  let skipIdleJump ← emitJumpIfNot rScratch
  loadF64 rDir axis.homeDirection.multiplier
  loadF64 rVel axis.homeSearchVel
  emitSetState pfx stSeek
  emitWriteVel pfx rVel
  storeSignal (signal pfx "enable") rOne
  storeSignal (signal pfx "pos_cmd") rZero
  patchJump skipIdleJump (← len)
  -- SEEK: limit hit, enter LATCH
  emitCopy rState rScratch rZero
  emitCmpEqImm rScratch (F64Literals.ofU8 stSeek)
  let skipSeekJump ← emitJumpIfNot rScratch
  loadSignal rLimit (limitSignalName pfx axis.homeDirection)
  emitCmpEqImm rLimit f1
  let keepSeekingJump ← emitJumpIfNot rLimit
  emitSetState pfx stLatch
  loadF64 rDir (FloatFormat.neg axis.homeDirection.multiplier)
  loadF64 rVel axis.homeLatchVel
  emitWriteVel pfx rVel
  patchJump keepSeekingJump (← len)
  patchJump skipSeekJump (← len)
  -- LATCH: limit cleared, enter BACKOFF
  emitCopy rState rScratch rZero
  emitCmpEqImm rScratch (F64Literals.ofU8 stLatch)
  let skipLatchJump ← emitJumpIfNot rScratch
  loadSignal rLimit (limitSignalName pfx axis.homeDirection)
  emitCmpEqImm rLimit f0
  let keepLatchingJump ← emitJumpIfNot rLimit
  emitSetState pfx stBackoff
  loadF64 rScratch axis.homeOffset
  storeSignal (signal pfx "pos_cmd") rScratch
  storeSignal (signal pfx "vel_cmd") rZero
  patchJump keepLatchingJump (← len)
  patchJump skipLatchJump (← len)
  -- BACKOFF: set the homed flag, disable the axis
  emitCopy rState rScratch rZero
  emitCmpEqImm rScratch (F64Literals.ofU8 stBackoff)
  let skipBackoffJump ← emitJumpIfNot rScratch
  emitSetState pfx stDone
  storeSignal (signal pfx "homed") rOne
  storeSignal (signal pfx "enable") rZero
  patchJump skipBackoffJump (← len)

/-- `add_signal_bindings`. -/
def addSignalBindings (pfx : String) : List SignalBinding :=
  [axisBinding pfx "homing_state" .readWrite .u8, axisBinding pfx "pos_cmd" .write .f64,
    axisBinding pfx "vel_cmd" .write .f64, axisBinding pfx "enable" .write .bool,
    axisBinding pfx "limit_pos" .read .bool, axisBinding pfx "limit_neg" .read .bool,
    axisBinding pfx "homed" .write .bool]

end Homing

open Homing

/-- `generate_homing_program`. -/
def generateHomingProgram (cfg : AxisGroupConfig) : HalProgram where
  name := "homing_" ++ cfg.name
  signals := cfg.axes.flatMap fun axis => addSignalBindings (cfg.signalPrefix axis.index)
  instructions := emitted do
    emitConstants rZero rOne
    cfg.axes.forM fun axis => Homing.emitAxis (cfg.signalPrefix axis.index) axis
    push .halt
  functionTable := []

namespace Homing

/-! ## What a scan does -/

instance emits_emitSetState (pfx : String) (state : UInt8) :
    Emits (emitSetState pfx state)
      [.loadImm rScratch (.u8 state), ⟨.store, [.signalName (signal pfx "homing_state"), .register rScratch]⟩] :=
  Emits.bind (.push _) fun _ => .storeSignal ..

instance emits_emitWriteVel (pfx : String) (velReg : UInt8) :
    Emits (emitWriteVel pfx velReg)
      [.arith .mul velReg rDir rScratch, ⟨.store, [.signalName (signal pfx "vel_cmd"), .register rScratch]⟩] :=
  Emits.bind (.push _) fun _ => .storeSignal ..

instance emits_emitJumpIfNot (condReg : UInt8) :
    Emits (emitJumpIfNot condReg)
      [.loadImm rDir (.f64 f1), .loadImm rDir (.f64 f0), .cmp .eq condReg rDir, ⟨.nop, []⟩] :=
  Emits.bind (.loadF64 ..) fun _ => emits_skipIfNot ..

/-- The stores of the four blocks, in their order. -/
def axisStores (pfx : String) (axis : AxisConfig) : List (String × Sym) :=
  let dirMult := axis.homeDirection.multiplier
  [(signal pfx "homing_state", .value (.u8 stSeek)),
    (signal pfx "vel_cmd", .mul (.value (.f64 axis.homeSearchVel)) (.value (.f64 dirMult))),
    (signal pfx "enable", .value (.f64 f1)),
    (signal pfx "pos_cmd", .value (.f64 f0)),
    (signal pfx "homing_state", .value (.u8 stLatch)),
    (signal pfx "vel_cmd", .mul (.value (.f64 axis.homeLatchVel)) (.value (.f64 (FloatFormat.neg dirMult)))),
    (signal pfx "homing_state", .value (.u8 stBackoff)),
    (signal pfx "pos_cmd", .value (.f64 axis.homeOffset)),
    (signal pfx "vel_cmd", .value (.f64 f0)),
    (signal pfx "homing_state", .value (.u8 stDone)),
    (signal pfx "homed", .value (.f64 f1)),
    (signal pfx "enable", .value (.f64 f0))]

/-- The code of an axis runs all four blocks. -/
theorem exists_axisCode (pfx : String) (axis : AxisConfig) : ∃ l, Emits (emitAxis pfx axis) l ∧ 67 ≤ l.length ∧
      Straight l (Holds (consts rZero rOne)) (Holds (consts rZero rOne))
        (fun σ => applyStores σ (axisStores pfx axis)) := by
  apply Exists.intro
  refine ⟨?emits, ?straight⟩
  case emits =>
    unfold emitAxis
    repeat' with_reducible first
      | infer_instance
      | apply Emits.bind
      | intro _
  case straight => exact ⟨Nat.le_refl _, .ofRun ⟨_, axisStores pfx axis⟩ rfl (consts_of rfl rfl)⟩

/-- What the axis does to the signal table. -/
def axisEffect (cfg : AxisGroupConfig) (axis : AxisConfig) (σ : SignalTable) : SignalTable :=
  applyStores σ (axisStores (cfg.signalPrefix axis.index) axis)

/-- The homing program, as a function of the signal table. -/
def effect (cfg : AxisGroupConfig) (σ : SignalTable) : SignalTable :=
  cfg.axes.foldl (fun τ axis => axisEffect cfg axis τ) σ

/-- Every scan of the homing program ends. -/
theorem exists_code (cfg : AxisGroupConfig) :
    ∃ l, (generateHomingProgram cfg).instructions.map Instruction.blind = l ++ [.halt] ∧
      67 * cfg.axes.length ≤ l.length ∧ Straight l (Holds []) (Holds (consts rZero rOne)) (effect cfg) :=
  exists_axesCode 67 (by decide) (by decide) (by decide)
    fun axis => exists_axisCode (cfg.signalPrefix axis.index) axis

theorem scans (cfg : AxisGroupConfig) (σ : SignalTable) : Scans (generateHomingProgram cfg) σ (effect cfg σ) := by
  obtain ⟨l, hcode, _, hstraight⟩ := exists_code cfg
  exact hstraight.scans hcode σ

/-- An axis of the same name ends in DONE. -/
theorem axisEffect_state_self (cfg : AxisGroupConfig) (axis : AxisConfig) (σ : SignalTable) :
    axisEffect cfg axis σ (signal (cfg.signalPrefix axis.index) "homing_state") = some (.u8 stDone) := by
  let pfx := cfg.signalPrefix axis.index
  have hlast : axisStores pfx axis =
      (axisStores pfx axis).take 9 ++ (signal pfx "homing_state", .value (.u8 stDone)) ::
        [(signal pfx "homed", .value (.f64 f1)), (signal pfx "enable", .value (.f64 f0))] := rfl
  unfold axisEffect
  rw [hlast, applyStores_last]
  · rfl
  · intro p hp
    rcases List.mem_cons.1 hp with rfl | hp
    · exact signal_ne (by decide) (by decide) (by decide)
    · rw [List.mem_singleton.1 hp]
      exact signal_ne (by decide) (by decide) (by decide)

/-- The signals of an axis have the name of the axis in front. -/
theorem axisStores_prefix {pfx : String} {p : String × Sym} (hp : p ∈ axisStores pfx axis) :
    ∃ suffix, Dotless suffix ∧ p.1 = signal pfx suffix := by
  have hall : ∀ p ∈ axisStores pfx axis,
      ∃ suffix ∈ ["homing_state", "vel_cmd", "enable", "pos_cmd", "homed"], p.1 = signal pfx suffix := by
    simp [axisStores]
  have hdot : ∀ suffix ∈ ["homing_state", "vel_cmd", "enable", "pos_cmd", "homed"], Dotless suffix := by decide
  obtain ⟨suffix, hmem, heq⟩ := hall p hp
  exact ⟨suffix, hdot suffix hmem, heq⟩

theorem axisEffect_state_keep (cfg : AxisGroupConfig) {pfx : String} {σ : SignalTable}
    (h : σ (signal pfx "homing_state") = some (.u8 stDone)) (axis : AxisConfig) :
    axisEffect cfg axis σ (signal pfx "homing_state") = some (.u8 stDone) := by
  by_cases hpfx : pfx = cfg.signalPrefix axis.index
  · rw [hpfx]
    exact axisEffect_state_self cfg axis σ
  · rw [← h]
    apply applyStores_of_ne
    intro p hp heq
    obtain ⟨suffix, hdot, hname⟩ := axisStores_prefix hp
    rw [hname, signal_inj (by decide) hdot] at heq
    exact hpfx heq.1

/-- **Behind a scan** every axis is DONE, whatever the state was. -/
theorem effect_state (haxis : axis ∈ cfg.axes) (σ : SignalTable) :
    effect cfg σ (signal (cfg.signalPrefix axis.index) "homing_state") = some (.u8 stDone) := by
  refine foldl_establishes (P := fun τ : SignalTable => τ (signal (cfg.signalPrefix axis.index) "homing_state") = _)
    haxis ?_ ?_ σ
  · intro τ
    exact axisEffect_state_self cfg axis τ
  · intro τ hτ axis' _
    exact axisEffect_state_keep cfg hτ axis'

/-! ## Sequences of scans -/

def homingState (cfg : AxisGroupConfig) (axis : AxisConfig) : String :=
  signal (cfg.signalPrefix axis.index) "homing_state"

/-- The limit switch on the side the axis homes to. -/
def homeSwitch (cfg : AxisGroupConfig) (axis : AxisConfig) : String :=
  limitSignalName (cfg.signalPrefix axis.index) axis.homeDirection

/-- The limit switches of the group. -/
def IsSwitch (cfg : AxisGroupConfig) (name : String) : Prop :=
  ∃ axis ∈ cfg.axes, ∃ side, name = limitSignalName (cfg.signalPrefix axis.index) side

/-- Between two scans the limit switches move, and nothing else; they are Booleans. -/
structure Switched (cfg : AxisGroupConfig) (σ σ' : SignalTable) : Prop where
  switch : ∀ name, IsSwitch cfg name → ∃ b, σ' name = some (.bool b)
  keep : ∀ name, ¬ IsSwitch cfg name → σ' name = σ name

/-- A sequence of engine scans from the table `σ` on. -/
inductive History (cfg : AxisGroupConfig) : SignalTable → List ScanRecord → Prop
  | nil (σ : SignalTable) : History cfg σ []
  | cons {σ : SignalTable} {s : ScanRecord} {rest : List ScanRecord} (hswitched : Switched cfg σ s.before)
      (hscan : Scans (generateHomingProgram cfg) s.before s.after)
      (hrest : History cfg s.after rest) : History cfg σ (s :: rest)

/-- Every axis is IDLE. -/
def Idle (cfg : AxisGroupConfig) (σ : SignalTable) : Prop :=
  ∀ axis ∈ cfg.axes, σ (homingState cfg axis) = some (.u8 stIdle)

/-- A scan from `σ` executes a store to the signal. -/
def StoresTo (hp : HalProgram) (σ : SignalTable) (name : String) : Prop :=
  ∃ vm n u args, RunN (next hp.instructions) n (scanStart vm σ) u ∧
    hp.instructions[u.ip]? = some ⟨.store, .signalName name :: args⟩

/-- One step at most along IDLE, SEEK, LATCH, BACKOFF, DONE; out of SEEK with the switch closed, out of LATCH with the
switch open. -/
def AdvancesBySwitch (cfg : AxisGroupConfig) (axis : AxisConfig) (s : ScanRecord) : Prop :=
  ∃ a b : UInt8, s.before (homingState cfg axis) = some (.u8 a) ∧ s.after (homingState cfg axis) = some (.u8 b) ∧
    (b = a ∨ a < stDone ∧ b = a + 1) ∧
    (a = stSeek → b ≠ a → s.before (homeSwitch cfg axis) = some (.bool true)) ∧
    (a = stLatch → b ≠ a → s.before (homeSwitch cfg axis) = some (.bool false))

/-- Some scan saw the switch closed, and a later one saw it open. -/
def SawSwitch (cfg : AxisGroupConfig) (axis : AxisConfig) (scans : List ScanRecord) : Prop :=
  ∃ pre closed mid opened post, scans = pre ++ closed :: (mid ++ opened :: post) ∧
    closed.before (homeSwitch cfg axis) = some (.bool true) ∧
    opened.before (homeSwitch cfg axis) = some (.bool false)

/-- Homing follows the limit switch. -/
def SafeHoming (cfg : AxisGroupConfig) (scans : List ScanRecord) : Prop :=
  ∀ axis ∈ cfg.axes,
    (∀ s ∈ scans, AdvancesBySwitch cfg axis s) ∧
    ∀ pre s post, scans = pre ++ s :: post →
      StoresTo (generateHomingProgram cfg) s.before (signal (cfg.signalPrefix axis.index) "homed") →
      SawSwitch cfg axis pre

omit [F64Literals] in
theorem Idle.switched {σ σ' : SignalTable} (h : Idle cfg σ) (hs : Switched cfg σ σ') : Idle cfg σ' := by
  intro axis haxis
  rw [hs.keep]
  · exact h axis haxis
  · rintro ⟨axis', _, side, hname⟩
    revert hname
    cases side with
    | positive => exact signal_ne (by decide) (by decide) (by decide)
    | negative => exact signal_ne (by decide) (by decide) (by decide)

/-- The first scan takes an axis from IDLE to DONE. -/
theorem not_safeHoming {σ : SignalTable} {s : ScanRecord} {rest : List ScanRecord}
    (haxis : axis ∈ cfg.axes) (hidle : Idle cfg σ) (hrun : History cfg σ (s :: rest)) :
    ¬ SafeHoming cfg (s :: rest) := by
  intro hsafe
  cases hrun with
  | cons hswitched hscan _ =>
    obtain ⟨a, b, hbefore, hafter, hstep, _⟩ := (hsafe axis haxis).1 _ (List.mem_cons_self ..)
    rw [hidle.switched hswitched axis haxis] at hbefore
    rw [hscan.det (scans cfg _), homingState, effect_state haxis] at hafter
    cases hbefore
    cases hafter
    revert hstep
    decide

/-- **Homing.** Over a sequence of scans from IDLE, homing follows the limit switches exactly when the group has no
axis or no scan is made. -/
theorem safeHoming_iff (cfg : AxisGroupConfig) (σ : SignalTable) (scans : List ScanRecord) (hidle : Idle cfg σ)
    (hrun : History cfg σ scans) : SafeHoming cfg scans ↔ cfg.axes = [] ∨ scans = [] := by
  constructor
  · intro hsafe
    cases hrun with
    | nil => exact .inr rfl
    | cons hswitched hscan hrest =>
      left
      rw [List.eq_nil_iff_forall_not_mem]
      intro axis haxis
      exact not_safeHoming haxis hidle (.cons hswitched hscan hrest) hsafe
  · rintro (hnone | rfl)
    · intro axis haxis
      rw [hnone] at haxis
      cases haxis
    · intro axis _
      refine ⟨?_, ?_⟩
      · intro s hs
        cases hs
      · intro pre s post h
        exact absurd h (by simp)

end Homing

end Audesys.Cnc

/-! ## A scan with the switch open -/

namespace Audesys.Cnc.Homing

open Audesys.Hal

local instance releaseHoming : Target := host false
local instance releaseHomingLiterals : F64Literals := hostLiterals false

/-- One axis, homing to the negative side. -/
def oneAxis : AxisGroupConfig where
  name := "group.0"
  axes := [{
    index := 0
    softLimitMin := (0 : UInt64)
    softLimitMax := (0x408F400000000000 : UInt64)
    softLimitEnable := true
    backlashDistance := (0 : UInt64)
    backlashEnable := false
    homeSearchVel := (0x4049000000000000 : UInt64)
    homeLatchVel := (0x4014000000000000 : UInt64)
    homeOffset := (0 : UInt64)
    homeDirection := .negative }]

/-- IDLE, and no limit switch closed. -/
def idleOpen : SignalTable := fun name =>
  if name = "group.group.0.axis.0.homing_state" then some (.u8 stIdle) else some (.bool false)

def openScan : ScanRecord := ⟨idleOpen, effect oneAxis idleOpen⟩

theorem idleOpen_idle : Idle oneAxis idleOpen := by
  intro axis haxis
  rw [List.mem_singleton.1 haxis]
  decide

theorem openScan_history : History oneAxis idleOpen [openScan] := by
  refine .cons ⟨?_, fun _ _ => rfl⟩ (scans oneAxis idleOpen) (.nil _)
  rintro name ⟨axis, haxis, side, rfl⟩
  rw [List.mem_singleton.1 haxis]
  refine ⟨false, if_neg ?_⟩
  cases side <;> decide

/-- The axis goes from IDLE to DONE in one scan in which its switch is open. -/
theorem openScan_unsafe : Idle oneAxis idleOpen ∧ History oneAxis idleOpen [openScan] ∧
    ¬ SafeHoming oneAxis [openScan] :=
  ⟨idleOpen_idle, openScan_history, not_safeHoming (List.mem_singleton_self _) idleOpen_idle openScan_history⟩

theorem safeHoming_openScan : SafeHoming oneAxis [openScan] ↔ oneAxis.axes = [] ∨ [openScan] = [] :=
  safeHoming_iff oneAxis idleOpen [openScan] idleOpen_idle openScan_history

end Audesys.Cnc.Homing
