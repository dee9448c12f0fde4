import Audesys.Cnc.Emit
import Audesys.Lib.Patch

/-!
# `Cnc.Backlash` — the backlash program

`backlash.rs` takes the sign of the velocity by two tests, and skips the compensation where the sign is zero or the last
one. The skips are `JumpIf`s that do not skip (`Cnc.Emit`); the one `Jump`, from behind the first test over the second,
does. So the new direction is one whatever the velocity is, and every scan adds the distance (`effect_pos_of`). That is
right for a reversal to forward (`compensatesReversals_of_right`).

The target of the `Jump` is absolute and has 32 bits, so the code of an axis depends on where it stands, and a program
that is too long for its targets does not end (`not_haltsAt_of_not_jumpsFit`).
-/

namespace Audesys.Cnc

open Audesys.Hal Audesys.Lib

variable [Target] [F64Literals]

namespace Backlash

variable {cfg : AxisGroupConfig} {axis : AxisConfig} {σ : SignalTable}
variable {p : Target.F64} {pfx : String} {b : Nat}

/-! ## The generator -/

def rPos : UInt8 := 0
def rVel : UInt8 := 1
def rLastDir : UInt8 := 2
def rNewDir : UInt8 := 3
def rBacklash : UInt8 := 4
def rComp : UInt8 := 5
def rScratch : UInt8 := 6
def rZero : UInt8 := 7
def rOne : UInt8 := 8

abbrev cmpGt (a b dst : UInt8) : Emit Unit := cmpReg .gt a b dst rZero
abbrev cmpLt (a b dst : UInt8) : Emit Unit := cmpReg .lt a b dst rZero
abbrev cmpNeImm (reg : UInt8) (imm : Target.F64) (dst : UInt8) : Emit Unit := Cnc.cmpNeImm reg imm dst rBacklash rZero
abbrev emitJumpIfNot (condReg : UInt8) : Emit Nat := skipIfNot condReg rBacklash

/-- A jump without its target, which `patchJump` fills in later. -/
def emitJump : Emit Nat := do
  let idx ← len
  push (.jump 0)
  pure idx

/-- What this `patch_jump` does to the instruction it finds: it knows both jumps. -/
def retargetJump (target : Nat) (inst : Instruction) : Instruction :=
  match inst.opcode with
  | .jump =>
    if inst.operands = [] then inst
    else { inst with operands := inst.operands.set 0 (.immediate (.u32 (.ofNat target))) }
  | .jumpIf => retarget target inst
  | _ => inst

def patchJump (jumpIdx target : Nat) : Emit Unit := fun is => ((), is.modify jumpIdx (retargetJump target))

/-- The new direction, by the sign of the velocity. -/
def emitSign : Emit Unit := do
  loadF64 rNewDir f0
  cmpGt rVel rZero rScratch
  let notPos ← emitJumpIfNot rScratch
  loadF64 rNewDir f1
  let doneSign ← emitJump
  patchJump notPos (← len)
  cmpLt rVel rZero rScratch
  let notNeg ← emitJumpIfNot rScratch
  loadF64 rNewDir fm1
  let afterNeg ← len
  patchJump notNeg afterNeg
  patchJump doneSign afterNeg

/-- The compensation, where the direction is not zero and not the last one. -/
def emitReversal (axis : AxisConfig) : Emit Unit := do
  cmpNeImm rNewDir f0 rScratch
  let noReversal ← emitJumpIfNot rScratch
  copyReg rNewDir rScratch rZero
  push (.cmp .neq rScratch rLastDir)
  let noReversal2 ← emitJumpIfNot rScratch
  loadF64 rBacklash axis.backlashDistance
  push (.arith .mul rBacklash rNewDir rComp)
  push (.arith .add rPos rComp rPos)
  let afterComp ← len
  patchJump noReversal2 afterComp
  patchJump noReversal afterComp

/-- The compensation of one axis. -/
def emitAxis (pfx : String) (axis : AxisConfig) : Emit Unit := do
  loadSignal rPos (signal pfx "pos_cmd")
  loadSignal rVel (signal pfx "vel_cmd")
  loadSignal rLastDir (signal pfx "last_dir")
  emitSign
  emitReversal axis
  storeSignal (signal pfx "last_dir") rNewDir
  storeSignal (signal pfx "pos_cmd") rPos

def axisBindings (pfx : String) : List SignalBinding :=
  [axisBinding pfx "pos_cmd" .readWrite .f64, axisBinding pfx "vel_cmd" .read .f64,
    axisBinding pfx "last_dir" .readWrite .f64]

/-- The axes that the loop does not `continue` on. -/
def isCompensated (axis : AxisConfig) : Bool := axis.backlashEnable && !FloatFormat.beq axis.backlashDistance f0

/-- The body of the loop over the axes. -/
def emitCompensated (cfg : AxisGroupConfig) (axis : AxisConfig) : Emit PUnit :=
  if isCompensated axis then emitAxis (cfg.signalPrefix axis.index) axis else pure ()

end Backlash

open Backlash

/-- `generate_backlash_program`. -/
def generateBacklashProgram (cfg : AxisGroupConfig) : HalProgram where
  name := "backlash_" ++ cfg.name
  signals := cfg.axes.flatMap fun axis =>
    if isCompensated axis then Backlash.axisBindings (cfg.signalPrefix axis.index) else []
  instructions := emitted do
    emitConstants rZero rOne
    cfg.axes.forM (emitCompensated cfg)
    push .halt
  functionTable := []

namespace Backlash

/-! ## The code of an axis -/

/-- A `JumpIf` as the generator writes it, with its target. -/
def skip (condReg : UInt8) (target : Nat) : Instruction :=
  ⟨.jumpIf, [.register condReg, .immediate (.u32 (.ofNat target))]⟩

/-- Up to the jump: a new direction of one. -/
def frontCode (pfx : String) (b : Nat) : List Instruction :=
  [⟨.load, [.register rPos, .signalName (signal pfx "pos_cmd")]⟩,
    ⟨.load, [.register rVel, .signalName (signal pfx "vel_cmd")]⟩,
    ⟨.load, [.register rLastDir, .signalName (signal pfx "last_dir")]⟩,
    .loadImm rNewDir (.f64 f0), .arith .add rVel rZero rScratch, .cmp .gt rScratch rZero,
    .loadImm rBacklash (.f64 f0), .cmp .eq rScratch rBacklash, skip rScratch (b + 11), .loadImm rNewDir (.f64 f1)]

/-- What the jump skips: the test for a negative velocity. -/
def negativeCode (b : Nat) : List Instruction :=
  [.arith .add rVel rZero rScratch, .cmp .lt rScratch rZero, .loadImm rBacklash (.f64 f0),
    .cmp .eq rScratch rBacklash, skip rScratch (b + 17), .loadImm rNewDir (.f64 fm1)]

def backCode (pfx : String) (axis : AxisConfig) (b : Nat) : List Instruction :=
  [.loadImm rBacklash (.f64 f0), .arith .add rNewDir rZero rScratch, .cmp .neq rScratch rBacklash,
    .loadImm rBacklash (.f64 f0), .cmp .eq rScratch rBacklash, skip rScratch (b + 31),
    .arith .add rNewDir rZero rScratch, .cmp .neq rScratch rLastDir,
    .loadImm rBacklash (.f64 f0), .cmp .eq rScratch rBacklash, skip rScratch (b + 31),
    .loadImm rBacklash (.f64 axis.backlashDistance), .arith .mul rBacklash rNewDir rComp, .arith .add rPos rComp rPos,
    ⟨.store, [.signalName (signal pfx "last_dir"), .register rNewDir]⟩,
    ⟨.store, [.signalName (signal pfx "pos_cmd"), .register rPos]⟩]

/-- The code of an axis whose first instruction is at `b`. -/
def axisCode (pfx : String) (axis : AxisConfig) (b : Nat) : List Instruction :=
  frontCode pfx b ++ .jump (.ofNat (b + 17)) :: (negativeCode b ++ backCode pfx axis b)

/-- The emitter in closed form: what it appends depends on the position only. -/
theorem emitAxis_eq (pfx : String) (axis : AxisConfig) (is : List Instruction) :
    emitAxis pfx axis is = ((), is ++ axisCode pfx axis is.length) := by
  simp [emitAxis, emitSign, emitReversal, bind, StateT.bind, loadF64, loadSignal, storeSignal, push, cmpReg, copyReg,
    skipIfNot, cmpEqImm, Cnc.cmpNeImm, len, emitJump, patchJump, pure_eq, modify_behind]
  rfl

/-- The blocks of the axes, the first at `b`. -/
def axesCode (cfg : AxisGroupConfig) : List AxisConfig → Nat → List Instruction
  | [], _ => []
  | axis :: rest, b =>
    if isCompensated axis then axisCode (cfg.signalPrefix axis.index) axis b ++ axesCode cfg rest (b + 33)
    else axesCode cfg rest b

theorem emitAxes_eq (cfg : AxisGroupConfig) (axes : List AxisConfig) (is : List Instruction) :
    (axes.forM (emitCompensated cfg) is).2 = is ++ axesCode cfg axes is.length := by
  induction axes generalizing is with
  | nil => exact (List.append_nil _).symm
  | cons axis rest ih =>
    show (rest.forM (emitCompensated cfg) (emitCompensated cfg axis is).2).2 = _
    rw [ih, axesCode, emitCompensated]
    by_cases h : isCompensated axis = true
    · rw [if_pos h, if_pos h, emitAxis_eq, List.append_assoc, List.length_append]
      rfl
    · rw [if_neg h, if_neg h]
      rfl

/-- The program text. -/
theorem instructions_eq (cfg : AxisGroupConfig) : (generateBacklashProgram cfg).instructions =
      constantsCode rZero rOne ++ axesCode cfg cfg.axes 2 ++ [.halt] := by
  show (cfg.axes.forM (emitCompensated cfg) (constantsCode rZero rOne)).2 ++ [.halt] = _
  rw [emitAxes_eq]
  rfl

/-! ## One axis -/

/-- The stores of an axis: the direction is one, and the distance is added. -/
def axisStores (pfx : String) (axis : AxisConfig) : List (String × Sym) :=
  [(signal pfx "last_dir", .value (.f64 f1)),
    (signal pfx "pos_cmd", .add (.signal (signal pfx "pos_cmd"))
      (.mul (.value (.f64 axis.backlashDistance)) (.value (.f64 f1))))]

/-- In front of the jump and behind its target, the code is followed to the stores. -/
theorem exists_symRun (pfx : String) (axis : AxisConfig) (b : Nat) :
    ∃ mid regs, (SymState.ofConsts (consts rZero rOne)).run ((frontCode pfx b).map Instruction.blind) = some mid ∧
      mid.run ((backCode pfx axis b).map Instruction.blind) = some ⟨regs, axisStores pfx axis⟩ ∧
      regs rZero = some (.value (.f64 f0)) ∧ regs rOne = some (.value (.f64 f1)) :=
  ⟨_, _, rfl, rfl, rfl, rfl⟩

/-- **One axis.** Where the jump can hold its target, the block adds the distance, whatever the velocity. -/
theorem segment_axisCode {code : List Instruction}
    (hcode : CodeAt code b ((axisCode pfx axis b).map Instruction.blind)) (hfit : b + 17 < 2 ^ 32) :
    Segment code b (b + 33) (Holds (consts rZero rOne)) (Holds (consts rZero rOne))
      (fun σ => applyStores σ (axisStores pfx axis)) := by
  intro vm hip hpre
  subst hip
  unfold axisCode at hcode
  rw [List.map_append, List.map_cons, List.map_append] at hcode
  have hjump : CodeAt code (vm.ip + 10) (.jump (.ofNat (vm.ip + 17)) :: _) := hcode.right
  have hback : CodeAt code (vm.ip + 17) ((backCode pfx axis vm.ip).map Instruction.blind) := hjump.tail.right
  obtain ⟨mid, regs, hfront, hrest, hzero, hone⟩ := exists_symRun pfx axis vm.ip
  obtain ⟨vm₁, hr₁, hip₁, h₁⟩ := (Agrees.ofConsts hpre).run hcode.left hfront
  -- over the test for a negative velocity
  have hskip : next code vm₁ = some (vm₁.setIp (vm.ip + 17)) := by
    have hat : code[vm₁.ip]? = some (.jump (.ofNat (vm.ip + 17))) := by
      rw [hip₁]
      exact hjump.head
    have hnext := next_jump hat
    rwa [UInt32.toNat_ofNat_of_lt' hfit] at hnext
  obtain ⟨vm₂, hr₂, hip₂, h₂⟩ := (h₁.setIp (vm.ip + 17)).run hback hrest
  exact ⟨_, vm₂, hr₁.trans (.step hskip hr₂), hip₂, h₂.holds (consts_of hzero hone), h₂.signals⟩

/-! ## The whole program -/

/-- What the axis does to the signal table. -/
def axisEffect (cfg : AxisGroupConfig) (axis : AxisConfig) (σ : SignalTable) : SignalTable :=
  if isCompensated axis then applyStores σ (axisStores (cfg.signalPrefix axis.index) axis) else σ

/-- The backlash program, as a function of the signal table. -/
def effect (cfg : AxisGroupConfig) (σ : SignalTable) : SignalTable :=
  cfg.axes.foldl (fun τ axis => axisEffect cfg axis τ) σ

/-- Every jump can hold its target. -/
def JumpsFit : List AxisConfig → Nat → Prop
  | [], _ => True
  | axis :: rest, b => if isCompensated axis then b + 17 < 2 ^ 32 ∧ JumpsFit rest (b + 33) else JumpsFit rest b

theorem length_axisCode (pfx : String) (axis : AxisConfig) (b : Nat) : (axisCode pfx axis b).length = 33 := rfl

/-- The blocks of the axes run one after another, each with its own effect on the table. -/
theorem segment_axesCode {code : List Instruction} {axes : List AxisConfig}
    (hcode : CodeAt code b ((axesCode cfg axes b).map Instruction.blind)) (hfit : JumpsFit axes b) :
    Segment code b (b + (axesCode cfg axes b).length) (Holds (consts rZero rOne)) (Holds (consts rZero rOne))
      (fun σ => axes.foldl (fun τ axis => axisEffect cfg axis τ) σ) := by
  induction axes generalizing b with
  | nil => exact .refl
  | cons axis rest ih =>
    rw [axesCode] at hcode ⊢
    rw [JumpsFit] at hfit
    by_cases h : isCompensated axis = true
    · rw [if_pos h] at hcode hfit ⊢
      rw [List.map_append] at hcode
      have hrest : CodeAt code (b + 33) _ := hcode.right
      have hseg := (segment_axisCode hcode.left hfit.1).trans (ih hrest hfit.2)
      rw [List.length_append, length_axisCode, ← Nat.add_assoc]
      simpa only [List.foldl_cons, axisEffect, if_pos h] using hseg
    · rw [if_neg h] at hcode hfit ⊢
      simpa only [List.foldl_cons, axisEffect, if_neg h] using ih hcode hfit

theorem negativeCode_plain (b : Nat) :
    ∀ inst ∈ (negativeCode b).map Instruction.blind, inst.opcode.isPlain = true := by
  have hrun : ∃ st, (SymState.ofConsts (consts rZero rOne)).run ((negativeCode b).map Instruction.blind) = some st :=
    ⟨_, rfl⟩
  obtain ⟨st, hrun⟩ := hrun
  exact SymState.run_plain hrun

theorem straight_constants :
    Straight (constantsCode rZero rOne) (Holds []) (Holds (consts rZero rOne)) (fun σ => σ) :=
  straight_constantsCode (by decide) (by decide) (by decide)

/-- A block of the program leads on, or jumps to an index that is not behind it. -/
theorem axesCode_forward {axes : List AxisConfig} {inst : Instruction}
    (h : inst ∈ (axesCode cfg axes b).map Instruction.blind) :
    inst.opcode.isPlain = true ∨ ∃ t, t ≤ b + (axesCode cfg axes b).length ∧ inst = .jump (.ofNat t) := by
  induction axes generalizing b with
  | nil => cases h
  | cons axis rest ih =>
    rw [axesCode] at h ⊢
    by_cases hc : isCompensated axis = true
    · rw [if_pos hc] at h ⊢
      rw [List.map_append, List.mem_append] at h
      rw [List.length_append, length_axisCode]
      obtain ⟨mid, regs, hfront, hback, _⟩ := exists_symRun (cfg.signalPrefix axis.index) axis b
      rcases h with h | h
      · unfold axisCode at h
        rw [List.map_append, List.map_cons, List.map_append, List.mem_append, List.mem_cons, List.mem_append] at h
        rcases h with h | h | h | h
        · exact .inl (SymState.run_plain hfront inst h)
        · exact .inr ⟨b + 17, by omega, h⟩
        · exact .inl (negativeCode_plain b inst h)
        · exact .inl (SymState.run_plain hback inst h)
      · rcases ih h with h | ⟨t, ht, h⟩
        · exact .inl h
        · exact .inr ⟨t, by omega, h⟩
    · rw [if_neg hc] at h ⊢
      exact ih h

theorem axesCode_append (cfg : AxisGroupConfig) (l₁ l₂ : List AxisConfig) (b : Nat) :
    axesCode cfg (l₁ ++ l₂) b = axesCode cfg l₁ b ++ axesCode cfg l₂ (b + (axesCode cfg l₁ b).length) := by
  induction l₁ generalizing b with
  | nil => rfl
  | cons axis rest ih =>
    rw [List.cons_append, axesCode, axesCode]
    by_cases hc : isCompensated axis = true
    · rw [if_pos hc, if_pos hc, ih, List.append_assoc, List.length_append, length_axisCode, Nat.add_assoc]
    · rw [if_neg hc, if_neg hc, ih]

/-- Where a target does not fit, there is a first piece of the axes with a block behind it that jumps too far. -/
theorem exists_of_not_jumpsFit (cfg : AxisGroupConfig) {axes : List AxisConfig} (h : ¬ JumpsFit axes b) :
    ∃ pre axis post, axes = pre ++ axis :: post ∧ isCompensated axis = true ∧
      2 ^ 32 ≤ b + (axesCode cfg pre b).length + 17 := by
  induction axes generalizing b with
  | nil => exact absurd trivial h
  | cons axis rest ih =>
    rw [JumpsFit] at h
    by_cases hc : isCompensated axis = true
    · rw [if_pos hc, Classical.not_and_iff_not_or_not] at h
      by_cases hfit : b + 17 < 2 ^ 32
      · obtain ⟨pre, axis', post, rfl, hc', hle⟩ := ih (h.resolve_left fun hn => hn hfit)
        refine ⟨axis :: pre, axis', post, rfl, hc', ?_⟩
        rw [axesCode, if_pos hc, List.length_append, length_axisCode]
        omega
      · exact ⟨[], axis, rest, rfl, hc, Nat.le_of_not_lt hfit⟩
    · rw [if_neg hc] at h
      obtain ⟨pre, axis', post, rfl, hc', hle⟩ := ih h
      refine ⟨axis :: pre, axis', post, rfl, hc', ?_⟩
      rw [axesCode, if_neg hc]
      exact hle

/-- A block whose jump leads back to `last` or in front of it, behind code that leads on up to `last`: a trap. -/
theorem staysBelow_axisCode (pre post : List Instruction) (pfx : String) (axis : AxisConfig)
    (b target : Nat) (hpre : ∀ inst ∈ pre, inst.opcode.isPlain = true ∨
      ∃ t : UInt32, t.toNat ≤ pre.length + 10 ∧ inst = .jump t)
    (htarget : (UInt32.ofNat target).toNat ≤ pre.length + 10) : ∀ i ≤ pre.length + 10,
      StaysBelow (pre ++ ((frontCode pfx b).map Instruction.blind ++ .jump (.ofNat target) :: post)) (pre.length + 10) i := by
  obtain ⟨mid, regs, hfront, _⟩ := exists_symRun pfx axis b
  have hlen : ((frontCode pfx b).map Instruction.blind).length = 10 := rfl
  intro i hi
  by_cases h₁ : i < pre.length
  · refine ⟨pre[i], by rw [List.getElem?_append_left h₁, List.getElem?_eq_getElem h₁], ?_⟩
    rcases hpre pre[i] (List.getElem_mem h₁) with h | ⟨t, ht, h⟩
    · exact .inl ⟨h, by omega⟩
    · exact .inr ⟨t, h, ht⟩
  · rw [Nat.not_lt] at h₁
    obtain ⟨k, rfl⟩ := Nat.exists_eq_add_of_le h₁
    unfold StaysBelow
    rw [List.getElem?_append_right h₁, Nat.add_sub_cancel_left]
    by_cases h₂ : k < 10
    · rw [← hlen] at h₂
      refine ⟨_, by rw [List.getElem?_append_left h₂, List.getElem?_eq_getElem h₂], .inl ⟨?_, by omega⟩⟩
      exact SymState.run_plain hfront _ (List.getElem_mem h₂)
    · obtain rfl : k = 10 := by omega
      exact ⟨_, by rw [List.getElem?_append_right (by rw [hlen]), hlen]; rfl, .inr ⟨_, rfl, htarget⟩⟩

/-- A program in which some jump cannot hold its target does not end. -/
theorem not_haltsAt_of_not_jumpsFit (h : ¬ JumpsFit cfg.axes 2) {vm vm' : Vm} (hip : vm.ip = 0) :
    ¬ HaltsAt (generateBacklashProgram cfg).instructions vm vm' := by
  obtain ⟨pre, axis, post, haxes, hc, hle⟩ := exists_of_not_jumpsFit cfg h
  rw [← haltsAt_blind, instructions_eq, haxes, axesCode_append, axesCode, if_pos hc]
  let before := constantsCode rZero rOne ++ (axesCode cfg pre 2).map Instruction.blind
  let b := 2 + (axesCode cfg pre 2).length
  have hlen : before.length = b := by
    rw [List.length_append, List.length_map]
    rfl
  have hmod : ∀ t, (UInt32.ofNat t).toNat ≤ t := by
    intro t
    rw [UInt32.toNat_ofNat']
    exact Nat.mod_le _ _
  have hstays := staysBelow_axisCode before
    ((negativeCode b ++ backCode (cfg.signalPrefix axis.index) axis b ++ axesCode cfg post (b + 33) ++
      [Instruction.halt]).map Instruction.blind) (cfg.signalPrefix axis.index) axis b (b + 17) ?_ ?_
  · refine not_haltsAt_of_staysBelow (before.length + 10) ?_ (by omega)
    simpa only [before, constantsCode, b, axisCode, List.map_append, List.map_cons, List.map_nil, List.append_assoc,
      List.cons_append, List.nil_append, blind_loadImm, blind_jump] using hstays
  · intro inst hinst
    rcases List.mem_append.1 hinst with hinst | hinst
    · exact .inl (straight_constants.plain inst hinst)
    · rcases axesCode_forward hinst with hplain | ⟨t, ht, heq⟩
      · exact .inl hplain
      · refine .inr ⟨_, ?_, heq⟩
        exact (hmod t).trans (by omega)
  · rw [UInt32.toNat_ofNat', hlen]
    omega

theorem scans_of_jumpsFit (hfit : JumpsFit cfg.axes 2) (σ : SignalTable) :
    Scans (generateBacklashProgram cfg) σ (effect cfg σ) := by
  have hat : CodeAt ((generateBacklashProgram cfg).instructions.map Instruction.blind) 0
      (constantsCode rZero rOne ++ ((axesCode cfg cfg.axes 2).map Instruction.blind ++ [.halt])) := by
    rw [instructions_eq, List.map_append, List.map_append, List.append_assoc]
    exact .whole _
  have hblocks : CodeAt _ 2 ((axesCode cfg cfg.axes 2).map Instruction.blind ++ [.halt]) := hat.right
  have hseg := (straight_constants.segment _ 0 hat.left).trans
    (segment_axesCode hblocks.left hfit)
  have hhalt := hblocks.right.head
  rw [List.length_map] at hhalt
  exact hseg.scans hhalt σ

/-- **A scan** that ends has added up the distances. -/
theorem scans_effect {σ σ' : SignalTable} (h : Scans (generateBacklashProgram cfg) σ σ') :
    σ' = effect cfg σ := by
  by_cases hfit : JumpsFit cfg.axes 2
  · exact h.det (scans_of_jumpsFit hfit σ)
  · obtain ⟨vm', hhalt, _⟩ := h .new
    exact absurd hhalt (not_haltsAt_of_not_jumpsFit hfit rfl)

/-! ## The position -/

/-- What a scan adds to the position of the axes with this prefix. -/
def additions (cfg : AxisGroupConfig) (pfx : String) : List AxisConfig → List Target.F64
  | [] => []
  | axis :: rest =>
    if isCompensated axis = true ∧ cfg.signalPrefix axis.index = pfx then
      FloatFormat.mul axis.backlashDistance f1 :: additions cfg pfx rest
    else additions cfg pfx rest

theorem axisEffect_pos_self
    (hc : isCompensated axis = true) (hp : σ (signal (cfg.signalPrefix axis.index) "pos_cmd") = some (.f64 p)) :
    axisEffect cfg axis σ (signal (cfg.signalPrefix axis.index) "pos_cmd") =
      some (.f64 (FloatFormat.add p (FloatFormat.mul axis.backlashDistance f1))) := by
  unfold axisEffect
  rw [if_pos hc]
  show applyStores σ ([(signal _ "last_dir", _)] ++ [(signal _ "pos_cmd", _)]) _ = _
  rw [applyStores_snoc, SignalTable.write_self, Sym.eval, Sym.eval, SignalTable.read_of_eq hp]
  rfl

theorem axisEffect_pos_other (h : ¬ (isCompensated axis = true ∧ cfg.signalPrefix axis.index = pfx)) :
    axisEffect cfg axis σ (signal pfx "pos_cmd") = σ (signal pfx "pos_cmd") := by
  unfold axisEffect
  by_cases hc : isCompensated axis = true
  · have hne : ∀ suffix, Dotless suffix → signal pfx "pos_cmd" ≠ signal (cfg.signalPrefix axis.index) suffix := by
      intro suffix hdot heq
      exact h ⟨hc, ((signal_inj (by decide) hdot).1 heq).1.symm⟩
    rw [if_pos hc, applyStores_of_ne]
    intro store hstore
    rcases List.mem_cons.1 hstore with rfl | hstore
    · exact hne _ (by decide)
    · rw [List.mem_singleton.1 hstore]
      exact hne _ (by decide)
  · rw [if_neg hc]

/-- **The sum.** A scan adds the distances of all compensated axes with the prefix. -/
theorem effect_pos_of {axes : List AxisConfig} (hp : σ (signal pfx "pos_cmd") = some (.f64 p)) :
    axes.foldl (fun τ axis => axisEffect cfg axis τ) σ (signal pfx "pos_cmd") =
      some (.f64 ((additions cfg pfx axes).foldl FloatFormat.add p)) := by
  induction axes generalizing σ p with
  | nil => exact hp
  | cons axis rest ih =>
    rw [List.foldl_cons, additions]
    by_cases h : isCompensated axis = true ∧ cfg.signalPrefix axis.index = pfx
    · rw [if_pos h, List.foldl_cons]
      obtain ⟨hc, rfl⟩ := h
      exact ih (axisEffect_pos_self hc hp)
    · rw [if_neg h]
      exact ih ((axisEffect_pos_other h).trans hp)

/-! ## Sequences of scans -/

/-- The way an axis moves. -/
inductive Sense where
  | forward | backward
  deriving DecidableEq

/-- The sign of a velocity; a velocity that is zero has none. -/
def sense (v : Target.F64) : Option Sense :=
  match FloatFormat.partialCmp v f0 with
  | some .gt => some .forward
  | some .lt => some .backward
  | _ => none

def Sense.factor : Sense → Target.F64
  | .forward => f1
  | .backward => fm1

/-- The sign of the velocity of an axis in a scan. -/
def moves (cfg : AxisGroupConfig) (axis : AxisConfig) (s : ScanRecord) : Option Sense :=
  match s.before (signal (cfg.signalPrefix axis.index) "vel_cmd") with
  | some (.f64 v) => sense v
  | _ => none

/-- The sign of the most recent velocity other than zero. -/
def lastMove (cfg : AxisGroupConfig) (axis : AxisConfig) (scans : List ScanRecord) : Option Sense :=
  scans.foldl (fun last s => (moves cfg axis s).or last) none

/-- A sequence of engine scans. The velocities, and all else that is not a `last_dir`, may change in between. -/
inductive History (cfg : AxisGroupConfig) : SignalTable → List ScanRecord → Prop
  | nil (σ : SignalTable) : History cfg σ []
  | cons {σ : SignalTable} {s : ScanRecord} {rest : List ScanRecord}
      (hkeep : ∀ axis ∈ cfg.axes, s.before (signal (cfg.signalPrefix axis.index) "last_dir") =
        σ (signal (cfg.signalPrefix axis.index) "last_dir"))
      (hscan : Scans (generateBacklashProgram cfg) s.before s.after) (hrest : History cfg s.after rest) :
      History cfg σ (s :: rest)

/-- The position that is due: the distance in the new direction where the axis reverses, and nothing elsewhere. -/
def duePosition (axis : AxisConfig) (last : Sense) (now : Option Sense) (p : Target.F64) : Target.F64 :=
  match now with
  | some now => if now = last then p else FloatFormat.add p (FloatFormat.mul axis.backlashDistance now.factor)
  | none => p

/-- A scan of an axis that moved before: its place in the sequence, the last direction and the position. -/
structure Due (cfg : AxisGroupConfig) (scans : List ScanRecord) (axis : AxisConfig) (s : ScanRecord) (last : Sense)
    (p : Target.F64) : Prop where
  mem : axis ∈ cfg.axes
  enabled : axis.backlashEnable = true
  place : ∃ pre post, scans = pre ++ s :: post ∧ lastMove cfg axis pre = some last
  position : s.before (signal (cfg.signalPrefix axis.index) "pos_cmd") = some (.f64 p)

/-- Backlash is compensated once per reversal. -/
def CompensatesReversals (cfg : AxisGroupConfig) (scans : List ScanRecord) : Prop :=
  ∀ axis s last p, Due cfg scans axis s last p →
    s.after (signal (cfg.signalPrefix axis.index) "pos_cmd") =
      some (.f64 (duePosition axis last (moves cfg axis s) p))

/-- A scan in which the program adds what is due: the axis reverses to forward and no other compensated axis has its index,
or nothing is due and no axis with the index is compensated. -/
def AdditionRight (cfg : AxisGroupConfig) (axis : AxisConfig) (s : ScanRecord) (last : Sense) (p : Target.F64) : Prop :=
  last = .backward ∧ moves cfg axis s = some .forward ∧
      additions cfg (cfg.signalPrefix axis.index) cfg.axes = [FloatFormat.mul axis.backlashDistance f1] ∨
    duePosition axis last (moves cfg axis s) p = p ∧ additions cfg (cfg.signalPrefix axis.index) cfg.axes = []

/-- In such a scan the sum is the position that is due. -/
theorem AdditionRight.sum {s : ScanRecord} {last : Sense} (h : AdditionRight cfg axis s last p) :
    (additions cfg (cfg.signalPrefix axis.index) cfg.axes).foldl FloatFormat.add p =
      duePosition axis last (moves cfg axis s) p := by
  rcases h with ⟨rfl, hmoves, hadd⟩ | ⟨hdue, hadd⟩
  · rw [hadd, hmoves]
    rfl
  · rw [hadd, hdue]
    rfl

theorem History.scan_of_mem {scans : List ScanRecord} {s : ScanRecord}
    (h : History cfg σ scans) (hs : s ∈ scans) : Scans (generateBacklashProgram cfg) s.before s.after := by
  induction h with
  | nil => cases hs
  | cons _ hscan _ ih =>
    rcases List.mem_cons.1 hs with rfl | hs
    · exact hscan
    · exact ih hs

/-- **Backlash.** Over a sequence of scans, the program compensates once per reversal if every scan of an axis that moved
before adds what is due. -/
theorem compensatesReversals_of_right (cfg : AxisGroupConfig) (σ : SignalTable) (scans : List ScanRecord)
    (hrun : History cfg σ scans)
    (hright : ∀ axis s last p, Due cfg scans axis s last p → AdditionRight cfg axis s last p) :
    CompensatesReversals cfg scans := by
  intro axis s last p hdue
  obtain ⟨pre, post, hplace, _⟩ := hdue.place
  have hmem : s ∈ scans := hplace ▸ List.mem_append_right _ (List.mem_cons_self ..)
  rw [scans_effect (hrun.scan_of_mem hmem), effect, effect_pos_of hdue.position, (hright axis s last p hdue).sum]

end Backlash

end Audesys.Cnc

/-! ## An axis that stops -/

namespace Audesys.Cnc.Backlash

open Audesys.Hal

local instance wholeBacklash : Target := whole
local instance wholeBacklashLiterals : F64Literals := wholeLiterals

/-- One axis with a backlash of 2. -/
def looseAxis : AxisConfig where
  index := 0
  softLimitMin := (0 : Int)
  softLimitMax := (1000 : Int)
  softLimitEnable := true
  backlashDistance := (2 : Int)
  backlashEnable := true
  homeSearchVel := (50 : Int)
  homeLatchVel := (5 : Int)
  homeOffset := (0 : Int)
  homeDirection := .negative

def looseGroup : AxisGroupConfig := ⟨"group.0", [looseAxis]⟩

/-- The axis at position 10, moving with velocity `v` for the first time. -/
def movingTable (v : Int) : SignalTable := fun name =>
  if name = "group.group.0.axis.0.vel_cmd" then some (.f64 v)
  else if name = "group.group.0.axis.0.pos_cmd" then some (.f64 (10 : Int))
  else if name = "group.group.0.axis.0.last_dir" then some (.f64 (0 : Int))
  else none

/-- A scan with velocity `v`, and one with velocity `w` behind it. -/
def firstScan (v : Int) : ScanRecord := ⟨movingTable v, effect looseGroup (movingTable v)⟩
def secondTable (v w : Int) : SignalTable := (firstScan v).after.write "group.group.0.axis.0.vel_cmd" (.f64 w)
def secondScan (v w : Int) : ScanRecord := ⟨secondTable v w, effect looseGroup (secondTable v w)⟩

theorem looseGroup_history (v w : Int) : History looseGroup (movingTable v) [firstScan v, secondScan v w] := by
  have hfit : JumpsFit looseGroup.axes 2 := by
    refine ⟨by decide, trivial⟩
  refine .cons (fun _ _ => rfl) (scans_of_jumpsFit hfit _) (.cons ?_ (scans_of_jumpsFit hfit _) (.nil _))
  intro axis haxis
  rw [List.mem_singleton.1 haxis]
  have hne : signal (looseGroup.signalPrefix looseAxis.index) "last_dir" ≠ "group.group.0.axis.0.vel_cmd" := by decide
  exact SignalTable.write_ne _ (.f64 w) hne

/-- An axis that moves forward and then stops is moved by another 2, to 14 in place of 12. -/
theorem stoppedAxis_drifts : History looseGroup (movingTable 1) [firstScan 1, secondScan 1 0] ∧
    ¬ CompensatesReversals looseGroup [firstScan 1, secondScan 1 0] := by
  refine ⟨looseGroup_history 1 0, ?_⟩
  intro h
  have hdrift := h looseAxis (secondScan 1 0) .forward (12 : Int)
    ⟨List.mem_singleton_self _, rfl, ⟨[firstScan 1], [], rfl, rfl⟩, rfl⟩
  revert hdrift
  decide

/-- The same with a reversal to forward. -/
theorem compensatesReversals_forward : CompensatesReversals looseGroup [firstScan (-1), secondScan (-1) 1] := by
  refine compensatesReversals_of_right looseGroup (movingTable (-1)) _ (looseGroup_history (-1) 1) ?_
  intro axis s last p hdue
  obtain ⟨pre, post, heq, hlast⟩ := hdue.place
  rw [List.mem_singleton.1 hdue.mem] at hlast ⊢
  -- the first scan has no direction before it, so the scan is the second one
  match pre, heq with
  | [], _ => cases hlast
  | [_], heq =>
    cases heq
    cases hlast
    exact .inl ⟨rfl, by decide, rfl⟩
  | _ :: _ :: pre, heq =>
    have hlen := congrArg List.length heq
    rw [List.length_append] at hlen
    change 2 = pre.length + 1 + 1 + (post.length + 1) at hlen
    omega

end Audesys.Cnc.Backlash
