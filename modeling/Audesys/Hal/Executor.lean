import Audesys.Hal.Vm

/-!
# `Hal.Executor` — the sequential instruction interpreter

`executor.rs`, branch by branch. An instruction whose operand list has the wrong shape does nothing and
continues; a panic (instruction pointer or register index out of range, an arithmetic panic of `Hal.Value`)
is `none`. The interpreter is split as in the source: `executeInstruction` dispatches on the opcode, `step`
adds the bounds assertion, the breakpoint test, the trace and the advance of the instruction pointer.
-/

namespace Audesys.Hal

inductive ExecutorResult where
  | cont | halted | breaked
  deriving DecidableEq

variable [Target]

namespace Exec

/-! ## Operand access -/

def readReg (vm : Vm) : Operand → Option HalValue
  | .register r => vm.readRegister r
  | _ => some (.s32 0)

def destReg : Operand → UInt8
  | .register r => r
  | _ => 0

/-- `value_as_usize`: `as usize` sign-extends. -/
def valueAsUsize : HalValue → UInt64
  | .s32 n => UInt64.ofInt n.toInt
  | .s16 n => UInt64.ofInt n.toInt
  | .s8 n => UInt64.ofInt n.toInt
  | .u32 n => UInt64.ofNat n.toNat
  | .u16 n => UInt64.ofNat n.toNat
  | .u8 n => UInt64.ofNat n.toNat
  | .s64 n => UInt64.ofInt n.toInt
  | .u64 n => n
  | _ => 0

def readU32Operand : Option Operand → UInt32
  | some (.immediate (.u32 v)) => v
  | some (.immediate (.s32 v)) => UInt32.ofInt v.toInt
  | _ => 0

/-! ## Data movement, arithmetic, comparison -/

def execLoad (vm : Vm) : List Operand → Option Vm
  | .register dest :: src :: _ => do
    let v ← match src with
      | .immediate v => some v
      | .register r => vm.readRegister r
      | .signalName n => some ((vm.readSignal n).getD (.bool false))
    vm.writeRegister dest v
  | _ => some vm

def execStore (vm : Vm) : List Operand → Option Vm
  | .signalName n :: src :: _ => do
    let v ← readReg vm src
    some (vm.writeSignal n v)
  | _ => some vm

def execLoadIndex (vm : Vm) : List Operand → Option Vm
  | .register dest :: .register arr :: .register idx :: _ => do
    let a ← vm.readRegister arr
    let i ← vm.readRegister idx
    let elem ← a.index (valueAsUsize i)
    vm.writeRegister dest elem
  | _ => some vm

def execStoreIndex (vm : Vm) : List Operand → Option Vm
  | .register arr :: .register idx :: .register value :: _ => do
    let a ← vm.readRegister arr
    let i ← vm.readRegister idx
    let v ← vm.readRegister value
    let updated ← a.setIndex (valueAsUsize i) v
    vm.writeRegister arr updated
  | _ => some vm

def execArithBinop (f : HalValue → HalValue → Option HalValue) (vm : Vm) : List Operand → Option Vm
  | op0 :: op1 :: op2 :: _ => do
    let a ← readReg vm op0
    let b ← readReg vm op1
    let r ← f a b
    vm.writeRegister (destReg op2) r
  | _ => some vm

def execUnary (f : HalValue → Option HalValue) (vm : Vm) : List Operand → Option Vm
  | op0 :: op1 :: _ => do
    let a ← readReg vm op0
    let r ← f a
    vm.writeRegister (destReg op1) r
  | _ => some vm

def execCompare (f : HalValue → HalValue → Bool) (vm : Vm) : List Operand → Option Vm
  | op0 :: op1 :: _ => do
    let a ← readReg vm op0
    let b ← readReg vm op1
    some (vm.setFlagsZero (f a b))
  | _ => some vm

/-- `Opcode::Div`: the saturating test comes first, whatever the dividend. -/
def divOp (a b : HalValue) : Option HalValue :=
  if b.isZeroDivisor then some (.s32 0) else a.div b

/-- `Opcode::Mod`. -/
def modOp (a b : HalValue) : Option HalValue :=
  if b.isZeroDivisor then some (.s32 0) else a.rem b

/-! ## Control flow -/

def execJump (vm : Vm) : List Operand → Vm
  | .immediate (.u32 target) :: _ => vm.setIp target.toNat
  | _ => vm

def execJumpIf (vm : Vm) (operands : List Operand) : Vm :=
  match vm.flagsZero, operands with
  | true, .immediate (.u32 target) :: _ => vm.setIp target.toNat
  | _, _ => vm.advanceIp

def execCall (vm : Vm) (operands : List Operand) : Vm :=
  (vm.pushCallIp (vm.ip + 1)).setIp (readU32Operand operands.head?).toNat

def execRet (vm : Vm) (operands : List Operand) : Option (Vm × ExecutorResult) :=
  match vm.callStack with
  | returnIp :: rest => do
    let vm := { vm with callStack := rest }
    let vm ← match operands.head? with
      | some (.register r) => do
        let v ← vm.readRegister r
        vm.writeRegister 0 v
      | _ => some vm
    some (vm.setIp returnIp, .cont)
  | [] => some (vm, .halted)

/-! ## Function blocks -/

/-- `u64::saturating_add`. -/
def satAdd (a b : UInt64) : UInt64 :=
  if a.toNat + b.toNat < 2 ^ 64 then a + b else UInt64.ofNat (2 ^ 64 - 1)

/-- One scan of a timer. -/
def tickTimer (t : TimerState) (kind : TimerKind) (pt : UInt64) (inBool : Bool) (cycle : UInt64) :
    TimerState :=
  let prevIn := t.inVal
  let t := { t with presetMs := pt, kind := kind }
  let t := match kind with
    | .ton =>
      if !inBool then { t with q := false, elapsedMs := 0 }
      else if t.elapsedMs ≥ t.presetMs then { t with q := true }
      else
        let t := { t with elapsedMs := satAdd t.elapsedMs cycle }
        if t.elapsedMs ≥ t.presetMs then { t with q := true, elapsedMs := t.presetMs } else t
    | .tof =>
      if inBool then { t with q := true, elapsedMs := 0 }
      else if t.q then
        let t := { t with elapsedMs := satAdd t.elapsedMs cycle }
        if t.elapsedMs ≥ t.presetMs then { t with q := false, elapsedMs := t.presetMs } else t
      else t
    | .tp =>
      let t := if inBool && !prevIn then { t with q := true, elapsedMs := 0 } else t
      if t.q then
        let t := { t with elapsedMs := satAdd t.elapsedMs cycle }
        let t := if t.elapsedMs ≥ t.presetMs then { t with q := false, elapsedMs := t.presetMs } else t
        if !inBool then { t with q := false } else t
      else t
  { t with inVal := inBool }

def timerKindOf : Option Operand → TimerKind
  | some (.immediate (.u32 k)) => if k = 1 then .tof else if k = 2 then .tp else .ton
  | _ => .ton

def execTimerRun (vm : Vm) : List Operand → Option Vm
  | .immediate (.u32 i) :: op1 :: op2 :: rest => do
    let kind := timerKindOf rest.head?
    let vm := { vm with timers := Vm.grow vm.timers i.toNat (Vm.freshTimer kind) }
    match op1 with
    | .register inReg =>
      let pt? : Option UInt64 := match op2 with
        | .immediate (.u32 p) => some (UInt64.ofNat p.toNat)
        | .immediate (.s32 p) => some (UInt64.ofInt p.toInt)
        | _ => none
      match pt? with
      | none => some vm
      | some pt => do
        let inVal ← vm.readRegister inReg
        let inBool := inVal.beq (.bool true)
        let t ← vm.timers[i.toNat]?
        some { vm with timers := vm.timers.set i.toNat (tickTimer t kind pt inBool vm.cycleTimeMs) }
    | _ => some vm
  | _ => some vm

def execReadTimer (vm : Vm) : List Operand → Option Vm
  | .immediate (.u32 i) :: op1 :: op2 :: _ =>
    let vm := { vm with timers := Vm.grow vm.timers i.toNat (Vm.freshTimer .ton) }
    match op1, op2 with
    | .register qDest, .register etDest => do
      let t ← vm.timers[i.toNat]?
      let vm ← vm.writeRegister qDest (.bool t.q)
      vm.writeRegister etDest (.u32 t.elapsedMs.toUInt32)
    | _, _ => some vm
  | _ => some vm

/-- A register read as a Boolean input: anything but `Bool(true)` is false. -/
def readBool (vm : Vm) (r : UInt8) : Option Bool := do
  let v ← vm.readRegister r
  match v with
  | .bool b => some b
  | _ => some false

/-- One execution of a counter. `cv + 1` is an unchecked `u32` addition. -/
def tickCounter (c : CounterState) (kind : CounterKind) (pv : UInt32) (cu cd : Bool) :
    Option CounterState := do
  let prevCu := c.cuVal
  let prevCd := c.cdVal
  let c := { c with pv := pv, kind := kind, cuVal := cu, cdVal := cd }
  let up (c : CounterState) : Option CounterState := do
    if cu && !prevCu then
      let n ← MachineInt.add c.cv 1
      some { c with cv := min n c.pv }
    else some c
  let down (c : CounterState) : CounterState :=
    if cd && !prevCd then { c with cv := if c.cv = 0 then 0 else c.cv - 1 } else c
  match kind with
  | .ctu => do
    let c ← up c
    some { c with q := c.cv ≥ c.pv }
  | .ctd =>
    let c := down c
    some { c with q := c.cv ≤ 0 }
  | .ctud => do
    let c ← up c
    let c := down c
    some { c with qu := c.cv ≥ c.pv, qd := c.cv ≤ 0, q := c.cv ≥ c.pv }

def counterKindOf : Operand → CounterKind
  | .immediate (.u32 k) => if k = 0 then .ctu else if k = 1 then .ctd else .ctud
  | _ => .ctu

def execCounterRun (vm : Vm) : List Operand → Option Vm
  | .immediate (.u32 i) :: op1 :: op2 :: op3 :: op4 :: _ =>
    let vm := { vm with counters := Vm.grow vm.counters i.toNat (Vm.freshCounter .ctu) }
    match op1, op2, op3 with
    | .register cuReg, .register cdReg, .immediate (.u32 pv) => do
      let cu ← readBool vm cuReg
      let cd ← readBool vm cdReg
      let c ← vm.counters[i.toNat]?
      let c ← tickCounter c (counterKindOf op4) pv cu cd
      some { vm with counters := vm.counters.set i.toNat c }
    | _, _, _ => some vm
  | _ => some vm

def execReadCounter (vm : Vm) : List Operand → Option Vm
  | .immediate (.u32 i) :: op1 :: op2 :: _ =>
    let vm := { vm with counters := Vm.grow vm.counters i.toNat (Vm.freshCounter .ctu) }
    match op1, op2 with
    | .register qDest, .register cvDest => do
      let c ← vm.counters[i.toNat]?
      let vm ← vm.writeRegister qDest (.bool c.q)
      vm.writeRegister cvDest (.u32 c.cv)
    | _, _ => some vm
  | _ => some vm

/-- One execution of a flip-flop. -/
def tickSr (s : SrState) (kind : SrKind) (s1 r : Bool) : SrState :=
  let s := { s with kind := kind }
  let s := match kind with
    | .sr =>
      if s1 then { s with q1 := true, q2 := false }
      else if r then { s with q1 := false, q2 := true } else s
    | .rs =>
      if r then { s with q1 := false, q2 := true }
      else if s1 then { s with q1 := true, q2 := false } else s
  { s with s1 := s1, r := r }

/-- A non-register operand is the constant false. -/
def readBoolOperand (vm : Vm) : Operand → Option Bool
  | .register r => readBool vm r
  | _ => some false

def srKindOf : Operand → SrKind
  | .immediate (.u32 k) => if k = 1 then .rs else .sr
  | _ => .sr

def execSrRun (vm : Vm) : List Operand → Option Vm
  | .immediate (.u32 i) :: op1 :: op2 :: op3 :: _ => do
    let s1 ← readBoolOperand vm op1
    let r ← readBoolOperand vm op2
    let kind := srKindOf op3
    let vm := { vm with srs := Vm.grow vm.srs i.toNat (Vm.freshSr kind) }
    let s ← vm.srs[i.toNat]?
    some { vm with srs := vm.srs.set i.toNat (tickSr s kind s1 r) }
  | _ => some vm

def execReadSr (vm : Vm) : List Operand → Option Vm
  | .immediate (.u32 i) :: op1 :: op2 :: _ =>
    let vm := { vm with srs := Vm.grow vm.srs i.toNat (Vm.freshSr .sr) }
    match op1, op2 with
    | .register q1Dest, .register q2Dest => do
      let s ← vm.srs[i.toNat]?
      let vm ← vm.writeRegister q1Dest (.bool s.q1)
      vm.writeRegister q2Dest (.bool s.q2)
    | _, _ => some vm
  | _ => some vm

/-- One execution of an edge detector. -/
def tickEdge (e : EdgeState) (kind : UInt8) (clk : Bool) : EdgeState :=
  let q := if kind = 0 then clk && !e.lastClk else if kind = 1 then !clk && e.lastClk else false
  { kind := kind, q := q, lastClk := clk }

def edgeKindOf : Operand → UInt8
  | .immediate (.u32 k) => k.toUInt8
  | _ => 0

def execEdgeRun (vm : Vm) : List Operand → Option Vm
  | .immediate (.u32 i) :: op1 :: op2 :: _ => do
    let clk ← readBoolOperand vm op1
    let vm := { vm with edges := Vm.grow vm.edges i.toNat Vm.freshEdge }
    let e ← vm.edges[i.toNat]?
    some { vm with edges := vm.edges.set i.toNat (tickEdge e (edgeKindOf op2) clk) }
  | _ => some vm

def execReadEdge (vm : Vm) : List Operand → Option Vm
  | .immediate (.u32 i) :: op1 :: _ =>
    let vm := { vm with edges := Vm.grow vm.edges i.toNat Vm.freshEdge }
    match op1 with
    | .register qDest => do
      let e ← vm.edges[i.toNat]?
      vm.writeRegister qDest (.bool e.q)
    | _ => some vm
  | _ => some vm

/-! ## Dispatch -/

/-- The instructions that neither move the instruction pointer nor stop the run. -/
def execPlain (vm : Vm) (inst : Instruction) : Option Vm :=
  match inst.opcode with
  | .load => execLoad vm inst.operands
  | .store => execStore vm inst.operands
  | .loadIndex => execLoadIndex vm inst.operands
  | .storeIndex => execStoreIndex vm inst.operands
  | .add => execArithBinop HalValue.add vm inst.operands
  | .sub => execArithBinop HalValue.sub vm inst.operands
  | .mul => execArithBinop HalValue.mul vm inst.operands
  | .div => execArithBinop divOp vm inst.operands
  | .mod => execArithBinop modOp vm inst.operands
  | .neg => execUnary HalValue.neg vm inst.operands
  | .eq => execCompare HalValue.beq vm inst.operands
  | .neq => execCompare (fun a b => !a.beq b) vm inst.operands
  | .gt => execCompare HalValue.gt vm inst.operands
  | .lt => execCompare HalValue.lt vm inst.operands
  | .gte => execCompare HalValue.ge vm inst.operands
  | .lte => execCompare HalValue.le vm inst.operands
  | .and => execArithBinop (fun a b => some (a.bitand b)) vm inst.operands
  | .or => execArithBinop (fun a b => some (a.bitor b)) vm inst.operands
  | .xor => execArithBinop (fun a b => some (a.bitxor b)) vm inst.operands
  | .not => execUnary (fun a => some a.not) vm inst.operands
  | .timerRun => execTimerRun vm inst.operands
  | .readTimer => execReadTimer vm inst.operands
  | .counterRun => execCounterRun vm inst.operands
  | .readCounter => execReadCounter vm inst.operands
  | .srRun => execSrRun vm inst.operands
  | .readSr => execReadSr vm inst.operands
  | .edgeRun => execEdgeRun vm inst.operands
  | .readEdge => execReadEdge vm inst.operands
  | .nop | .jump | .jumpIf | .call | .ret | .halt => some vm

/-- `execute_instruction`. -/
def executeInstruction (vm : Vm) (inst : Instruction) : Option (Vm × ExecutorResult) :=
  match inst.opcode with
  | .jump => some (execJump vm inst.operands, .cont)
  | .jumpIf => some (execJumpIf vm inst.operands, .cont)
  | .call => some (execCall vm inst.operands, .cont)
  | .ret => execRet vm inst.operands
  | .halt => some (vm, .halted)
  | _ => (execPlain vm inst).map (·, .cont)

/-- The opcodes after which `step` does not advance the instruction pointer. `Ret` is not among them. -/
def isJump : Opcode → Bool
  | .jump | .jumpIf | .call => true
  | _ => false

end Exec

/-! ## Stepping -/

/-- One step of the machine outside debug mode: fetch (with the bounds assertion), execute, advance. -/
def Vm.step (code : List Instruction) (vm : Vm) : Option (Vm × ExecutorResult) := do
  let inst ← code[vm.ip]?
  let (vm', result) ← Exec.executeInstruction vm inst
  some (if Exec.isJump inst.opcode then vm' else vm'.advanceIp, result)

structure TraceEntry where
  ip : Nat
  opcode : Opcode
  r0 : HalValue

structure DebugState where
  debugMode : Bool
  breakpoints : List Nat
  traceBuffer : List TraceEntry

structure Executor where
  vm : Vm
  program : HalProgram
  debugState : DebugState

namespace Executor

def new (program : HalProgram) : Executor :=
  { vm := Vm.new, program, debugState := ⟨false, [], []⟩ }

def addBreakpoint (ex : Executor) (ip : Nat) : Executor :=
  { ex with debugState.breakpoints := ip :: ex.debugState.breakpoints.filter (· ≠ ip) }

def removeBreakpoint (ex : Executor) (ip : Nat) : Executor :=
  { ex with debugState.breakpoints := ex.debugState.breakpoints.filter (· ≠ ip) }

/-- `list_breakpoints`, sorted. -/
def listBreakpoints (ex : Executor) : List Nat := ex.debugState.breakpoints.mergeSort

/-- `Executor::step`. -/
def step (ex : Executor) : Option (Executor × ExecutorResult) := do
  let inst ← ex.program.instructions[ex.vm.ip]?
  if ex.debugState.debugMode ∧ ex.vm.ip ∈ ex.debugState.breakpoints then
    some (ex, .breaked)
  else
    let (vm', result) ← Exec.executeInstruction ex.vm inst
    let debug ← if ex.debugState.debugMode then do
        let r0 ← vm'.readRegister 0
        some { ex.debugState with
          traceBuffer := ex.debugState.traceBuffer ++ [⟨ex.vm.ip, inst.opcode, r0⟩] }
      else some ex.debugState
    let vm' := if Exec.isJump inst.opcode then vm' else vm'.advanceIp
    some ({ ex with vm := vm', debugState := debug }, result)

/-- `run_to_halt`, cut off after `fuel` steps. -/
def runToHalt (fuel : Nat) (ex : Executor) (steps : Nat) : Option (Executor × Nat) :=
  match fuel with
  | 0 => none
  | fuel + 1 => do
    let (ex', result) ← ex.step
    match result with
    | .cont => runToHalt fuel ex' (steps + 1)
    | .halted | .breaked => some (ex', steps + 1)

/-- Outside debug mode an executor is its machine. -/
theorem step_of_not_debug {ex : Executor} (h : ex.debugState.debugMode = false) :
    ex.step = (ex.vm.step ex.program.instructions).map (fun p => ({ ex with vm := p.1 }, p.2)) := by
  unfold step Vm.step
  cases hi : ex.program.instructions[ex.vm.ip]? with
  | none => rfl
  | some inst =>
    cases he : Exec.executeInstruction ex.vm inst with
    | none => simp [h, he]
    | some p => simp [h, he]

end Executor

end Audesys.Hal
