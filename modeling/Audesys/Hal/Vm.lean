import Audesys.Hal.Value

/-!
# `Hal.Vm` — instructions, programs and the register machine state

The instruction set (`instruction.rs`), the compiled program (`program.rs`, `types.rs`) and the state of the
register VM (`vm.rs`): sixteen registers, one flag, the instruction pointer, the signal table, the call stack
and the function-block states. The register file is a function on `Fin 16`, so the array length is not an
invariant to carry; the accessors keep the source's `u8` index and its bounds assertion (`none`).
-/

namespace Audesys.Hal

/-! ## Instructions -/

inductive Opcode where
  | nop | load | store
  | add | sub | mul | div | mod | neg
  | eq | neq | gt | lt | gte | lte
  | and | or | xor | not
  | jump | jumpIf | call | ret
  | loadIndex | storeIndex
  | timerRun | readTimer | counterRun | readCounter | srRun | readSr | edgeRun | readEdge
  | halt
  deriving DecidableEq

inductive Operand [Target] where
  | register (r : UInt8)
  | immediate (v : HalValue)
  | signalName (name : String)
  deriving DecidableEq

structure Instruction [Target] where
  opcode : Opcode
  operands : List Operand
  deriving DecidableEq

namespace Instruction

variable [Target]

def halt : Instruction := ⟨.halt, []⟩
def loadImm (reg : UInt8) (v : HalValue) : Instruction := ⟨.load, [.register reg, .immediate v]⟩
def arith (op : Opcode) (a b out : UInt8) : Instruction :=
  ⟨op, [.register a, .register b, .register out]⟩
def cmp (op : Opcode) (a b : UInt8) : Instruction := ⟨op, [.register a, .register b]⟩
def jump (target : UInt32) : Instruction := ⟨.jump, [.immediate (.u32 target)]⟩
def jumpIf (target : UInt32) : Instruction := ⟨.jumpIf, [.immediate (.u32 target)]⟩
def call (target : UInt32) : Instruction := ⟨.call, [.immediate (.u32 target)]⟩
def ret (result : Option UInt8) : Instruction := ⟨.ret, (result.map Operand.register).toList⟩
def loadIndex (dest arr idx : UInt8) : Instruction :=
  ⟨.loadIndex, [.register dest, .register arr, .register idx]⟩
def storeIndex (arr idx value : UInt8) : Instruction :=
  ⟨.storeIndex, [.register arr, .register idx, .register value]⟩
def timerRun (idx inReg : UInt8) (ptMs : UInt32) (kind : UInt8) : Instruction :=
  ⟨.timerRun, [.immediate (.u32 idx.toUInt32), .register inReg, .immediate (.u32 ptMs),
    .immediate (.u32 kind.toUInt32)]⟩
def readTimer (idx q et : UInt8) : Instruction :=
  ⟨.readTimer, [.immediate (.u32 idx.toUInt32), .register q, .register et]⟩
def counterRun (idx cu cd : UInt8) (pv : UInt32) (kind : UInt8) : Instruction :=
  ⟨.counterRun, [.immediate (.u32 idx.toUInt32), .register cu, .register cd, .immediate (.u32 pv),
    .immediate (.u32 kind.toUInt32)]⟩
def srRun (idx s1 r kind : UInt8) : Instruction :=
  ⟨.srRun, [.immediate (.u32 idx.toUInt32), .register s1, .register r,
    .immediate (.u32 kind.toUInt32)]⟩
def readSr (idx q1 q2 : UInt8) : Instruction :=
  ⟨.readSr, [.immediate (.u32 idx.toUInt32), .register q1, .register q2]⟩
def edgeRun (idx clk kind : UInt8) : Instruction :=
  ⟨.edgeRun, [.immediate (.u32 idx.toUInt32), .register clk, .immediate (.u32 kind.toUInt32)]⟩
def readEdge (idx q : UInt8) : Instruction :=
  ⟨.readEdge, [.immediate (.u32 idx.toUInt32), .register q]⟩

end Instruction

/-! ## Programs -/

inductive Direction where
  | read | write | readWrite
  deriving DecidableEq

structure SignalBinding where
  halSignalName : String
  programVar : String
  direction : Direction
  halPinType : HalPinType
  deriving DecidableEq

structure FunctionEntry where
  name : String
  entryPoint : UInt32
  regCount : UInt8
  deriving DecidableEq

structure HalProgram [Target] where
  name : String
  signals : List SignalBinding
  instructions : List Instruction
  functionTable : List FunctionEntry
  deriving DecidableEq

/-- `HalProgram::new`. -/
def HalProgram.new [Target] (name : String) (instructions : List Instruction) : HalProgram :=
  { name, signals := [], instructions, functionTable := [] }

/-- The loader's whole validation: some instruction is a `Halt`. -/
def HalProgram.isWellFormed [Target] (p : HalProgram) : Bool :=
  p.instructions.any (fun inst => inst.opcode == .halt)

/-! ## Function-block states -/

inductive TimerKind where
  | ton | tof | tp
  deriving DecidableEq

structure TimerState where
  kind : TimerKind
  inVal : Bool
  elapsedMs : UInt64
  q : Bool
  presetMs : UInt64
  deriving DecidableEq

inductive CounterKind where
  | ctu | ctd | ctud
  deriving DecidableEq

structure CounterState where
  kind : CounterKind
  cuVal : Bool
  cdVal : Bool
  cv : UInt32
  pv : UInt32
  q : Bool
  qu : Bool
  qd : Bool
  deriving DecidableEq

inductive SrKind where
  | sr | rs
  deriving DecidableEq

structure SrState where
  kind : SrKind
  s1 : Bool
  r : Bool
  q1 : Bool
  q2 : Bool
  deriving DecidableEq

structure EdgeState where
  kind : UInt8
  lastClk : Bool
  q : Bool
  deriving DecidableEq

/-! ## Machine state -/

def registerCount : Nat := 16

structure Vm [Target] where
  registers : Fin registerCount → HalValue
  flagsZero : Bool
  ip : Nat
  signals : String → Option HalValue
  callStack : List Nat
  timers : List TimerState
  counters : List CounterState
  srs : List SrState
  edges : List EdgeState
  cycleTimeMs : UInt64

namespace Vm

variable [Target]

def new : Vm where
  registers := fun _ => .s32 0
  flagsZero := false
  ip := 0
  signals := fun _ => none
  callStack := []
  timers := []
  counters := []
  srs := []
  edges := []
  cycleTimeMs := 0

/-- Reset for the next scan: function-block states and the cycle time survive. -/
def reset (vm : Vm) : Vm :=
  { vm with
    registers := fun _ => .s32 0
    flagsZero := false
    ip := 0
    signals := fun _ => none
    callStack := [] }

/-- `read_register`, with its bounds assertion. -/
def readRegister (vm : Vm) (idx : UInt8) : Option HalValue :=
  if h : idx.toNat < registerCount then some (vm.registers ⟨idx.toNat, h⟩) else none

/-- `write_register`, with its bounds assertion. -/
def writeRegister (vm : Vm) (idx : UInt8) (v : HalValue) : Option Vm :=
  if idx.toNat < registerCount then
    some { vm with registers := fun r => if r.val = idx.toNat then v else vm.registers r }
  else none

def setFlagsZero (vm : Vm) (b : Bool) : Vm := { vm with flagsZero := b }
def setIp (vm : Vm) (ip : Nat) : Vm := { vm with ip := ip }
def advanceIp (vm : Vm) : Vm := { vm with ip := vm.ip + 1 }

def writeSignal (vm : Vm) (name : String) (v : HalValue) : Vm :=
  { vm with signals := fun n => if n = name then some v else vm.signals n }

def readSignal (vm : Vm) (name : String) : Option HalValue := vm.signals name

def setCycleTime (vm : Vm) (ms : UInt64) : Vm := { vm with cycleTimeMs := ms }

/-- `push_call_ip`; the top of the stack is the head. -/
def pushCallIp (vm : Vm) (ip : Nat) : Vm := { vm with callStack := ip :: vm.callStack }

/-- `while count <= idx { add }`. -/
def grow {α : Type} (xs : List α) (idx : Nat) (fresh : α) : List α :=
  xs ++ List.replicate (idx + 1 - xs.length) fresh

/-- `add_timer` / `add_counter` / `add_sr` / `add_edge` initial states. -/
def freshTimer (kind : TimerKind) : TimerState := ⟨kind, false, 0, false, 0⟩
def freshCounter (kind : CounterKind) : CounterState := ⟨kind, false, false, 0, 0, false, false, false⟩
def freshSr (kind : SrKind) : SrState := ⟨kind, false, false, false, false⟩
def freshEdge : EdgeState := ⟨0, false, false⟩

end Vm

end Audesys.Hal
