import Audesys.Hal.Machine

/-!
# `Il.Codegen` — Instruction List statements to HAL IR

The code generator of `audesys-il-compiler`. A variable gets one of the registers `r0` to `r9` when a statement
first needs it; `r12` is for negated operands, `r14` is the accumulator, and the first instruction puts
`Bool(true)` into `r15`. Jumps are emitted with target 0 and patched at the end; a label that no statement
defines is the `Halt` behind the last statement.
-/

namespace Audesys.Il

open Audesys.Hal

/-! ## Statements -/

inductive CompareOp where
  | eq | ne | gt | ge | lt | le
  deriving DecidableEq

inductive ILStatement where
  | load (var : String)
  | loadNot (var : String)
  | store (var : String)
  | and (var : String)
  | andNot (var : String)
  | or (var : String)
  | orNot (var : String)
  | xor (var : String)
  | add (var : String)
  | sub (var : String)
  | mul (var : String)
  | div (var : String)
  | mod (var : String)
  | cmp (op : CompareOp) (var : String)
  | jump (label : String)
  | jumpIf (label : String)
  | jumpIfNot (label : String)
  | call (fb : String)
  | ret
  | set (var : String)
  | reset (var : String)
  | not
  | ton (var : String)
  | tof (var : String)
  | tp (var : String)
  | ctu (var : String)
  | ctd (var : String)
  | rTrig (var : String)
  | fTrig (var : String)
  | sr (var : String)
  | rs (var : String)
  | label (name : String)
  deriving DecidableEq

/-- The operand of a statement that names a signal or variable. -/
def ILStatement.var? : ILStatement → Option String
  | load v | loadNot v | store v | and v | andNot v | or v | orNot v | xor v | add v | sub v | mul v | div v
  | mod v | cmp _ v | set v | reset v | ton v | tof v | tp v | ctu v | ctd v | rTrig v | fTrig v | sr v
  | rs v => some v
  | jump _ | jumpIf _ | jumpIfNot _ | call _ | ret | not | label _ => none

/-! ## The generator -/

def userRegMax : UInt8 := 9
def temp1Reg : UInt8 := 12
def crReg : UInt8 := 14
def trueReg : UInt8 := 15

variable [Target]

structure Codegen where
  instructions : List Instruction
  varMap : String → Option UInt8
  nextReg : UInt8
  labels : String → Option Nat
  labelRefs : List (Nat × String)

namespace Codegen

def new : Codegen := ⟨[], fun _ => none, 0, fun _ => none, []⟩

/-- `get_var_reg`; the eleventh variable panics. -/
def getVarReg (cg : Codegen) (name : String) : Option (UInt8 × Codegen) :=
  match cg.varMap name with
  | some r => some (r, cg)
  | none =>
    if cg.nextReg > userRegMax then none
    else some (cg.nextReg,
      { cg with nextReg := cg.nextReg + 1, varMap := Function.update cg.varMap name (some cg.nextReg) })

def currentIp (cg : Codegen) : Nat := cg.instructions.length

def emit (cg : Codegen) (inst : Instruction) : Codegen := { cg with instructions := cg.instructions ++ [inst] }

def emitLoadReg (cg : Codegen) (dest src : UInt8) : Codegen := cg.emit ⟨.load, [.register dest, .register src]⟩

def emitLoadImm (cg : Codegen) (dest : UInt8) (v : HalValue) : Codegen := cg.emit (.loadImm dest v)

def emitNot (cg : Codegen) (src dest : UInt8) : Codegen := cg.emit ⟨.not, [.register src, .register dest]⟩

def emitArith (cg : Codegen) (op : Opcode) (a b out : UInt8) : Codegen := cg.emit (.arith op a b out)

def emitCmp (cg : Codegen) (op : Opcode) (a b : UInt8) : Codegen := cg.emit (.cmp op a b)

def emitJump (cg : Codegen) (target : UInt32) : Codegen := cg.emit (.jump target)

def emitJumpIf (cg : Codegen) (target : UInt32) : Codegen := cg.emit (.jumpIf target)

/-- `materialize_cr_from_flags`: the flag as a Boolean in the accumulator. -/
def materializeCrFromFlags (cg : Codegen) : Codegen :=
  let trueIp := UInt32.ofNat (cg.currentIp + 3)
  let doneIp := UInt32.ofNat (cg.currentIp + 5)
  (((cg.emitJumpIf trueIp).emitLoadImm crReg (.bool false)).emitJump doneIp).emitLoadImm crReg (.bool true)

def addRef (cg : Codegen) (idx : Nat) (label : String) : Codegen :=
  { cg with labelRefs := cg.labelRefs ++ [(idx, label)] }

/-- `emit_bool_test_and_jump`. -/
def emitBoolTestAndJump (cg : Codegen) (label : String) (negate : Bool) : Codegen :=
  let cg := cg.emitCmp (if negate then .neq else .eq) crReg trueReg
  (cg.emitJumpIf 0).addRef cg.currentIp label

/-- The signal of a variable into its register. -/
def loadSignal (cg : Codegen) (r : UInt8) (var : String) : Codegen :=
  cg.emit ⟨.load, [.register r, .signalName var]⟩

/-- The branches that combine the accumulator with the register of a variable. -/
def combine (cg : Codegen) (op : Opcode) (var : String) : Option Codegen := do
  let (r, cg) ← cg.getVarReg var
  some (cg.emitArith op crReg r crReg)

/-- The branches of the function blocks. -/
def runBlock (cg : Codegen) (op : Opcode) (var : String) : Option Codegen := do
  let (r, cg) ← cg.getVarReg var
  some (cg.emit ⟨op, [.register r]⟩)

end Codegen

def CompareOp.opcode : CompareOp → Opcode
  | eq => .eq
  | ne => .neq
  | gt => .gt
  | ge => .gte
  | lt => .lt
  | le => .lte

namespace Codegen

/-- One statement. -/
def compileStmt (cg : Codegen) : ILStatement → Option Codegen
  | .label name => some { cg with labels := Function.update cg.labels name (some cg.currentIp) }
  | .load var => do
    let (r, cg) ← cg.getVarReg var
    some ((cg.loadSignal r var).emitLoadReg crReg r)
  | .loadNot var => do
    let (r, cg) ← cg.getVarReg var
    some (((cg.loadSignal r var).emitLoadReg crReg r).emitNot crReg crReg)
  | .store var => some (cg.emit ⟨.store, [.signalName var, .register crReg]⟩)
  | .and var => do
    let (r, cg) ← cg.getVarReg var
    some ((cg.loadSignal r var).emitArith .and crReg r crReg)
  | .andNot var => do
    let (r, cg) ← cg.getVarReg var
    some ((((cg.loadSignal r var).emitLoadReg temp1Reg r).emitNot temp1Reg temp1Reg).emitArith .and crReg temp1Reg crReg)
  | .or var => cg.combine .or var
  | .orNot var => do
    let (r, cg) ← cg.getVarReg var
    some (((cg.emitLoadReg temp1Reg r).emitNot temp1Reg temp1Reg).emitArith .or crReg temp1Reg crReg)
  | .xor var => cg.combine .xor var
  | .add var => cg.combine .add var
  | .sub var => cg.combine .sub var
  | .mul var => cg.combine .mul var
  | .div var => cg.combine .div var
  | .mod var => cg.combine .mod var
  | .cmp op var => do
    let (r, cg) ← cg.getVarReg var
    some (cg.emitCmp op.opcode crReg r).materializeCrFromFlags
  | .jump label => some ((cg.emitJump 0).addRef cg.currentIp label)
  | .jumpIf label => some (cg.emitBoolTestAndJump label false)
  | .jumpIfNot label => some (cg.emitBoolTestAndJump label true)
  | .call fb => some ((cg.emit (.call 0)).addRef cg.currentIp fb)
  | .ret => some (cg.emit (.ret none))
  | .set var => do
    let (r, cg) ← cg.getVarReg var
    some (cg.emitLoadImm r (.bool true))
  | .reset var => do
    let (r, cg) ← cg.getVarReg var
    some (cg.emitLoadImm r (.bool false))
  | .not => some (cg.emitNot crReg crReg)
  | .ton var => cg.runBlock .timerRun var
  | .tof var => cg.runBlock .timerRun var
  | .tp var => cg.runBlock .timerRun var
  | .ctu var => cg.runBlock .counterRun var
  | .ctd var => cg.runBlock .counterRun var
  | .rTrig var => cg.runBlock .edgeRun var
  | .fTrig var => cg.runBlock .edgeRun var
  | .sr var => cg.runBlock .srRun var
  | .rs var => cg.runBlock .srRun var

end Codegen

/-! ## Patching -/

/-- The instruction with its target. -/
def retarget (target : Nat) (inst : Instruction) : Instruction :=
  if inst.operands.length ≥ 1 then
    match inst.opcode with
    | .jump => .jump (UInt32.ofNat target)
    | .jumpIf => .jumpIf (UInt32.ofNat target)
    | .call => .call (UInt32.ofNat target)
    | _ => inst
  else inst

/-- `Codegen::compile`. -/
def Codegen.compile (cg : Codegen) (stmts : List ILStatement) : Option (List Instruction) := do
  let cg ← stmts.foldlM compileStmt (cg.emitLoadImm trueReg (.bool true))
  let result := (cg.emit .halt).instructions
  let haltIp := result.length - 1
  some (cg.labelRefs.foldl (fun code ref => code.modify ref.1 (retarget ((cg.labels ref.2).getD haltIp))) result)

/-- `compile_ast`; `none` is the panic on an eleventh variable. -/
def compileAst (stmts : List ILStatement) : Option (List Instruction) := Codegen.new.compile stmts

end Audesys.Il
