import Audesys.Hal.Executor
import Audesys.St.Ast

/-!
# `St.Codegen` — the Structured Text code generator

`Codegen` of `audesys-hal-binding-gen` (`codegen.rs`), with its state passed explicitly: the register of each
variable, the declared types, the instructions so far, which of the three scratch registers are free, and for
each enclosing loop the indices of the jumps its `EXIT`s have left open. Jumps are emitted with target 0 and
patched by index; an index is the length of the instruction vector cast to `u32`.

Compilation ends in an error or in a panic (`Stop`): the generator panics when an expression needs a fourth
scratch register and when `EXIT` stands outside a loop.
-/

namespace Audesys.St

open Audesys.Hal

variable [Target]

/-- `CodegenError`. -/
inductive CodegenError where
  | undefinedVariable (name : String)
  | tooManyVariables (max : Nat)
  | typeMismatch (expected got : VarType) (context : String)
  deriving DecidableEq

/-- How compilation fails. -/
inductive Stop where
  | error (e : CodegenError)
  | panic
  deriving DecidableEq

def scratch0 : UInt8 := 14
def scratch1 : UInt8 := 15
def scratch2 : UInt8 := 13
def maxVarRegs : Nat := 13

/-! ## Scratch registers -/

/-- `scratch_avail`: `r14`, `r15` and `r13` are free. -/
structure Scratch where
  s0 : Bool
  s1 : Bool
  s2 : Bool
  deriving DecidableEq

namespace Scratch

def all : Scratch := ⟨true, true, true⟩

/-- `alloc_scratch`: the first free one. -/
def alloc (sc : Scratch) : Option (UInt8 × Scratch) :=
  if sc.s0 then some (scratch0, { sc with s0 := false })
  else if sc.s1 then some (scratch1, { sc with s1 := false })
  else if sc.s2 then some (scratch2, { sc with s2 := false })
  else none

/-- `free_scratch`. -/
def free (sc : Scratch) (reg : UInt8) : Scratch :=
  { s0 := sc.s0 || reg == scratch0, s1 := sc.s1 || reg == scratch1, s2 := sc.s2 || reg == scratch2 }

end Scratch

/-! ## State -/

/-- What the declarations fix: the register and the type of each variable. -/
structure Decls where
  registers : String → Option UInt8
  varTypes : String → Option VarType

structure Codegen where
  decls : Decls
  instructions : List Instruction
  scratch : Scratch
  loopExits : List (List UInt32)

/-- The maps that `Codegen::new` fills: a later declaration of a name replaces an earlier one. -/
def Decls.ofVariables (vars : List Variable) : Decls where
  registers name := (vars.zipIdx.findRev? (fun vi => vi.1.name == name)).map (fun vi => UInt8.ofNat vi.2)
  varTypes name := (vars.findRev? (fun v => v.name == name)).map (·.varType)

namespace Codegen

/-- `Codegen::new`. -/
def new (vars : List Variable) : Except Stop Codegen :=
  if vars.length > maxVarRegs then .error (.error (.tooManyVariables maxVarRegs))
  else .ok ⟨.ofVariables vars, [], .all, []⟩

/-- `current_idx`. -/
def currentIdx (cg : Codegen) : UInt32 := UInt32.ofNat cg.instructions.length

/-- `emit`, whose result is the index of the new instruction (`currentIdx` before it). -/
def emit (cg : Codegen) (inst : Instruction) : Codegen := { cg with instructions := cg.instructions ++ [inst] }

/-- The new operands of a patched jump. -/
def retarget (target : UInt32) (inst : Instruction) : Instruction :=
  { inst with operands := [.immediate (.u32 target)] }

/-- `patch_jump`. -/
def patchJump (cg : Codegen) (idx target : UInt32) : Codegen :=
  { cg with instructions := cg.instructions.modify idx.toNat (retarget target) }

/-- `for &j in &jumps { self.patch_jump(j, target) }`. -/
def patchJumps (cg : Codegen) (jumps : List UInt32) (target : UInt32) : Codegen :=
  jumps.foldl (fun cg j => cg.patchJump j target) cg

def allocScratch (cg : Codegen) : Except Stop (UInt8 × Codegen) :=
  match cg.scratch.alloc with
  | some (reg, sc) => .ok (reg, { cg with scratch := sc })
  | none => .error .panic

def freeScratch (cg : Codegen) (reg : UInt8) : Codegen := { cg with scratch := cg.scratch.free reg }

/-- `var_reg`. -/
def varReg (cg : Codegen) (name : String) : Except Stop UInt8 :=
  match cg.decls.registers name with
  | some r => .ok r
  | none => .error (.error (.undefinedVariable name))

def pushLoop (cg : Codegen) : Codegen := { cg with loopExits := [] :: cg.loopExits }

/-- `record_exit`: without an enclosing loop, `last_mut().unwrap()` panics. The stack is kept top first. -/
def recordExit (cg : Codegen) : Except Stop Codegen :=
  match cg.loopExits with
  | [] => .error .panic
  | exits :: outer => .ok { cg.emit (.jump 0) with loopExits := (exits ++ [cg.currentIdx]) :: outer }

/-- `pop_loop`. -/
def popLoop (cg : Codegen) : Codegen :=
  match cg.loopExits with
  | [] => cg
  | exits :: outer => { cg with loopExits := outer }.patchJumps exits cg.currentIdx

end Codegen

/-! ## Types -/

/-- `var_type_to_hal_pin_type`. -/
def VarType.halPinType : VarType → HalPinType
  | .bool => .bool
  | .sint => .s8
  | .usint | .byte => .u8
  | .int => .s16
  | .uint | .word => .u16
  | .dint | .time => .s32
  | .ulint | .dword | .date | .tod | .dt => .u32
  | .lint => .s64
  | .real => .f32
  | .lreal => .f64
  | .string => .string
  | .array => .blob
  | .ton | .tof | .tp | .ctu | .ctd | .ctud | .sr | .rs | .rtrig | .ftrig => .u32

/-- The constants of `zero_for_var`. -/
def VarType.zero : VarType → HalValue
  | .bool => .bool false
  | .sint => .s8 0
  | .usint | .byte => .u8 0
  | .int => .s16 0
  | .uint | .word => .u16 0
  | .dint | .time => .s32 0
  | .ulint | .dword | .date | .tod | .dt => .u32 0
  | .lint => .s64 0
  | .real => .f32 FloatFormat.zero
  | .lreal => .f64 FloatFormat.zero
  | .string => .string ""
  | .array => .array .s32 []
  | .ton | .tof | .tp | .ctu | .ctd | .ctud | .sr | .rs | .rtrig | .ftrig => .u32 0

/-- `zero_for_var`. -/
def Decls.zeroForVar (d : Decls) (name : String) : HalValue := ((d.varTypes name).getD .int).zero

/-- The `Debug` text of an operator. -/
def BinOp.name : BinOp → String
  | .add => "Add" | .sub => "Sub" | .mul => "Mul" | .div => "Div" | .eq => "Eq" | .neq => "Neq" | .gt => "Gt"
  | .lt => "Lt" | .gte => "Gte" | .lte => "Lte" | .and => "And" | .or => "Or" | .mod => "Mod" | .xor => "Xor"

def mismatch {α : Type} (expected got : VarType) (context : String) : Except Stop α :=
  .error (.error (.typeMismatch expected got context))

/-- The declared type, or the error of an undeclared name. -/
def Decls.lookup (d : Decls) (name : String) : Except Stop VarType :=
  match d.varTypes name with
  | some vt => .ok vt
  | none => .error (.error (.undefinedVariable name))

/-- The type of a function block's field. -/
def VarType.fieldType : VarType → VarType
  | .ton | .tof | .tp | .ctu | .ctd | .ctud | .sr | .rs | .rtrig | .ftrig => .bool
  | vt => vt

/-- The type of an element. -/
def VarType.elementType : VarType → VarType
  | .array => .int
  | vt => vt

/-- `type_of_expr`. -/
def typeOfExpr (d : Decls) : Expr → Except Stop VarType
  | .intLiteral _ => .ok .int
  | .realLiteral _ => .ok .real
  | .boolLiteral _ => .ok .bool
  | .var name => d.lookup name
  | .arrayAccess name _ => (d.lookup name).map (·.elementType)
  | .fieldAccess name _ => (d.lookup name).map (·.fieldType)
  | .binary left op right => do
    let lt ← typeOfExpr d left
    let rt ← typeOfExpr d right
    if op.isCmp then .ok .bool
    else if op = .and ∨ op = .or then
      if lt ≠ .bool ∨ rt ≠ .bool then
        mismatch .bool (if lt ≠ .bool then lt else rt) ("logic '" ++ op.name ++ "'")
      else .ok .bool
    else if op = .xor then
      if typesCompatible lt rt then .ok lt else mismatch rt lt ("bitwise '" ++ op.name ++ "'")
    else if typesCompatible lt rt then .ok lt
    else mismatch lt rt ("binary '" ++ op.name ++ "'")
  | .unary .neg inner => do
    let t ← typeOfExpr d inner
    if t = .int ∨ t = .real ∨ t = .dint ∨ t = .lreal then .ok t else mismatch .int t "negation"
  | .unary .not inner => do
    let t ← typeOfExpr d inner
    if t.isInteger ∨ t = .bool then .ok t else mismatch .int t "NOT"

/-- `check_assign`. -/
def checkAssign (d : Decls) (name : String) (value : Expr) : Except Stop Unit := do
  let expected ← d.lookup name
  match value with
  | .intLiteral _ =>
    if expected.isInteger then .ok () else mismatch expected .int ("assign to '" ++ name ++ "'")
  | .realLiteral _ =>
    if expected = .real ∨ expected = .lreal then .ok () else mismatch expected .real ("assign to '" ++ name ++ "'")
  | _ =>
    let got ← typeOfExpr d value
    if typesCompatible got expected then .ok () else mismatch expected got ("assign to '" ++ name ++ "'")

/-- `check_condition`. -/
def checkCondition (d : Decls) (e : Expr) (context : String) : Except Stop Unit := do
  let t ← typeOfExpr d e
  if t = .bool then .ok () else mismatch .bool t context

/-! ## Expressions -/

/-- The opcode of an operator; `And`, `Or` and `Xor` are the bitwise ones. -/
def BinOp.opcode : BinOp → Opcode
  | .add => .add | .sub => .sub | .mul => .mul | .div => .div | .mod => .mod
  | .eq => .eq | .neq => .neq | .gt => .gt | .lt => .lt | .gte => .gte | .lte => .lte
  | .and => .and | .or => .or | .xor => .xor

/-- An `arith` instruction with the unary opcode `Not`, as the source emits it. -/
def notInst (reg : UInt8) : Instruction := .arith .not reg reg reg

def isSrRs : Option VarType → Bool
  | some .sr | some .rs => true
  | _ => false

def isEdge : Option VarType → Bool
  | some .rtrig | some .ftrig => true
  | _ => false

def isTimer : Option VarType → Bool
  | some .ton | some .tof | some .tp => true
  | _ => false

def isCounter : Option VarType → Bool
  | some .ctu | some .ctd | some .ctud => true
  | _ => false

/-- A code-generation action that leaves its value in a register. -/
abbrev Emitter := UInt8 → Codegen → Except Stop Codegen

/-- The comparison itself, as `compile_cmp_expr` and `compile_bool_cond` emit it: right operand first, each in
    a scratch register, then the compare. -/
def compileCmp (left right : Emitter) (op : BinOp) (cg : Codegen) : Except Stop Codegen := do
  let (rs, cg) ← cg.allocScratch
  let cg ← right rs cg
  let (ls, cg) ← cg.allocScratch
  let cg ← left ls cg
  .ok (((cg.emit (.cmp op.opcode ls rs)).freeScratch ls).freeScratch rs)

/-- `compile_cmp_expr`. -/
def compileCmpExpr (left right : Emitter) (op : BinOp) (dest : UInt8) (cg : Codegen) : Except Stop Codegen := do
  let cg ← compileCmp left right op cg
  let cg := cg.emit (.loadImm dest (.bool false))
  let jmp := cg.currentIdx
  let cg := cg.emit (.jumpIf 0)
  let cg := cg.emit (.loadImm dest (.bool true))
  .ok (cg.patchJump jmp cg.currentIdx)

/-- The `FieldAccess` arm. -/
def compileField (name field : String) (dest : UInt8) (cg : Codegen) : Except Stop Codegen := do
  let reg ← cg.varReg name
  let vt := cg.decls.varTypes name
  if isSrRs vt then
    let (other, cg) ← cg.allocScratch
    if field = "Q2" then .ok ((cg.emit (.readSr reg other dest)).freeScratch other)
    else .ok ((cg.emit (.readSr reg dest other)).freeScratch other)
  else if isEdge vt then .ok (cg.emit (.readEdge reg dest))
  else
    let (et, cg) ← cg.allocScratch
    .ok ((cg.emit (.readTimer reg dest et)).freeScratch et)

/-- `compile_expr`. -/
def compileExpr : Expr → Emitter
  | .intLiteral n, dest, cg => .ok (cg.emit (.loadImm dest (.s32 n.toInt32)))
  | .realLiteral x, dest, cg => .ok (cg.emit (.loadImm dest (.f32 (Target.narrow x))))
  | .boolLiteral b, dest, cg => .ok (cg.emit (.loadImm dest (.bool b)))
  | .var name, dest, cg => do
    let src ← cg.varReg name
    if src = dest then .ok cg
    else .ok ((cg.emit (.loadImm dest (cg.decls.zeroForVar name))).emit (.arith .add src dest dest))
  | .binary left op right, dest, cg =>
    if op.isArith then do
      let cg ← compileExpr left dest cg
      let (s, cg) ← cg.allocScratch
      let cg ← compileExpr right s cg
      .ok ((cg.emit (.arith op.opcode dest s dest)).freeScratch s)
    else if op.isCmp then compileCmpExpr (compileExpr left) (compileExpr right) op dest cg
    else do
      let (s, cg) ← cg.allocScratch
      let cg ← compileExpr left dest cg
      let cg ← compileExpr right s cg
      .ok ((cg.emit (.arith op.opcode dest s dest)).freeScratch s)
  | .unary .neg inner, dest, cg => do
    let cg ← compileExpr inner dest cg
    let (zero, cg) ← cg.allocScratch
    .ok (((cg.emit (.loadImm zero (.s32 0))).emit (.arith .sub zero dest dest)).freeScratch zero)
  | .unary .not inner, dest, cg => do
    let cg ← compileExpr inner dest cg
    .ok (cg.emit (notInst dest))
  | .arrayAccess name index, dest, cg => do
    let array ← cg.varReg name
    let (idx, cg) ← cg.allocScratch
    let cg ← compileExpr index idx cg
    .ok ((cg.emit (.loadIndex dest array idx)).freeScratch idx)
  | .fieldAccess name field, dest, cg => compileField name field dest cg

/-! ## Conditions -/

/-- The two jump lists that `compile_bool_cond` threads through. -/
structure Jumps where
  elseJumps : List UInt32
  endJumps : List UInt32

/-- `compile_bool_cond`. The lists are extended at their ends. -/
def compileBoolCond : Expr → Jumps → Codegen → Except Stop (Jumps × Codegen)
  | .binary left op right, js, cg =>
    if op.isCmp then do
      let cg ← compileCmp (compileExpr left) (compileExpr right) op cg
      .ok ({ js with elseJumps := js.elseJumps ++ [cg.currentIdx] }, cg.emit (.jumpIf 0))
    else if op = .and then do
      let (js, cg) ← compileBoolCond left js cg
      compileBoolCond right js cg
    else if op = .or then do
      let (inner, cg) ← compileBoolCond left ⟨[], js.endJumps⟩ cg
      let orThen := cg.currentIdx
      let cg := cg.emit (.jump 0)
      let cg := cg.patchJumps inner.elseJumps cg.currentIdx
      compileBoolCond right ⟨js.elseJumps, inner.endJumps ++ [orThen]⟩ cg
    else compileTruth (compileExpr (.binary left op right)) js cg
  | .unary .not inner, js, cg => do
    let (ins, cg) ← compileBoolCond inner ⟨[], []⟩ cg
    .ok (⟨js.elseJumps ++ ins.endJumps, js.endJumps ++ ins.elseJumps⟩, cg)
  | e, js, cg => compileTruth (compileExpr e) js cg
where
  /-- The default arm: compare the value with `TRUE`. -/
  compileTruth (value : Emitter) (js : Jumps) (cg : Codegen) : Except Stop (Jumps × Codegen) := do
    let (s, cg) ← cg.allocScratch
    let cg ← value s cg
    let (t, cg) ← cg.allocScratch
    let cg := (((cg.emit (.loadImm t (.bool true))).emit (.cmp .eq s t)).freeScratch s).freeScratch t
    .ok ({ js with elseJumps := js.elseJumps ++ [cg.currentIdx] }, cg.emit (.jumpIf 0))

/-- `compile_condition`. -/
def compileCondition (e : Expr) (cg : Codegen) : Except Stop (Jumps × Codegen) :=
  compileBoolCond e ⟨[], []⟩ cg

/-! ## Function-block calls -/

/-- `Load reg, reg`: the form in which a function block's input variable is copied. -/
def loadReg (dest src : UInt8) : Instruction := ⟨.load, [.register dest, .register src]⟩

/-- An input of a function block: a variable is copied with `loadReg`, any other expression is compiled. -/
def compileInput (arg : Expr) (dest : UInt8) (cg : Codegen) : Except Stop Codegen :=
  match arg with
  | .var name => do
    let r ← cg.varReg name
    .ok (cg.emit (loadReg dest r))
  | e => compileExpr e dest cg

/-- `*n as u32` of a literal argument, 0 for anything else. -/
def literalArg : Expr → UInt32
  | .intLiteral n => n.toInt32.toUInt32
  | _ => 0

/-- An argument of a generic call: the first four go to `r0` to `r3`, the others are dropped. -/
def compileArg (i : Nat) (arg : Expr) (cg : Codegen) : Except Stop Codegen :=
  if i < 4 then compileExpr arg (UInt8.ofNat i) cg else .ok cg

def compileArgs : Nat → List Expr → Codegen → Except Stop Codegen
  | _, [], cg => .ok cg
  | i, arg :: args, cg => do
    let cg ← compileArg i arg cg
    compileArgs (i + 1) args cg

/-- The down input of a counter: its third argument, or the constant false. -/
def compileDown (rest : List Expr) (dest : UInt8) (cg : Codegen) : Except Stop Codegen :=
  match rest with
  | arg2 :: _ => compileInput arg2 dest cg
  | [] => .ok (cg.emit (.loadImm dest (.bool false)))

/-- The kind byte of a function block. -/
def kindByte : Option VarType → UInt8
  | some .tof | some .ctd | some .rs | some .ftrig => 1
  | some .tp | some .ctud => 2
  | _ => 0

/-- The `FunCall` arm. -/
def compileFunCall (name : String) (args : List Expr) (cg : Codegen) : Except Stop Codegen := do
  let vt := cg.decls.varTypes name
  match args with
  | arg0 :: arg1 :: rest =>
    if isTimer vt then
      let reg ← cg.varReg name
      let (inp, cg) ← cg.allocScratch
      let cg ← compileInput arg0 inp cg
      .ok ((cg.emit (.timerRun reg inp (literalArg arg1) (kindByte vt))).freeScratch inp)
    else if isCounter vt then
      let reg ← cg.varReg name
      let (cu, cg) ← cg.allocScratch
      let cg ← compileInput arg0 cu cg
      let (cd, cg) ← cg.allocScratch
      let cg ← compileDown rest cd cg
      .ok (((cg.emit (.counterRun reg cu cd (literalArg arg1) (kindByte vt))).freeScratch cd).freeScratch cu)
    else if isSrRs vt then
      let reg ← cg.varReg name
      let (s1, cg) ← cg.allocScratch
      let cg ← compileInput arg0 s1 cg
      let (r, cg) ← cg.allocScratch
      let cg ← compileInput arg1 r cg
      .ok (((cg.emit (.srRun reg s1 r (kindByte vt))).freeScratch r).freeScratch s1)
    else if isEdge vt then compileEdge name arg0 cg
    else compileGeneric args cg
  | [arg0] => if isEdge vt then compileEdge name arg0 cg else compileGeneric args cg
  | [] => compileGeneric args cg
where
  compileEdge (name : String) (arg0 : Expr) (cg : Codegen) : Except Stop Codegen := do
    let reg ← cg.varReg name
    let (clk, cg) ← cg.allocScratch
    let cg ← compileInput arg0 clk cg
    .ok ((cg.emit (.edgeRun reg clk (kindByte (cg.decls.varTypes name)))).freeScratch clk)
  compileGeneric (args : List Expr) (cg : Codegen) : Except Stop Codegen := do
    let cg ← compileArgs 0 args cg
    .ok (cg.emit (.call 0))

/-! ## Statements -/

/-- `Store name, reg`. -/
def storeInst (name : String) (reg : UInt8) : Instruction := ⟨.store, [.signalName name, .register reg]⟩

/-- The compare chain of one `CASE` branch; the result is the indices of its jumps. -/
def compileLabels (var : UInt8) : List Int64 → List UInt32 → Codegen → Except Stop (List UInt32 × Codegen)
  | [], js, cg => .ok (js, cg)
  | v :: vs, js, cg => do
    let (s, cg) ← cg.allocScratch
    let cg := ((cg.emit (.loadImm s (.s32 v.toInt32))).emit (.cmp .eq var s)).freeScratch s
    compileLabels var vs (js ++ [cg.currentIdx]) (cg.emit (.jumpIf 0))

/-- The step of a `FOR`: the literal 1 when none is written. -/
def compileStep (step : Option Expr) (dest : UInt8) (cg : Codegen) : Except Stop Codegen :=
  match step with
  | some e => compileExpr e dest cg
  | none => .ok (cg.emit (.loadImm dest (.s32 1)))

mutual

/-- `compile_stmt`. -/
@[simp] def compileStmt : Statement → Codegen → Except Stop Codegen
  | .assign name value, cg => do
    checkAssign cg.decls name value
    let dest ← cg.varReg name
    let cg ← compileExpr value dest cg
    .ok (cg.emit (storeInst name dest))
  | .arrayAssign name index value, cg => do
    let array ← cg.varReg name
    let (idx, cg) ← cg.allocScratch
    let cg ← compileExpr index idx cg
    let (val, cg) ← cg.allocScratch
    let cg ← compileExpr value val cg
    let cg := ((cg.emit (.storeIndex array idx val)).freeScratch idx).freeScratch val
    .ok (cg.emit (storeInst name array))
  | .ifThen condition thenBody elseBody, cg => do
    checkCondition cg.decls condition "IF"
    let (js, cg) ← compileCondition condition cg
    let toElse := cg.currentIdx
    let cg := cg.emit (.jump 0)
    let thenLabel := cg.currentIdx
    let cg := (cg.patchJumps js.elseJumps thenLabel).patchJumps js.endJumps thenLabel
    let cg ← compileBody thenBody cg
    let toEnd := cg.currentIdx
    let cg := cg.emit (.jump 0)
    let cg := cg.patchJump toElse cg.currentIdx
    let cg ← compileBody elseBody cg
    .ok (cg.patchJump toEnd cg.currentIdx)
  | .whileDo condition body, cg => do
    checkCondition cg.decls condition "WHILE"
    let cg := cg.pushLoop
    let loopStart := cg.currentIdx
    let (js, cg) ← compileCondition condition cg
    let exitJump := cg.currentIdx
    let cg := cg.emit (.jump 0)
    -- the end jumps of the condition are dropped: their targets stay 0
    let cg := cg.patchJumps js.elseJumps cg.currentIdx
    let cg ← compileBody body cg
    let cg := cg.emit (.jump loopStart)
    .ok (cg.patchJump exitJump cg.currentIdx).popLoop
  | .forDo variableName start stop step body, cg => do
    let vt ← cg.decls.lookup variableName
    if vt ≠ .int ∧ vt ≠ .dint then mismatch .int vt ("FOR variable '" ++ variableName ++ "'")
    else
      let var ← cg.varReg variableName
      let cg ← compileExpr start var cg
      let cg := cg.pushLoop
      let loopStart := cg.currentIdx
      let (s, cg) ← cg.allocScratch
      let cg ← compileExpr stop s cg
      let cg := (cg.emit (.cmp .gt var s)).freeScratch s
      let exitJump := cg.currentIdx
      let cg := cg.emit (.jumpIf 0)
      let cg ← compileBody body cg
      let (st, cg) ← cg.allocScratch
      let cg ← compileStep step st cg
      let cg := (cg.emit (.arith .add var st var)).freeScratch st
      let cg := cg.emit (.jump loopStart)
      .ok (cg.patchJump exitJump cg.currentIdx).popLoop
  | .repeatUntil body condition, cg => do
    checkCondition cg.decls condition "REPEAT"
    let cg := cg.pushLoop
    let loopStart := cg.currentIdx
    let cg ← compileBody body cg
    let (js, cg) ← compileCondition condition cg
    let toLoop := cg.currentIdx
    let cg := cg.emit (.jump 0)
    let cg := cg.patchJumps js.elseJumps cg.currentIdx
    .ok (cg.patchJump toLoop loopStart).popLoop
  | .ret, cg => .ok (cg.emit .halt)
  | .exit, cg => cg.recordExit
  | .case variableName cases elseBody, cg => do
    let var ← cg.varReg variableName
    let (exits, cg) ← compileCases var cases [] cg
    let cg ← compileBody elseBody cg
    .ok (cg.patchJumps exits cg.currentIdx)
  | .funCall name args, cg => compileFunCall name args cg

/-- The statements of a body, in order. -/
@[simp] def compileBody : List Statement → Codegen → Except Stop Codegen
  | [], cg => .ok cg
  | s :: rest, cg => do
    let cg ← compileStmt s cg
    compileBody rest cg

/-- The branches of a `CASE`; the result is the indices of the jumps to its end. -/
@[simp] def compileCases (var : UInt8) :
    List (List Int64 × List Statement) → List UInt32 → Codegen → Except Stop (List UInt32 × Codegen)
  | [], exits, cg => .ok (exits, cg)
  | (values, body) :: rest, exits, cg => do
    let (toBody, cg) ← compileLabels var values [] cg
    let skip := cg.currentIdx
    let cg := cg.emit (.jump 0)
    let cg := cg.patchJumps toBody cg.currentIdx
    let cg ← compileBody body cg
    let exit := cg.currentIdx
    let cg := cg.emit (.jump 0)
    let cg := cg.patchJump skip cg.currentIdx
    compileCases var rest (exits ++ [exit]) cg

end

/-! ## Programs -/

/-- The bodies of the functions, behind the main body's `Halt`. -/
def compileFunctions : List FunctionDef → List FunctionEntry → Codegen →
    Except Stop (List FunctionEntry × Codegen)
  | [], table, cg => .ok (table, cg)
  | f :: fs, table, cg => do
    let start := cg.currentIdx
    let cg ← compileBody f.body cg
    compileFunctions fs (table ++ [⟨f.name, start, 0⟩]) (cg.emit (.ret none))

/-- The signal a `Store` names. -/
def storedSignal (inst : Instruction) : Option String :=
  match inst.opcode, inst.operands with
  | .store, .signalName name :: _ => some name
  | _, _ => none

/-- One binding for each signal that some `Store` names, in order of first occurrence. -/
def signalBindings (d : Decls) : List String → List Instruction → List SignalBinding
  | _, [] => []
  | seen, inst :: rest =>
    match storedSignal inst with
    | some name =>
      if name ∈ seen then signalBindings d seen rest
      else ⟨name, name, .write, ((d.varTypes name).getD .int).halPinType⟩ :: signalBindings d (name :: seen) rest
    | none => signalBindings d seen rest

/-- `compile_ast`. -/
def compileAst (p : Program) : Except Stop HalProgram := do
  let cg ← Codegen.new p.vars
  let cg ← compileBody p.body cg
  let (table, cg) ← compileFunctions p.functions [] (cg.emit .halt)
  .ok { name := p.name, signals := signalBindings cg.decls [] cg.instructions,
        instructions := cg.instructions, functionTable := table }

end Audesys.St
