import Audesys.Lib.Patch
import Audesys.St.Codegen

/-!
# `St.Layout` — the code of a statement, without backpatching

`genExpr`, `genCond` and `genStmt` say what the generator emits for a piece of syntax at a given index: the
code of a comparison, of a condition (with holes for the two kinds of jumps it leaves open) and of a
statement (with holes for its open `EXIT`s). The jump targets inside are computed from the lengths of the
parts, and nothing is patched. `St.Backpatch` proves that the generator, which emits jumps with target 0 and
patches them by index, comes to the same code; all later statements about compiled programs are about the
functions here.
-/

namespace Audesys.St

open Audesys.Hal Audesys.Lib Codegen

variable [Target]

/-- An instruction index as the jumps carry it. -/
def label (n : Nat) : UInt32 := UInt32.ofNat n

omit [Target] in
theorem label_toNat {n : Nat} (h : n < 2 ^ 32) : (label n).toNat = n := by
  rw [label, UInt32.toNat_ofNat']
  exact Nat.mod_eq_of_lt h

/-! ## Expressions -/

/-- The code of `compileCmp`, for the code of its operands. -/
def genCmp (left right : Scratch → Nat → UInt8 → Option (List Instruction)) (op : BinOp) (sc : Scratch)
    (base : Nat) : Option (List Instruction) := do
  let (rs, sc₁) ← sc.alloc
  let cr ← right sc₁ base rs
  let (ls, sc₂) ← sc₁.alloc
  let cl ← left sc₂ (base + cr.length) ls
  some (cr ++ cl ++ [Instruction.cmp op.opcode ls rs])

/-- The code of a field access: one read. -/
def genField (d : Decls) (name field : String) (sc : Scratch) (dest : UInt8) : Option (List Instruction) := do
  let reg ← d.registers name
  let vt := d.varTypes name
  if isSrRs vt then
    let (other, _) ← sc.alloc
    some [if field = "Q2" then .readSr reg other dest else .readSr reg dest other]
  else if isEdge vt then some [.readEdge reg dest]
  else
    let (et, _) ← sc.alloc
    some [.readTimer reg dest et]

/-- The code of an expression. -/
def genExpr (d : Decls) : Expr → Scratch → Nat → UInt8 → Option (List Instruction)
  | .intLiteral n, _, _, dest => some [.loadImm dest (.s32 n.toInt32)]
  | .realLiteral x, _, _, dest => some [.loadImm dest (.f32 (Target.narrow x))]
  | .boolLiteral b, _, _, dest => some [.loadImm dest (.bool b)]
  | .var name, _, _, dest => do
    let src ← d.registers name
    if src = dest then some []
    else some [.loadImm dest (d.zeroForVar name), .arith .add src dest dest]
  | .binary left op right, sc, base, dest =>
    if op.isArith then do
      let cl ← genExpr d left sc base dest
      let (s, sc₁) ← sc.alloc
      let cr ← genExpr d right sc₁ (base + cl.length) s
      some (cl ++ cr ++ [Instruction.arith op.opcode dest s dest])
    else if op.isCmp then do
      let c ← genCmp (genExpr d left) (genExpr d right) op sc base
      some (c ++ [Instruction.loadImm dest (.bool false), .jumpIf (label (base + c.length + 3)),
        .loadImm dest (.bool true)])
    else do
      let (s, sc₁) ← sc.alloc
      let cl ← genExpr d left sc₁ base dest
      let cr ← genExpr d right sc₁ (base + cl.length) s
      some (cl ++ cr ++ [Instruction.arith op.opcode dest s dest])
  | .unary .neg inner, sc, base, dest => do
    let c ← genExpr d inner sc base dest
    let (zero, _) ← sc.alloc
    some (c ++ [Instruction.loadImm zero (.s32 0), .arith .sub zero dest dest])
  | .unary .not inner, sc, base, dest => do
    let c ← genExpr d inner sc base dest
    some (c ++ [notInst dest])
  | .arrayAccess name index, sc, base, dest => do
    let array ← d.registers name
    let (idx, sc₁) ← sc.alloc
    let c ← genExpr d index sc₁ base idx
    some (c ++ [Instruction.loadIndex dest array idx])
  | .fieldAccess name field, sc, _, dest => genField d name field sc dest

/-! ## Conditions -/

/-- The two kinds of open jumps of a condition. -/
inductive CondHole where
  | onTrue
  | onEnd
  deriving DecidableEq

def CondHole.swap : CondHole → CondHole
  | .onTrue => .onEnd
  | .onEnd => .onTrue

abbrev CondCode := List (Slot CondHole Instruction)

/-- The code of the default arm of a condition. -/
def genTruth (value : Scratch → Nat → UInt8 → Option (List Instruction)) (sc : Scratch) (base : Nat) :
    Option CondCode := do
  let (s, sc₁) ← sc.alloc
  let c ← value sc₁ base s
  let (t, _) ← sc₁.alloc
  some ((c ++ [Instruction.loadImm t (.bool true), Instruction.cmp .eq s t]).map Slot.done ++
    [Slot.hole CondHole.onTrue (Instruction.jumpIf 0)])

/-- The code of a condition. -/
def genCond (d : Decls) : Expr → Scratch → Nat → Option CondCode
  | .binary left op right, sc, base =>
    if op.isCmp then do
      let c ← genCmp (genExpr d left) (genExpr d right) op sc base
      some (c.map Slot.done ++
    [Slot.hole CondHole.onTrue (Instruction.jumpIf 0)])
    else if op = .and then do
      let cl ← genCond d left sc base
      let cr ← genCond d right sc (base + cl.length)
      some (cl ++ cr)
    else if op = .or then do
      let cl ← genCond d left sc base
      let rightStart := base + cl.length + 1
      let cr ← genCond d right sc rightStart
      some (cl.map (Slot.fill retarget .onTrue (label rightStart)) ++ .hole .onEnd (.jump 0) :: cr)
    else genTruth (genExpr d (.binary left op right)) sc base
  | .unary .not inner, sc, base => do
    let c ← genCond d inner sc base
    some (c.map (Slot.relabel CondHole.swap))
  | e, sc, base => genTruth (genExpr d e) sc base

/-- The condition's code once its open jumps are patched; a kind without a target keeps target 0. -/
def CondCode.resolve (c : CondCode) (f : CondHole → Option UInt32) : List Instruction :=
  c.map (Slot.resolve retarget f)

/-! ## Function-block calls -/

def genInput (d : Decls) (arg : Expr) (sc : Scratch) (base : Nat) (dest : UInt8) : Option (List Instruction) :=
  match arg with
  | .var name => do
    let r ← d.registers name
    some [loadReg dest r]
  | e => genExpr d e sc base dest

def genArg (d : Decls) (sc : Scratch) (i : Nat) (arg : Expr) (base : Nat) : Option (List Instruction) :=
  if i < 4 then genExpr d arg sc base (UInt8.ofNat i) else some []

def genArgs (d : Decls) (sc : Scratch) : Nat → List Expr → Nat → Option (List Instruction)
  | _, [], _ => some []
  | i, arg :: args, base => do
    let c ← genArg d sc i arg base
    let cs ← genArgs d sc (i + 1) args (base + c.length)
    some (c ++ cs)

def genDown (d : Decls) (rest : List Expr) (sc : Scratch) (base : Nat) (dest : UInt8) :
    Option (List Instruction) :=
  match rest with
  | arg2 :: _ => genInput d arg2 sc base dest
  | [] => some [.loadImm dest (.bool false)]

def genEdge (d : Decls) (name : String) (arg0 : Expr) (sc : Scratch) (base : Nat) :
    Option (List Instruction) := do
  let reg ← d.registers name
  let (clk, sc₁) ← sc.alloc
  let c ← genInput d arg0 sc₁ base clk
  some (c ++ [Instruction.edgeRun reg clk (kindByte (d.varTypes name))])

def genGeneric (d : Decls) (args : List Expr) (sc : Scratch) (base : Nat) : Option (List Instruction) := do
  let c ← genArgs d sc 0 args base
  some (c ++ [Instruction.call 0])

/-- The code of a call. -/
def genFunCall (d : Decls) (name : String) (args : List Expr) (sc : Scratch) (base : Nat) :
    Option (List Instruction) := do
  let vt := d.varTypes name
  match args with
  | arg0 :: arg1 :: rest =>
    if isTimer vt then
      let reg ← d.registers name
      let (inp, sc₁) ← sc.alloc
      let c ← genInput d arg0 sc₁ base inp
      some (c ++ [Instruction.timerRun reg inp (literalArg arg1) (kindByte vt)])
    else if isCounter vt then
      let reg ← d.registers name
      let (cu, sc₁) ← sc.alloc
      let c₀ ← genInput d arg0 sc₁ base cu
      let (cd, sc₂) ← sc₁.alloc
      let c₂ ← genDown d rest sc₂ (base + c₀.length) cd
      some (c₀ ++ c₂ ++ [Instruction.counterRun reg cu cd (literalArg arg1) (kindByte vt)])
    else if isSrRs vt then
      let reg ← d.registers name
      let (s1, sc₁) ← sc.alloc
      let c₀ ← genInput d arg0 sc₁ base s1
      let (r, sc₂) ← sc₁.alloc
      let c₁ ← genInput d arg1 sc₂ (base + c₀.length) r
      some (c₀ ++ c₁ ++ [Instruction.srRun reg s1 r (kindByte vt)])
    else if isEdge vt then genEdge d name arg0 sc base
    else genGeneric d args sc base
  | [arg0] => if isEdge vt then genEdge d name arg0 sc base else genGeneric d args sc base
  | [] => genGeneric d args sc base

/-! ## Statements -/

/-- The code of a statement, with holes for its open `EXIT`s. -/
abbrev StmtCode := List (Slot Unit Instruction)

/-- Finished code. -/
abbrev plain (l : List Instruction) : StmtCode := l.map .done

/-- The statement's code once its `EXIT`s go to `target`. -/
def StmtCode.resolve (c : StmtCode) (target : UInt32) : List Instruction :=
  c.map (Slot.resolve retarget fun _ => some target)

/-- The compare chain of a `CASE` branch, with open jumps to its body. -/
def genLabels (sc : Scratch) (var : UInt8) : List Int64 → Option (List (Slot Unit Instruction))
  | [] => some []
  | v :: vs => do
    let (s, _) ← sc.alloc
    let c ← genLabels sc var vs
    some (.done (.loadImm s (.s32 v.toInt32)) :: .done (.cmp .eq var s) :: .hole () (.jumpIf 0) :: c)

def genStep (d : Decls) (step : Option Expr) (sc : Scratch) (base : Nat) (dest : UInt8) :
    Option (List Instruction) :=
  match step with
  | some e => genExpr d e sc base dest
  | none => some [.loadImm dest (.s32 1)]

mutual

/-- The code of a statement at index `base`, where the scratch registers `sc` are free. -/
@[simp] def genStmt (d : Decls) (sc : Scratch) : Statement → Nat → Option StmtCode
  | .assign name value, base => do
    let dest ← d.registers name
    let c ← genExpr d value sc base dest
    some (plain (c ++ [storeInst name dest]))
  | .arrayAssign name index value, base => do
    let array ← d.registers name
    let (idx, sc₁) ← sc.alloc
    let ci ← genExpr d index sc₁ base idx
    let (val, sc₂) ← sc₁.alloc
    let cv ← genExpr d value sc₂ (base + ci.length) val
    some (plain (ci ++ cv ++ [Instruction.storeIndex array idx val, storeInst name array]))
  | .ifThen condition thenBody elseBody, base => do
    let cc ← genCond d condition sc base
    let thenLabel := base + cc.length + 1
    let ct ← genBody d sc thenBody thenLabel
    let elseLabel := thenLabel + ct.length + 1
    let ce ← genBody d sc elseBody elseLabel
    some (plain (cc.resolve fun _ => some (label thenLabel)) ++ plain [Instruction.jump (label elseLabel)] ++ ct ++
      plain [Instruction.jump (label (elseLabel + ce.length))] ++ ce)
  | .whileDo condition body, base => do
    let cc ← genCond d condition sc base
    let bodyLabel := base + cc.length + 1
    let cb ← genBody d sc body bodyLabel
    let exitLabel := bodyLabel + cb.length + 1
    some (plain (cc.resolve fun k => if k = .onTrue then some (label bodyLabel) else none) ++
      plain [Instruction.jump (label exitLabel)] ++ plain (cb.resolve (label exitLabel)) ++
      plain [Instruction.jump (label base)])
  | .forDo variableName start stop step body, base => do
    let var ← d.registers variableName
    let cs ← genExpr d start sc base var
    let loopStart := base + cs.length
    let (s, sc₁) ← sc.alloc
    let ce ← genExpr d stop sc₁ loopStart s
    let bodyLabel := loopStart + ce.length + 2
    let cb ← genBody d sc body bodyLabel
    let stepLabel := bodyLabel + cb.length
    let ct ← genStep d step sc₁ stepLabel s
    let exitLabel := stepLabel + ct.length + 2
    some (plain (cs ++ (ce ++ [Instruction.cmp .gt var s, .jumpIf (label exitLabel)])) ++
      plain (cb.resolve (label exitLabel)) ++ plain (ct ++ [Instruction.arith .add var s var, .jump (label loopStart)]))
  | .repeatUntil body condition, base => do
    let cb ← genBody d sc body base
    let condLabel := base + cb.length
    let cc ← genCond d condition sc condLabel
    let exitLabel := condLabel + cc.length + 1
    some (plain (cb.resolve (label exitLabel)) ++
      plain (cc.resolve fun k => if k = .onTrue then some (label exitLabel) else none) ++
      plain [Instruction.jump (label base)])
  | .ret, _ => some (plain [.halt])
  | .exit, _ => some [.hole () (.jump 0)]
  | .case variableName cases elseBody, base => do
    let var ← d.registers variableName
    let cc ← genCases d sc var cases base
    let ce ← genBody d sc elseBody (base + cc.length)
    some (cc.map (Slot.fillNone retarget (label (base + cc.length + ce.length))) ++ ce)
  | .funCall name args, base => do
    let c ← genFunCall d name args sc base
    some (plain c)

@[simp] def genBody (d : Decls) (sc : Scratch) : List Statement → Nat → Option StmtCode
  | [], _ => some []
  | s :: rest, base => do
    let c ← genStmt d sc s base
    let cs ← genBody d sc rest (base + c.length)
    some (c ++ cs)

/-- The branches of a `CASE`. The kind `none` marks the jumps to its end, `some` the `EXIT`s inside. -/
@[simp] def genCases (d : Decls) (sc : Scratch) (var : UInt8) :
    List (List Int64 × List Statement) → Nat → Option (List (Slot (Option Unit) Instruction))
  | [], _ => some []
  | (values, body) :: rest, base => do
    let cl ← genLabels sc var values
    let bodyLabel := base + cl.length + 1
    let cb ← genBody d sc body bodyLabel
    let nextLabel := bodyLabel + cb.length + 1
    let cr ← genCases d sc var rest nextLabel
    some ((StmtCode.resolve cl (label bodyLabel)).map Slot.done ++ [Slot.done (Instruction.jump (label nextLabel))] ++
      cb.map (Slot.relabel some) ++ [Slot.hole none (Instruction.jump 0)] ++ cr)

end

end Audesys.St
