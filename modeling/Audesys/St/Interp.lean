import Audesys.St.Codegen

/-!
# `St.Interp` — a big-step interpreter of the integer core

What a Structured Text program over `DINT` variables means, without instructions, registers or jumps: a
store of 32-bit values, checked arithmetic (`none` is an intermediate overflow), division and remainder by
zero are 0, and a `FOR` evaluates its bound anew before every iteration. Besides the values, the store keeps
what each variable last had assigned to it (`published`): an assignment writes the variable's signal, the
counting of a `FOR` does not.

Loops run on `fuel`, which bounds the iterations of every loop alike; a program terminates when some fuel is
enough. `Statement.isCore` is the part of the language this is about.
-/

namespace Audesys.St

open Audesys.Hal

/-! ## Arithmetic -/

/-- The exact result, if it is a 32-bit value. -/
def exact (r : Int) : Option Int32 := if MachineInt.InRange Int32 r then some (Int32.ofInt r) else none

/-- An operator on integers. The remainder overflows where the quotient does; comparisons have no value. -/
def evalOp : BinOp → Int32 → Int32 → Option Int32
  | .add, a, b => exact (a.toInt + b.toInt)
  | .sub, a, b => exact (a.toInt - b.toInt)
  | .mul, a, b => exact (a.toInt * b.toInt)
  | .div, a, b => if b = 0 then some 0 else exact (a.toInt.tdiv b.toInt)
  | .mod, a, b =>
    if b = 0 then some 0 else (exact (a.toInt.tdiv b.toInt)).map fun _ => Int32.ofInt (a.toInt.tmod b.toInt)
  | .and, a, b => some (a &&& b)
  | .or, a, b => some (a ||| b)
  | .xor, a, b => some (a ^^^ b)
  | _, _, _ => none

/-- A comparison of integers. -/
def evalCmp : BinOp → Int32 → Int32 → Bool
  | .eq, a, b => a.toInt = b.toInt
  | .neq, a, b => a.toInt ≠ b.toInt
  | .gt, a, b => a.toInt > b.toInt
  | .lt, a, b => a.toInt < b.toInt
  | .gte, a, b => a.toInt ≥ b.toInt
  | .lte, a, b => a.toInt ≤ b.toInt
  | _, _, _ => false

variable [Target]

/-- The value of an integer expression. -/
def evalExpr (ρ : String → Int32) : Expr → Option Int32
  | .intLiteral n => exact n.toInt
  | .var name => some (ρ name)
  | .binary left op right => do
    let a ← evalExpr ρ left
    let b ← evalExpr ρ right
    evalOp op a b
  | .unary .neg inner => do
    let a ← evalExpr ρ inner
    exact (-a.toInt)
  | .unary .not inner => (evalExpr ρ inner).map fun a => ~~~a
  | _ => none

/-- The value of a single comparison. -/
def evalTest (ρ : String → Int32) : Expr → Option Bool
  | .binary left op right => do
    let a ← evalExpr ρ left
    let b ← evalExpr ρ right
    some (evalCmp op a b)
  | _ => none

/-! ## Statements -/

structure Store where
  vals : String → Int32
  published : String → Option Int32

namespace Store

def init : Store := ⟨fun _ => 0, fun _ => none⟩

/-- A variable takes a value. -/
def set (σ : Store) (name : String) (v : Int32) : Store :=
  { σ with vals := fun x => if x = name then v else σ.vals x }

/-- An assignment also writes the signal. -/
def assign (σ : Store) (name : String) (v : Int32) : Store :=
  { σ.set name v with published := fun x => if x = name then some v else σ.published x }

end Store

/-- How a statement ends. -/
inductive Outcome where
  | normal (σ : Store)
  | exit (σ : Store)
  | ret (σ : Store)
  | overflow
  | timeout

/-- Go on after a normal end. -/
def Outcome.seq (o : Outcome) (k : Store → Outcome) : Outcome :=
  match o with
  | .normal σ => k σ
  | o => o

/-- One iteration either goes on with a store or leaves the loop with an outcome. -/
abbrev Iteration := Store ⊕ Outcome

/-- An `EXIT` of the body ends the loop normally. -/
def afterBody (o : Outcome) (k : Store → Iteration) : Iteration :=
  match o with
  | .normal σ => k σ
  | .exit σ => .inr (.normal σ)
  | o => .inr o

def loop (iterate : Store → Iteration) : Nat → Store → Outcome
  | 0, _ => .timeout
  | n + 1, σ =>
    match iterate σ with
    | .inl σ' => loop iterate n σ'
    | .inr o => o

def evalStep : Option Expr → Option Int32
  | none => some 1
  | some e => evalExpr (fun _ => 0) e

/-- `v` is one of the labels of a `CASE` branch, which are compared in order. -/
def matchLabels (v : Int32) : List Int64 → Option Bool
  | [] => some false
  | l :: ls =>
    match exact l.toInt with
    | none => none
    | some k => if v = k then some true else matchLabels v ls

def whileIter (condition : Expr) (body : Store → Outcome) (σ : Store) : Iteration :=
  match evalTest σ.vals condition with
  | none => .inr .overflow
  | some false => .inr (.normal σ)
  | some true => afterBody (body σ) .inl

def repeatIter (body : Store → Outcome) (condition : Expr) (σ : Store) : Iteration :=
  afterBody (body σ) fun σ' =>
    match evalTest σ'.vals condition with
    | none => .inr .overflow
    | some false => .inl σ'
    | some true => .inr (.normal σ')

/-- The counting of a `FOR`. -/
def count (name : String) (step : Option Expr) (σ : Store) : Iteration :=
  match (evalStep step).bind fun k => exact ((σ.vals name).toInt + k.toInt) with
  | none => .inr .overflow
  | some v => .inl (σ.set name v)

def forIter (name : String) (stop : Expr) (step : Option Expr) (body : Store → Outcome) (σ : Store) :
    Iteration :=
  match evalExpr σ.vals stop with
  | none => .inr .overflow
  | some v => if (σ.vals name).toInt > v.toInt then .inr (.normal σ) else afterBody (body σ) (count name step)

mutual

def execStmt (fuel : Nat) : Statement → Store → Outcome
  | .assign name value, σ =>
    match evalExpr σ.vals value with
    | none => .overflow
    | some v => .normal (σ.assign name v)
  | .ifThen condition thenBody elseBody, σ =>
    match evalTest σ.vals condition with
    | none => .overflow
    | some true => execBody fuel thenBody σ
    | some false => execBody fuel elseBody σ
  | .whileDo condition body, σ => loop (whileIter condition (execBody fuel body)) fuel σ
  | .forDo name start stop step body, σ =>
    match evalExpr σ.vals start with
    | none => .overflow
    | some v => loop (forIter name stop step (execBody fuel body)) fuel (σ.set name v)
  | .repeatUntil body condition, σ => loop (repeatIter (execBody fuel body) condition) fuel σ
  | .ret, σ => .ret σ
  | .exit, σ => .exit σ
  | .case name cases elseBody, σ => execCases fuel (σ.vals name) cases (execBody fuel elseBody) σ
  -- calls and array elements are not part of the core
  | .funCall _ _, _ | .arrayAssign _ _ _, _ => .overflow

def execBody (fuel : Nat) : List Statement → Store → Outcome
  | [], σ => .normal σ
  | s :: rest, σ => (execStmt fuel s σ).seq (execBody fuel rest)

def execCases (fuel : Nat) (v : Int32) : List (List Int64 × List Statement) → (Store → Outcome) → Store → Outcome
  | [], otherwise, σ => otherwise σ
  | (labels, body) :: rest, otherwise, σ =>
    match matchLabels v labels with
    | none => .overflow
    | some true => execBody fuel body σ
    | some false => execCases fuel v rest otherwise σ

end

/-- The program ends in `σ`, by its last statement or by a `RETURN`. -/
def Final (body : List Statement) (σ : Store) : Prop :=
  ∃ fuel, execBody fuel body .init = .normal σ ∨ execBody fuel body .init = .ret σ

/-- No expression that is evaluated overflows. -/
def NoOverflow (body : List Statement) : Prop := ∀ fuel, execBody fuel body .init ≠ .overflow

/-! ## The core -/

namespace Expr

def vars : Expr → List String
  | .var name => [name]
  | .binary left _ right => left.vars ++ right.vars
  | .unary _ inner => inner.vars
  | _ => []

/-- The variables that do not stand at the leftmost leaf. -/
def rightVars : Expr → List String
  | .binary left _ right => left.rightVars ++ right.vars
  | .unary _ inner => inner.rightVars
  | _ => []

/-- Integer expressions: literals, variables and the operators that are not comparisons. -/
def isInt : Expr → Bool
  | .intLiteral _ | .var _ => true
  | .binary left op right => !op.isCmp && left.isInt && right.isInt
  | .unary _ inner => inner.isInt
  | _ => false

/-- A single comparison of integer expressions. -/
def isTest : Expr → Bool
  | .binary left op right => op.isCmp && left.isInt && right.isInt
  | _ => false

/-- The right-hand side of an assignment to `name`. -/
def isSource (name : String) (e : Expr) : Bool := e.isInt && !e.rightVars.contains name

/-- A step is left out or a positive literal. -/
def isStep : Option Expr → Bool
  | none => true
  | some (.intLiteral n) => 0 < n.toInt
  | some _ => false

end Expr

mutual

/-- The statements of the core; `inLoop` says whether `EXIT` has a loop to leave. -/
def Statement.isCore (inLoop : Bool) : Statement → Bool
  | .assign name value => value.isSource name
  | .ifThen condition thenBody elseBody => condition.isTest && bodyIsCore inLoop thenBody && bodyIsCore inLoop elseBody
  | .whileDo condition body => condition.isTest && bodyIsCore true body
  | .forDo name start stop step body =>
    start.isSource name && stop.isInt && Expr.isStep step && bodyIsCore true body
  | .repeatUntil body condition => bodyIsCore true body && condition.isTest
  | .ret => true
  | .exit => inLoop
  | .case _ cases elseBody => casesAreCore inLoop cases && bodyIsCore inLoop elseBody
  | .funCall _ _ | .arrayAssign _ _ _ => false

def bodyIsCore (inLoop : Bool) : List Statement → Bool
  | [] => true
  | s :: rest => s.isCore inLoop && bodyIsCore inLoop rest

def casesAreCore (inLoop : Bool) : List (List Int64 × List Statement) → Bool
  | [] => true
  | (_, body) :: rest => bodyIsCore inLoop body && casesAreCore inLoop rest

end

/-- A program of the core: all variables are `DINT`. -/
def Program.isCore (p : Program) : Bool :=
  p.vars.all (fun v => v.varType = .dint) && bodyIsCore false p.body

end Audesys.St
