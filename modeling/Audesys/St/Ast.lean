import Audesys.Hal.Value

/-!
# `St.Ast` — the syntax tree of Structured Text

The AST of `audesys-hal-binding-gen` (`parser.rs`). Literals are 64-bit integers and `f64`, as the parser leaves
them. A declaration has no bounds and no string length: the parser drops both.
-/

namespace Audesys.St

open Audesys.Hal

inductive VarType where
  | int | real | bool | dint | lreal | byte | word | dword | sint | usint | uint | ulint | lint | time | date
  | tod | dt | string | array | ton | tof | tp | ctu | ctd | ctud | sr | rs | rtrig | ftrig
  deriving DecidableEq

inductive BinOp where
  | add | sub | mul | div | eq | neq | gt | lt | gte | lte | and | or | mod | xor
  deriving DecidableEq

inductive UnaryOp where
  | neg | not
  deriving DecidableEq

inductive Expr [Target] where
  | intLiteral (n : Int64)
  | realLiteral (x : Target.F64)
  | boolLiteral (b : Bool)
  | var (name : String)
  | binary (left : Expr) (op : BinOp) (right : Expr)
  | unary (op : UnaryOp) (inner : Expr)
  | arrayAccess (name : String) (index : Expr)
  | fieldAccess (name field : String)

inductive Statement [Target] where
  | assign (name : String) (value : Expr)
  | ifThen (condition : Expr) (thenBody elseBody : List Statement)
  | whileDo (condition : Expr) (body : List Statement)
  | forDo (variableName : String) (start stop : Expr) (step : Option Expr) (body : List Statement)
  | case (variableName : String) (cases : List (List Int64 × List Statement)) (elseBody : List Statement)
  | repeatUntil (body : List Statement) (condition : Expr)
  | ret
  | exit
  | funCall (name : String) (args : List Expr)
  | arrayAssign (name : String) (index value : Expr)

structure Variable where
  name : String
  varType : VarType
  deriving DecidableEq

structure FunctionDef [Target] where
  name : String
  returnType : VarType
  locals : List Variable
  inputParams : List Variable
  outputParams : List Variable
  inoutParams : List Variable
  body : List Statement

structure Program [Target] where
  name : String
  vars : List Variable
  body : List Statement
  functions : List FunctionDef

/-! ## Operators -/

/-- `op_to_arith_opcode` selects these. -/
def BinOp.isArith : BinOp → Bool
  | .add | .sub | .mul | .div | .mod => true
  | _ => false

/-- `is_cmp_op`. -/
def BinOp.isCmp : BinOp → Bool
  | .eq | .neq | .gt | .lt | .gte | .lte => true
  | _ => false

/-- `is_integer_type`. -/
def VarType.isInteger : VarType → Bool
  | .int | .dint | .sint | .usint | .uint | .ulint | .lint | .byte | .word | .dword | .time | .date | .tod
  | .dt => true
  | _ => false

/-- `types_compatible`. -/
def typesCompatible (a b : VarType) : Bool :=
  a == b || (a == .int && b.isInteger) || (b == .int && a.isInteger) ||
    (a == .real && b == .lreal) || (a == .lreal && b == .real)

end Audesys.St
