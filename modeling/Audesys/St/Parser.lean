import Audesys.Lib.Parsing
import Audesys.St.Ast
import Audesys.St.Lexer

/-!
# `St.Parser` — the parser of Structured Text

`parser.rs` of `audesys-hal-binding-gen`: recursive descent over the tokens, precedence climbing for expressions.
The state is the list of the tokens from `pos` on; past the end it is empty. Each recursive call and each round
of a loop takes one from the fuel.
-/

namespace Audesys.St

open Audesys.Hal

variable [Target]

inductive ParseError where
  | unexpectedToken (token : Token) (line col : Nat)
  | unexpectedEof
  | expectedToken (token : Token) (line col : Nat)
  | redefinedVariable (name : String) (line : Nat)
  deriving DecidableEq

abbrev Parser : Type → Type := Lib.Parser TokenInfo ParseError

open Lib.Parser (fail outOfFuel)

/-! ## Tokens -/

def current : Parser (Option TokenInfo) := Lib.Parser.peek

def advance : Parser (Option TokenInfo) := Lib.Parser.next

def peekToken : Parser (Option Token) := do
  let ti ← current
  return ti.map (·.token)

def unexpected (ti : TokenInfo) : ParseError := .unexpectedToken ti.token ti.span.line ti.span.col

def expect (expected : Token) : Parser Unit := do
  match ← advance with
  | some ti => if ti.token = expected then pure () else fail (unexpected ti)
  | none => fail .unexpectedEof

/-- `expect_ident`: the name and where it stands. -/
def expectIdent : Parser (String × Span) := do
  match ← advance with
  | some ti =>
    match ti.token with
    | .identifier name => pure (name, ti.span)
    | _ => fail (unexpected ti)
  | none => fail .unexpectedEof

@[simp] theorem peekToken_bind {α : Type} (f : Option Token → Parser α) (ts : List TokenInfo) :
    (peekToken >>= f) ts = f (ts.head?.map (·.token)) ts := rfl

@[simp] theorem advance_bind {α : Type} (f : Option TokenInfo → Parser α) (ts : List TokenInfo) :
    (advance >>= f) ts = f ts.head? ts.tail := rfl

@[simp] theorem expect_bind_cons {α : Type} (f : Unit → Parser α) {token : Token} {ti : TokenInfo}
    (h : ti.token = token) (ts : List TokenInfo) : (expect token >>= f) (ti :: ts) = f () ts :=
  Lib.Parser.bind_ok (by simp [expect, h])

theorem expectIdent_bind_cons {α : Type} (f : String × Span → Parser α) {name : String} {ti : TokenInfo}
    (h : ti.token = .identifier name) (ts : List TokenInfo) :
    (expectIdent >>= f) (ti :: ts) = f (name, ti.span) ts :=
  Lib.Parser.bind_ok (by simp [expectIdent, h])

/-! ## Expressions -/

def precedence : BinOp → Nat
  | .or | .xor => 1
  | .and => 2
  | .eq | .neq | .gt | .lt | .gte | .lte => 3
  | .add | .sub => 4
  | .mul | .div | .mod => 5

def tokenToBinop : Token → Option BinOp
  | .plus => some .add
  | .minus => some .sub
  | .star => some .mul
  | .slash => some .div
  | .equal => some .eq
  | .notEqual => some .neq
  | .greater => some .gt
  | .less => some .lt
  | .greaterEq => some .gte
  | .lessEq => some .lte
  | .and => some .and
  | .or => some .or
  | .mod => some .mod
  | .xor => some .xor
  | _ => none

mutual

def parseExprPrec : Nat → Nat → Parser Expr
  | 0, _ => outOfFuel
  | fuel + 1, minPrec => do
    let left ← parseUnary fuel
    climb fuel minPrec left

/-- The loop of `parse_expr_prec`. -/
def climb : Nat → Nat → Expr → Parser Expr
  | 0, _, _ => outOfFuel
  | fuel + 1, minPrec, left => do
    match (← peekToken).bind tokenToBinop with
    | none => pure left
    | some op =>
      if precedence op ≥ minPrec then
        let _ ← advance
        let right ← parseExprPrec fuel (precedence op + 1)
        climb fuel minPrec (.binary left op right)
      else pure left

def parseUnary : Nat → Parser Expr
  | 0 => outOfFuel
  | fuel + 1 => do
    match ← peekToken with
    | some .minus =>
      let _ ← advance
      let expr ← parseUnary fuel
      return .unary .neg expr
    | some .not =>
      let _ ← advance
      let expr ← parseUnary fuel
      return .unary .not expr
    | _ => parsePrimary fuel

def parsePrimary : Nat → Parser Expr
  | 0 => outOfFuel
  | fuel + 1 => do
    match ← advance with
    | none => fail .unexpectedEof
    | some ti =>
      match ti.token with
      | .integerLiteral n => return .intLiteral n
      | .realLiteral x => return .realLiteral x
      | .identifier name =>
        if name = "TRUE" then return .boolLiteral true
        else if name = "FALSE" then return .boolLiteral false
        else
          match ← peekToken with
          | some .lbracket =>
            expect .lbracket
            let index ← parseExprPrec fuel 0
            expect .rbracket
            return .arrayAccess name index
          | some .dot =>
            expect .dot
            let (field, _) ← expectIdent
            return .fieldAccess name field
          | _ => return .var name
      | .lparen =>
        let expr ← parseExprPrec fuel 0
        expect .rparen
        return expr
      | _ => fail (unexpected ti)

end

def parseExpression (fuel : Nat) : Parser Expr := parseExprPrec fuel 0

/-! ## Declarations -/

/-- The types that are a single token. `TOF` is not among them, although `VarType` has it. -/
def simpleType : Token → Option VarType
  | .int => some .int
  | .real => some .real
  | .bool => some .bool
  | .dint => some .dint
  | .lreal => some .lreal
  | .byte => some .byte
  | .word => some .word
  | .dword => some .dword
  | .sint => some .sint
  | .usint => some .usint
  | .uint => some .uint
  | .ulint => some .ulint
  | .lint => some .lint
  | .time => some .time
  | .date => some .date
  | .tod => some .tod
  | .dt => some .dt
  | .ton => some .ton
  | .tp => some .tp
  | .ctu => some .ctu
  | .ctd => some .ctd
  | .ctud => some .ctud
  | .sr => some .sr
  | .rs => some .rs
  | .rtrig => some .rtrig
  | .ftrig => some .ftrig
  | _ => none

/-- Behind `STRING`: the length in parentheses, if there is one. -/
def parseStringLength : Parser Unit := do
  if (← peekToken) = some .lparen then
    expect .lparen
    match (← advance).map TokenInfo.token with
    | some (.integerLiteral _) => expect .rparen
    | _ => fail .unexpectedEof

def parseVarType : Nat → Parser VarType
  | 0 => outOfFuel
  | fuel + 1 => do
    match ← advance with
    | none => fail .unexpectedEof
    | some ti =>
      match ti.token with
      | .string =>
        parseStringLength
        return .string
      | .array =>
        expect .lbracket
        let _ ← parseExpression fuel
        expect .dotDot
        let _ ← parseExpression fuel
        expect .rbracket
        expect .of_
        let _ ← parseVarType fuel
        return .array
      | token =>
        match simpleType token with
        | some varType => return varType
        | none => fail (unexpected ti)

/-- One declaration, and the line it is on. -/
def parseDeclaration (fuel : Nat) : Parser (Variable × Nat) := do
  let (name, span) ← expectIdent
  expect .colon
  let varType ← parseVarType fuel
  expect .semicolon
  return (⟨name, varType⟩, span.line)

/-- The loop of `parse_var_block` and `parse_param_block`, with the declarations so far. -/
def parseDeclarations : Nat → Token → List Variable → Parser (List Variable)
  | 0, _, _ => outOfFuel
  | fuel + 1, stop, vars => do
    if (← peekToken) ≠ some stop then
      let (v, line) ← parseDeclaration fuel
      if vars.any (·.name == v.name) then fail (.redefinedVariable v.name line)
      else parseDeclarations fuel stop (vars ++ [v])
    else return vars

def parseVarBlock (fuel : Nat) : Parser (List Variable) := do
  expect .var
  let vars ← parseDeclarations fuel .endVar []
  expect .endVar
  if (← peekToken) = some .semicolon then
    let _ ← advance
  return vars

def parseParamBlock (fuel : Nat) (start stop : Token) : Parser (List Variable) := do
  expect start
  let vars ← parseDeclarations fuel stop []
  expect stop
  expect .semicolon
  return vars

/-! ## Statements -/

/-- The arguments behind the first, each after a comma. -/
def parseMoreArgs : Nat → Parser (List Expr)
  | 0 => outOfFuel
  | fuel + 1 => do
    if (← peekToken) = some .comma then
      expect .comma
      let arg ← parseExpression fuel
      let args ← parseMoreArgs fuel
      return arg :: args
    else return []

def parseArgs (fuel : Nat) : Parser (List Expr) := do
  if (← peekToken) ≠ some .rparen then
    let arg ← parseExpression fuel
    let args ← parseMoreArgs fuel
    return arg :: args
  else return []

def parseIdentStmt (fuel : Nat) : Parser Statement := do
  let (name, _) ← expectIdent
  match ← peekToken with
  | some .lbracket =>
    expect .lbracket
    let index ← parseExpression fuel
    expect .rbracket
    expect .assign
    let value ← parseExpression fuel
    expect .semicolon
    return .arrayAssign name index value
  | some .assign =>
    expect .assign
    let value ← parseExpression fuel
    expect .semicolon
    return .assign name value
  | some .lparen =>
    expect .lparen
    let args ← parseArgs fuel
    expect .rparen
    expect .semicolon
    return .funCall name args
  | _ => fail (.unexpectedToken (.identifier "") 0 0)

def parseReturn : Parser Statement := do
  expect .return_
  expect .semicolon
  return .ret

def parseExit : Parser Statement := do
  expect .exit
  expect .semicolon
  return .exit

/-- `parse_case_values`: up to the colon. -/
def parseCaseValues : Nat → Parser (List Int64)
  | 0 => outOfFuel
  | fuel + 1 => do
    match ← advance with
    | none => fail .unexpectedEof
    | some ti =>
      match ti.token with
      | .integerLiteral n =>
        match ← peekToken with
        | some .colon =>
          let _ ← advance
          return [n]
        | some .comma =>
          let _ ← advance
          let values ← parseCaseValues fuel
          return n :: values
        | _ =>
          let span := (← current).map (·.span)
          fail (.expectedToken .colon ((span.map (·.line)).getD 0) ((span.map (·.col)).getD 0))
      | _ => fail (unexpected ti)

/-- `if peek == token { expect(token)?; p } else { default }`. -/
def parseOptional {α : Type} (token : Token) (p : Parser α) (default : α) : Parser α := do
  if (← peekToken) = some token then
    expect token
    p
  else return default

/-- The body of a case goes on here. -/
def inCaseBody : Option Token → Bool
  | some .else_ | some .endCase | some (.integerLiteral _) => false
  | _ => true

mutual

def parseStatement : Nat → Parser Statement
  | 0 => outOfFuel
  | fuel + 1 => do
    match ← peekToken with
    | some .if_ => parseIf fuel
    | some .while_ => parseWhile fuel
    | some .for_ => parseFor fuel
    | some .case_ => parseCase fuel
    | some .repeat_ => parseRepeat fuel
    | some .return_ => parseReturn
    | some .exit => parseExit
    | _ => parseIdentStmt fuel

/-- A loop `while more(peek) { stmts.push(parse_statement(p)?) }`. -/
def parseStatementsWhile : Nat → (Option Token → Bool) → Parser (List Statement)
  | 0, _ => outOfFuel
  | fuel + 1, more => do
    if more (← peekToken) then
      let stmt ← parseStatement fuel
      let stmts ← parseStatementsWhile fuel more
      return stmt :: stmts
    else return []

def parseIf : Nat → Parser Statement
  | 0 => outOfFuel
  | fuel + 1 => do
    expect .if_
    let condition ← parseExpression fuel
    expect .then_
    let thenBody ← parseStatementsWhile fuel (fun token => token ≠ some .else_ && token ≠ some .endIf)
    let elseBody ← parseOptional .else_ (parseStatementsWhile fuel (· ≠ some .endIf)) []
    expect .endIf
    expect .semicolon
    return .ifThen condition thenBody elseBody

def parseWhile : Nat → Parser Statement
  | 0 => outOfFuel
  | fuel + 1 => do
    expect .while_
    let condition ← parseExpression fuel
    expect .do_
    let body ← parseStatementsWhile fuel (· ≠ some .endWhile)
    expect .endWhile
    expect .semicolon
    return .whileDo condition body

def parseFor : Nat → Parser Statement
  | 0 => outOfFuel
  | fuel + 1 => do
    expect .for_
    let (variableName, _) ← expectIdent
    expect .assign
    let start ← parseExpression fuel
    expect .to_
    let stop ← parseExpression fuel
    let step ← parseOptional .by_ (some <$> parseExpression fuel) none
    expect .do_
    let body ← parseStatementsWhile fuel (· ≠ some .endFor)
    expect .endFor
    expect .semicolon
    return .forDo variableName start stop step body

def parseCase : Nat → Parser Statement
  | 0 => outOfFuel
  | fuel + 1 => do
    expect .case_
    let (variableName, _) ← expectIdent
    expect .of_
    let cases ← parseCases fuel
    let elseBody ← parseOptional .else_ (parseStatementsWhile fuel (· ≠ some .endCase)) []
    expect .endCase
    expect .semicolon
    return .case variableName cases elseBody

/-- The loop of `parse_case`. -/
def parseCases : Nat → Parser (List (List Int64 × List Statement))
  | 0 => outOfFuel
  | fuel + 1 => do
    let token ← peekToken
    if token = some .endCase ∨ token = some .else_ then return []
    else
      let values ← parseCaseValues fuel
      let body ← parseStatementsWhile fuel inCaseBody
      let cases ← parseCases fuel
      return (values, body) :: cases

def parseRepeat : Nat → Parser Statement
  | 0 => outOfFuel
  | fuel + 1 => do
    expect .repeat_
    let body ← parseStatementsWhile fuel (· ≠ some .until_)
    expect .until_
    let condition ← parseExpression fuel
    expect .endRepeat
    expect .semicolon
    return .repeatUntil body condition

end

def parseStatementsUntil (fuel : Nat) (stop : Token) : Parser (List Statement) :=
  parseStatementsWhile fuel (· ≠ some stop)

/-! ## Functions and programs -/

/-- The blocks of a function: a later block of a kind replaces an earlier one. -/
structure Blocks where
  inputParams : List Variable
  outputParams : List Variable
  inoutParams : List Variable
  locals : List Variable

/-- The loop over the blocks in `parse_function_def`. -/
def parseBlocks : Nat → Blocks → Parser Blocks
  | 0, _ => outOfFuel
  | fuel + 1, blocks => do
    match ← peekToken with
    | some .varInput =>
      let vars ← parseParamBlock fuel .varInput .endVar
      parseBlocks fuel { blocks with inputParams := vars }
    | some .varOutput =>
      let vars ← parseParamBlock fuel .varOutput .endVar
      parseBlocks fuel { blocks with outputParams := vars }
    | some .varInOut =>
      let vars ← parseParamBlock fuel .varInOut .endVar
      parseBlocks fuel { blocks with inoutParams := vars }
    | some .var =>
      let vars ← parseVarBlock fuel
      parseBlocks fuel { blocks with locals := vars }
    | _ => return blocks

def parseFunctionDef (fuel : Nat) : Parser FunctionDef := do
  expect .function
  let (name, _) ← expectIdent
  expect .colon
  let returnType ← parseVarType fuel
  expect .semicolon
  let blocks ← parseBlocks fuel ⟨[], [], [], []⟩
  let body ← parseStatementsUntil fuel .endFunction
  expect .endFunction
  expect .semicolon
  return ⟨name, returnType, blocks.locals, blocks.inputParams, blocks.outputParams, blocks.inoutParams, body⟩

/-- The loop of `parse_program_inner`: the statements of the body and the functions, each in their order. -/
def parseItems : Nat → Parser (List Statement × List FunctionDef)
  | 0 => outOfFuel
  | fuel + 1 => do
    match ← peekToken with
    | some .function =>
      let f ← parseFunctionDef fuel
      let (body, functions) ← parseItems fuel
      return (body, f :: functions)
    | some .endProgram => return ([], [])
    | some _ =>
      let stmt ← parseStatement fuel
      let (body, functions) ← parseItems fuel
      return (stmt :: body, functions)
    | none => fail .unexpectedEof

/-- The first name that occurs again. -/
def redeclared : List String → List String → Option String
  | _, [] => none
  | seen, name :: names => if seen.contains name then some name else redeclared (name :: seen) names

/-- The variable declarations of a program, which may be missing. -/
def parseVariables (fuel : Nat) : Parser (List Variable) := do
  if (← peekToken) = some .var then parseVarBlock fuel else return []

def parseProgramInner (fuel : Nat) : Parser Program := do
  expect .program
  let (name, _) ← expectIdent
  let vars ← parseVariables fuel
  match redeclared [] (vars.map (·.name)) with
  | some again => fail (.redefinedVariable again 0)
  | none =>
    let (body, functions) ← parseItems fuel
    expect .endProgram
    return ⟨name, vars, body, functions⟩

end Audesys.St
