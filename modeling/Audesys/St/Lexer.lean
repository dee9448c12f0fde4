import Audesys.Hal.F64

/-!
# `St.Lexer` — the tokens of Structured Text

`lexer.rs` of `audesys-hal-binding-gen`: one pass over the characters, with the line and the column at hand. Blanks
and nested comments give no token. Token names that Lean reserves end in an underscore.

A round consumes at least one character, so as many rounds as there are characters are enough
(`tokenizeFrom_of_length_le`).
-/

namespace Audesys.St

open Audesys.Hal

variable [Target]

inductive Token where
  | program | endProgram | var | endVar | if_ | then_ | else_ | endIf | while_ | do_ | endWhile | for_ | to_ | by_
  | endFor | case_ | of_ | endCase | repeat_ | until_ | endRepeat | return_ | exit | function | endFunction
  | functionBlock | endFunctionBlock | varInput | varOutput | varInOut | and | or | not
  | int | real | bool | dint | lreal | byte | word | dword | sint | usint | uint | ulint | lint | time | date | tod
  | dt | string | array
  | assign | plus | minus | star | slash | equal | notEqual | greater | less | greaterEq | lessEq | mod | xor
  | semicolon | colon | lparen | rparen | comma | lbracket | rbracket | dotDot | dot
  | ton | tof | tp | ctu | ctd | ctud | sr | rs | rtrig | ftrig
  | identifier (name : String)
  | integerLiteral (n : Int64)
  | realLiteral (x : Target.F64)
  deriving DecidableEq

structure Span where
  line : Nat
  col : Nat
  deriving DecidableEq

structure TokenInfo where
  token : Token
  span : Span
  deriving DecidableEq

inductive LexError where
  | unexpectedChar (c : Char) (line col : Nat)
  | unterminatedString (line col : Nat)
  deriving DecidableEq

/-- What the standard library knows of characters outside ASCII. -/
class CharTable where
  isAlphabetic : Char → Bool
  isNumeric : Char → Bool
  ascii_isAlphabetic : ∀ c : Char, c.toNat < 128 → isAlphabetic c = c.isAlpha
  ascii_isNumeric : ∀ c : Char, c.toNat < 128 → isNumeric c = c.isDigit

/-- `match_keyword`. -/
def keywords : List (String × Token) :=
  [("PROGRAM", .program), ("END_PROGRAM", .endProgram), ("VAR", .var), ("END_VAR", .endVar), ("IF", .if_),
    ("THEN", .then_), ("ELSE", .else_), ("END_IF", .endIf), ("WHILE", .while_), ("DO", .do_),
    ("END_WHILE", .endWhile), ("FOR", .for_), ("TO", .to_), ("BY", .by_), ("END_FOR", .endFor), ("CASE", .case_),
    ("OF", .of_), ("END_CASE", .endCase), ("REPEAT", .repeat_), ("UNTIL", .until_), ("END_REPEAT", .endRepeat),
    ("RETURN", .return_), ("EXIT", .exit), ("FUNCTION", .function), ("END_FUNCTION", .endFunction),
    ("FUNCTION_BLOCK", .functionBlock), ("END_FUNCTION_BLOCK", .endFunctionBlock), ("VAR_INPUT", .varInput),
    ("VAR_OUTPUT", .varOutput), ("VAR_IN_OUT", .varInOut), ("AND", .and), ("OR", .or), ("NOT", .not),
    ("MOD", .mod), ("XOR", .xor), ("INT", .int), ("REAL", .real), ("BOOL", .bool), ("DINT", .dint),
    ("LREAL", .lreal), ("BYTE", .byte), ("WORD", .word), ("DWORD", .dword), ("SINT", .sint), ("USINT", .usint),
    ("UINT", .uint), ("ULINT", .ulint), ("LINT", .lint), ("TIME", .time), ("DATE", .date), ("TOD", .tod),
    ("DT", .dt), ("STRING", .string), ("ARRAY", .array), ("TON", .ton), ("TOF", .tof), ("TP", .tp), ("CTU", .ctu),
    ("CTD", .ctd), ("CTUD", .ctud), ("SR", .sr), ("RS", .rs), ("R_TRIG", .rtrig), ("F_TRIG", .ftrig)]

def matchKeyword (s : String) : Token := (keywords.lookup s).getD (.identifier s)

/-- Operators and delimiters, in the order in which they are tried. -/
def symbols : List (List Char × Token) :=
  [([':', '='], .assign), ([':'], .colon), (['<', '>'], .notEqual), (['<', '='], .lessEq), (['<'], .less),
    (['>', '='], .greaterEq), (['>'], .greater), (['+'], .plus), (['-'], .minus), (['*'], .star), (['/'], .slash),
    (['='], .equal), ([';'], .semicolon), (['('], .lparen), ([')'], .rparen), ([','], .comma), (['['], .lbracket),
    ([']'], .rbracket), (['.', '.'], .dotDot), (['.'], .dot)]

/-! ## Numbers -/

/-- The value of a digit string. -/
def digitsValue (digits : List Char) : Nat :=
  digits.foldl (fun n c => 10 * n + (c.toNat - '0'.toNat)) 0

/-- `num_str.parse::<i64>().unwrap_or(0)`. -/
def parseI64 (digits : List Char) : Int64 :=
  if digitsValue digits < 2 ^ 63 then Int64.ofNat (digitsValue digits) else 0

/-- A point that a number goes on after: a digit follows. -/
def pointed : List Char → Bool
  | '.' :: c :: _ => c.isDigit
  | _ => false

/-- The number at the front: its digits, those behind a point if there is one, and what is left. -/
def scanNumber (cs : List Char) : List Char × Option (List Char) × List Char :=
  let whole := cs.takeWhile Char.isDigit
  let rest := cs.dropWhile Char.isDigit
  if pointed rest then (whole, some (rest.tail.takeWhile Char.isDigit), rest.tail.dropWhile Char.isDigit)
  else (whole, none, rest)

/-- The token of a number. A decimal always parses as an `f64`. -/
def numberToken [F64Math] (whole : List Char) : Option (List Char) → Token
  | some fraction => .realLiteral (F64Math.decimal (digitsValue (whole ++ fraction)) fraction.length)
  | none => .integerLiteral (parseI64 whole)

/-! ## Rounds -/

/-- Where the pass is: the characters left and the position of the first of them. -/
structure Cursor where
  rest : List Char
  line : Nat
  col : Nat

/-- Behind the opening of a comment, which is closed at depth 0. -/
def skipComment : Nat → List Char → Nat → Nat → Cursor
  | 0, cs, line, col => ⟨cs, line, col⟩
  | _ + 1, [], line, col => ⟨[], line, col⟩
  | depth + 1, '(' :: '*' :: cs, line, col => skipComment (depth + 2) cs line (col + 2)
  | depth + 1, '*' :: ')' :: cs, line, col => skipComment depth cs line (col + 2)
  | depth + 1, c :: cs, line, col =>
    if c = '\n' then skipComment (depth + 1) cs (line + 1) 1 else skipComment (depth + 1) cs line (col + 1)

variable [CharTable] [F64Math]

omit [Target] [F64Math] in
/-- The characters of a name behind its first. -/
def isNameChar (c : Char) : Bool := CharTable.isAlphabetic c || CharTable.isNumeric c || c == '_'

/-- One round of `tokenize` at the character `c`: the token, if it gives one, and where the pass goes on. -/
def tokenizeStep (c : Char) (cs : List Char) (line col : Nat) : Except LexError (Option Token × Cursor) :=
  if c = '\n' then .ok (none, ⟨cs, line + 1, 1⟩)
  else if c = ' ' ∨ c = '\r' ∨ c = '\t' then .ok (none, ⟨cs, line, col + 1⟩)
  else if c = '(' ∧ cs.head? = some '*' then .ok (none, skipComment 1 cs.tail line (col + 2))
  else
    match symbols.find? (fun symbol => symbol.1.isPrefixOf (c :: cs)) with
    | some (text, token) => .ok (some token, ⟨(c :: cs).drop text.length, line, col + text.length⟩)
    | none =>
      if CharTable.isAlphabetic c || c == '_' then
        let name := (c :: cs).takeWhile isNameChar
        .ok (some (matchKeyword (String.ofList name)), ⟨(c :: cs).dropWhile isNameChar, line, col + name.length⟩)
      else if c.isDigit then
        let (whole, fraction, rest) := scanNumber (c :: cs)
        .ok (some (numberToken whole fraction), ⟨rest, line, col + ((c :: cs).length - rest.length)⟩)
      else .error (.unexpectedChar c line col)

/-- The loop of `tokenize`. -/
def tokenizeFrom : Nat → List Char → Nat → Nat → Except LexError (List TokenInfo)
  | 0, _, _, _ => .ok []
  | _ + 1, [], _, _ => .ok []
  | fuel + 1, c :: cs, line, col => do
    let (token, cursor) ← tokenizeStep c cs line col
    let tokens ← tokenizeFrom fuel cursor.rest cursor.line cursor.col
    return (token.map (⟨·, ⟨line, col⟩⟩)).toList ++ tokens

def tokenize (source : String) : Except LexError (List TokenInfo) :=
  tokenizeFrom source.toList.length source.toList 1 1

end Audesys.St
