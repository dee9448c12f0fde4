import Audesys.Lib.Text
import Audesys.Lib.Utf16
import Mathlib.Data.List.Infix

/-!
# `VarTable.Model` — variable blocks as tables

`gvl-model.ts` and `local-var-model.ts`: the declarations of a `VAR_GLOBAL` block, or of the first plain `VAR` block of a
program, as rows of a table, and the way back. A text is its list of characters. The regular expression of a declaration
line is written out as `varLine`: its parts are anchored at both ends, so that there is one way to match.
-/

namespace Audesys.VarTable

open Audesys.Lib

structure GvlVariable where
  name : List Char
  type : List Char
  init : List Char
  comment : List Char
  deriving DecidableEq

/-! ## Text -/

/-- `\s`, which is also what `trim` takes away. -/
def isSpace (c : Char) : Bool := isJsSpace c.toNat

def trimText (s : List Char) : List Char := (s.dropWhile isSpace).rdropWhile isSpace

/-- `split(/\r?\n/)`: what is behind the last line feed keeps its carriage return. -/
def splitLines (s : List Char) : List (List Char) :=
  let pieces := s.splitOn '\n'
  pieces.dropLast.map stripCr ++ pieces.getLast?.toList

/-! ## Declarations -/

def isIdentStart (c : Char) : Bool := c.isAlpha || c = '_'

def isIdentPart (c : Char) : Bool := c.isAlphanum || c = '_'

/-- An identifier and what is behind it. -/
def ident (s : List Char) : Option (List Char × List Char) :=
  match s with
  | [] => none
  | c :: s => if isIdentStart c then some (c :: s.takeWhile isIdentPart, s.dropWhile isIdentPart) else none

/-- The part behind the semicolon: nothing, or a comment up to the end of the line. -/
def lineComment (s : List Char) : Option (List Char) :=
  match s.dropWhile isSpace with
  | [] => some []
  | '(' :: '*' :: s =>
    let body := s.rdropWhile isSpace
    if ['*', ')'] <:+ body then some (trimText (body.take (body.length - 2))) else none
  | _ => none

/-- `GVL_VAR_LINE`, with the groups trimmed as both parsers do. -/
def varLine (line : List Char) : Option GvlVariable := do
  let (name, s) ← ident (line.dropWhile isSpace)
  match s.dropWhile isSpace with
  | ':' :: s =>
    let (type, s) ← ident (s.dropWhile isSpace)
    let (init, s) :=
      match s.dropWhile isSpace with
      | ':' :: '=' :: s => (trimText (s.takeWhile (· != ';')), s.dropWhile (· != ';'))
      | s => ([], s)
    match s with
    | ';' :: s => (lineComment s).map fun comment => ⟨name, type, init, comment⟩
    | _ => none
  | _ => none

/-- The row of a line inside a block; blank lines and whole-line comments have none. -/
def declaration (line : List Char) : Option GvlVariable :=
  if line = [] ∨ ['(', '*'] <+: line then none else varLine line

/-! ## Global variables -/

/-- A round of the loop of `parseGvl`: whether the line is inside the block, and the rows so far. -/
def gvlLine (acc : Bool × List GvlVariable) (raw : List Char) : Bool × List GvlVariable :=
  let line := trimText raw
  if "VAR_GLOBAL".toList <+: line then (true, acc.2)
  else if "END_VAR".toList <+: line then (false, acc.2)
  else if acc.1 then (true, acc.2 ++ (declaration line).toList)
  else acc

def parseGvl (text : List Char) : List GvlVariable := ((splitLines text).foldl gvlLine (false, [])).2

/-- A declaration as both serializers write it. -/
def row (v : GvlVariable) : List Char :=
  "    ".toList ++ v.name ++ " : ".toList ++ v.type ++
    (if v.init = [] then [] else " := ".toList ++ v.init) ++ [';'] ++
    (if v.comment = [] then [] else " (* ".toList ++ v.comment ++ " *)".toList)

def serializeGvl (vars : List GvlVariable) : List Char :=
  ['\n'].intercalate ("VAR_GLOBAL".toList :: vars.map row ++ ["END_VAR".toList, []])

/-! ## Local variables -/

/-- `findFirstLocalVarBlock`: the indices of the `VAR` line and of its `END_VAR` line. -/
def findFirstLocalVarBlock (text : List Char) : Option (Nat × Nat) := do
  let lines := splitLines text
  let start ← lines.findIdx? fun l => trimText l = "VAR".toList
  let len ← (lines.drop (start + 1)).findIdx? fun l => trimText l = "END_VAR".toList
  some (start, start + 1 + len)

def parseLocalVars (text : List Char) : List GvlVariable :=
  match findFirstLocalVarBlock text with
  | none => []
  | some (startLine, endLine) =>
    (((splitLines text).take endLine).drop (startLine + 1)).filterMap fun raw => declaration (trimText raw)

/-- The text unchanged if it has no block. -/
def serializeLocalVars (originalText : List Char) (vars : List GvlVariable) : List Char :=
  match findFirstLocalVarBlock originalText with
  | none => originalText
  | some (startLine, endLine) =>
    let lines := splitLines originalText
    let eol := if ['\r', '\n'] <:+: originalText then ['\r', '\n'] else ['\n']
    eol.intercalate (lines.take (startLine + 1) ++ vars.map row ++ lines.drop endLine)

/-- A block is read and written in place. -/
example : parseLocalVars "VAR\n  a : INT := 3 ; (* speed *)\nEND_VAR".toList =
    [⟨"a".toList, "INT".toList, "3".toList, "speed".toList⟩] := by decide

end Audesys.VarTable
