import Audesys.Gcode.Token

/-!
# `Gcode.Parser` — one command a line

`parser.rs`. A line is parsed by storing its words in a record with one slot a letter, so of several words with one
letter the last counts. Neither `parse_line` nor `parse_all` uses the modal state it is given, and neither fails.

`tokenLines` cuts a stream of tokens into the lines that `parse_all` parses (`parseAll_eq`).
-/

namespace Audesys.Gcode

open Audesys.Hal Audesys.Hal.F64

variable [Target]

inductive CommandKind where
  | motion | spindle | modal | programControl | unknown
  deriving DecidableEq

structure GCodeCommand where
  kind : CommandKind
  gCode : Option Nat
  mCode : Option Nat
  x : Option Target.F64
  y : Option Target.F64
  z : Option Target.F64
  i : Option Target.F64
  j : Option Target.F64
  k : Option Target.F64
  r : Option Target.F64
  f : Option Target.F64
  s : Option Target.F64
  p : Option Target.F64
  t : Option Nat
  line : Nat
  deriving DecidableEq

/-- The words of motion, G0 to G3. -/
def isMotionWord (g : Nat) : Bool := g == 0 || g == 1 || g == 2 || g == 3

/-- The words of the modal states: plane, units, distance mode, and the end of canned cycles. -/
def isModalWord (g : Nat) : Bool :=
  g == 17 || g == 18 || g == 19 || g == 20 || g == 21 || g == 80 || g == 90 || g == 91

/-- `M3`, `M4` and `M5`. -/
def isSpindleWord (m : Nat) : Bool := m == 3 || m == 4 || m == 5

/-- `M2` and `M30`. -/
def isEndWord (m : Nat) : Bool := m == 2 || m == 30

namespace GCodeCommand

/-- `GCodeCommand::new`. -/
def new (line : Nat) : GCodeCommand :=
  { kind := .unknown, gCode := none, mCode := none, x := none, y := none, z := none, i := none, j := none, k := none,
    r := none, f := none, s := none, p := none, t := none, line }

/-- `classify`: the kind by the G word and the M word, the first case that matches. -/
def classOf (gCode mCode : Option Nat) : CommandKind :=
  if gCode.any isMotionWord then .motion
  else if mCode.any isSpindleWord then .spindle
  else if gCode.any isModalWord then .modal
  else if mCode.any isEndWord then .programControl
  else .unknown

def classify (cmd : GCodeCommand) : GCodeCommand := { cmd with kind := classOf cmd.gCode cmd.mCode }

/-- The slot of a word. -/
def put (cmd : GCodeCommand) : Token → GCodeCommand
  | .g n => { cmd with gCode := some n }
  | .m n => { cmd with mCode := some n }
  | .x v => { cmd with x := some v }
  | .y v => { cmd with y := some v }
  | .z v => { cmd with z := some v }
  | .i v => { cmd with i := some v }
  | .j v => { cmd with j := some v }
  | .k v => { cmd with k := some v }
  | .r v => { cmd with r := some v }
  | .f v => { cmd with f := some v }
  | .s v => { cmd with s := some v }
  | .p v => { cmd with p := some v }
  | .t n => { cmd with t := some n }
  | .lineNum _ | .star | .slash | .percent | .eol | .eof => cmd

end GCodeCommand

namespace Token

/-- The tokens that make a line a command. -/
def isWord : Token → Bool
  | .lineNum _ | .star | .slash | .percent | .eol | .eof => false
  | _ => true

/-- The tokens that end a line. -/
def endsLine : Token → Bool
  | .eol | .eof => true
  | _ => false

end Token

/-- The words of a line, stored one after the other. -/
def putAll (cmd : GCodeCommand) (tokens : List LexedToken) : GCodeCommand :=
  tokens.foldl (fun cmd tok => cmd.put tok.token) cmd

/-- `parse_line`. -/
def parseLine (tokens : List LexedToken) : GCodeCommand :=
  match tokens with
  | [] => .new 0
  | first :: _ =>
    let cmd := putAll (.new first.line) tokens
    if tokens.any (·.token.isWord) then cmd.classify else cmd

theorem parseLine_cons {first : LexedToken} {rest : List LexedToken}
    (h : (first :: rest).any (·.token.isWord) = true) :
    parseLine (first :: rest) = (putAll (.new first.line) (first :: rest)).classify := if_pos h

/-- What a line of `parse_all` gives: nothing without a word on it. -/
def lineCommand (tokens : List LexedToken) : Option GCodeCommand :=
  if tokens.any (·.token.isWord) then some (parseLine tokens) else none

/-- The loop of `parse_all`, with the tokens of the line so far. -/
def parseAllFrom (current : List LexedToken) : List LexedToken → List GCodeCommand
  | [] => []
  | tok :: rest =>
    match tok.token with
    | .eol => (lineCommand current).toList ++ parseAllFrom [] rest
    | .eof => (lineCommand current).toList
    | _ => parseAllFrom (current ++ [tok]) rest

/-- `parse_all`. -/
def parseAll (tokens : List LexedToken) : List GCodeCommand := parseAllFrom [] tokens

/-! ## Lines -/

/-- The lines of a stream: what `parse_all` cuts out of it. -/
def tokenLinesFrom (current : List LexedToken) : List LexedToken → List (List LexedToken)
  | [] => []
  | tok :: rest =>
    match tok.token with
    | .eol => current :: tokenLinesFrom [] rest
    | .eof => [current]
    | _ => tokenLinesFrom (current ++ [tok]) rest

def tokenLines (tokens : List LexedToken) : List (List LexedToken) := tokenLinesFrom [] tokens

/-- The commands on lines. -/
def commandsOf (lines : List (List LexedToken)) : List GCodeCommand := lines.filterMap lineCommand

/-- `parse_all` parses line by line. -/
theorem parseAll_eq (tokens : List LexedToken) : parseAll tokens = commandsOf (tokenLines tokens) := by
  unfold commandsOf
  suffices hgen : ∀ current, parseAllFrom current tokens = (tokenLinesFrom current tokens).filterMap lineCommand from
    hgen []
  induction tokens with
  | nil =>
    intro current
    rfl
  | cons tok rest ih =>
    intro current
    unfold parseAllFrom tokenLinesFrom
    split
    · rw [List.filterMap_cons, ih]
      cases lineCommand current <;> rfl
    · rw [List.filterMap_cons]
      cases lineCommand current <;> rfl
    · exact ih _

/-- A token inside a line. -/
def Inner (tok : LexedToken) : Prop := tok.token.endsLine = false

instance (tok : LexedToken) : Decidable (Inner tok) := inferInstanceAs (Decidable (_ = _))

/-- No line has the end of a line in it. -/
theorem inner_of_mem_tokenLines {tokens line : List LexedToken} (h : line ∈ tokenLines tokens) :
    ∀ tok ∈ line, Inner tok := by
  suffices hgen : ∀ current, (∀ tok ∈ current, Inner tok) → line ∈ tokenLinesFrom current tokens →
      ∀ tok ∈ line, Inner tok by
    apply hgen [] _ h
    intro tok hmem
    cases hmem
  clear h
  induction tokens with
  | nil =>
    intro current _ h
    cases h
  | cons tok rest ih =>
    intro current hcurrent h
    unfold tokenLinesFrom at h
    split at h
    · rcases List.mem_cons.1 h with rfl | h
      · exact hcurrent
      · apply ih [] _ h
        intro tok hmem
        cases hmem
    · rw [List.mem_singleton.1 h]
      exact hcurrent
    · rename_i heol heof
      apply ih (current ++ [tok]) _ h
      intro t hmem
      rcases List.mem_append.1 hmem with hmem | hmem
      · exact hcurrent t hmem
      · rw [List.mem_singleton.1 hmem]
        unfold Inner Token.endsLine
        split
        · exact absurd ‹_› heol
        · exact absurd ‹_› heof
        · rfl

/-- Lines put together again, with the number `n` on the ends of the lines. -/
def stream (n : Nat) : List (List LexedToken) → List LexedToken
  | [] => []
  | line :: lines => line ++ ⟨.eol, n⟩ :: stream n lines

theorem tokenLinesFrom_append {line : List LexedToken} (h : ∀ tok ∈ line, Inner tok)
    (current rest : List LexedToken) : tokenLinesFrom current (line ++ rest) = tokenLinesFrom (current ++ line) rest := by
  induction line generalizing current with
  | nil => rw [List.nil_append, List.append_nil]
  | cons tok line ih =>
    have htok := h tok (List.mem_cons_self ..)
    have hrest := ih fun t ht => h t (List.mem_cons_of_mem _ ht)
    rw [List.cons_append, tokenLinesFrom]
    unfold Inner Token.endsLine at htok
    split at htok
    · cases htok
    · cases htok
    · rw [hrest, List.append_assoc, List.singleton_append]

/-- The lines of a stream put together are the lines it was put together from. -/
theorem tokenLines_stream (n : Nat) {lines : List (List LexedToken)} (h : ∀ line ∈ lines, ∀ tok ∈ line, Inner tok) :
    tokenLines (stream n lines) = lines := by
  induction lines with
  | nil => rfl
  | cons line lines ih =>
    have hrest := ih fun l hl => h l (List.mem_cons_of_mem _ hl)
    unfold tokenLines stream
    rw [tokenLinesFrom_append (h line (List.mem_cons_self ..)), List.nil_append]
    show line :: tokenLines (stream n lines) = line :: lines
    rw [hrest]

end Audesys.Gcode
