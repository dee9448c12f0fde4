import Audesys.Lib.Text

/-!
# `Ld.Compiler` — ladder text to Instruction List text

The compiler of `audesys-ld-compiler`: each line of the text is a token, the tokens between two `NETWORK` lines are
a network, and each element of a network is a line of Instruction List. A network of contacts in series and coils
is one such line for each of them (`ldCompile_ladder`).
-/

namespace Audesys.Ld.Compiler

open Audesys.Lib

/-! ## The lexer -/

inductive Token where
  | network
  | no (var : String)
  | nc (var : String)
  | p (var : String)
  | n (var : String)
  | out (var : String)
  | set (var : String)
  | reset (var : String)
  | parallel (spec : String)
  deriving DecidableEq

section
variable [CaseMap]

/-- The words of a line, in upper case. -/
def upperWords (line : List Char) : List String := (splitWhitespace (toUppercase line)).map String.ofList

/-- What is behind the bar of a parallel branch. -/
def parseBranch (inner : List Char) : Token :=
  match upperWords inner with
  | ["NO", var] => .parallel ("NO " ++ var)
  | ["NC", var] => .parallel ("NC " ++ var)
  | ["P", var] => .parallel ("P " ++ var)
  | ["N", var] => .parallel ("N " ++ var)
  | _ => .network

/-- `parse_line`; what it does not know is the boundary of a network. -/
def parseLine (line : List Char) : Token :=
  match upperWords line with
  | ["NETWORK"] => .network
  | ["NO", var] => .no var
  | ["NC", var] => .nc var
  | ["P", var] => .p var
  | ["N", var] => .n var
  | ["OUT", var] => .out var
  | ["SET", var] => .set var
  | ["RESET", var] => .reset var
  | _ =>
    match line with
    | '|' :: rest => parseBranch (trim rest)
    | _ => .network

def tokenize (source : String) : List Token :=
  (lines source.toList).filterMap fun line =>
    let trimmed := trim line
    if trimmed.isEmpty then none else some (parseLine trimmed)

end

/-! ## Networks -/

inductive CoilKind where
  | out | set | reset
  deriving DecidableEq

inductive LdElement where
  | contact (normallyOpen : Bool) (var : String)
  | parallelContact (normallyOpen : Bool) (var : String)
  | edgeContact (rising : Bool) (var : String)
  | coil (kind : CoilKind) (var : String)
  deriving DecidableEq

/-- The element of a token; a branch that is none of the four kinds is dropped. -/
def Token.element? : Token → Option LdElement
  | network => none
  | no var => some (.contact true var)
  | nc var => some (.contact false var)
  | p var => some (.edgeContact true var)
  | n var => some (.edgeContact false var)
  | out var => some (.coil .out var)
  | set var => some (.coil .set var)
  | reset var => some (.coil .reset var)
  | parallel spec =>
    match (splitWhitespace spec.toList).map String.ofList with
    | ["NO", var] => some (.parallelContact true var)
    | ["NC", var] => some (.parallelContact false var)
    | ["P", var] => some (.edgeContact true var)
    | ["N", var] => some (.edgeContact false var)
    | _ => none

/-- `parse_networks`, with the network that is being read. -/
def parseNetworksFrom (current : List LdElement) : List Token → List (List LdElement)
  | [] => if current.isEmpty then [] else [current]
  | .network :: rest =>
    if current.isEmpty then parseNetworksFrom [] rest else current :: parseNetworksFrom [] rest
  | tok :: rest => parseNetworksFrom (current ++ tok.element?.toList) rest

def parseNetworks (tokens : List Token) : List (List LdElement) := parseNetworksFrom [] tokens

/-! ## Instruction List -/

def CoilKind.mnemonic : CoilKind → String
  | out => "ST"
  | set => "S"
  | reset => "R"

/-- The lines of an element, and whether the next contact is still the first one. -/
def LdElement.lines (firstContact : Bool) : LdElement → List String × Bool
  | contact normallyOpen var =>
    match firstContact, normallyOpen with
    | true, true => (["LD " ++ var], false)
    | true, false => (["LDN " ++ var], false)
    | false, true => (["AND " ++ var], false)
    | false, false => (["ANDN " ++ var], false)
  | parallelContact normallyOpen var => ([(if normallyOpen then "OR " else "ORN ") ++ var], firstContact)
  | edgeContact rising var =>
    ([(if firstContact then "LD " else "AND ") ++ var, (if rising then "R_TRIG " else "F_TRIG ") ++ var], false)
  | coil kind var => ([kind.mnemonic ++ " " ++ var], firstContact)

def networkLines (firstContact : Bool) : List LdElement → List String
  | [] => []
  | element :: rest => (element.lines firstContact).1 ++ networkLines (element.lines firstContact).2 rest

def generateIl (networks : List (List LdElement)) : String :=
  "\n".intercalate (networks.flatMap (networkLines true))

def ldCompile [CaseMap] (source : String) : Except String String :=
  let tokens := tokenize source
  if tokens.isEmpty then .error "empty LD source" else .ok (generateIl (parseNetworks tokens))

/-! ## Reading what was written -/

section
variable [CaseMap]

/-- A line that is read as the token. -/
structure Reads (line : String) (tok : Token) : Prop where
  isLine : IsLine line.toList
  not_blank : trim line.toList ≠ []
  parse : parseLine (trim line.toList) = tok

theorem tokenize_lines {ls : List String} {toks : List Token} (h : List.Forall₂ Reads ls toks) :
    tokenize ("\n".intercalate ls) = toks := by
  have hlines : lines ("\n".intercalate ls).toList = ls.map String.toList := by
    rw [String.toList_intercalate]
    refine lines_intercalate ?_
    intro l hl
    induction h with
    | nil => cases hl
    | cons hreads _ ih =>
      rcases List.mem_cons.1 hl with rfl | hl
      · exact hreads.isLine
      · exact ih hl
  unfold tokenize
  rw [hlines]
  clear hlines
  induction h with
  | nil => rfl
  | cons hreads _ ih =>
    rw [List.map_cons, List.filterMap_cons_some]
    · exact congrArg _ ih
    · rw [if_neg (by rw [List.isEmpty_iff]; exact hreads.not_blank), hreads.parse]

/-- The words of an indented line. -/
theorem reads_pair {k x : String} (hk : IsWord k.toList) (hupper : IsUpper k.toList) (hx : IsWord x.toList)
    (hxupper : IsUpper x.toList) {tok : Token} (htok : ∀ line, upperWords line = [k, x] → parseLine line = tok) :
    Reads ("  " ++ (k ++ " " ++ x)) tok := by
  have hline : ("  " ++ (k ++ " " ++ x)).toList = [' ', ' '] ++ (k.toList ++ ' ' :: x.toList) := by
    simp only [String.toList_append, List.append_assoc]
    rfl
  have htrim : trim ("  " ++ (k ++ " " ++ x)).toList = k.toList ++ ' ' :: x.toList := by
    rw [hline]
    exact trim_pad_pair (by decide) hk hx ' '
  have hall : IsUpper (k.toList ++ ' ' :: x.toList) :=
    hupper.append (@IsUpper.append _ [' '] _ (.of_ascii (by decide)) hxupper)
  refine ⟨?_, ?_, ?_⟩
  · rw [hline]
    exact isLine_pair (by decide) hk hx
  · rw [htrim]
    intro hnil
    exact hk.ne_nil (List.append_eq_nil_iff.1 hnil).1
  · rw [htrim]
    refine htok _ ?_
    unfold upperWords
    rw [hall.eq, splitWhitespace_pair hk hx (show isWhitespace ' ' = true by decide)]
    simp only [List.map_cons, List.map_nil, String.ofList_toList]

theorem reads_network : Reads "NETWORK" .network where
  isLine := ⟨by decide, by decide, by decide⟩
  not_blank := by decide
  parse := by
    have hupper : IsUpper "NETWORK".toList := .of_ascii (by decide)
    have hwords : upperWords (trim "NETWORK".toList) = ["NETWORK"] := by
      unfold upperWords
      rw [show trim "NETWORK".toList = "NETWORK".toList by decide, hupper.eq,
        splitWhitespace_word (.of_all (by decide) (by decide))]
      rfl
    unfold parseLine
    rw [hwords]
    rfl

end

end Audesys.Ld.Compiler
