import Audesys.St.Assignments
import Audesys.St.Positions
import Audesys.St.Progress
import Mathlib.Algebra.Order.Ring.Int

/-!
# `St.Literals` — the value of an assigned literal

`compile` of `audesys-hal-binding-gen`, and what becomes of `x := d` for a digit string `d`: the lexer parses `d` as
an `i64`, the parser and the checker take the number as it is, and the code loads its lower 32 bits. So the loaded
value is that of `d` exactly below 2³¹ (`literals_kept_iff`).
-/

namespace Audesys.St

open Audesys.Hal Audesys.Lib

variable [Target] [CharTable] [F64Math]

/-! ## The compiler -/

inductive CompileError where
  | lex (e : LexError)
  | parse (e : ParseError)
  | codegen (e : Stop)

def compile (source : String) : Except CompileError HalProgram := do
  let tokens ← (tokenize source).mapError .lex
  let ast ← (parseProgram tokens).mapError .parse
  (compileAst ast).mapError .codegen

omit [Target] [CharTable] [F64Math] in
theorem mapError_ok {ε ε' α : Type} {x : Except ε α} {f : ε → ε'} {a : α} : x.mapError f = .ok a ↔ x = .ok a := by
  cases x with
  | ok b => simp [Except.mapError]
  | error e => simp [Except.mapError]

/-- The stages of a compilation that succeeds. -/
theorem compile_ok {source : String} {hp : HalProgram} (h : compile source = .ok hp) :
    ∃ tokens p, tokenize source = .ok tokens ∧ parseProgram tokens = .ok p ∧ compileAst p = .ok hp := by
  simp only [compile, bind_ok, mapError_ok] at h
  obtain ⟨tokens, htokens, p, hparse, hast⟩ := h
  exact ⟨tokens, p, htokens, hparse, hast⟩

omit [CharTable] [F64Math] in
theorem parseProgram_ok {tokens : List TokenInfo} {p : Program} (h : parseProgram tokens = .ok p) :
    ∃ fuel rest, parseProgramInner fuel tokens = .ok p rest := by
  have hended := parseProgram_eq tokens (Nat.le_refl _)
  rw [h] at hended
  cases hrun : parseProgramInner (3 * tokens.length + 3) tokens with
  | ok q rest =>
    rw [hrun] at hended
    cases hended
    exact ⟨_, rest, hrun⟩
  | error e =>
    rw [hrun] at hended
    cases hended
  | outOfFuel =>
    rw [hrun] at hended
    cases hended

/-! ## The loaded value -/

/-- The integer that a value stands for. -/
def toInteger : HalValue → Option Int
  | .s8 n => some n.toInt
  | .u8 n => some n.toNat
  | .s16 n => some n.toInt
  | .u16 n => some n.toNat
  | .s32 n => some n.toInt
  | .u32 n => some n.toNat
  | .s64 n => some n.toInt
  | .u64 n => some n.toNat
  | _ => none

/-- The instruction at `b` loads the number `n`. -/
def Loads (hp : HalProgram) (b n : Nat) : Prop :=
  ∃ r v, hp.instructions[b]? = some (.loadImm r v) ∧ toInteger v = some (n : Int)

omit [CharTable] [F64Math] in
/-- The first instruction of the assignment of a literal. -/
theorem literal_placed {p : Program} {hp : HalProgram} {name : String} {n : Int64} {b : Nat} {stop : Option Nat}
    (hok : compileAst p = .ok hp) (hlen : hp.instructions.length < 2 ^ 32)
    (hsite : ProgramWithin p hp (.assign name (.intLiteral n)) b stop) :
    ∃ r, hp.instructions[b]? = some (.loadImm r (.s32 n.toInt32)) := by
  obtain ⟨body, b₀, hbody, hin⟩ := hsite
  obtain ⟨cb, hcb, hat⟩ := hbody.placed hok hlen
  obtain ⟨c, hc, hat'⟩ := hin.placed hcb (hat _)
  simp only [genStmt, genExpr, bind_some, Option.some.injEq] at hc
  obtain ⟨r, _, _, rfl, rfl⟩ := hc
  rw [resolve_plain] at hat'
  exact ⟨r, hat'.get (k := 0) (by simp)⟩

omit [CharTable] [F64Math] in
theorem loads_iff {p : Program} {hp : HalProgram} {name : String} {n : Int64} {b m : Nat} {stop : Option Nat}
    (hok : compileAst p = .ok hp) (hlen : hp.instructions.length < 2 ^ 32)
    (hsite : ProgramWithin p hp (.assign name (.intLiteral n)) b stop) : Loads hp b m ↔ n.toInt32.toInt = m := by
  obtain ⟨r, hr⟩ := literal_placed hok hlen hsite
  constructor
  · rintro ⟨r', v, hload, hv⟩
    rw [hr] at hload
    obtain ⟨_, rfl⟩ : r = r' ∧ HalValue.s32 n.toInt32 = v := by
      simpa [Instruction.loadImm] using congrArg Instruction.operands (Option.some.inj hload)
    exact Option.some.inj hv
  · intro h
    exact ⟨r, _, hr, congrArg some h⟩

omit [Target] [CharTable] [F64Math] in
/-- The lower half of the parsed number is the number itself exactly below 2³¹. From 2⁶³ on the number is
    parsed to 0. -/
theorem toInt32_parseI64 (digits : List Char) :
    (parseI64 digits).toInt32.toInt = digitsValue digits ↔ digitsValue digits < 2 ^ 31 := by
  rw [Int64.toInt_toInt32]
  unfold parseI64
  split
  · rename_i hsmall
    rw [Int64.toInt_ofNat_of_lt hsmall, Int.bmod_def]
    split
    · omega
    · omega
  · rename_i hlarge
    constructor
    · intro h
      rw [show (0 : Int64).toInt.bmod (2 ^ 32) = 0 from rfl] at h
      omega
    · omega

/-! ## Assigned literals -/

/-- The digits `digits` stand in `name := …;` of the program in the source. -/
def AssignsDigits (source : String) (tokens : List TokenInfo) (name : String) (digits : List Char) : Prop :=
  ∃ literal, AssignedIn tokens name literal ∧ Written source.toList literal.span digits

/-- Every `name := d;` in the source is an assignment in the program, and its code starts with a load of the value
    of `d`. -/
def LiteralsKept (source : String) (hp : HalProgram) : Prop :=
  ∀ tokens p name digits, tokenize source = .ok tokens → parseProgram tokens = .ok p →
    AssignsDigits source tokens name digits →
      (∃ b stop, ProgramWithin p hp (.assign name (.intLiteral (parseI64 digits))) b stop) ∧
      ∀ b stop, ProgramWithin p hp (.assign name (.intLiteral (parseI64 digits))) b stop →
        Loads hp b (digitsValue digits)

/-- Every digit string assigned in the source is a number below 2³¹. -/
def LiteralsFit (source : String) : Prop :=
  ∀ tokens name digits, tokenize source = .ok tokens → AssignsDigits source tokens name digits →
    digitsValue digits < 2 ^ 31

/-- An assigned digit string is in the program, as the number it is parsed to. -/
theorem contains_of_assignsDigits {source : String} {tokens : List TokenInfo} {p : Program} {name : String}
    {digits : List Char} (htokens : tokenize source = .ok tokens) (hp : parseProgram tokens = .ok p)
    (h : AssignsDigits source tokens name digits) : p.Contains (.assign name (.intLiteral (parseI64 digits))) := by
  obtain ⟨literal, hassigned, hwritten⟩ := h
  obtain ⟨fuel, rest, hrun⟩ := parseProgram_ok hp
  obtain ⟨front, back, target, sign, stop, heq, _, _, ⟨n, hn⟩, _, _⟩ := id hassigned
  have hmem : literal ∈ tokens := by
    rw [heq]
    simp
  obtain ⟨digits', hwritten', rfl⟩ := tokenize_literal htokens hmem hn
  obtain rfl := hwritten.unique hwritten'
  exact parseProgramInner_contains hrun hassigned hn

/-- **Assigned literals keep their value exactly below 2³¹**: of a source that compiles to fewer than 2³²
    instructions, every assigned digit string is loaded with its value if and only if all of them are numbers below
    2³¹, whatever the types of the variables are. -/
theorem literals_kept_iff {source : String} {hp : HalProgram} (hok : compile source = .ok hp)
    (hlen : hp.instructions.length < 2 ^ 32) : LiteralsKept source hp ↔ LiteralsFit source := by
  obtain ⟨tokens, p, htokens, hparse, hast⟩ := compile_ok hok
  constructor
  · intro hkept tokens' name digits htokens' hassigns
    rw [htokens] at htokens'
    cases htokens'
    obtain ⟨⟨b, stop, hsite⟩, hloads⟩ := hkept tokens p name digits htokens hparse hassigns
    exact (toInt32_parseI64 digits).1 ((loads_iff hast hlen hsite).1 (hloads b stop hsite))
  · intro hfit tokens' p' name digits htokens' hparse' hassigns
    rw [htokens] at htokens'
    cases htokens'
    rw [hparse] at hparse'
    cases hparse'
    have hvalue := (toInt32_parseI64 digits).2 (hfit tokens name digits htokens hassigns)
    refine ⟨(contains_of_assignsDigits htokens hparse hassigns).within hast hlen, fun b stop hsite => ?_⟩
    exact (loads_iff hast hlen hsite).2 hvalue

end Audesys.St

/-! ## Two sources -/

namespace Audesys.St

open Audesys.Hal

local instance literalTarget : Target := fractions

local instance literalMath : F64Math := fractionMath

/-- Characters outside ASCII taken as symbols. -/
local instance asciiTable : CharTable where
  isAlphabetic := Char.isAlpha
  isNumeric := Char.isDigit
  ascii_isAlphabetic _ _ := rfl
  ascii_isNumeric _ _ := rfl

def assigning (digits : String) : String :=
  "PROGRAM p VAR x : LINT; END_VAR x := " ++ digits ++ "; END_PROGRAM"

/-- The tokens of the source in front of the number, and behind it. -/
def frontTokens : List TokenInfo :=
  [⟨.program, ⟨1, 1⟩⟩, ⟨.identifier "p", ⟨1, 9⟩⟩, ⟨.var, ⟨1, 11⟩⟩, ⟨.identifier "x", ⟨1, 15⟩⟩, ⟨.colon, ⟨1, 17⟩⟩,
    ⟨.lint, ⟨1, 19⟩⟩, ⟨.semicolon, ⟨1, 23⟩⟩, ⟨.endVar, ⟨1, 25⟩⟩]

def assigningTokens (n : Int64) : List TokenInfo :=
  frontTokens ++ [⟨.identifier "x", ⟨1, 33⟩⟩, ⟨.assign, ⟨1, 35⟩⟩, ⟨.integerLiteral n, ⟨1, 38⟩⟩, ⟨.semicolon, ⟨1, 48⟩⟩,
    ⟨.endProgram, ⟨1, 50⟩⟩]

def assigningProgram (n : Int64) : Program :=
  ⟨"p", [⟨"x", .lint⟩], [.assign "x" (.intLiteral n)], []⟩

theorem compile_assigning {digits : String} {n : Int64}
    (htokens : tokenize (assigning digits) = .ok (assigningTokens n)) :
    compile (assigning digits) = (compileAst (assigningProgram n)).mapError .codegen := by
  have hparse : parseProgram (assigningTokens n) = .ok (assigningProgram n) := rfl
  unfold compile
  rw [htokens]
  show ((parseProgram (assigningTokens n)).mapError CompileError.parse >>= fun ast =>
    (compileAst ast).mapError .codegen) = _
  rw [hparse]
  rfl

/-- The only literal among the tokens. -/
theorem literal_of_mem {n m : Int64} {ti : TokenInfo} (hti : ti ∈ assigningTokens n)
    (htoken : ti.token = .integerLiteral m) : m = n := by
  simp [assigningTokens, frontTokens] at hti
  rcases hti with rfl | rfl | rfl | rfl | rfl | rfl | rfl | rfl | rfl | rfl | rfl | rfl | rfl <;> cases htoken
  rfl

/-- The largest number that is kept. -/
theorem literals_kept_iff_max :
    ∃ hp, compile (assigning "2147483647") = .ok hp ∧ LiteralsKept (assigning "2147483647") hp := by
  have htokens : tokenize (assigning "2147483647") = .ok (assigningTokens 2147483647) := rfl
  have hok : compile (assigning "2147483647") = .ok (compiled (assigningProgram 2147483647)) :=
    compile_assigning htokens
  refine ⟨_, hok, (literals_kept_iff hok (by decide)).2 fun tokens name digits htokens' hassigns => ?_⟩
  rw [htokens] at htokens'
  cases htokens'
  obtain ⟨literal, ⟨front, back, target, sign, stop, heq, _, _, ⟨n, hn⟩, _, _⟩, hwritten⟩ := hassigns
  have hmem : literal ∈ assigningTokens 2147483647 := by
    rw [heq]
    simp
  obtain ⟨digits', hwritten', hvalue⟩ := tokenize_literal htokens hmem hn
  obtain rfl := hwritten.unique hwritten'
  obtain rfl := literal_of_mem hmem hn
  unfold parseI64 at hvalue
  split at hvalue
  · rename_i hsmall
    have hint := congrArg Int64.toInt hvalue
    rw [Int64.toInt_ofNat_of_lt hsmall] at hint
    have hmax : (2147483647 : Int64).toInt = 2147483647 := rfl
    omega
  · cases hvalue

/-- `x := 2147483648` for an `x : LINT`: the code loads -2147483648. -/
theorem literals_fail :
    ∃ hp, compile (assigning "2147483648") = .ok hp ∧ ¬ LiteralsKept (assigning "2147483648") hp := by
  have htokens : tokenize (assigning "2147483648") = .ok (assigningTokens 2147483648) := rfl
  have hok : compile (assigning "2147483648") = .ok (compiled (assigningProgram 2147483648)) :=
    compile_assigning htokens
  refine ⟨_, hok, fun hkept => ?_⟩
  have hwritten : Written (assigning "2147483648").toList ⟨1, 38⟩ "2147483648".toList :=
    ⟨nofun, List.all_eq_true.1 rfl, "PROGRAM p VAR x : LINT; END_VAR x := ".toList, "; END_PROGRAM".toList, rfl, rfl,
      fun c hc => Option.some.inj hc ▸ rfl⟩
  have hassigned : AssignedIn (assigningTokens 2147483648) "x" ⟨.integerLiteral 2147483648, ⟨1, 38⟩⟩ :=
    ⟨frontTokens, [⟨.endProgram, ⟨1, 50⟩⟩], _, _, _, rfl, rfl, rfl, ⟨_, rfl⟩, rfl, by decide⟩
  obtain ⟨⟨b, stop, hsite⟩, hloads⟩ := hkept _ _ "x" _ htokens rfl ⟨_, hassigned, hwritten⟩
  have hast : compileAst (assigningProgram 2147483648) = .ok (compiled (assigningProgram 2147483648)) := rfl
  have hvalue := (loads_iff hast (by decide) hsite).1 (hloads b stop hsite)
  exact absurd hvalue (by decide)

end Audesys.St
