import Audesys.Hal.Host
import Audesys.St.Correctness
import Audesys.St.ExprCode

/-!
# `St.IntAssign` — assignments of integer expressions

The code of `v := e` builds the value of `e` in the register of `v`, left operand first. A right operand that
reads `v` reads the left operand instead. What the code computes is therefore the value of another expression,
`e.carry v`, and the assignment is right where the two have one value (`intAssign_iff`).
-/

namespace Audesys.St

open Audesys.Hal Audesys.Lib

variable [Target]

/-- The reads of `v` replaced by `a`. -/
def Expr.subst (e : Expr) (v : String) (a : Expr) : Expr :=
  match e with
  | .var name => if name = v then a else .var name
  | .binary left op right => .binary (left.subst v a) op (right.subst v a)
  | .unary op inner => .unary op (inner.subst v a)
  | .arrayAccess name index => .arrayAccess name (index.subst v a)
  | e => e

/-- In every right operand, `v` replaced by the left operand next to it, in which this has been done already. -/
def Expr.carry (v : String) : Expr → Expr
  | .binary left op right => .binary (left.carry v) op (right.subst v (left.carry v))
  | .unary op inner => .unary op (inner.carry v)
  | e => e

theorem isPlain_of_isInt (e : Expr) (h : e.isInt) : e.isPlain := by
  induction e with
  | binary left op right hl hr =>
    simp only [Expr.isInt, Bool.and_eq_true] at h
    simp only [Expr.isPlain, Bool.and_eq_true]
    exact ⟨hl h.1.2, hr h.2⟩
  | unary op inner ih => exact ih h
  | arrayAccess name index ih => cases h
  | fieldAccess name field => cases h
  | _ => rfl

/-- Evaluating the replaced expression is evaluating with `v` changed. -/
theorem runExpr_subst {ρ : String → Int32} {v : String} {a : Expr} {n : Int32} (ha : runExpr ρ a = some n) (e : Expr)
    (hint : e.isInt) : runExpr ρ (e.subst v a) = runExpr (fun x => if x = v then n else ρ x) e := by
  induction e with
  | var name =>
    by_cases hname : name = v
    · simp [Expr.subst, runExpr, hname, ha]
    · simp [Expr.subst, runExpr, hname]
  | binary left op right hl hr =>
    simp only [Expr.isInt, Bool.and_eq_true] at hint
    simp only [Expr.subst, runExpr, hl hint.1.2, hr hint.2]
  | unary op inner ih =>
    cases op with
    | neg => simp only [Expr.subst, runExpr, ih hint]
    | not => simp only [Expr.subst, runExpr, ih hint]
  | _ => rfl

section
variable {d : Decls} {ρ : String → Int32}

/-- The registers of the variables `xs` hold their `DINT` values. -/
def HoldsInts (d : Decls) (xs : List String) (regs : UInt8 → HalValue) (ρ : String → Int32) : Prop :=
  ∀ x ∈ xs, ∃ r, d.registers x = some r ∧ d.varTypes x = some .dint ∧ regs r = .s32 (ρ x)

theorem add_zero_s32 (a : Int32) : HalValue.add (.s32 a) (.s32 0) = some (.s32 a) := by
  have hadd : evalOp .add a 0 = some a := by simpa [evalOp] using exact_toInt a
  exact halOp_s32 (runOp_of_evalOp hadd)

/-- In a scratch register an integer expression has its value. -/
theorem codeValue_scratch (e : Expr) {regs : UInt8 → HalValue} (hint : e.isInt) (h : HoldsInts d e.vars regs ρ) :
    codeValue d none e regs = (runExpr ρ e).map .s32 := by
  induction e generalizing regs with
  | intLiteral n => rfl
  | var name =>
    obtain ⟨r, hr, htype, hval⟩ := h name (by simp [Expr.vars])
    have hzero : d.zeroForVar name = .s32 0 := by
      rw [Decls.zeroForVar, htype]
      rfl
    simp [codeValue, hr, hval, hzero, add_zero_s32]
    rfl
  | binary left op right hl hr =>
    simp [Expr.isInt] at hint
    have hclear : ∀ a, overwrite none a regs = regs := fun a => funext fun r => if_neg (by simp)
    rw [codeValue, if_neg (by simp [hint.1.1]), hl hint.1.2 fun x hx => h x (by simp [Expr.vars, hx])]
    simp only [hclear, hr hint.2 fun x hx => h x (by simp [Expr.vars, hx]), runExpr, Option.bind_eq_bind]
    cases runExpr ρ left with
    | none => rfl
    | some a =>
      cases runExpr ρ right with
      | none => rfl
      | some b => exact halOp_s32_eq op a b
  | unary op inner ih =>
    cases op with
    | neg =>
      simp [codeValue, ih hint h, runExpr]
      cases runExpr ρ inner with
      | none => rfl
      | some a => rfl
    | not =>
      simp only [codeValue, ih hint h, runExpr]
      cases runExpr ρ inner with
      | none => rfl
      | some a => rfl
  | _ => cases hint

/-- **In the register of `v`** the code of `e` computes the value of `e.carry v`. -/
theorem codeValue_own (hd : VarDecls d) (e : Expr) {v : String} {r : UInt8} {regs : UInt8 → HalValue}
    (hr : d.registers v = some r) (hint : e.isInt) (h : HoldsInts d e.vars regs ρ) :
    codeValue d (some r) e regs = (runExpr ρ (e.carry v)).map .s32 := by
  induction e with
  | intLiteral n => rfl
  | var name =>
    obtain ⟨src, hsrc, htype, hval⟩ := h name (by simp [Expr.vars])
    by_cases hsame : src = r
    · simp [codeValue, hsrc, hsame ▸ hval, hsame]
      rfl
    · have hscratch := codeValue_scratch (.var name) rfl h
      simp [codeValue, hsrc] at hscratch
      simp [codeValue, hsrc, if_neg (Ne.symm hsame), hscratch]
      rfl
  | binary left op right hl hright =>
    simp [Expr.isInt] at hint
    rw [codeValue, if_neg (by simp [hint.1.1]), hl hint.1.2 fun x hx => h x (by simp [Expr.vars, hx])]
    simp only [Expr.carry, runExpr, Option.bind_eq_bind]
    cases hleft : runExpr ρ (left.carry v) with
    | none => rfl
    | some a =>
      -- the right operand finds `a` in the register of `v`
      have hregs : HoldsInts d right.vars (overwrite (some r) (.s32 a) regs) fun x => if x = v then a else ρ x := by
        intro x hx
        obtain ⟨src, hsrc, htype, hval⟩ := h x (by simp [Expr.vars, hx])
        refine ⟨src, hsrc, htype, ?_⟩
        by_cases hxv : x = v
        · obtain rfl : src = r := by
            rw [hxv, hr] at hsrc
            exact (Option.some.inj hsrc).symm
          rw [overwrite, if_pos rfl]
          exact congrArg HalValue.s32 (if_pos hxv).symm
        · have hne : ¬ some r = some src := by
            rw [Option.some.injEq]
            rintro rfl
            exact hxv (hd.inj hsrc hr)
          rw [overwrite, if_neg hne, hval]
          exact congrArg HalValue.s32 (if_neg hxv).symm
      simp [codeValue_scratch right hint.2 hregs, runExpr_subst hleft right hint.2]
      cases runExpr (fun x => if x = v then a else ρ x) right with
      | none => rfl
      | some b => exact halOp_s32_eq op a b
  | unary op inner ih =>
    cases op with
    | neg =>
      simp [codeValue, ih hint h, Expr.carry, runExpr]
      cases runExpr ρ (inner.carry v) with
      | none => rfl
      | some a => rfl
    | not =>
      simp only [codeValue, ih hint h, Expr.carry, runExpr]
      cases runExpr ρ (inner.carry v) with
      | none => rfl
      | some a => rfl
  | _ => cases hint

end

/-- **Integer assignments.** For every assignment of an integer expression to a variable in a compiled program
    and every state in which its variables hold `DINT` values, the code leaves the value of the expression
    exactly if `e.carry v` has that value too. -/
theorem intAssign_iff {p : Program} {hp : HalProgram} {v : String} {e : Expr} {b : Nat} {vm : Vm}
    {ρ : String → Int32} {n : Int32} (hok : compileAst p = .ok hp) (hlen : hp.instructions.length < 2 ^ 32)
    (hsite : ProgramSite p hp (.assign v e) b) (hint : e.isInt) (hdint : Dints (.ofVariables p.vars) e.vars)
    (hip : vm.ip = b) (hvars : Holds (.ofVariables p.vars) ρ e.vars vm) (hn : evalExpr ρ e = some n) :
    AssignsValue p hp v e b vm (.s32 n) ↔ runExpr ρ (e.carry v) = evalExpr ρ e := by
  rw [hn]
  obtain ⟨c, t, hc, hat⟩ := programSite_placed hok hlen hsite
  obtain ⟨_, _, _, _, _, hcount⟩ := compileAst_eq hok hlen
  have hd : VarDecls (.ofVariables p.vars) := varDecls_ofVariables hcount
  simp only [genStmt, bind_some] at hc
  obtain ⟨r, hr, cv, hcv, _⟩ := hc
  have hplain := isPlain_of_isInt e hint
  have hints : HoldsInts (.ofVariables p.vars) e.vars vm.get ρ := by
    intro x hx
    obtain ⟨src, hsrc⟩ := genExpr_declared e hcv hplain x hx
    exact ⟨src, hsrc, hdint x hx src hsrc, hvars x hx src hsrc⟩
  rw [assignsValue_iff hok hlen hsite hplain hip hr, codeValue_own hd e hr hint hints]
  constructor
  · intro h
    obtain ⟨m, hm, heq⟩ := Option.map_eq_some_iff.1 h
    cases heq
    exact hm
  · intro h
    rw [h, Option.map_some]

end Audesys.St

/-! ## Two assignments -/

namespace Audesys.St

open Audesys.Hal Audesys.Lib

local instance releaseIntAssign : Target := host false

/-- `x := e`. -/
def oneAssign (e : Expr) : Program where
  name := "assign"
  vars := [⟨"x", .dint⟩]
  body := [.assign "x" e]
  functions := []

/-- A machine with `x = 5`. -/
def fiveVm : Vm := Vm.new.set 0 (.s32 5)

def readFirst : Expr := .binary (.var "x") .add (.intLiteral 1)

def readSecond : Expr := .binary (.intLiteral 1) .add (.var "x")

/-- `x := x + 1`. -/
theorem intAssign_iff_first :
    AssignsValue (oneAssign readFirst) (compiled (oneAssign readFirst)) "x" readFirst 0 fiveVm (.s32 6) := by
  have hok : compileAst (oneAssign readFirst) = .ok (compiled (oneAssign readFirst)) := rfl
  have hx : ∀ x ∈ readFirst.vars, x = "x" := by decide
  refine (intAssign_iff (ρ := fun _ => 5) hok (by decide) (.inl .here) rfl ?_ rfl ?_ rfl).2 rfl
  · intro x hmem r hr
    rw [hx x hmem]
    rfl
  · intro x hmem r hr
    rw [hx x hmem] at hr
    cases hr
    rfl

/-- `x := 1 + x`: the literal is in the register of `x` when `x` is read. -/
theorem intAssign_fails :
    evalExpr (fun _ => 5) readSecond = some 6 ∧
      ¬ AssignsValue (oneAssign readSecond) (compiled (oneAssign readSecond)) "x" readSecond 0 fiveVm (.s32 6) := by
  have hok : compileAst (oneAssign readSecond) = .ok (compiled (oneAssign readSecond)) := rfl
  refine ⟨rfl, fun h => ?_⟩
  have hvalue := (assignsValue_iff (r := 0) hok (by decide) (.inl .here) rfl rfl rfl).1 h
  have htwo : codeValue (.ofVariables (oneAssign readSecond).vars) (some 0) readSecond fiveVm.get = some (.s32 2) := rfl
  rw [htwo] at hvalue
  exact absurd hvalue (by decide)

end Audesys.St
