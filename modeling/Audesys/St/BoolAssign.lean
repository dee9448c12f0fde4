import Audesys.Hal.Host
import Audesys.St.IntAssign

/-!
# `St.BoolAssign` — assignments of logic

The code of `b := e`, where `e` joins `BOOL` variables and comparisons with `NOT`, `AND`, `OR` and `XOR`. Three
mechanisms meet: a comparison materialises its flag, and does it the wrong way round; a variable is copied with
an addition, which for `BOOL` values is a type mismatch and gives `S32(0)`; and the operators are the bitwise
ones, which keep truth values only among themselves. `boolAssign_iff` says when the result is right.
-/

namespace Audesys.St

open Audesys.Hal Audesys.Lib

variable [Target]

namespace Expr

/-- `BOOL` variables and comparisons of integer expressions, joined by `NOT`, `AND`, `OR` and `XOR`. -/
def isLogic : Expr → Bool
  | .var _ => true
  | .binary left op right =>
    if op.isCmp then left.isInt && right.isInt
    else (op == .and || op == .or || op == .xor) && left.isLogic && right.isLogic
  | .unary .not inner => inner.isLogic
  | _ => false

/-- The variables outside comparisons. -/
def boolVars : Expr → List String
  | .var name => [name]
  | .binary left op right => if op.isCmp then [] else left.boolVars ++ right.boolVars
  | .unary _ inner => inner.boolVars
  | _ => []

/-- The variables in comparisons. -/
def intVars : Expr → List String
  | .binary left op right => if op.isCmp then left.vars ++ right.vars else left.intVars ++ right.intVars
  | .unary _ inner => inner.intVars
  | _ => []

/-- A variable is read outside comparisons that is not `own` as the very first operand. -/
def strays : Option String → Expr → Bool
  | own, .var name => own != some name
  | own, .binary left op right => if op.isCmp then false else left.strays own || right.strays none
  | own, .unary _ inner => inner.strays own
  | _, _ => false

end Expr

/-- The bitwise operators on truth values. -/
def logicOp : BinOp → Bool → Bool → Bool
  | .and, x, y => x && y
  | .or, x, y => x || y
  | _, x, y => x != y

/-- The truth value of an expression, or with `flipped` what it would be if every comparison had the opposite
    value. -/
def evalLogic (flipped : Bool) (β : String → Bool) (ρ : String → Int32) : Expr → Option Bool
  | .var name => some (β name)
  | .binary left op right =>
    if op.isCmp then do
      let a ← runExpr ρ left
      let b ← runExpr ρ right
      some (evalCmp op a b != flipped)
    else do
      let x ← evalLogic flipped β ρ left
      let y ← evalLogic flipped β ρ right
      some (logicOp op x y)
  | .unary .not inner => (evalLogic flipped β ρ inner).map (!·)
  | _ => none

theorem isPlain_of_isLogic (e : Expr) (h : e.isLogic) : e.isPlain := by
  induction e with
  | binary left op right hl hr =>
    simp only [Expr.isPlain, Bool.and_eq_true]
    by_cases hcmp : op.isCmp
    · simp [Expr.isLogic, if_pos hcmp] at h
      exact ⟨isPlain_of_isInt left h.1, isPlain_of_isInt right h.2⟩
    · simp [Expr.isLogic, if_neg hcmp] at h
      exact ⟨hl h.1.2, hr h.2⟩
  | unary op inner ih =>
    cases op with
    | neg => cases h
    | not => exact ih h
  | arrayAccess name index ih => cases h
  | fieldAccess name field => cases h
  | _ => rfl

/-! ## The three mechanisms -/

/-- Copying a `BOOL` variable. -/
theorem add_false (v : HalValue) : HalValue.add v (.bool false) = some (.s32 0) := by cases v <;> rfl

theorem halOp_bool {op : BinOp} (hop : (op == .and || op == .or || op == .xor) = true) (x y : Bool) :
    op.halOp (.bool x) (.bool y) = some (.bool (logicOp op x y)) := by
  cases op <;> first | cases hop; done | (cases x <;> cases y <;> rfl)

/-- An `S32` operand makes the result an `S32`. -/
theorem halOp_s32_left {op : BinOp} (hop : (op == .and || op == .or || op == .xor) = true) (n : Int32) (v : HalValue) :
    ∃ m, op.halOp (.s32 n) v = some (.s32 m) := by
  cases op <;> first | cases hop; done | (cases v <;> exact ⟨_, rfl⟩)

theorem halOp_s32_right {op : BinOp} (hop : (op == .and || op == .or || op == .xor) = true) (v : HalValue) (n : Int32) :
    ∃ m, op.halOp v (.s32 n) = some (.s32 m) := by
  cases op <;> first | cases hop; done | (cases v <;> exact ⟨_, rfl⟩)

section
variable {d : Decls} {β : String → Bool} {ρ : String → Int32}

/-- Where no copy is made, the code computes the truth value with every comparison flipped. -/
theorem codeValue_logic (e : Expr) {own : Option String} {reg : Option UInt8} {regs : UInt8 → HalValue}
    (hlogic : e.isLogic) (hstray : ¬ e.strays own)
    (hown : ∀ x ∈ e.boolVars, own = some x → ∃ r, d.registers x = some r ∧ reg = some r ∧ regs r = .bool (β x))
    (hapart : ∀ x ∈ e.intVars, ∀ r, d.registers x = some r → reg ≠ some r)
    (hints : HoldsInts d e.intVars regs ρ) :
    codeValue d reg e regs = (evalLogic true β ρ e).map .bool := by
  induction e generalizing own reg regs with
  | var name =>
    have hname : own = some name := by simpa [Expr.strays] using hstray
    obtain ⟨r, hr, rfl, hval⟩ := hown name (by simp [Expr.boolVars]) hname
    simp only [codeValue, hr, Option.bind_some, if_true, hval]
    rfl
  | binary left op right hl hr =>
    by_cases hcmp : op.isCmp
    · simp only [Expr.isLogic, if_pos hcmp, Bool.and_eq_true] at hlogic
      simp only [Expr.intVars, if_pos hcmp] at hints
      rw [codeValue, if_pos hcmp, evalLogic, if_pos hcmp,
        codeValue_scratch right hlogic.2 fun x hx => hints x (List.mem_append_right _ hx),
        codeValue_scratch left hlogic.1 fun x hx => hints x (List.mem_append_left _ hx)]
      -- both sides are computed, and the comparison sets the opposite of its result
      cases runExpr ρ left with
      | none => cases runExpr ρ right <;> rfl
      | some a =>
        cases runExpr ρ right with
        | none => rfl
        | some b =>
          simp only [Option.map_some, Option.bind_some, halCmp_s32 hcmp, Option.bind_eq_bind]
          simp
    · simp only [Expr.isLogic, if_neg hcmp, Bool.and_eq_true] at hlogic
      obtain ⟨⟨hop, hlogicl⟩, hlogicr⟩ := hlogic
      simp only [Expr.strays, if_neg hcmp, Bool.or_eq_true, not_or] at hstray
      simp only [Expr.intVars, if_neg hcmp] at hints hapart
      simp only [Expr.boolVars, if_neg hcmp] at hown
      have hleft := hl hlogicl hstray.1 (fun x hx => hown x (List.mem_append_left _ hx)) (fun x hx => hapart x (List.mem_append_left _ hx))
        (fun x hx => hints x (List.mem_append_left _ hx))
      -- the right side does not read the register that the left one is in
      have hright : ∀ v, codeValue d none right (overwrite reg v regs) = (evalLogic true β ρ right).map .bool := by
        intro v
        apply hr hlogicr hstray.2 (by simp) (by simp)
        intro x hx
        obtain ⟨r, hreg, htype, hval⟩ := hints x (List.mem_append_right _ hx)
        refine ⟨r, hreg, htype, ?_⟩
        rw [overwrite, if_neg (hapart x (List.mem_append_right _ hx) r hreg), hval]
      rw [codeValue, if_neg hcmp, evalLogic, if_neg hcmp, hleft]
      simp only [hright]
      cases evalLogic true β ρ left with
      | none => rfl
      | some x =>
        cases evalLogic true β ρ right with
        | none => rfl
        | some y => exact halOp_bool hop x y
  | unary op inner ih =>
    cases op with
    | neg => cases hlogic
    | not =>
      rw [codeValue, ih hlogic hstray hown hapart hints, evalLogic]
      cases evalLogic true β ρ inner with
      | none => rfl
      | some x => rfl
  | _ => cases hlogic

/-- A copied variable leaves an `S32`, and so does everything around it. -/
theorem codeValue_stray (e : Expr) {own : Option String} {reg : Option UInt8} {regs : UInt8 → HalValue} {v : HalValue}
    (hlogic : e.isLogic) (hstray : e.strays own) (htypes : ∀ x ∈ e.boolVars, d.varTypes x = some .bool)
    (hown : ∀ x r, d.registers x = some r → reg = some r → own = some x) (hv : codeValue d reg e regs = some v) :
    ∃ n, v = .s32 n := by
  induction e generalizing own reg regs v with
  | var name =>
    simp [codeValue, Option.bind_eq_some_iff] at hv
    obtain ⟨src, hsrc, hv⟩ := hv
    have hne : own ≠ some name := by simpa [Expr.strays] using hstray
    have hzero : d.zeroForVar name = .bool false := by
      rw [Decls.zeroForVar, htypes name (by simp [Expr.boolVars])]
      rfl
    -- the copy is a sum, and the sum of two truth values is a number
    rw [if_neg fun h => hne (hown name src hsrc h), hzero, add_false] at hv
    cases hv
    exact ⟨0, rfl⟩
  | binary left op right hl hr =>
    by_cases hcmp : op.isCmp
    · simp [Expr.strays, hcmp] at hstray
    · simp only [Expr.isLogic, if_neg hcmp, Bool.and_eq_true] at hlogic
      obtain ⟨⟨hop, hlogicl⟩, hlogicr⟩ := hlogic
      simp only [Expr.strays, if_neg hcmp, Bool.or_eq_true] at hstray
      simp only [Expr.boolVars, if_neg hcmp] at htypes
      simp only [codeValue, if_neg hcmp, Option.bind_eq_some_iff] at hv
      obtain ⟨a, ha, b, hb, hv⟩ := hv
      rcases hstray with hstray | hstray
      · obtain ⟨n, rfl⟩ := hl hlogicl hstray (fun x hx => htypes x (List.mem_append_left _ hx)) hown ha
        obtain ⟨m, hm⟩ := halOp_s32_left hop n b
        rw [hm] at hv
        cases hv
        exact ⟨m, rfl⟩
      · obtain ⟨n, rfl⟩ := hr hlogicr hstray (fun x hx => htypes x (List.mem_append_right _ hx)) (by simp) hb
        obtain ⟨m, hm⟩ := halOp_s32_right hop a n
        rw [hm] at hv
        cases hv
        exact ⟨m, rfl⟩
  | unary op inner ih =>
    cases op with
    | neg => cases hlogic
    | not =>
      simp [codeValue, Option.bind_eq_some_iff] at hv
      obtain ⟨a, ha, rfl⟩ := hv
      obtain ⟨n, rfl⟩ := ih hlogic hstray htypes hown ha
      exact ⟨_, rfl⟩
  | _ => simp [Expr.strays] at hstray

end

theorem vars_of_intVars (e : Expr) : ∀ x ∈ e.intVars, x ∈ e.vars := by
  induction e with
  | binary left op right hl hr =>
    intro x hx
    by_cases hcmp : op.isCmp
    · simpa [Expr.intVars, hcmp, Expr.vars] using hx
    · simp [Expr.intVars, if_neg hcmp] at hx
      exact List.mem_append.2 (hx.imp (hl x) (hr x))
  | unary op inner ih => exact ih
  | _ => simp [Expr.intVars]

end Audesys.St

/-! ## Two assignments -/

namespace Audesys.St

open Audesys.Hal Audesys.Lib

local instance releaseBoolAssign : Target := host false

/-- `b := e`. -/
def boolAssign (e : Expr) : Program where
  name := "logic"
  vars := [⟨"b", .bool⟩, ⟨"x", .dint⟩]
  body := [.assign "b" e]
  functions := []

/-- A machine with `b = FALSE` and `x = 5`. -/
def falseFive : Vm := (Vm.new.set 0 (.bool false)).set 1 (.s32 5)

/-- `x > 0 XOR x > 0`: both comparisons are flipped, which `XOR` does not notice. -/
def bothFlipped : Expr := .binary (.binary (.var "x") .gt (.intLiteral 0)) .xor (.binary (.var "x") .gt (.intLiteral 0))

def oneComparison : Expr := .binary (.var "x") .gt (.intLiteral 3)

end Audesys.St
