import Audesys.Hal.Calls
import Audesys.Lib.Segment
import Audesys.St.Brackets

/-!
# `St.FunctionCalls` — calls of functions

A call of a `FUNCTION` compiles to `Call 0`, and `patch_function_calls` leaves it so. Every body of a function lies
behind the main body, so no entry point is 0: a call transfers control to the program's first instruction.
-/

namespace Audesys.St

open Audesys.Hal Audesys.Lib

variable [Target]

/-! ## What a call should do -/

/-- The variable that a statement assigns. -/
def Statement.assigned : Statement → Option String
  | .assign name _ | .arrayAssign name _ _ | .forDo name .. => some name
  | _ => none

/-- Some statement of the body, at any depth, assigns the variable. -/
def Assigns (body : List Statement) (name : String) : Prop := ∃ s, Occurs body s ∧ s.assigned = some name

/-- The call of `f` with its code between `b` and `b + n`: its last instruction goes to the entry point that the
    function table has for `f`, and once the function has returned, execution is behind the call and every
    variable that `f` does not assign is as it was in front of the call. -/
structure CallRuns (p : Program) (hp : HalProgram) (f : FunctionDef) (b n : Nat) : Prop where
  enters : ∀ vm : Vm, vm.ip + 1 = b + n → ∃ e ∈ hp.functionTable, e.name = f.name ∧
    ∃ vm', next hp.instructions vm = some vm' ∧ vm'.ip = e.entryPoint.toNat ∧ vm'.callStack = (b + n) :: vm.callStack
  returns : ∀ start vm vm' : Vm, start.ip = b → Finishes (next hp.instructions) Vm.ip b (b + n - 1) start vm →
    CallMatch hp.instructions vm vm' → vm'.ip = b + n ∧
      ∀ name r, (Decls.ofVariables p.vars).registers name = some r → ¬ Assigns f.body name → vm'.get r = start.get r

/-- Every call of a function that the program declares runs the function. -/
def CallsRun (p : Program) (hp : HalProgram) : Prop :=
  ∀ f ∈ p.functions, ∀ args b stop c, ProgramWithin p hp (.funCall f.name args) b stop →
    genStmt (.ofVariables p.vars) .all (.funCall f.name args) b = some c → CallRuns p hp f b c.length

/-! ## The code of a call -/

/-- The code of a call ends in `Call 0` or in an instruction that calls nothing. -/
theorem genFunCall_last {d : Decls} {sc : Scratch} {name : String} {args : List Expr} {base : Nat}
    {c : List Instruction} (h : genFunCall d name args sc base = some c) :
    ∃ front last, c = front ++ [last] ∧ (last = .call 0 ∨ (last.opcode ≠ .call ∧ last.opcode ≠ .ret)) := by
  have hcall {args : List Expr} (h : genGeneric d args sc base = some c) :
      ∃ front last, c = front ++ [last] ∧ (last = .call 0 ∨ (last.opcode ≠ .call ∧ last.opcode ≠ .ret)) := by
    simp only [genGeneric, bind_some, Option.some.injEq] at h
    obtain ⟨front, _, rfl⟩ := h
    exact ⟨front, _, rfl, .inl rfl⟩
  have hblock {arg0 : Expr} (h : genEdge d name arg0 sc base = some c) :
      ∃ front last, c = front ++ [last] ∧ (last = .call 0 ∨ (last.opcode ≠ .call ∧ last.opcode ≠ .ret)) := by
    simp only [genEdge, bind_some, Option.some.injEq, Prod.exists] at h
    obtain ⟨reg, _, clk, _, _, front, _, rfl⟩ := h
    exact ⟨front, _, rfl, .inr (by constructor <;> rintro ⟨⟩)⟩
  unfold genFunCall at h
  dsimp only at h
  split at h
  · split at h
    · simp only [bind_some, Option.some.injEq, Prod.exists] at h
      obtain ⟨reg, _, inp, _, _, front, _, rfl⟩ := h
      exact ⟨front, _, rfl, .inr (by constructor <;> rintro ⟨⟩)⟩
    · split at h
      · simp only [bind_some, Option.some.injEq, Prod.exists] at h
        obtain ⟨reg, _, cu, _, _, front, _, cd, _, _, back, _, rfl⟩ := h
        exact ⟨front ++ back, _, rfl, .inr (by constructor <;> rintro ⟨⟩)⟩
      · split at h
        · simp only [bind_some, Option.some.injEq, Prod.exists] at h
          obtain ⟨reg, _, s1, _, _, front, _, r, _, _, back, _, rfl⟩ := h
          exact ⟨front ++ back, _, rfl, .inr (by constructor <;> rintro ⟨⟩)⟩
        · split at h
          · exact hblock h
          · exact hcall h
  · split at h
    · exact hblock h
    · exact hcall h
  · exact hcall h

/-! ## Entry points -/

theorem length_compileFunctions (fs : List FunctionDef) {table table' : List FunctionEntry} {cg cg' : Codegen}
    (h : compileFunctions fs table cg = .ok (table', cg')) : table'.length = table.length + fs.length := by
  induction fs generalizing table cg with
  | nil =>
    cases h
    rfl
  | cons f fs ih =>
    simp only [compileFunctions, bind_ok] at h
    obtain ⟨cg₁, _, h₂⟩ := h
    rw [ih h₂, List.length_append, List.length_singleton, List.length_cons]
    omega

section
variable {p : Program} {hp : HalProgram}

theorem length_functionTable (hok : compileAst p = .ok hp) : hp.functionTable.length = p.functions.length := by
  simp only [compileAst, bind_ok, Prod.exists, Except.ok.injEq] at hok
  obtain ⟨cg₀, _, cg₁, _, table, cg₂, h₂, rfl⟩ := hok
  simpa using length_compileFunctions p.functions h₂

/-- No function starts at instruction 0: the main body ends in a `Halt`. -/
theorem entryPoint_pos (hok : compileAst p = .ok hp) (hlen : hp.instructions.length < 2 ^ 32) {e : FunctionEntry}
    (he : e ∈ hp.functionTable) : 0 < e.entryPoint.toNat := by
  obtain ⟨i, hi⟩ := List.mem_iff_getElem?.1 he
  obtain ⟨hlt, _⟩ := List.getElem?_eq_some_iff.1 hi
  rw [length_functionTable hok] at hlt
  obtain ⟨e', _, he', _, _, hbehind⟩ := function_placed hok hlen (List.getElem?_eq_getElem hlt)
  obtain rfl : e = e' := Option.some.inj (hi.symm.trans he')
  obtain ⟨c, _, hc, _⟩ := compileAst_eq hok hlen
  exact Nat.lt_of_le_of_lt (Nat.zero_le _) (hbehind c hc)

/-- **No call runs its function**: the transfer of control goes to 0, or there is none. -/
theorem callRuns_fails (hok : compileAst p = .ok hp) (hlen : hp.instructions.length < 2 ^ 32) {f : FunctionDef}
    {args : List Expr} {b : Nat} {stop : Option Nat} {c : StmtCode}
    (hsite : ProgramWithin p hp (.funCall f.name args) b stop)
    (hc : genStmt (.ofVariables p.vars) .all (.funCall f.name args) b = some c) : ¬ CallRuns p hp f b c.length := by
  intro h
  obtain ⟨body, b₀, hbody, hin⟩ := hsite
  obtain ⟨cb, hcb, hat⟩ := hbody.placed hok hlen
  obtain ⟨c', hc', hat'⟩ := hin.placed hcb (hat _)
  obtain rfl : c = c' := Option.some.inj (hc.symm.trans hc')
  simp only [genStmt, bind_some, Option.some.injEq] at hc
  obtain ⟨code, hcode, rfl⟩ := hc
  obtain ⟨front, last, rfl, hlast⟩ := genFunCall_last hcode
  rw [resolve_plain] at hat'
  simp at h
  have hinst : hp.instructions[b + front.length]? = some last := hat'.right.head
  obtain ⟨e, he, _, vm', hnext, hip, hstack⟩ := h.enters { Vm.new with ip := b + front.length } (by dsimp only; omega)
  have heffect := next_effect hinst hnext
  rcases hlast with rfl | ⟨hcall, hret⟩
  · have hzero : vm'.ip = 0 := heffect.ip
    have hpos := entryPoint_pos hok hlen he
    omega
  · -- without a call nothing is pushed
    have hsame : vm'.callStack = [] := by
      rw [heffect.callStack]
      unfold stackAfter
      split
      · exact absurd ‹_› hcall
      · exact absurd ‹_› hret
      · rfl
    rw [hsame] at hstack
    cases hstack

/-- **Calls.** In a compiled program of fewer than 2³² instructions every call of a declared function runs it
    exactly if there is no such call. -/
theorem calls_iff (hok : compileAst p = .ok hp) (hlen : hp.instructions.length < 2 ^ 32) :
    CallsRun p hp ↔ ∀ f ∈ p.functions, ∀ args, ¬ p.Contains (.funCall f.name args) := by
  constructor
  · intro h f hf args hcontains
    obtain ⟨b, stop, hsite⟩ := hcontains.within hok hlen
    obtain ⟨body, b₀, hbody, hin⟩ := hsite
    obtain ⟨cb, hcb, hat⟩ := hbody.placed hok hlen
    obtain ⟨c, hc, _⟩ := hin.placed hcb (hat _)
    exact callRuns_fails hok hlen ⟨body, b₀, hbody, hin⟩ hc (h f hf args b stop c ⟨body, b₀, hbody, hin⟩ hc)
  · intro h f hf args b stop c hsite _
    exact absurd hsite.contains (h f hf args)

end

end Audesys.St

/-! ## One call -/

namespace Audesys.St

open Audesys.Hal Audesys.Lib

local instance releaseFunctionCalls : Target := host false

/-- `FUNCTION f : DINT; x := 1; END_FUNCTION;`. -/
def setsOne : FunctionDef := ⟨"f", .dint, [], [], [], [], [.assign "x" (.intLiteral 1)]⟩

/-- `f();` with `setsOne`. -/
def callOnce : Program where
  name := "once"
  vars := [⟨"x", .dint⟩]
  body := [.funCall "f" []]
  functions := [setsOne]

theorem calls_iff_once : ¬ CallsRun callOnce (compiled callOnce) := fun h =>
  (calls_iff rfl (by decide)).1 h setsOne (List.mem_singleton_self _) [] (.inl .here)

/-- The call goes to itself instead of to 2. -/
theorem calls_fail : compileAst callOnce = .ok (compiled callOnce) ∧ ¬ CallsRun callOnce (compiled callOnce) := by
  refine ⟨rfl, fun h => ?_⟩
  have hsite : ProgramWithin callOnce (compiled callOnce) (.funCall setsOne.name []) 0 none :=
    ⟨_, 0, .inl ⟨rfl, rfl⟩, .here⟩
  obtain ⟨e, he, _, vm', hnext, hip, _⟩ :=
    (h setsOne (List.mem_singleton_self _) [] 0 none _ hsite rfl).enters Vm.new rfl
  obtain rfl : vm' = { Vm.new with callStack := [1] } := (Option.some.inj hnext).symm
  obtain rfl : e = ⟨"f", 2, 0⟩ := List.mem_singleton.1 he
  exact absurd hip (by decide)

end Audesys.St
