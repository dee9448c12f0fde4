import Audesys.Hal.Machine

/-!
# `Hal.Debug` — debugging does not change what the machine does

The debug calls of `executor.rs` and the driver of a debug session: it steps, and where a step reports a
breakpoint it resumes. In debug mode a step is a breakpoint report that leaves everything as it is, or the step
the machine makes without debug mode together with a trace entry (`step_free`); so a session and a plain run visit
the same machine states one after the other.
-/

namespace Audesys.Hal

variable [Target]

namespace Executor

def enableDebug (ex : Executor) : Executor := { ex with debugState.debugMode := true }
def disableDebug (ex : Executor) : Executor := { ex with debugState.debugMode := false }

/-- `resume`: one step with debug mode off, then on again. -/
def resume (ex : Executor) : Option (Executor × ExecutorResult) := do
  let (ex', result) ← ex.disableDebug.step
  some (ex'.enableDebug, result)

/-- The driver: `step`, and `resume` where that was a breakpoint. -/
def stepOver (ex : Executor) : Option (Executor × ExecutorResult) := do
  let (ex', result) ← ex.step
  match result with
  | .breaked => ex'.resume
  | .cont | .halted => some (ex', result)

/-- The machine states that the first `n` calls of `advance` visit, with their results, up to the first call that
does not go on; `none` is a panic. -/
def visited (advance : Executor → Option (Executor × ExecutorResult)) : Nat → Executor →
    List (Option (Vm × ExecutorResult))
  | 0, _ => []
  | n + 1, ex =>
    match advance ex with
    | none => [none]
    | some (ex', .cont) => some (ex'.vm, .cont) :: visited advance n ex'
    | some (ex', result) => [some (ex'.vm, result)]

/-! ## One step -/

variable {ex ex' : Executor}

/-- A step that is not at a breakpoint is the step of the machine; the debug mode stays as it is. -/
theorem step_free (hfree : ¬(ex.debugState.debugMode = true ∧ ex.vm.ip ∈ ex.debugState.breakpoints)) :
    match ex.vm.step ex.program.instructions with
    | none => ex.step = none
    | some (vm', result) => ∃ debug, ex.step = some ({ ex with vm := vm', debugState := debug }, result) ∧
        debug.debugMode = ex.debugState.debugMode := by
  unfold step Vm.step
  cases ex.program.instructions[ex.vm.ip]? with
  | none => rfl
  | some inst =>
    simp only [Option.bind_eq_bind, Option.bind_some, if_neg hfree]
    cases Exec.executeInstruction ex.vm inst with
    | none => rfl
    | some p =>
      obtain ⟨vm', result⟩ := p
      -- the trace reads register 0, which is always there
      obtain ⟨r0, hread⟩ : ∃ r0, vm'.readRegister 0 = some r0 := ⟨_, rfl⟩
      by_cases hmode : ex.debugState.debugMode = true
      · refine ⟨{ ex.debugState with traceBuffer := ex.debugState.traceBuffer ++ [⟨ex.vm.ip, inst.opcode, r0⟩] }, ?_, rfl⟩
        simp only [Option.bind_some, if_pos hmode, hread]
      · refine ⟨ex.debugState, ?_, rfl⟩
        simp only [Option.bind_some, if_neg hmode]

/-- A breakpoint report leaves the executor as it was. -/
theorem eq_of_breaked (h : ex.step = some (ex', .breaked)) : ex' = ex := by
  by_cases hbreak : ex.debugState.debugMode = true ∧ ex.vm.ip ∈ ex.debugState.breakpoints
  · simp only [step, if_pos hbreak, Option.bind_eq_bind, Option.bind_eq_some_iff] at h
    obtain ⟨inst, _, h⟩ := h
    cases h
    rfl
  · have hfree := step_free hbreak
    cases hvm : ex.vm.step ex.program.instructions with
    | none =>
      rw [hvm] at hfree
      rw [hfree] at h
      cases h
    | some p =>
      rw [hvm] at hfree
      obtain ⟨debug, hstep, _⟩ := hfree
      rw [hstep] at h
      obtain ⟨vm', result⟩ := p
      cases h
      exact absurd hvm step_ne_breaked

/-- The driver makes the steps of the machine, and debug mode stays on. -/
theorem stepOver_eq (hmode : ex.debugState.debugMode = true) :
    match ex.vm.step ex.program.instructions with
    | none => ex.stepOver = none
    | some (vm', result) => ∃ debug, ex.stepOver = some ({ ex with vm := vm', debugState := debug }, result) ∧
        debug.debugMode = true := by
  -- on a breakpoint the first step only reports it, and the second one is made
  by_cases hfree : ex.vm.ip ∈ ex.debugState.breakpoints
  · have hoff : ex.disableDebug.debugState.debugMode = false := rfl
    have hplain := step_of_not_debug hoff
    unfold stepOver
    cases hinst : ex.program.instructions[ex.vm.ip]? with
    | none =>
      have hvm : ex.vm.step ex.program.instructions = none := by
        unfold Vm.step
        rw [hinst]
        rfl
      rw [hvm]
      show (ex.step).bind _ = none
      unfold step
      rw [hinst]
      rfl
    | some inst =>
      have hreport : ex.step = some (ex, .breaked) := by
        unfold step
        rw [hinst, Option.bind_eq_bind, Option.bind_some, if_pos ⟨hmode, hfree⟩]
      rw [hreport]
      show match ex.vm.step ex.program.instructions with
        | none => ex.resume = none
        | some (vm', result) => ∃ debug, ex.resume = some ({ ex with vm := vm', debugState := debug }, result) ∧
            debug.debugMode = true
      unfold resume
      rw [hplain]
      show match ex.vm.step ex.program.instructions with
        | none => Option.bind (Option.map _ (ex.vm.step ex.program.instructions)) _ = none
        | some (vm', result) => ∃ debug, Option.bind (Option.map _ (ex.vm.step ex.program.instructions)) _ =
            some ({ ex with vm := vm', debugState := debug }, result) ∧ debug.debugMode = true
      cases ex.vm.step ex.program.instructions with
      | none => rfl
      | some p => exact ⟨{ ex.debugState with debugMode := true }, rfl, rfl⟩
  -- elsewhere the machine steps at once
  · have hstep := step_free fun h => hfree h.2
    rw [hmode] at hstep
    unfold stepOver
    cases hvm : ex.vm.step ex.program.instructions with
    | none =>
      rw [hvm] at hstep
      rw [hstep]
      rfl
    | some p =>
      obtain ⟨vm', result⟩ := p
      rw [hvm] at hstep
      obtain ⟨debug, hstep, hdebug⟩ := hstep
      refine ⟨debug, ?_, hdebug⟩
      rw [hstep]
      cases result with
      | cont => rfl
      | halted => rfl
      | breaked => exact absurd hvm step_ne_breaked

/-! ## Sessions -/

/-- A session visits what the machine visits, whatever its breakpoints and its trace are. -/
theorem visited_stepOver (n : Nat) {ex plain : Executor} (hmode : ex.debugState.debugMode = true)
    (hplain : plain.debugState.debugMode = false) (hvm : plain.vm = ex.vm) (hprogram : plain.program = ex.program) :
    visited stepOver n ex = visited step n plain := by
  induction n generalizing ex plain with
  | zero => rfl
  | succ n ih =>
    have hover := stepOver_eq hmode
    have hstep := step_of_not_debug hplain
    rw [hvm, hprogram] at hstep
    unfold visited
    rw [hstep]
    cases hnext : ex.vm.step ex.program.instructions with
    | none =>
      rw [hnext] at hover
      rw [hover]
      rfl
    | some p =>
      obtain ⟨vm', result⟩ := p
      rw [hnext] at hover
      obtain ⟨debug, hover, hdebug⟩ := hover
      rw [hover]
      cases result with
      | cont =>
        show _ :: visited stepOver n _ = _ :: visited step n _
        exact congrArg _ (ih hdebug hplain rfl rfl)
      | halted => rfl
      | breaked => rfl

/-- **Debugging does not change results.** From any machine state, under any breakpoints, a debug session visits
the machine states of plain stepping in the same order and with the same results, and a breakpoint report leaves
the machine as it is. -/
theorem debug_transparent (ex : Executor) (n : Nat) :
    visited stepOver n ex.enableDebug = visited step n ex.disableDebug ∧
      ∀ session paused : Executor, session.step = some (paused, .breaked) → paused.vm = session.vm := by
  refine ⟨visited_stepOver n rfl rfl rfl rfl, ?_⟩
  intro session paused h
  rw [eq_of_breaked h]

end Executor

end Audesys.Hal
