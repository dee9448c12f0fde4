import Audesys.Hal.Debug
import Audesys.Hal.Host

/-!
# `Hal.DebugTrace` — what the trace of a debug session records

A session of `step` and `resume` calls with debug mode on, and the instructions that it executes. A `step` records
what it executes (`step_trace`). A `resume` switches debug mode off to get past a breakpoint, and with it the trace,
so its instruction is missing (`resume_trace`): a session's trace is complete if `resume` is never called
(`session_trace_iff`).
-/

open List

namespace Audesys.Hal

/-- The calls of a debug session. -/
inductive DebugCall where
  | step
  | resume
  deriving DecidableEq

namespace Executor

section
variable [Target]

def call (ex : Executor) : DebugCall → Option (Executor × ExecutorResult)
  | .step => ex.step
  | .resume => ex.resume

/-- The instruction that a call executes, by its address and opcode: a breakpoint report executes none. -/
def executed (ex : Executor) : ExecutorResult → List (Nat × Opcode)
  | .breaked => []
  | .cont | .halted => (ex.program.instructions[ex.vm.ip]?).toList.map fun inst => (ex.vm.ip, inst.opcode)

/-- The calls one after the other, with the instructions that they execute and by which call; `none` is a panic. -/
def session : List DebugCall → Executor → Option (Executor × List (DebugCall × Nat × Opcode))
  | [], ex => some (ex, [])
  | c :: calls, ex => do
    let (ex', result) ← ex.call c
    let (last, rest) ← session calls ex'
    some (last, (ex.executed result).map (fun inst => (c, inst)) ++ rest)

/-- The trace buffer, by addresses and opcodes. -/
def trace (ex : Executor) : List (Nat × Opcode) := ex.debugState.traceBuffer.map fun entry => (entry.ip, entry.opcode)

/-! ## One call -/

variable {ex ex' : Executor} {result : ExecutorResult}

/-- **A step** in debug mode records the instruction that it executes. -/
theorem step_trace (hmode : ex.debugState.debugMode = true) (h : ex.step = some (ex', result)) :
    ex'.debugState.debugMode = true ∧ ex'.trace = ex.trace ++ ex.executed result := by
  by_cases hbreak : ex.debugState.debugMode = true ∧ ex.vm.ip ∈ ex.debugState.breakpoints
  · have hreport : result = .breaked := by
      simp [step, if_pos hbreak, Option.bind_eq_some_iff] at h
      obtain ⟨inst, _, h⟩ := h
      cases h
      rfl
    subst hreport
    rw [eq_of_breaked h]
    exact ⟨hmode, (List.append_nil _).symm⟩
  · -- the machine does not report breakpoints
    have hresult : result ≠ .breaked := by
      rintro rfl
      have hfree := step_free hbreak
      cases hvm : ex.vm.step ex.program.instructions with
      | none =>
        rw [hvm] at hfree
        rw [hfree] at h
        cases h
      | some p =>
        rw [hvm] at hfree
        obtain ⟨debug, hstep, _⟩ := hfree
        rw [hstep] at h
        obtain ⟨vm', result⟩ := p
        cases h
        exact step_ne_breaked hvm
    simp only [step, if_neg hbreak, if_pos hmode, Option.bind_eq_bind, Option.bind_eq_some_iff] at h
    obtain ⟨inst, hinst, p, _, r0, _, debug, hdebug, h⟩ := h
    cases hdebug
    cases h
    have hexecuted : ex.executed p.2 = [(ex.vm.ip, inst.opcode)] := by
      unfold executed
      rw [hinst]
      cases hp : p.2 with
      | cont => rfl
      | halted => rfl
      | breaked => exact absurd hp hresult
    refine ⟨hmode, ?_⟩
    rw [hexecuted]
    show (ex.debugState.traceBuffer ++ [_]).map _ = _
    rw [map_append]
    rfl

/-- **A resume** executes one instruction and records nothing. -/
theorem resume_trace (h : ex.resume = some (ex', result)) :
    ex'.debugState.debugMode = true ∧ ex'.trace = ex.trace ∧ ∃ inst, ex.executed result = [inst] := by
  unfold resume at h
  rw [step_of_not_debug rfl] at h
  obtain ⟨p, hstep, heq⟩ := Option.bind_eq_some_iff.1 h
  obtain ⟨q, hvm, hq⟩ := Option.map_eq_some_iff.1 hstep
  cases hq
  cases heq
  refine ⟨rfl, rfl, ?_⟩
  obtain ⟨inst, hinst, _⟩ := Option.bind_eq_some_iff.1 hvm
  refine ⟨(ex.vm.ip, inst.opcode), ?_⟩
  unfold executed
  rw [show ex.program.instructions[ex.vm.ip]? = some inst from hinst]
  cases hq : q.2 with
  | cont => rfl
  | halted => rfl
  | breaked =>
    obtain ⟨vm', result⟩ := q
    cases hq
    exact absurd hvm step_ne_breaked

/-- What a call adds to the trace. -/
theorem call_trace {c : DebugCall} (hmode : ex.debugState.debugMode = true) (h : ex.call c = some (ex', result)) :
    ex'.debugState.debugMode = true ∧ ex'.trace = ex.trace ++ (if c = .step then ex.executed result else []) ∧
      (c = .resume → ∃ inst, ex.executed result = [inst]) := by
  cases c with
  | step =>
    obtain ⟨hmode', htrace⟩ := step_trace hmode h
    exact ⟨hmode', htrace, fun hc => by cases hc⟩
  | resume =>
    obtain ⟨hmode', htrace, hinst⟩ := resume_trace h
    exact ⟨hmode', htrace.trans (List.append_nil _).symm, fun _ => hinst⟩

/-! ## Sessions -/

omit [Target] in
/-- The instructions of a call are a step's or none is. -/
theorem filter_executed (c : DebugCall) (insts : List (Nat × Opcode)) :
    ((insts.map fun inst => (c, inst)).filter fun entry => entry.1 = .step).map Prod.snd =
      if c = .step then insts else [] := by
  induction insts with
  | nil => cases c <;> rfl
  | cons inst insts ih =>
    cases c with
    | step => exact congrArg (inst :: ·) ih
    | resume => exact ih

/-- **The trace of a session** is what its steps execute, and each resume executes one instruction more. -/
theorem session_trace {calls : List DebugCall} {ex last : Executor} {done : List (DebugCall × Nat × Opcode)}
    (hmode : ex.debugState.debugMode = true) (h : session calls ex = some (last, done)) :
    last.trace = ex.trace ++ (done.filter fun entry => entry.1 = .step).map Prod.snd ∧
      (∀ entry ∈ done, entry.1 ∈ calls) ∧ (.resume ∈ calls → ∃ entry ∈ done, entry.1 = .resume) := by
  induction calls generalizing ex done with
  | nil =>
    cases h
    refine ⟨(List.append_nil _).symm, fun entry hin => ?_, fun hin => ?_⟩
    · cases hin
    · cases hin
  | cons c calls ih =>
    simp only [session, Option.bind_eq_bind, Option.bind_eq_some_iff] at h
    obtain ⟨⟨ex', result⟩, hcall, ⟨last', rest⟩, hrest, h⟩ := h
    cases h
    obtain ⟨hmode', htrace, hresume⟩ := call_trace hmode hcall
    obtain ⟨htrace', hcalls, hresumes⟩ := ih hmode' hrest
    refine ⟨?_, ?_, ?_⟩
    · rw [htrace', htrace, filter_append, map_append, filter_executed, List.append_assoc]
    · intro entry hin
      rcases mem_append.1 hin with hin | hin
      · obtain ⟨inst, _, rfl⟩ := mem_map.1 hin
        exact mem_cons_self
      · exact mem_cons_of_mem _ (hcalls entry hin)
    · intro hin
      rcases mem_cons.1 hin with rfl | hin
      · obtain ⟨inst, hinst⟩ := hresume rfl
        rw [hinst]
        exact ⟨_, mem_append_left _ mem_cons_self, rfl⟩
      · obtain ⟨entry, hentry, hby⟩ := hresumes hin
        exact ⟨entry, mem_append_right _ hentry, hby⟩

/-- **Where the trace is complete**: from any program, machine state, breakpoints and trace, a session with debug mode on
records what it executes, once and in order, exactly if it never resumes. -/
theorem session_trace_iff (ex : Executor) {calls : List DebugCall} {last : Executor}
    {done : List (DebugCall × Nat × Opcode)} (h : session calls ex.enableDebug = some (last, done)) :
    last.trace = ex.trace ++ done.map Prod.snd ↔ .resume ∉ calls := by
  obtain ⟨htrace, hcalls, hresume⟩ := session_trace rfl h
  have hstart : ex.enableDebug.trace = ex.trace := rfl
  rw [htrace, hstart, append_cancel_left_eq]
  constructor
  · -- a resumed instruction makes the trace shorter
    intro heq hin
    obtain ⟨entry, hentry, hby⟩ := hresume hin
    have hlen := congrArg List.length heq
    rw [length_map, length_map, length_filter_eq_length_iff] at hlen
    have hstep := of_decide_eq_true (hlen entry hentry)
    rw [hby] at hstep
    cases hstep
  · intro hnot
    rw [filter_eq_self.2]
    intro entry hentry
    have hin := hcalls entry hentry
    cases hby : entry.1 with
    | step => rfl
    | resume => exact absurd (hby ▸ hin) hnot

end

end Executor

end Audesys.Hal

namespace Audesys.Hal.Executor

/-- A release build. -/
local instance releaseDebugTrace : Target := host false

def addProgram : HalProgram :=
  .new "add" [.loadImm 0 (.s32 1), .loadImm 1 (.s32 2), .arith .add 0 1 2, .halt]

/-- Stepping to the end. -/
theorem stepped_trace : ∃ last done, session [.step, .step, .step, .step] (new addProgram).enableDebug = some (last, done) ∧
    (last.trace = (new addProgram).trace ++ done.map Prod.snd ↔
      DebugCall.resume ∉ [DebugCall.step, .step, .step, .step]) :=
  ⟨_, _, rfl, session_trace_iff (new addProgram) rfl⟩

/-- **Past a breakpoint** at the second instruction, which the trace then lacks. -/
theorem resumed_untraced : ∃ last done,
    session [.step, .step, .resume, .step] ((new addProgram).addBreakpoint 1).enableDebug = some (last, done) ∧
      last.trace = [(0, .load), (2, .add)] ∧ done.map Prod.snd = [(0, .load), (1, .load), (2, .add)] ∧
        last.trace ≠ ((new addProgram).addBreakpoint 1).trace ++ done.map Prod.snd :=
  ⟨_, _, rfl, rfl, rfl, by decide⟩

end Audesys.Hal.Executor
