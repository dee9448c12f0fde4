import Audesys.Hal.Host
import Audesys.Hal.Steps

/-!
# `Hal.Calls` — calls and the returns that match them

A `Call` is matched by the first `Ret` that brings the call depth back to what it was before. Until then the
stack of the caller, with the return address on top, stays where it is (`Beneath`), whatever is called in
between. The return address is the index behind the call; `step` advances the instruction pointer once more
after `Ret`, so execution goes on one instruction further (`callMatch_resumes`).
-/

namespace Audesys.Hal

open Audesys.Lib

variable [Target]

/-- A step after which more than `d` calls are open. -/
def deeper (code : List Instruction) (d : Nat) (vm : Vm) : Option Vm :=
  match next code vm with
  | some vm' => if d < vm'.callStack.length then some vm' else none
  | none => none

/-- The `Call` that `vm` executes is matched by the `Ret` that leaves `vm'`. -/
structure CallMatch (code : List Instruction) (vm vm' : Vm) : Prop where
  call : ∃ inst, code[vm.ip]? = some inst ∧ inst.opcode = .call
  depth : vm'.callStack.length = vm.callStack.length
  body : ∃ entry last n inst, next code vm = some entry ∧
    RunN (deeper code vm.callStack.length) n entry last ∧ code[last.ip]? = some inst ∧ inst.opcode = .ret ∧
    next code last = some vm'

/-- **Call and return discipline** of the runs from `start`: behind every matched call the run goes on at the
    index behind the call, with the call stack as it was. -/
def Disciplined (code : List Instruction) (start : Vm) : Prop :=
  ∀ n vm vm', RunN (next code) n start vm → CallMatch code vm vm' →
    vm'.ip = vm.ip + 1 ∧ vm'.callStack = vm.callStack

section
variable {code : List Instruction} {vm vm' : Vm}

theorem deeper_eq {d : Nat} : deeper code d vm = some vm' ↔ next code vm = some vm' ∧ d < vm'.callStack.length := by
  unfold deeper
  cases h : next code vm with
  | none => simp
  | some u =>
    rw [Option.ite_none_right_eq_some, Option.some.injEq]
    constructor
    · rintro ⟨hd, rfl⟩
      exact ⟨rfl, hd⟩
    · rintro ⟨rfl, hd⟩
      exact ⟨hd, rfl⟩

/-! ## The stack of the caller -/

/-- The calls open in `vm` lie on top of `outer`. -/
def Beneath (outer : List Nat) (vm : Vm) : Prop := ∃ inner, vm.callStack = inner ++ outer

/-- A step that leaves `outer` covered does not touch it. -/
theorem beneath_step {outer : List Nat} (hstep : deeper code (outer.length - 1) vm = some vm')
    (h : Beneath outer vm) : Beneath outer vm' := by
  obtain ⟨hnext, hdepth⟩ := deeper_eq.1 hstep
  obtain ⟨inst, hinst, heffect⟩ := step_effect (step_of_next hnext)
  obtain ⟨inner, hinner⟩ := h
  have hstack := heffect.callStack
  unfold stackAfter at hstack
  split at hstack
  · exact ⟨(vm.ip + 1) :: inner, by rw [hstack, hinner, List.cons_append]⟩
  · -- a return pops an inner call, because the depth stays above
    cases inner with
    | nil =>
      rw [hstack, hinner, List.nil_append, List.length_tail] at hdepth
      omega
    | cons a inner => exact ⟨inner, by rw [hstack, hinner]; rfl⟩
  · exact ⟨inner, by rw [hstack, hinner]⟩

/-- **A matched call** restores the stack, and execution goes on at the second instruction behind it. -/
theorem callMatch_resumes (h : CallMatch code vm vm') :
    vm'.ip = vm.ip + 2 ∧ vm'.callStack = vm.callStack := by
  obtain ⟨⟨call, hcall, hcallop⟩, hdepth, entry, last, n, ret, hentry, hrun, hret, hretop, hlast⟩ := h
  have hpushed : entry.callStack = (vm.ip + 1) :: vm.callStack := by
    rw [(next_effect hcall hentry).callStack, stackAfter, hcallop]
  have hbeneath : Beneath ((vm.ip + 1) :: vm.callStack) last :=
    hrun.invariant (fun s t hs hinv => beneath_step hs hinv) ⟨[], hpushed⟩
  obtain ⟨inner, hinner⟩ := hbeneath
  have heffect := next_effect hret hlast
  have hpopped : vm'.callStack = last.callStack.tail := by
    rw [heffect.callStack, stackAfter, hretop]
  -- the return that reaches the old depth finds the return address of this call on top
  cases inner with
  | nil =>
    rw [List.nil_append] at hinner
    constructor
    · rw [heffect.ip]
      unfold succIp
      rw [hretop, hinner]
      rfl
    · rw [hpopped, hinner, List.tail_cons]
  | cons a inner =>
    rw [hpopped, hinner] at hdepth
    simp only [List.cons_append, List.tail_cons, List.length_append, List.length_cons] at hdepth
    omega

end

/-- **Discipline.** It holds only of runs that make no matched call. -/
theorem disciplined_iff (code : List Instruction) (start : Vm) :
    Disciplined code start ↔ ∀ n vm vm', RunN (next code) n start vm → ¬ CallMatch code vm vm' := by
  constructor
  · intro h n vm vm' hrun hmatch
    have hgood := (h n vm vm' hrun hmatch).1
    have hbad := (callMatch_resumes hmatch).1
    omega
  · intro h n vm vm' hrun hmatch
    exact absurd hmatch (h n vm vm' hrun)

end Audesys.Hal

/-! ## A call -/

namespace Audesys.Hal

open Audesys.Lib

local instance releaseCalls : Target := host false

/-- A call of a function at 3 that returns at once; the instruction at 1 is skipped. -/
def calling : List Instruction := [.call 3, .loadImm 0 (.s32 1), .halt, .ret none]

theorem calling_not_disciplined : ¬ Disciplined calling Vm.new := by
  intro h
  have hmatch : CallMatch calling Vm.new (Vm.new.setIp 2) :=
    ⟨⟨.call 3, rfl, rfl⟩, rfl, _, _, 0, .ret none, rfl, .refl _, rfl, rfl, rfl⟩
  have hip := (h 0 _ _ (.refl _) hmatch).1
  exact absurd hip (by decide)

end Audesys.Hal
