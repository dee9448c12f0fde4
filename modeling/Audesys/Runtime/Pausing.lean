import Audesys.Lib.Run
import Audesys.Lib.Trace
import Audesys.Runtime.Engine

/-!
# `Runtime.Pausing` — the engine thread between `pause`, `resume`, `step_cycle` and `stop`

At the head of every cycle `Engine::start_with_cycle` waits while the engine is paused and no step is requested,
first in a loop that watches `running` and then in one that does not. The flags are atomics and every read and write
of one is an access of its own, so the calls of the clients may fall between any two accesses of the thread.

A cycle runs the loaded program to its halt, which may panic or never come, and then the thread goes no further. Which
cycles complete is a parameter here: an assumption of `request_served` and a part of the condition of `exits_iff`.
-/

namespace Audesys.Runtime

open Audesys.Hal Audesys.Lib

/-- The next access of the engine thread: the condition of the main loop, the reads of the first waiting loop, the
    check of `running` behind it, the reads of the second loop, the reset of the request, and the cycle. -/
inductive ThreadPc where
  | top | waitRunning | waitPaused | waitStep | check | holdPaused | holdStep | clear | cycle | exited
  deriving DecidableEq

/-- The flags, the cycles completed so far and the thread. -/
structure PauseState where
  running : Bool
  paused : Bool
  stepRequested : Bool
  cycles : Nat
  pc : ThreadPc
  deriving DecidableEq

namespace PauseState

/-- The body of the thread, one access at a time; `ends` says of each cycle, by its number, whether it completes. -/
def thread (ends : Nat → Bool) (s : PauseState) : Option PauseState :=
  match s.pc with
  | .top => some { s with pc := if s.running then .waitRunning else .exited }
  | .waitRunning => some { s with pc := if s.running then .waitPaused else .check }
  | .waitPaused => some { s with pc := if s.paused then .waitStep else .check }
  | .waitStep => some { s with pc := if s.stepRequested then .check else .waitRunning }
  | .check => some { s with pc := if s.running then .holdPaused else .exited }
  | .holdPaused => some { s with pc := if s.paused then .holdStep else .clear }
  | .holdStep => some { s with pc := if s.stepRequested then .clear else .holdPaused }
  | .clear => some { s with stepRequested := false, pc := .cycle }
  | .cycle => if ends s.cycles then some { s with cycles := s.cycles + 1, pc := .top } else none
  | .exited => none

/-- An access to the flags. `step_cycle` is a `pause` and then a `request`. -/
inductive Access where
  | thread | pause | resume | request | stop
  deriving DecidableEq

/-- One access of either side, the thread's or a caller's. -/
def step (ends : Nat → Bool) (s : PauseState) : Access → Option PauseState
  | .thread => s.thread ends
  | .pause => some { s with paused := true }
  | .resume => some { s with paused := false }
  | .request => some { s with stepRequested := true }
  | .stop => some { s with running := false }

/-- The flags of an engine. -/
def ofEngine [Target] (e : Engine) (running : Bool) (cycles : Nat) (pc : ThreadPc) : PauseState :=
  ⟨running, e.paused, e.stepRequested, cycles, pc⟩

/-- The calls of the clients are runs of accesses. -/
theorem trace_calls [Target] (ends : Nat → Bool) (e : Engine) (running : Bool) (cycles : Nat) (pc : ThreadPc) :
    Trace (step ends) (ofEngine e running cycles pc) [.pause] (ofEngine e.pause running cycles pc) ∧
      Trace (step ends) (ofEngine e running cycles pc) [.resume] (ofEngine e.resume running cycles pc) ∧
      Trace (step ends) (ofEngine e running cycles pc) [.pause, .request] (ofEngine e.stepCycle running cycles pc) :=
  ⟨.single rfl, .single rfl, .cons rfl (.single rfl)⟩

variable {ends : Nat → Bool} {s t : PauseState}

/-! ## A request is good for one cycle -/

/-- The cycles that a paused thread may still run: the one it has begun and the one requested. -/
def credit (s : PauseState) : Nat :=
  match s.pc with
  | .clear => 1
  | .cycle => s.stepRequested.toNat + 1
  | _ => s.stepRequested.toNat

/-- While the engine is paused a cycle uses up credit, and only a request gives some. -/
theorem credit_step {a : Access} (h : step ends s a = some t) (hpaused : s.paused = true) (ha : a ≠ .resume) :
    t.paused = true ∧ t.cycles + t.credit ≤ s.cycles + s.credit + [a].count .request := by
  obtain ⟨running, paused, requested, cycles, pc⟩ := s
  cases hpaused
  cases a with
  | resume => exact absurd rfl ha
  | thread =>
    cases pc with
    | cycle =>
      unfold step thread at h
      dsimp only at h
      by_cases hends : ends cycles = true
      · rw [if_pos hends] at h
        cases h
        exact ⟨rfl, Nat.le_of_eq (Nat.add_right_comm cycles 1 requested.toNat)⟩
      · rw [if_neg hends] at h
        cases h
    | _ => cases running <;> cases requested <;> cases h <;> simp [credit]
  | pause | stop => cases h; exact ⟨rfl, Nat.le_refl _⟩
  | request => cases pc <;> cases requested <;> cases h <;> simp [credit]

/-- Over a run without a `resume` the cycles are paid for. -/
theorem credit_run {as : List Access} (h : Trace (step ends) s as t) (hpaused : s.paused = true)
    (hresume : Access.resume ∉ as) : t.cycles + t.credit ≤ s.cycles + s.credit + as.count .request := by
  induction h with
  | nil s => exact Nat.le_refl _
  | @cons s u t a as hs _ ih =>
    rw [List.mem_cons, not_or] at hresume
    obtain ⟨hu, hle⟩ := credit_step hs hpaused (Ne.symm hresume.1)
    have hrest := ih hu hresume.2
    rw [show a :: as = [a] ++ as from rfl, List.count_append]
    omega

/-- **No cycle without a request.** From a paused engine that waits, any accesses but a `resume` run at most as many
    cycles as steps are requested. -/
theorem cycles_le_requests {as : List Access} (h : Trace (step ends) s as t) (hpaused : s.paused = true)
    (hcredit : s.credit = 0) (hresume : Access.resume ∉ as) : t.cycles ≤ s.cycles + as.count .request := by
  have hrun := credit_run h hpaused hresume
  omega

/-- Two requests before the thread looks are good for one cycle only. -/
theorem two_requests : (⟨true, true, false, 1, .top⟩ : PauseState).cycles ≤
    0 + [Access.request, .request, .thread, .thread, .thread].count .request :=
  @cycles_le_requests (fun _ => true) ⟨true, true, false, 0, .holdStep⟩ _ _
    (.cons rfl (.cons rfl (.cons rfl (.cons rfl (.cons rfl (.nil _)))))) rfl rfl (by decide)

/-- The thread, left alone, comes to have `n` cycles completed, has no request left and is at the head of its loop. -/
def Serves (ends : Nat → Bool) (n : Nat) (s : PauseState) : Prop :=
  ∃ k t, RunN (thread ends) k s t ∧ t.cycles = n ∧ t.stepRequested = false ∧ t.pc = .top

theorem Serves.step {n : Nat} (h : s.thread ends = some t) (ht : t.Serves ends n) : s.Serves ends n := by
  obtain ⟨k, u, hrun, hu⟩ := ht
  exact ⟨k + 1, u, .step h hrun, hu⟩

/-- A cycle that completes. -/
theorem thread_cycle (hpc : s.pc = .cycle) (hends : ends s.cycles = true) :
    s.thread ends = some { s with cycles := s.cycles + 1, pc := .top } := by
  unfold thread
  rw [hpc]
  exact if_pos hends

/-- **A request is served** by a thread that waits, wherever it is in its loops, provided that the cycle completes. -/
theorem request_served (hrunning : s.running = true) (hpaused : s.paused = true) (hrequest : s.stepRequested = true)
    (hpc : s.pc ≠ .cycle ∧ s.pc ≠ .exited) (hends : ends s.cycles = true) :
    s.Serves ends (s.cycles + 1) := by
  obtain ⟨running, paused, requested, cycles, pc⟩ := s
  cases hrunning
  cases hpaused
  cases hrequest
  have hcycle : Serves ends (cycles + 1) ⟨true, true, false, cycles, .cycle⟩ :=
    ⟨1, _, .single (thread_cycle rfl hends), rfl, rfl, rfl⟩
  have hclear : Serves ends (cycles + 1) ⟨true, true, true, cycles, .clear⟩ := .step rfl hcycle
  have hhold : Serves ends (cycles + 1) ⟨true, true, true, cycles, .holdStep⟩ := .step rfl hclear
  have hcheck : Serves ends (cycles + 1) ⟨true, true, true, cycles, .check⟩ := .step rfl (.step rfl hhold)
  have hwait : Serves ends (cycles + 1) ⟨true, true, true, cycles, .waitPaused⟩ := .step rfl (.step rfl hcheck)
  cases pc with
  | top => exact .step rfl (.step rfl hwait)
  | waitRunning => exact .step rfl hwait
  | waitPaused => exact hwait
  | waitStep => exact .step rfl hcheck
  | check => exact hcheck
  | holdPaused => exact .step rfl hhold
  | holdStep => exact hhold
  | clear => exact hclear
  | cycle => exact absurd rfl hpc.1
  | exited => exact absurd rfl hpc.2

theorem request_served_hold : Serves (fun _ => true) 1 ⟨true, true, true, 0, .holdPaused⟩ :=
  request_served rfl rfl rfl ⟨by decide, by decide⟩ rfl

/-! ## After a stop -/

/-- The thread is in the second waiting loop, which does not look at `running`. -/
def Caught (s : PauseState) : Prop :=
  s.paused = true ∧ s.stepRequested = false ∧ (s.pc = .holdPaused ∨ s.pc = .holdStep)

/-- The thread is past the check of `running`, and the cycle that it runs before it looks again does not complete. -/
def Lost (ends : Nat → Bool) (s : PauseState) : Prop :=
  s.pc ∈ [ThreadPc.holdPaused, .holdStep, .clear, .cycle] ∧ ¬ ends s.cycles = true

/-- The thread, left alone, ends. -/
def Exits (ends : Nat → Bool) (s : PauseState) : Prop := ∃ n t, RunN (thread ends) n s t ∧ t.pc = .exited

theorem Exits.step (h : s.thread ends = some t) (ht : t.Exits ends) : s.Exits ends := by
  obtain ⟨n, u, hrun, hu⟩ := ht
  exact ⟨n + 1, u, .step h hrun, hu⟩

/-- A thread caught in the pause stays there: nobody will clear the flag. -/
theorem Caught.thread (h : s.Caught) (hst : s.thread ends = some t) : t.Caught := by
  obtain ⟨running, paused, requested, cycles, pc⟩ := s
  obtain ⟨rfl, rfl, hpc⟩ := h
  rcases hpc with hpc | hpc <;> cases hpc <;> cases hst <;> exact ⟨rfl, rfl, by simp⟩

/-- A thread held by its cycle stays held. -/
theorem Lost.thread (h : s.Lost ends) (hst : s.thread ends = some t) : t.Lost ends := by
  obtain ⟨running, paused, requested, cycles, pc⟩ := s
  obtain ⟨hpc, hends⟩ := h
  simp only [List.mem_cons, List.not_mem_nil, or_false] at hpc
  rcases hpc with hpc | hpc | hpc | hpc <;> cases hpc
  · cases hst
    cases paused <;> exact ⟨by simp, hends⟩
  · cases hst
    cases requested <;> exact ⟨by simp, hends⟩
  · cases hst
    exact ⟨by simp, hends⟩
  · exact absurd ((if_neg hends).symm.trans hst) nofun

section
variable {paused requested : Bool} {cycles : Nat}

theorem exits_top : Exits ends ⟨false, paused, requested, cycles, .top⟩ := ⟨1, _, .single rfl, rfl⟩

theorem exits_check : Exits ends ⟨false, paused, requested, cycles, .check⟩ := ⟨1, _, .single rfl, rfl⟩

theorem exits_waitRunning : Exits ends ⟨false, paused, requested, cycles, .waitRunning⟩ := .step rfl exits_check

theorem exits_waitStep : Exits ends ⟨false, paused, requested, cycles, .waitStep⟩ := by
  cases requested
  · exact .step rfl exits_waitRunning
  · exact .step rfl exits_check

variable (hends : ends cycles = true)
include hends

theorem exits_cycle : Exits ends ⟨false, paused, requested, cycles, .cycle⟩ := .step (thread_cycle rfl hends) exits_top

theorem exits_clear : Exits ends ⟨false, paused, requested, cycles, .clear⟩ := .step rfl (exits_cycle hends)

end

/-- **After a stop the thread ends unless it is caught in the second loop**, where it stays for good, **or lost** in a
cycle. -/
theorem exits_iff (hstopped : s.running = false) : s.Exits ends ↔ ¬ s.Caught ∧ ¬ s.Lost ends := by
  constructor
  · rintro ⟨n, t, hrun, ht⟩
    refine ⟨fun hcaught => ?_, fun hlost => ?_⟩
    · obtain ⟨_, _, hpc⟩ := hrun.invariant (fun _ _ hst (h : Caught _) => h.thread hst) hcaught
      rw [ht] at hpc
      simp at hpc
    · have hpc := (hrun.invariant (fun _ _ hst (h : Lost ends _) => h.thread hst) hlost).1
      rw [ht] at hpc
      simp at hpc
  · rintro ⟨hfree, hkept⟩
    obtain ⟨running, paused, requested, cycles, pc⟩ := s
    cases hstopped
    have hends : pc ∈ [ThreadPc.holdPaused, .holdStep, .clear, .cycle] → ends cycles = true :=
      fun hpc => by_contra fun hne => hkept ⟨hpc, hne⟩
    cases pc with
    | top => exact exits_top
    | waitRunning => exact exits_waitRunning
    | waitPaused =>
      cases paused
      · exact .step rfl exits_check
      · exact .step rfl exits_waitStep
    | waitStep => exact exits_waitStep
    | check => exact exits_check
    | holdPaused =>
      have hclear := @exits_clear ends
      cases paused
      · exact .step rfl (hclear (hends (by decide)))
      · cases requested
        · exact absurd ⟨rfl, rfl, .inl rfl⟩ hfree
        · exact .step rfl (.step rfl (hclear (hends (by decide))))
    | holdStep =>
      have hclear := @exits_clear ends
      cases requested
      · cases paused
        · exact .step rfl (.step rfl (hclear (hends (by decide))))
        · exact absurd ⟨rfl, rfl, .inr rfl⟩ hfree
      · exact .step rfl (hclear (hends (by decide)))
    | clear => exact exits_clear (hends (by decide))
    | cycle => exact exits_cycle (hends (by decide))
    | exited => exact ⟨0, _, .refl _, rfl⟩

/-- A pause behind the last read of the first loop, and then a stop: the thread never ends. -/
theorem pause_stop_caught : ∃ t, Trace (step fun _ => true) ⟨true, false, false, 0, .top⟩
    [.thread, .thread, .thread, .pause, .thread, .stop] t ∧ ¬ t.Exits fun _ => true :=
  ⟨⟨false, true, false, 0, .holdPaused⟩,
    .cons rfl (.cons rfl (.cons rfl (.cons rfl (.cons rfl (.cons rfl (.nil _)))))),
    fun h => ((exits_iff rfl).1 h).1 ⟨rfl, rfl, .inl rfl⟩⟩

end PauseState

end Audesys.Runtime
