import Audesys.Lib.Edits
import Mathlib.Algebra.Order.Ring.Int
import Mathlib.Data.List.Basic

/-!
# `Agent.Monitor` — the supervisor's children and their restarts

`monitor.rs` and the monitoring loop of the supervisor (`main.rs`). The loop checks each child that has not failed;
`check` answers an exit by a new process as long as the budget of `MAX_RETRIES` lasts, and by `Failed` from then on.
What `try_wait` and the spawns come to, and when the checks are made, is the environment's and arbitrary.

The budget holds in every run, and nothing is restarted once it has failed (`budgeted_run`). The backoff is computed and
reported, and nothing waits for it: the new process is started by the check that sees the exit (`respects_iff`).
-/

open List

namespace Audesys.Agent

open Audesys.Lib

/-! ## Processes -/

/-- `MAX_RETRIES`. -/
def maxRetries : UInt32 := 3

/-- `BACKOFF_BASE_MS`. -/
def backoffBaseMs : UInt64 := 1000

inductive ProcessState where
  | running
  | restarting (attempt : UInt32) (backoffMs : UInt64)
  | failed (reason : String)
  deriving DecidableEq

def ProcessState.isFailed : ProcessState → Bool
  | .failed _ => true
  | _ => false

structure StatusChange where
  name : String
  state : ProcessState
  exitCode : Option Int32
  restartCount : UInt32
  deriving DecidableEq

/-- A process with its restart tracking; `child` is the process id behind the handle. -/
structure ManagedProcess where
  name : String
  child : Option UInt32
  program : String
  args : List String
  restartCount : UInt32
  exitCode : Option Int32
  state : ProcessState
  deriving DecidableEq

/-- What `try_wait` answers; `ExitStatus::code` of an exit is none when a signal ended the process. -/
inductive WaitResult where
  | exited (code : Option Int32)
  | running
  | error
  deriving DecidableEq

/-- The environment of one check: when it is made (in milliseconds), what `try_wait` answers, and what comes of starting
the program if that is tried. -/
structure Seen where
  time : Nat
  wait : WaitResult
  spawn : Except String UInt32

/-- What a check sees and does, in order. -/
inductive Event where
  | exited
  | respawned
  | failed
  deriving DecidableEq

structure Checked where
  process : ManagedProcess
  change : Option StatusChange
  events : List Event

namespace ManagedProcess

def new (name program : String) (args : List String) : ManagedProcess where
  name := name
  child := none
  program := program
  args := args
  restartCount := 0
  exitCode := none
  state := .running

/-- `spawn`, and `Failed` where it is not possible. -/
def spawn (p : ManagedProcess) (result : Except String UInt32) : ManagedProcess :=
  match result with
  | .ok pid => { p with child := some pid, state := .running }
  | .error e => { p with state := .failed ("spawn " ++ p.name ++ ": " ++ e) }

/-- `BACKOFF_BASE_MS * (1 << attempt.saturating_sub(1))`. -/
def backoffMs (attempt : UInt32) : UInt64 := backoffBaseMs * ((1 : UInt64) <<< UInt64.ofNat (attempt.toNat - 1))

def statusChange (p : ManagedProcess) (exitCode : Option Int32) : StatusChange :=
  ⟨p.name, p.state, exitCode, p.restartCount⟩

/-- `check`, an exit seen: `p` is the process with its handle dropped and the exit code stored. -/
def answerExit (p : ManagedProcess) (spawn : Except String UInt32) : ManagedProcess × List Event :=
  if p.restartCount < maxRetries then
    let attempt := p.restartCount + 1
    match spawn with
    | .ok pid =>
      -- the new process runs; the backoff is what its state says
      ({ p with
          child := some pid
          restartCount := attempt
          exitCode := none
          state := .restarting attempt (backoffMs attempt) }, [.respawned])
    | .error e => ({ p with state := .failed ("restart spawn failed: " ++ e) }, [.failed])
  else ({ p with state := .failed ("exceeded max retries (" ++ toString maxRetries ++ ")") }, [.failed])

def check (p : ManagedProcess) (seen : Seen) : Checked :=
  match p.child with
  | none => ⟨p, none, []⟩
  | some _ =>
    match seen.wait with
    | .exited code =>
      let (p', events) := { p with child := none, exitCode := code }.answerExit seen.spawn
      ⟨p', some (p'.statusChange code), .exited :: events⟩
    | .running => ⟨p, none, []⟩
    | .error =>
      let p' := { p with child := none, state := .failed "try_wait() error" }
      ⟨p', some (p'.statusChange none), [.failed]⟩

end ManagedProcess

/-! ## The supervisor -/

/-- An entry of the supervisor's configuration. -/
structure ChildConfig where
  name : String
  program : String
  args : List String
  deriving DecidableEq

/-- A child with the history of its checks. -/
structure Supervised where
  process : ManagedProcess
  log : List (Nat × Event)
  deriving DecidableEq

namespace Supervised

/-- A child of the configuration, at the start of the supervisor. -/
def start (config : ChildConfig) (now : Nat) (result : Except String UInt32) : Supervised where
  process := (ManagedProcess.new config.name config.program config.args).spawn result
  log := match result with
    | .ok _ => []
    | .error _ => [(now, .failed)]

/-- One child in a round of the loop: the failed ones are skipped. -/
def visit (c : Supervised) (seen : Seen) : Supervised :=
  if c.process.state.isFailed then c
  else
    let checked := c.process.check seen
    ⟨checked.process, c.log ++ checked.events.map fun event => (seen.time, event)⟩

end Supervised

/-- The children at the start. -/
def startAll (configs : List ChildConfig) (now : Nat) (results : Nat → Except String UInt32) : List Supervised :=
  configs.mapIdx fun i config => .start config now (results i)

/-- One round of the monitoring loop. The loop ends when all children have failed; a round would change nothing then. -/
def round (children : List Supervised) (seen : Nat → Seen) : List Supervised :=
  children.mapIdx fun i c => c.visit (seen i)

/-! ## Budget and backoff -/

/-- The times of the exits seen, or of the respawns. -/
def times (event : Event) (log : List (Nat × Event)) : List Nat :=
  (log.filter fun entry => entry.2 = event).map Prod.fst

/-- **What the supervisor promises of a child**: at most `MAX_RETRIES` respawns and none behind a failure, and the `k`-th
respawn at least `BACKOFF_BASE_MS * 2 ^ (k - 1)` behind the check that saw the `k`-th exit. -/
structure Respects (log : List (Nat × Event)) : Prop where
  budget : (times .respawned log).length ≤ maxRetries.toNat
  final : log.Pairwise fun before behind => before.2 = .failed → behind.2 ≠ .respawned
  backoff : ∀ k t, (times .respawned log)[k]? = some t →
    ∃ t₀, (times .exited log)[k]? = some t₀ ∧ t₀ + backoffBaseMs.toNat * 2 ^ k ≤ t

theorem times_append (event : Event) (log log' : List (Nat × Event)) :
    times event (log ++ log') = times event log ++ times event log' := by
  unfold times
  rw [filter_append, map_append]

/-- What did not happen has no times. -/
theorem times_quiet {event : Event} {events : List Event} (time : Nat) (h : event ∉ events) :
    times event (events.map fun event => (time, event)) = [] := by
  unfold times
  rw [map_eq_nil_iff, filter_eq_nil_iff]
  intro entry hentry heq
  obtain ⟨other, hother, rfl⟩ := mem_map.1 hentry
  exact h (of_decide_eq_true heq ▸ hother)

/-- **What a visit can do to a child.** -/
inductive Visited (c : Supervised) (seen : Seen) (c' : Supervised) : Prop
  /-- It is failed already, or it runs. -/
  | same (eq : c' = c) (reason : c.process.state.isFailed = true ∨ c.process.child = none ∨ seen.wait = .running)
  /-- An exit, or an error of `try_wait`, and no new process. -/
  | down (alive : c.process.state.isFailed = false) (count : c'.process.restartCount = c.process.restartCount)
    (state : c'.process.state.isFailed = true) (events : List Event)
    (log : c'.log = c.log ++ events.map fun event => (seen.time, event)) (quiet : .respawned ∉ events)
    (reason : ∀ code, seen.wait = .exited code → maxRetries ≤ c.process.restartCount ∨ ∃ e, seen.spawn = .error e)
  /-- An exit and a new process. -/
  | again (alive : c.process.state.isFailed = false) (code : Option Int32) (pid : UInt32)
    (exit : seen.wait = .exited code) (spawned : seen.spawn = .ok pid)
    (below : c.process.restartCount < maxRetries) (count : c'.process.restartCount = c.process.restartCount + 1)
    (state : c'.process.state.isFailed = false) (child : c'.process.child = some pid)
    (log : c'.log = c.log ++ [(seen.time, .exited), (seen.time, .respawned)])

theorem Supervised.visit_cases (c : Supervised) (seen : Seen) : Visited c seen (c.visit seen) := by
  unfold Supervised.visit
  by_cases hfailed : c.process.state.isFailed = true
  · rw [if_pos hfailed]
    exact .same rfl (Or.inl hfailed)
  rw [if_neg hfailed]
  have halive : c.process.state.isFailed = false := Bool.eq_false_iff.2 hfailed
  unfold ManagedProcess.check
  have hsame : Supervised.mk c.process (c.log ++ ([] : List Event).map fun event => (seen.time, event)) = c := by
    rw [map_nil, List.append_nil]
  cases hchild : c.process.child with
  | none => exact .same hsame (Or.inr (Or.inl hchild))
  | some pid =>
    cases hwait : seen.wait with
    | running => exact .same hsame (Or.inr (Or.inr hwait))
    | error =>
      refine .down halive rfl rfl [.failed] rfl (by decide) ?_
      intro code hexit
      rw [hwait] at hexit
      cases hexit
    | exited code =>
      dsimp only
      unfold ManagedProcess.answerExit
      dsimp only
      by_cases hbelow : c.process.restartCount < maxRetries
      · rw [if_pos hbelow]
        cases hspawn : seen.spawn with
        | ok pid => exact .again halive code pid hwait hspawn hbelow rfl rfl rfl rfl
        | error e => exact .down halive rfl rfl [.exited, .failed] rfl (by decide) fun _ _ => Or.inr ⟨e, hspawn⟩
      · rw [if_neg hbelow]
        exact .down halive rfl rfl [.exited, .failed] rfl (by decide) fun _ _ => Or.inl (UInt32.not_lt.1 hbelow)

/-! ### The budget -/

/-- The counter counts the respawns, and a failure is the end. -/
structure Budgeted (c : Supervised) : Prop where
  count : (times .respawned c.log).length = c.process.restartCount.toNat
  budget : c.process.restartCount ≤ maxRetries
  final : c.log.Pairwise fun before behind => before.2 = .failed → behind.2 ≠ .respawned
  failed : ∀ t, (t, .failed) ∈ c.log → c.process.state.isFailed = true

variable {c : Supervised}

theorem budgeted_start (config : ChildConfig) (now : Nat) (result : Except String UInt32) :
    Budgeted (.start config now result) := by
  have hzero : (0 : UInt32) ≤ maxRetries := by decide
  cases result with
  | ok pid => exact ⟨rfl, hzero, List.Pairwise.nil, fun _ h => absurd h not_mem_nil⟩
  | error e => exact ⟨rfl, hzero, pairwise_singleton _ _, fun _ _ => rfl⟩

theorem Budgeted.visit (h : Budgeted c) (seen : Seen) : Budgeted (c.visit seen) := by
  rcases c.visit_cases seen with ⟨heq, _⟩ | ⟨halive, hcount, hstate, events, hlog, hquiet, _⟩ |
    ⟨halive, code, pid, _, _, hbelow, hcount, hstate, _, hlog⟩
  · rw [heq]
    exact h
  · -- an exit that is not answered: the log ends with a failure
    have hnone := times_quiet seen.time hquiet
    refine ⟨?_, hcount ▸ h.budget, ?_, fun _ _ => hstate⟩
    · rw [hlog, times_append, hnone, List.append_nil, hcount]
      exact h.count
    · rw [hlog, pairwise_append]
      have hlast : ∀ entry ∈ events.map fun event => (seen.time, event), entry.2 ≠ .respawned := by
        intro entry hentry heq
        obtain ⟨event, hevent, rfl⟩ := mem_map.1 hentry
        exact hquiet (heq ▸ hevent)
      refine ⟨h.final, ?_, fun _ _ entry hentry _ => hlast entry hentry⟩
      exact pairwise_of_forall_mem_list fun _ _ entry hentry _ => hlast entry hentry
  · -- an exit that is answered: the child has not failed before, and its budget is not used up
    have hnot : ∀ t, (t, Event.failed) ∉ c.log := by
      intro t hmem
      exact absurd (h.failed t hmem) (Bool.eq_false_iff.1 halive)
    have hnext : (c.process.restartCount + 1).toNat = c.process.restartCount.toNat + 1 := by
      have hlt := UInt32.lt_iff_toNat_lt.1 hbelow
      have hmax : maxRetries.toNat = 3 := rfl
      rw [UInt32.toNat_add, Nat.mod_eq_of_lt]
      · rfl
      · rw [hmax] at hlt
        have hone : (1 : UInt32).toNat = 1 := rfl
        omega
    refine ⟨?_, ?_, ?_, ?_⟩
    · rw [hlog, times_append, length_append, h.count, hcount, hnext]
      rfl
    · rw [hcount, UInt32.le_iff_toNat_le, hnext]
      exact UInt32.lt_iff_toNat_lt.1 hbelow
    · rw [hlog, pairwise_append]
      have hpair : ¬ Event.exited = Event.failed := by decide
      refine ⟨h.final, pairwise_pair.2 fun hfailed => absurd hfailed hpair, ?_⟩
      intro entry hentry _ _ hfailed
      obtain ⟨t, event⟩ := entry
      exact absurd (hfailed ▸ hentry) (hnot t)
    · intro t hmem
      rw [hlog] at hmem
      rcases mem_append.1 hmem with hold | hnew
      · exact absurd hold (hnot t)
      · simp at hnew

theorem forall_round {P : Supervised → Prop} {children : List Supervised} {seen : Nat → Seen} :
    (∀ c ∈ round children seen, P c) ↔ ∀ (i : Nat) (c : Supervised), children[i]? = some c → P (c.visit (seen i)) := by
  unfold round
  constructor
  · intro h i c hc
    apply h
    rw [mem_mapIdx]
    obtain ⟨hi, rfl⟩ := List.getElem?_eq_some_iff.1 hc
    exact ⟨i, hi, rfl⟩
  · intro h c hc
    obtain ⟨i, hi, rfl⟩ := mem_mapIdx.1 hc
    exact h i _ (getElem?_eq_getElem hi)

/-- **The budget holds in every run**: no child is started again more than `MAX_RETRIES` times, and none that has
failed. -/
theorem budgeted_run (configs : List ChildConfig) (now : Nat) (results : Nat → Except String UInt32)
    (rounds : List (Nat → Seen)) :
    Always round (fun children => ∀ c ∈ children, Budgeted c) (startAll configs now results) rounds := by
  apply Always.of_keep
  · intro children seen h
    refine forall_round.2 ?_
    intro i c hc
    exact (h c (mem_of_getElem? hc)).visit (seen i)
  · intro c hc
    obtain ⟨i, hi, rfl⟩ := mem_mapIdx.1 hc
    exact budgeted_start ..

/-! ### The backoff -/

/-- The round answers no exit by a new process. -/
def Unanswered (children : List Supervised) (seen : Nat → Seen) : Prop :=
  ∀ (i : Nat) (c : Supervised), children[i]? = some c → c.process.state.isFailed = false →
    ∀ code, (seen i).wait = .exited code → ∃ e, (seen i).spawn = .error e

/-- A child that was never started again. -/
structure Fresh (c : Supervised) : Prop where
  budgeted : Budgeted c
  first : times .respawned c.log = []
  alive : c.process.state.isFailed = false → c.process.child ≠ none ∧ times .exited c.log = []

theorem fresh_start (config : ChildConfig) (now : Nat) (result : Except String UInt32) :
    Fresh (.start config now result) := by
  refine ⟨budgeted_start config now result, ?_, ?_⟩
  · cases result with
    | ok pid => rfl
    | error e => rfl
  · intro halive
    cases result with
    | ok pid => exact ⟨Option.some_ne_none pid, rfl⟩
    | error e => cases halive

theorem Fresh.count (h : Fresh c) : c.process.restartCount = 0 := by
  apply UInt32.toNat_inj.1
  rw [← h.budgeted.count, h.first]
  rfl

theorem Fresh.respects (h : Fresh c) : Respects c.log := by
  refine ⟨?_, h.budgeted.final, ?_⟩
  · rw [h.first]
    exact Nat.zero_le _
  · intro k t hk
    rw [h.first] at hk
    cases hk

theorem Fresh.visit (h : Fresh c) {seen : Seen} (hcond : c.process.state.isFailed = false →
    ∀ code, seen.wait = .exited code → ∃ e, seen.spawn = .error e) : Fresh (c.visit seen) := by
  refine ⟨h.budgeted.visit seen, ?_, ?_⟩
  · rcases c.visit_cases seen with ⟨heq, _⟩ | ⟨_, _, _, events, hlog, hquiet, _⟩ | ⟨halive, code, _, hexit, hspawn⟩
    · rw [heq]
      exact h.first
    · rw [hlog, times_append, h.first, times_quiet seen.time hquiet]
      rfl
    · obtain ⟨e, herror⟩ := hcond halive code hexit
      rw [hspawn] at herror
      cases herror
  · intro halive'
    rcases c.visit_cases seen with ⟨heq, _⟩ | ⟨_, _, hstate, _⟩ | ⟨halive, code, _, hexit, hspawn⟩
    · rw [heq]
      rw [heq] at halive'
      exact h.alive halive'
    · rw [hstate] at halive'
      cases halive'
    · obtain ⟨e, herror⟩ := hcond halive code hexit
      rw [hspawn] at herror
      cases herror

/-- A respawn is made at the time of its exit, and that is too early. -/
theorem Fresh.unanswered (h : Fresh c) {seen : Seen} (hrespects : Respects (c.visit seen).log)
    (halive : c.process.state.isFailed = false) {code : Option Int32} (hexit : seen.wait = .exited code) :
    ∃ e, seen.spawn = .error e := by
  rcases c.visit_cases seen with ⟨_, hreason⟩ | ⟨_, _, _, _, _, _, hreason⟩ | ⟨_, _, _, _, _, _, _, _, _, hlog⟩
  · rcases hreason with hfailed | hchild | hrunning
    · rw [halive] at hfailed
      cases hfailed
    · exact absurd hchild (h.alive halive).1
    · rw [hexit] at hrunning
      cases hrunning
  · rcases hreason code hexit with hmax | herror
    · rw [h.count] at hmax
      exact absurd hmax (by decide)
    · exact herror
  · -- the first respawn would have to be a second behind its exit
    have hbackoff := hrespects.backoff 0 seen.time
    rw [hlog, times_append, times_append, h.first, (h.alive halive).2] at hbackoff
    obtain ⟨t₀, hfirst, hlate⟩ := hbackoff rfl
    cases hfirst
    have hbase : backoffBaseMs.toNat = 1000 := rfl
    rw [hbase] at hlate
    omega

/-- **Backoff is kept exactly where nothing is started again**, for every configuration and all rounds of the loop. -/
theorem respects_iff (configs : List ChildConfig) (now : Nat) (results : Nat → Except String UInt32)
    (rounds : List (Nat → Seen)) :
    Always round (fun children => ∀ c ∈ children, Respects c.log) (startAll configs now results) rounds ↔
      EveryStep round Unanswered (startAll configs now results) rounds := by
  apply always_iff (I := fun children => ∀ c ∈ children, Fresh c)
  · exact fun _ h c hc => (h c hc).respects
  · intro children seen h hcond
    refine forall_round.2 ?_
    intro i c hc
    exact (h c (mem_of_getElem? hc)).visit (hcond i c hc)
  · intro children seen h hrespects i c hc halive code hexit
    exact (h c (mem_of_getElem? hc)).unanswered (forall_round.1 hrespects i c hc) halive hexit
  · intro c hc
    obtain ⟨i, hi, rfl⟩ := mem_mapIdx.1 hc
    exact fresh_start ..

/-- A child that exits, and its program can be started again. -/
def exitOnce : Nat → Seen := fun _ => ⟨1000, .exited (some 1), .ok 43⟩

/-- The first respawn is a second too early. -/
theorem respects_fails : ¬ ∀ (configs : List ChildConfig) (now : Nat) (results : Nat → Except String UInt32)
    (rounds : List (Nat → Seen)),
    Always round (fun children => ∀ c ∈ children, Respects c.log) (startAll configs now results) rounds := by
  intro h
  have hrun := h [⟨"plc", "audesys-runtime", []⟩] 0 (fun _ => .ok 42) [exitOnce] [exitOnce] (prefix_refl _)
  have hlog : ∀ c ∈ round (startAll [⟨"plc", "audesys-runtime", []⟩] 0 fun _ => .ok 42) exitOnce,
      c.log = [(1000, .exited), (1000, .respawned)] := by decide
  obtain ⟨c, hc⟩ := exists_mem_of_ne_nil (round (startAll [⟨"plc", "audesys-runtime", []⟩] 0 fun _ => .ok 42)
    exitOnce) (by decide)
  have hbackoff := (hrun c hc).backoff 0 1000
  rw [hlog c hc] at hbackoff
  obtain ⟨t₀, hfirst, hlate⟩ := hbackoff rfl
  cases hfirst
  exact absurd hlate (by decide)

end Audesys.Agent
