import Mathlib.Algebra.Order.Ring.Int
import Mathlib.Data.List.Induction
import Audesys.Lib.Spread

/-!
# `Runtime.Lifecycle` — supervised children and their restarts

`lifecycle.rs` of the runtime. `health_check` looks at each child in turn: an exited child is spawned again as
long as its counter is below `MAX_RETRIES`, and the counter starts over when `RESTART_WINDOW_MS` have passed
since the child was last started. Exits, spawn results and times are the environment's and arbitrary; what the
standard library adds is that an exit once seen by `try_wait` is reported by every later `try_wait` on the same
process.

Counting from the last start is enough to bound the restarts in *every* interval (`no_restart_storm`). It is not
enough to keep a child down: a child reported as failed is still in the list, with the counter and the start time
it had, and comes back when the window has passed, or with the next check if it was a spawn that failed
(`staysDown_iff`).
-/

open List

namespace Audesys.Runtime

open Audesys.Lib

/-! ## Data -/

/-- Times are in nanoseconds. -/
def msec : Nat := 1000000

def maxRetries : Nat := 3
def backoffBaseMs : Nat := 1000
def restartWindowMs : Nat := 30000

/-- `Duration::from_millis(RESTART_WINDOW_MS)`. -/
def restartWindow : Nat := restartWindowMs * msec

inductive ProcessState where
  | running
  | exited (exitCode : Option Int)
  | restarting (attempt nextAt : Nat)
  | failed (exitCode : Option Int) (reason : String)
  | stopped
  deriving DecidableEq

structure ChildHealth where
  name : String
  state : ProcessState
  exitCode : Option Int
  restartCount : Nat
  deriving DecidableEq

/-- What the operating system says about a process: its exit (`ExitStatus::code` of it), that it runs, or an
    error. -/
inductive WaitResult where
  | exited (code : Option Int)
  | running
  | error
  deriving DecidableEq

/-- `std::process::Child`, which keeps the exit status it has seen. -/
structure Child where
  status : Option (Option Int)
  deriving DecidableEq

/-- A process that was just started. -/
def Child.started : Child := ⟨none⟩

/-- `Child::try_wait`: the kept status, else what the operating system says. -/
def Child.tryWait (c : Child) (os : WaitResult) : Child × WaitResult :=
  match c.status with
  | some code => (c, .exited code)
  | none =>
    match os with
    | .exited code => (⟨some code⟩, .exited code)
    | other => (c, other)

structure ManagedChild where
  name : String
  process : Child
  restartCount : Nat
  lastStart : Nat
  exitCode : Option Int
  program : String
  args : List String
  deriving DecidableEq

/-- The environment of one child in one check: the answer to `try_wait`, and what comes of starting the program
    if that is attempted. -/
structure ChildEnv where
  wait : WaitResult
  spawn : Except String Unit

/-! ## `health_check` -/

namespace ManagedChild

/-- The counter after the window reset. -/
def windowReset (c : ManagedChild) (now : Nat) : ManagedChild :=
  if now - c.lastStart ≥ restartWindow then { c with restartCount := 0 } else c

/-- The restart of an exited child. -/
def restart (c : ManagedChild) (now : Nat) (exitCode : Option Int) (spawn : Except String Unit) :
    ManagedChild × ChildHealth :=
  if c.restartCount < maxRetries then
    let attempt := c.restartCount + 1
    match spawn with
    | .ok () =>
      ({ c with process := .started, restartCount := attempt, lastStart := now, exitCode := none },
        ⟨c.name, .restarting attempt (now + backoffBaseMs * 2 ^ (attempt - 1) * msec), exitCode, attempt⟩)
    | .error e => (c, ⟨c.name, .failed exitCode ("Restart spawn failed: " ++ e), exitCode, c.restartCount⟩)
  else
    (c, ⟨c.name, .failed exitCode ("Exceeded max retries (" ++ toString maxRetries ++ ")"), exitCode,
      c.restartCount⟩)

/-- One round of the loop of `health_check`. -/
def check (c : ManagedChild) (now : Nat) (env : ChildEnv) : ManagedChild × ChildHealth :=
  let (process, answer) := c.process.tryWait env.wait
  let c := { c with process }
  match answer with
  | .exited exitCode => ({ c with exitCode }.windowReset now).restart now exitCode env.spawn
  | .running => (c, ⟨c.name, .running, none, c.restartCount⟩)
  | .error => (c, ⟨c.name, .failed none "try_wait() returned an error", none, c.restartCount⟩)

end ManagedChild

/-- The loop of `health_check` from child `i` on. -/
def checkFrom (now : Nat) (env : Nat → ChildEnv) : Nat → List ManagedChild → List ManagedChild × List ChildHealth
  | _, [] => ([], [])
  | i, c :: children =>
    let (c', health) := c.check now (env i)
    let (children', healths) := checkFrom now env (i + 1) children
    (c' :: children', health :: healths)

/-- `health_check` at time `now`. -/
def healthCheck (now : Nat) (env : Nat → ChildEnv) (children : List ManagedChild) :
    List ManagedChild × List ChildHealth :=
  checkFrom now env 0 children

/-- `spawn` at time `now`; `result` is what comes of starting the program. -/
def spawnChild (now : Nat) (name program : String) (args : List String) (result : Except String Unit)
    (children : List ManagedChild) : List ManagedChild :=
  match result with
  | .error _ => children
  | .ok () => children ++ [⟨name, .started, 0, now, none, program, args⟩]

/-! ## Histories -/

/-- The calls on a manager, with the time and the environment of each. Every call holds the lock of the list. -/
inductive LifecycleCall where
  | spawn (now : Nat) (name program : String) (args : List String) (result : Except String Unit)
  | healthCheck (now : Nat) (env : Nat → ChildEnv)

def LifecycleCall.time : LifecycleCall → Nat
  | .spawn now _ _ _ _ => now
  | .healthCheck now _ => now

/-- The children, and what the checks so far have returned. -/
structure Lifecycle where
  children : List ManagedChild
  log : List (Nat × List ChildHealth)

namespace Lifecycle

/-- `LifecycleManager::new`. -/
def new : Lifecycle := ⟨[], []⟩

def next (s : Lifecycle) : LifecycleCall → Lifecycle
  | .spawn now name program args result => { s with children := spawnChild now name program args result s.children }
  | .healthCheck now env =>
    let (children, healths) := Runtime.healthCheck now env s.children
    ⟨children, s.log ++ [(now, healths)]⟩

/-- The calls, one after the other, on a new manager. -/
def run (calls : List LifecycleCall) : Lifecycle := calls.foldl next new

theorem run_snoc (calls : List LifecycleCall) (call : LifecycleCall) : run (calls ++ [call]) = (run calls).next call := by
  simp [run]

end Lifecycle

/-- The times of the calls do not decrease. -/
def Chronological (calls : List LifecycleCall) : Prop := (calls.map LifecycleCall.time).Pairwise (· ≤ ·)

instance (calls : List LifecycleCall) : Decidable (Chronological calls) := List.instDecidablePairwise _

/-- The report is of a successful restart. -/
def ChildHealth.Restarted (h : ChildHealth) : Bool :=
  match h.state with
  | .restarting _ _ => true
  | _ => false

/-- The report is of a child given up: retries exceeded, or the restart could not be spawned. A failed
    `try_wait` says nothing about the child. -/
def ChildHealth.GivenUp (h : ChildHealth) : Bool :=
  match h.state with
  | .failed _ reason => reason != "try_wait() returned an error"
  | _ => false

/-- The report of child `k` in a check has `p`. -/
def Reports (p : ChildHealth → Bool) (k : Nat) (entry : Nat × List ChildHealth) : Prop :=
  ∃ h, entry.2[k]? = some h ∧ p h = true

instance (p : ChildHealth → Bool) (k : Nat) (entry : Nat × List ChildHealth) : Decidable (Reports p k entry) :=
  match h : entry.2[k]? with
  | none => .isFalse (by rintro ⟨x, hx, _⟩; rw [h] at hx; cases hx)
  | some x => decidable_of_iff (p x = true) (by simp [Reports, h])

/-- The times of the successful restarts of child `k`, oldest first. -/
def restartTimes (k : Nat) (log : List (Nat × List ChildHealth)) : List Nat :=
  (log.filter (fun entry => Reports ChildHealth.Restarted k entry)).map Prod.fst

/-! ## What a check can do -/

/-- The counter that a check at `now` compares with `MAX_RETRIES`. -/
def ManagedChild.counted (c : ManagedChild) (now : Nat) : Nat :=
  if restartWindow ≤ now - c.lastStart then 0 else c.restartCount

theorem ManagedChild.counted_lt {c : ManagedChild} {now : Nat} :
    c.counted now < maxRetries ↔ ¬ (maxRetries ≤ c.restartCount ∧ now - c.lastStart < restartWindow) := by
  rw [counted]
  by_cases h : restartWindow ≤ now - c.lastStart
  · simp [h, maxRetries]
  · simp [h, Nat.lt_of_not_le h]

/-- What one round of the loop leaves, `c'` and `h` being the child and its report. -/
inductive ChildChecked (c : ManagedChild) (now : Nat) (spawn : Except String Unit) (c' : ManagedChild)
    (h : ChildHealth) : Prop
  /-- No exit so far. -/
  | alive (status : c.process.status = none) (start : c'.lastStart = c.lastStart)
    (count : c'.restartCount = c.restartCount) (restarted : h.Restarted = false) (givenUp : h.GivenUp = false)
  /-- An exit, and no restart. -/
  | down (status : c'.process.status.isSome) (start : c'.lastStart = c.lastStart)
    (count : c'.restartCount = c.counted now) (restarted : h.Restarted = false) (givenUp : h.GivenUp = true)
    (reason : maxRetries ≤ c.counted now ∨ ∃ e, spawn = .error e)
  /-- An exit, and a restart. -/
  | again (start : c'.lastStart = now) (count : c'.restartCount = c.counted now + 1)
    (restarted : h.Restarted = true) (givenUp : h.GivenUp = false)
    (below : c.counted now < maxRetries) (spawned : spawn = .ok ())

/-- No restart error reads like the `try_wait` error. -/
theorem spawnReason_ne (e : String) : "Restart spawn failed: " ++ e ≠ "try_wait() returned an error" := by
  intro h
  have heads := congrArg (fun s => s.toList.head?) h
  simp at heads

namespace ManagedChild

@[simp] theorem windowReset_process (c : ManagedChild) (now : Nat) : (c.windowReset now).process = c.process := by
  by_cases h : restartWindow ≤ now - c.lastStart <;> simp [windowReset, h]

@[simp] theorem windowReset_lastStart (c : ManagedChild) (now : Nat) :
    (c.windowReset now).lastStart = c.lastStart := by
  by_cases h : restartWindow ≤ now - c.lastStart <;> simp [windowReset, h]

@[simp] theorem windowReset_restartCount (c : ManagedChild) (now : Nat) :
    (c.windowReset now).restartCount = c.counted now := by
  by_cases h : restartWindow ≤ now - c.lastStart <;> simp [windowReset, counted, h]

/-- What comes of an exit: `c'` is the child with the exit recorded. -/
theorem restart_cases {c c' : ManagedChild} (now : Nat) (code : Option Int) (spawn : Except String Unit)
    (status : c'.process.status.isSome) (start : c'.lastStart = c.lastStart)
    (count : c'.restartCount = c.restartCount) :
    ChildChecked c now spawn ((c'.windowReset now).restart now code spawn).1
      ((c'.windowReset now).restart now code spawn).2 := by
  have counted : c'.counted now = c.counted now := by simp [ManagedChild.counted, start, count]
  by_cases below : c.counted now < maxRetries
  · cases spawn with
    | ok u =>
      apply ChildChecked.again <;> simp [restart, counted, below, ChildHealth.Restarted, ChildHealth.GivenUp]
    | error e =>
      have reason := spawnReason_ne e
      apply ChildChecked.down <;>
        simp [restart, counted, below, status, start, ChildHealth.Restarted, ChildHealth.GivenUp, reason]
  · have reason : "Exceeded max retries (" ++ maxRetries.repr ++ ")" ≠ "try_wait() returned an error" := by decide
    apply ChildChecked.down <;>
      simp [restart, counted, below, status, start, ChildHealth.Restarted, ChildHealth.GivenUp, reason,
        Nat.le_of_not_lt below]

/-- **What a check can do to a child.** -/
theorem check_cases (c : ManagedChild) (now : Nat) (env : ChildEnv) :
    ChildChecked c now env.spawn (c.check now env).1 (c.check now env).2 := by
  obtain ⟨wait, spawn⟩ := env
  cases hs : c.process.status with
  | some code =>
    have seen : c.process.tryWait wait = (c.process, .exited code) := by simp [Child.tryWait, hs]
    simp only [check, seen]
    exact restart_cases now code spawn (by simp [hs]) rfl rfl
  | none =>
    have seen : c.process.tryWait wait = match wait with
        | .exited code => (⟨some code⟩, .exited code)
        | other => (c.process, other) := by
      simp [Child.tryWait, hs]
    simp only [check, seen]
    cases wait with
    | exited code => exact restart_cases now code spawn rfl rfl rfl
    | running => exact .alive hs rfl rfl rfl rfl
    | error => exact .alive hs rfl rfl rfl (by simp [ChildHealth.GivenUp])

end ManagedChild

theorem checkFrom_children (now : Nat) (env : Nat → ChildEnv) (i k : Nat) (children : List ManagedChild) :
    (checkFrom now env i children).1[k]? = children[k]?.map (fun c => (c.check now (env (i + k))).1) := by
  induction children generalizing i k with
  | nil => simp [checkFrom]
  | cons c children ih =>
    cases k with
    | zero => rfl
    | succ k =>
      show (checkFrom now env (i + 1) children).1[k]? = _
      rw [ih, getElem?_cons_succ, Nat.add_right_comm]
      rfl

theorem checkFrom_healths (now : Nat) (env : Nat → ChildEnv) (i k : Nat) (children : List ManagedChild) :
    (checkFrom now env i children).2[k]? = children[k]?.map (fun c => (c.check now (env (i + k))).2) := by
  induction children generalizing i k with
  | nil => simp [checkFrom]
  | cons c children ih =>
    cases k with
    | zero => rfl
    | succ k =>
      show (checkFrom now env (i + 1) children).2[k]? = _
      rw [ih, getElem?_cons_succ, Nat.add_right_comm]
      rfl

/-- Each child is checked on its own. -/
theorem healthCheck_children (now : Nat) (env : Nat → ChildEnv) (children : List ManagedChild) (k : Nat) :
    (healthCheck now env children).1[k]? = children[k]?.map (fun c => (c.check now (env k)).1) := by
  rw [healthCheck, checkFrom_children, Nat.zero_add]

theorem reports_healthCheck {p : ChildHealth → Bool} {now : Nat} {env : Nat → ChildEnv}
    {children : List ManagedChild} {k : Nat} :
    Reports p k (now, (healthCheck now env children).2) ↔
      ∃ c, children[k]? = some c ∧ p (c.check now (env k)).2 = true := by
  simp only [Reports, healthCheck, checkFrom_healths, Nat.zero_add, Option.map_eq_some_iff]
  constructor
  · rintro ⟨_, ⟨c, hc, rfl⟩, hp⟩
    exact ⟨c, hc, hp⟩
  · rintro ⟨c, hc, hp⟩
    exact ⟨_, ⟨c, hc, rfl⟩, hp⟩

namespace Lifecycle

theorem next_healthCheck (s : Lifecycle) (now : Nat) (env : Nat → ChildEnv) :
    s.next (.healthCheck now env) =
      ⟨(Runtime.healthCheck now env s.children).1, s.log ++ [(now, (Runtime.healthCheck now env s.children).2)]⟩ :=
  rfl

end Lifecycle

/-! ## No restart storm -/

theorem restartTimes_snoc (k : Nat) (log : List (Nat × List ChildHealth)) (entry : Nat × List ChildHealth) :
    restartTimes k (log ++ [entry]) =
      restartTimes k log ++ if Reports ChildHealth.Restarted k entry then [entry.1] else [] := by
  by_cases h : Reports ChildHealth.Restarted k entry <;> simp [restartTimes, h]

/-- What the counter and the start time of a child say about its restarts `rs`, newest first, at time `now`. -/
structure RestartInv (c : ManagedChild) (rs : List Nat) (now : Nat) : Prop where
  descending : Descending (now :: rs)
  spread : Spread maxRetries restartWindow rs
  /-- The newest restart is the last start. -/
  last : ∀ x, rs[0]? = some x → c.lastStart = x
  /-- In front of the restarts that the counter counts lies a gap as long as the window. -/
  gap : ∀ x b, rs[c.restartCount]? = some x → (now :: rs)[c.restartCount]? = some b → x + restartWindow ≤ b

namespace RestartInv

variable {c c' : ManagedChild} {rs : List Nat} {now t : Nat}

theorem new {c : ManagedChild} {now : Nat} : RestartInv c [] now where
  descending := pairwise_singleton _ _
  spread := .nil
  last := by simp
  gap := by simp

theorem later (h : RestartInv c rs t) (ht : t ≤ now) : RestartInv c rs now where
  descending := by
    obtain ⟨above, rest⟩ := pairwise_cons.1 h.descending
    exact pairwise_cons.2 ⟨fun x hx => Nat.le_trans (above x hx) ht, rest⟩
  spread := h.spread
  last := h.last
  gap := by
    intro x b hx hb
    cases hc : c.restartCount with
    | zero =>
      rw [hc] at hx hb
      have early := h.gap x t (by rw [hc]; exact hx) (by rw [hc]; rfl)
      cases hb
      exact Nat.le_trans early ht
    | succ n =>
      rw [hc] at hx hb
      exact h.gap x b (by rw [hc]; exact hx) (by rw [hc]; exact hb)

theorem congr (h : RestartInv c rs now) (start : c'.lastStart = c.lastStart)
    (count : c'.restartCount = c.restartCount) : RestartInv c' rs now :=
  ⟨h.descending, h.spread, by rw [start]; exact h.last, by rw [count]; exact h.gap⟩

/-- The window reset keeps the gap: it comes when the window has passed since the newest restart. -/
theorem counted (h : RestartInv c rs now) (start : c'.lastStart = c.lastStart)
    (count : c'.restartCount = c.counted now) : RestartInv c' rs now := by
  by_cases passed : restartWindow ≤ now - c.lastStart
  · have zero : c'.restartCount = 0 := by rw [count, ManagedChild.counted, if_pos passed]
    refine ⟨h.descending, h.spread, by rw [start]; exact h.last, ?_⟩
    intro x b hx hb
    rw [zero] at hx hb
    cases hb
    rw [h.last x hx] at passed
    have positive : 0 < restartWindow := by decide
    omega
  · exact h.congr start (by rw [count, ManagedChild.counted, if_neg passed])

/-- A restart with a counter below the limit comes a window after the third restart before it. -/
theorem restart (h : RestartInv c rs now) (below : c.restartCount < maxRetries) (start : c'.lastStart = now)
    (count : c'.restartCount = c.restartCount + 1) : RestartInv c' (now :: rs) now := by
  have rest := (pairwise_cons.1 h.descending).2
  refine ⟨pairwise_cons.2 ⟨?_, h.descending⟩, h.spread.cons ?_, ?_, ?_⟩
  · intro x hx
    rcases mem_cons.1 hx with rfl | hx
    · exact Nat.le_refl _
    · exact (pairwise_cons.1 h.descending).1 x hx
  · intro y hy
    -- the third restart before this one is not younger than the one in front of the gap
    have third : rs[2]? = some y := hy
    have le : c.restartCount ≤ 2 := Nat.le_of_lt_succ below
    have short : c.restartCount < rs.length := by
      obtain ⟨h2, _⟩ := List.getElem?_eq_some_iff.1 third
      omega
    have hx : rs[c.restartCount]? = some rs[c.restartCount] := getElem?_eq_getElem short
    have within : c.restartCount < (now :: rs).length := by
      rw [length_cons]
      omega
    have hb : (now :: rs)[c.restartCount]? = some (now :: rs)[c.restartCount] := getElem?_eq_getElem within
    have far := h.gap _ _ hx hb
    have older : y ≤ rs[c.restartCount] := Descending.le rest le hx third
    have newest := h.descending.le (Nat.zero_le _) rfl hb
    omega
  · intro x hx
    cases hx
    exact start
  · intro x b hx hb
    rw [count] at hx hb
    exact h.gap x b hx hb

theorem checked {spawn : Except String Unit} {report : ChildHealth} (h : RestartInv c rs now)
    (hc : ChildChecked c now spawn c' report) :
    RestartInv c' (if report.Restarted = true then now :: rs else rs) now := by
  cases hc with
  | alive status start count restarted givenUp =>
    rw [restarted]
    exact h.congr start count
  | down status start count restarted givenUp reason =>
    rw [restarted]
    exact h.counted start count
  | again start count restarted givenUp below spawned =>
    rw [restarted, if_pos rfl]
    have reset : RestartInv { c with restartCount := c.counted now } rs now := h.counted rfl rfl
    exact reset.restart below start count

end RestartInv

theorem Chronological.snoc {calls : List LifecycleCall} {call : LifecycleCall}
    (h : Chronological (calls ++ [call])) : Chronological calls ∧ ∀ x ∈ calls, x.time ≤ call.time := by
  simp only [Chronological, map_append, map_cons, map_nil, pairwise_append] at h
  exact ⟨h.1, fun x hx => h.2.2 _ (mem_map_of_mem hx) _ (by simp)⟩

/-- What holds of child `k` after the calls: a child that is not there yet was not restarted, and the restarts
    of one that is there fit its counter. -/
structure RestartsOf (s : Lifecycle) (k now : Nat) : Prop where
  absent : s.children.length ≤ k → restartTimes k s.log = []
  present : ∀ c, s.children[k]? = some c → RestartInv c (restartTimes k s.log).reverse now

theorem RestartsOf.next {s : Lifecycle} {k now : Nat} (call : LifecycleCall) (h : RestartsOf s k now)
    (hn : now = call.time) : RestartsOf (s.next call) k now := by
  subst hn
  cases call with
  | spawn t name program args result =>
    cases result with
    | error e => exact h
    | ok u =>
      refine ⟨fun hk => h.absent ?_, ?_⟩
      · simp [Lifecycle.next, spawnChild] at hk
        omega
      · intro c hc
        -- a child that was there, or the one that was started
        by_cases hk : k < s.children.length
        · refine h.present c ?_
          rw [← hc]
          exact (getElem?_append_left hk).symm
        · show RestartInv c (restartTimes k s.log).reverse _
          rw [h.absent (Nat.le_of_not_lt hk)]
          exact .new
  | healthCheck t env =>
    rw [Lifecycle.next_healthCheck]
    refine ⟨?_, ?_⟩
    -- no child, and no report of one
    · intro hk
      have same : (healthCheck t env s.children).1[k]? = none := getElem?_eq_none hk
      have none : s.children[k]? = none := by simpa [healthCheck_children] using same
      have silent : ¬ Reports ChildHealth.Restarted k (t, (healthCheck t env s.children).2) := by
        rw [reports_healthCheck]
        rintro ⟨c, hc, _⟩
        rw [none] at hc
        cases hc
      show restartTimes k (s.log ++ [(t, (healthCheck t env s.children).2)]) = []
      rw [restartTimes_snoc, if_neg silent, List.append_nil]
      exact h.absent (getElem?_eq_none_iff.1 none)
    · intro c' hc'
      have known : (healthCheck t env s.children).1[k]? = some c' := hc'
      rw [healthCheck_children, Option.map_eq_some_iff] at known
      obtain ⟨c, hc, rfl⟩ := known
      have step := (h.present c hc).checked (c.check_cases t (env k))
      show RestartInv _ (restartTimes k (s.log ++ [(t, (healthCheck t env s.children).2)])).reverse t
      -- the report of the child is in the log exactly if it was restarted
      have reported : Reports ChildHealth.Restarted k (t, (healthCheck t env s.children).2) ↔
          (c.check t (env k)).2.Restarted = true := by
        rw [reports_healthCheck]
        constructor
        · rintro ⟨d, hd, hr⟩
          rw [hc] at hd
          cases hd
          exact hr
        · exact fun hr => ⟨c, hc, hr⟩
      rw [restartTimes_snoc]
      by_cases hr : (c.check t (env k)).2.Restarted = true
      · rw [if_pos (reported.2 hr), reverse_append]
        rw [if_pos hr] at step
        exact step
      · rw [if_neg (fun hc => hr (reported.1 hc)), List.append_nil]
        rw [if_neg hr] at step
        exact step

/-- The restarts fit the counters after every history. -/
theorem restartsOf_run (calls : List LifecycleCall) (chron : Chronological calls) (k now : Nat)
    (hn : ∀ call ∈ calls, call.time ≤ now) : RestartsOf (Lifecycle.run calls) k now := by
  induction calls using List.reverseRecOn generalizing now with
  | nil => exact ⟨fun _ => rfl, fun c hc => by simp [Lifecycle.run, Lifecycle.new] at hc⟩
  | append_singleton calls call ih =>
    obtain ⟨before, upTo⟩ := chron.snoc
    rw [Lifecycle.run_snoc]
    have now' := (ih before call.time upTo).next call rfl
    exact ⟨now'.absent, fun c hc => (now'.present c hc).later (hn call (by simp))⟩

/-- There is a time after all calls. -/
theorem exists_time (calls : List LifecycleCall) : ∃ now, ∀ call ∈ calls, call.time ≤ now := by
  induction calls with
  | nil => exact ⟨0, by simp⟩
  | cons call calls ih =>
    obtain ⟨now, h⟩ := ih
    refine ⟨max call.time now, ?_⟩
    intro x hx
    rcases mem_cons.1 hx with rfl | hx
    · exact Nat.le_max_left _ _
    · exact Nat.le_trans (h x hx) (Nat.le_max_right _ _)

/-- **No restart storm.** An interval shorter than the window holds at most `MAX_RETRIES` restarts of a child. -/
theorem no_restart_storm (calls : List LifecycleCall) (chron : Chronological calls) (k a b : Nat)
    (hab : b < a + restartWindow) :
    ((restartTimes k (Lifecycle.run calls).log).filter (fun t => decide (a ≤ t ∧ t ≤ b))).length ≤ maxRetries := by
  obtain ⟨now, after⟩ := exists_time calls
  have fits := restartsOf_run calls chron k now after
  cases hc : (Lifecycle.run calls).children[k]? with
  | none =>
    rw [fits.absent (getElem?_eq_none_iff.1 hc)]
    exact Nat.zero_le _
  | some c =>
    have inv := fits.present c hc
    have bound := Spread.length_filter_le (pairwise_cons.1 inv.descending).2 inv.spread hab
    rwa [filter_reverse, length_reverse] at bound

/-! ## Given up -/

/-- After a check that gave child `k` up, no later check restarts it. -/
def StaysDown (log : List (Nat × List ChildHealth)) : Prop :=
  ∀ k, log.Pairwise (fun earlier later =>
    Reports ChildHealth.GivenUp k earlier → ¬ Reports ChildHealth.Restarted k later)

/-- Some check gave child `k` up. -/
def WasGivenUp (log : List (Nat × List ChildHealth)) (k : Nat) : Prop :=
  ∃ entry ∈ log, Reports ChildHealth.GivenUp k entry

/-- In state `s`, the call keeps down the children given up before: its check of each comes with three restarts
    counted and within the window of the child's last start, or finds the program impossible to start. -/
def Holds (s : Lifecycle) : LifecycleCall → Prop
  | .spawn _ _ _ _ _ => True
  | .healthCheck now env => ∀ k c, s.children[k]? = some c → WasGivenUp s.log k →
      (maxRetries ≤ c.restartCount ∧ now - c.lastStart < restartWindow) ∨ ∃ e, (env k).spawn = .error e

/-- Each call of the history keeps down the children given up before. -/
def HeldDown (calls : List LifecycleCall) : Prop :=
  ∀ pre call post, calls = pre ++ call :: post → Holds (Lifecycle.run pre) call

theorem staysDown_snoc {log : List (Nat × List ChildHealth)} {entry : Nat × List ChildHealth} :
    StaysDown (log ++ [entry]) ↔
      StaysDown log ∧ ∀ k, WasGivenUp log k → ¬ Reports ChildHealth.Restarted k entry := by
  simp only [StaysDown, WasGivenUp, pairwise_append]
  constructor
  · intro h
    refine ⟨fun k => (h k).1, ?_⟩
    rintro k ⟨earlier, he, hg⟩
    exact (h k).2.2 earlier he entry (by simp) hg
  · rintro ⟨h, hk⟩ k
    refine ⟨h k, pairwise_singleton _ _, ?_⟩
    intro earlier he later hl hg
    rw [mem_singleton.1 hl]
    exact hk k ⟨earlier, he, hg⟩

theorem heldDown_snoc {calls : List LifecycleCall} {call : LifecycleCall} :
    HeldDown (calls ++ [call]) ↔ HeldDown calls ∧ Holds (Lifecycle.run calls) call := by
  constructor
  · intro h
    refine ⟨?_, h calls call [] rfl⟩
    rintro pre x post rfl
    exact h pre x (post ++ [call]) (by simp)
  · rintro ⟨h, last⟩ pre x post split
    rcases eq_nil_or_concat post with rfl | ⟨front, y, rfl⟩
    · obtain ⟨rfl, same⟩ := append_inj' split rfl
      rwa [← singleton_inj.1 same]
    · have cut : calls ++ [call] = (pre ++ x :: front) ++ [y] := by simpa using split
      exact h pre x front (append_inj' cut rfl).1

/-- A child given up and not restarted since is a process whose exit is known. -/
def KnownDead (s : Lifecycle) : Prop :=
  ∀ k, WasGivenUp s.log k → ∃ c, s.children[k]? = some c ∧ c.process.status.isSome

theorem knownDead_run (calls : List LifecycleCall) (h : StaysDown (Lifecycle.run calls).log) :
    KnownDead (Lifecycle.run calls) := by
  induction calls using List.reverseRecOn with
  | nil =>
    rintro k ⟨entry, he, _⟩
    simp [Lifecycle.run, Lifecycle.new] at he
  | append_singleton calls call ih =>
    rw [Lifecycle.run_snoc] at h ⊢
    generalize Lifecycle.run calls = s at h ih
    cases call with
    | spawn t name program args result =>
      intro k hk
      obtain ⟨c, hc, status⟩ := ih h k hk
      cases result with
      | error e => exact ⟨c, hc, status⟩
      | ok u =>
        have inside : k < s.children.length := (List.getElem?_eq_some_iff.1 hc).1
        exact ⟨c, (getElem?_append_left inside).trans hc, status⟩
    | healthCheck t env =>
      rw [Lifecycle.next_healthCheck] at h ⊢
      obtain ⟨before, quiet⟩ := staysDown_snoc.1 h
      rintro k ⟨entry, he, hg⟩
      rcases mem_append.1 he with he | he
      · obtain ⟨c, hc, status⟩ := ih before k ⟨entry, he, hg⟩
        refine ⟨_, (healthCheck_children t env s.children k).trans (by rw [hc]; rfl), ?_⟩
        cases c.check_cases t (env k) with
        | alive none => rw [none] at status; cases status
        | down known => exact known
        | again start count restarted =>
          exact absurd (reports_healthCheck.2 ⟨c, hc, restarted⟩) (quiet k ⟨entry, he, hg⟩)
      · -- the check that gives the child up has just seen its exit
        rw [mem_singleton.1 he] at hg
        obtain ⟨c, hc, gone⟩ := reports_healthCheck.1 hg
        refine ⟨_, (healthCheck_children t env s.children k).trans (by rw [hc]; rfl), ?_⟩
        cases c.check_cases t (env k) with
        | alive none start count restarted givenUp => rw [givenUp] at gone; cases gone
        | down known => exact known
        | again start count restarted givenUp => rw [givenUp] at gone; cases gone

/-- A child whose exit is known is restarted exactly when its counter allows and its program starts. -/
theorem restarted_iff {c : ManagedChild} (now : Nat) (env : ChildEnv) (status : c.process.status.isSome) :
    (c.check now env).2.Restarted = true ↔
      ¬ ((maxRetries ≤ c.restartCount ∧ now - c.lastStart < restartWindow) ∨ ∃ e, env.spawn = .error e) := by
  rw [not_or, ← ManagedChild.counted_lt]
  cases c.check_cases now env with
  | alive none => rw [none] at status; cases status
  | down known start count restarted givenUp reason =>
    rw [restarted]
    constructor
    · intro h; cases h
    · rintro ⟨below, starts⟩
      rcases reason with full | fails
      · exact absurd below (Nat.not_lt.2 full)
      · exact absurd fails starts
  | again start count restarted givenUp below spawned =>
    rw [restarted]
    refine ⟨fun _ => ⟨below, ?_⟩, fun _ => rfl⟩
    rintro ⟨e, he⟩
    rw [spawned] at he
    cases he

/-- **A failed child stays down exactly while it is held down**: by its counter within the window, or by a
    program that does not start. -/
theorem staysDown_iff (calls : List LifecycleCall) : StaysDown (Lifecycle.run calls).log ↔ HeldDown calls := by
  induction calls using List.reverseRecOn with
  | nil => exact ⟨fun _ pre call post h => by simp at h, fun _ k => .nil⟩
  | append_singleton calls call ih =>
    rw [Lifecycle.run_snoc, heldDown_snoc, ← ih]
    cases call with
    | spawn t name program args result => exact ⟨fun h => ⟨h, trivial⟩, And.left⟩
    | healthCheck t env =>
      rw [Lifecycle.next_healthCheck, staysDown_snoc]
      refine and_congr_right fun before => ?_
      constructor
      · intro quiet k c hc gone
        obtain ⟨d, hd, status⟩ := knownDead_run calls before k gone
        rw [hc] at hd
        cases hd
        by_contra hne
        exact quiet k gone (reports_healthCheck.2 ⟨c, hc, (restarted_iff t (env k) status).2 hne⟩)
      · intro held k gone restarted
        obtain ⟨c, hc, status⟩ := knownDead_run calls before k gone
        obtain ⟨d, hd, again⟩ := reports_healthCheck.1 restarted
        rw [hc] at hd
        cases hd
        exact (restarted_iff t (env k) status).1 again (held k c hc gone)

/-! ## A child that comes back -/

/-- A child that exits with code 1 whenever it is looked at, its program starting each time. -/
def quicky : Nat → ChildEnv := fun _ => ⟨.exited (some 1), .ok ()⟩

/-- One child, looked at four times in a second and once more after half a minute. -/
def longHistory : List LifecycleCall :=
  [.spawn 0 "quicky" "sh" ["-c", "exit 1"] (.ok ()), .healthCheck (200 * msec) quicky,
    .healthCheck (400 * msec) quicky, .healthCheck (600 * msec) quicky, .healthCheck (800 * msec) quicky,
    .healthCheck (31000 * msec) quicky]

/-- The child is reported as failed in the fourth check and restarted in the fifth. -/
theorem longHistory_comesBack :
    Chronological longHistory ∧ ¬ StaysDown (Lifecycle.run longHistory).log := by
  refine ⟨by decide, ?_⟩
  intro h
  exact absurd (h 0) (by decide)

/-- Four looks in a second: three restarts, and the window holds them all. -/
theorem longHistory_storm :
    Chronological longHistory ∧
      ((restartTimes 0 (Lifecycle.run longHistory).log).filter
        (fun t => decide (200 * msec ≤ t ∧ t ≤ 30000 * msec))).length ≤ maxRetries :=
  ⟨by decide, no_restart_storm longHistory (by decide) 0 _ _ (by decide)⟩

end Audesys.Runtime
