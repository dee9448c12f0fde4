import Mathlib.Data.List.Infix
import Mathlib.Data.List.Induction
import Audesys.Lib.Trace
import Audesys.Runtime.Engine

/-!
# `Amw.Qos` — the lock level under every interleaving

`InprocQoS` of `audesys-amw-inproc`: the lock level is one atomic cell, the queued commands are a vector behind
a mutex. `set_lock_level` reads the cell, compares, and writes it in a second access; `queue_config` reads the
cell and then pushes. The calls run on any number of threads, so each access is one action of the system.

The level is meant to rise only. Each call compares with the level *it read*, so a call that read before another
one stored a higher level lowers it again. `guarded_iff_undisturbed` says that this is the only way, and that
the guard of the configuration queue stands as long as the level rises.
-/

namespace Audesys.Amw

open Audesys.Lib Audesys.Runtime

/-! ## The controller -/

/-- `str::to_lowercase`, whose Unicode tables are a parameter. -/
class LowerMap where
  lower : List Char → List Char

/-- `to_lowercase` of ASCII text. -/
@[reducible] def LowerMap.ascii : LowerMap := ⟨fun s => s.map Char.toLower⟩

inductive ConfigStatus where
  | queued
  | applied
  | rejected (reason : String)
  | failed (reason : String)
  deriving DecidableEq

/-- The discriminant that `level as u8` stores. -/
def levelByte (level : LockLevel) : UInt8 := UInt8.ofNat level.toNat

instance : LE LockLevel := ⟨fun a b => a.toNat ≤ b.toNat⟩
instance : LT LockLevel := ⟨fun a b => a.toNat < b.toNat⟩

theorem level_le {a b : LockLevel} : a ≤ b ↔ a.toNat ≤ b.toNat := Iff.rfl
theorem level_lt {a b : LockLevel} : a < b ↔ a.toNat < b.toNat := Iff.rfl

instance (a b : LockLevel) : Decidable (a ≤ b) := inferInstanceAs (Decidable (_ ≤ _))
instance (a b : LockLevel) : Decidable (a < b) := inferInstanceAs (Decidable (_ < _))

/-- The method name holds `word`, whatever the case. -/
def methodContains [LowerMap] (method word : String) : Bool :=
  word.toList <:+: LowerMap.lower method.toList

def requiredLockLevel [LowerMap] (method : String) : LockLevel :=
  if methodContains method "load" || methodContains method "unload" || methodContains method "component" then
    .load
  else if methodContains method "param" then
    .params
  else
    .config

def canQueue (current required : LockLevel) : Bool :=
  match current with
  | .none | .load => true
  | .config => decide (LockLevel.config ≤ required)
  | .params => decide (LockLevel.params ≤ required)
  | .run | .all => false

/-- The cells of the controller that the lock level and the configuration queue live in. -/
structure InprocQoS where
  lockLevel : UInt8
  configQueue : List ConfigCommand
  deriving DecidableEq

namespace InprocQoS

def new : InprocQoS := ⟨levelByte .none, []⟩

/-- `load_level`; bytes that are no level count as the highest. -/
def loadLevel (q : InprocQoS) : LockLevel :=
  match q.lockLevel.toNat with
  | 0 => .none
  | 1 => .load
  | 2 => .config
  | 3 => .params
  | 4 => .run
  | 5 => .all
  | _ => .all

/-- First access of `set_lock_level`: the refusal, if there is one. -/
def checkLevel (q : InprocQoS) (level : LockLevel) : Option ConfigStatus :=
  let current := q.loadLevel
  if level < current then
    some (.rejected ("Cannot decrease lock level: " ++ current.name ++ " → " ++ level.name ++
      " (monotonic-increasing constraint)"))
  else none

/-- Second access of `set_lock_level`. -/
def storeLevel (q : InprocQoS) (level : LockLevel) : InprocQoS := { q with lockLevel := levelByte level }

/-- First access of `queue_config`: the refusal, if there is one. The text quotes the method as `{:?}` does,
    with `quote`. -/
def checkCommand [LowerMap] (quote : String → String) (q : InprocQoS) (cmd : ConfigCommand) :
    Option ConfigStatus :=
  let current := q.loadLevel
  let required := requiredLockLevel cmd.method
  if canQueue current required then none
  else
    some (.rejected ("LockLevel " ++ current.name ++ " prohibits command " ++ quote cmd.method ++
      " (requires " ++ required.name ++ ")"))

/-- Second access of `queue_config`. -/
def pushCommand (q : InprocQoS) (cmd : ConfigCommand) : InprocQoS :=
  { q with configQueue := q.configQueue ++ [cmd] }

/-- `apply_queued`, which works under the lock of the queue from start to end. -/
def applyQueued (q : InprocQoS) : InprocQoS × List ConfigStatus :=
  ({ q with configQueue := [] }, q.configQueue.map fun _ => .applied)

theorem loadLevel_storeLevel (q : InprocQoS) (level : LockLevel) : (q.storeLevel level).loadLevel = level := by
  cases level <;> rfl

@[simp] theorem loadLevel_pushCommand (q : InprocQoS) (cmd : ConfigCommand) :
    (q.pushCommand cmd).loadLevel = q.loadLevel := rfl

@[simp] theorem loadLevel_applyQueued (q : InprocQoS) : q.applyQueued.1.loadLevel = q.loadLevel := rfl

theorem checkLevel_none {q : InprocQoS} {level : LockLevel} : q.checkLevel level = none ↔ q.loadLevel ≤ level := by
  simp only [checkLevel, level_lt, level_le]
  by_cases h : level.toNat < q.loadLevel.toNat
  · simp [h]
  · simp [h, Nat.le_of_not_lt h]

/-- From `Run` on, every command is refused. -/
theorem checkCommand_locked [LowerMap] {quote : String → String} {q : InprocQoS} (h : LockLevel.run ≤ q.loadLevel)
    (cmd : ConfigCommand) : q.checkCommand quote cmd ≠ none := by
  have locked : canQueue q.loadLevel (requiredLockLevel cmd.method) = false := by
    revert h
    cases q.loadLevel <;> simp [canQueue, level_le, LockLevel.toNat]
  simp [checkCommand, locked]

end InprocQoS

/-! ## The system -/

/-- Where a thread stands. -/
inductive QosPc where
  /-- Between calls; `last` is what the last call returned. -/
  | idle (last : Option ConfigStatus)
  | setStarted (level : LockLevel)
  /-- Inside `set_lock_level`, past its check. -/
  | setWriting (level : LockLevel)
  | queueStarted (cmd : ConfigCommand)
  /-- Inside `queue_config`, past its check. -/
  | queuePushing (cmd : ConfigCommand)
  deriving DecidableEq

structure QosState where
  qos : InprocQoS
  thread : Nat → QosPc

inductive QosAction where
  | setCall (i : Nat) (level : LockLevel)
  | setRead (i : Nat)
  | setWrite (i : Nat) (level : LockLevel)
  | queueCall (i : Nat) (cmd : ConfigCommand)
  | queueRead (i : Nat)
  | queuePush (i : Nat) (cmd : ConfigCommand)
  | applyQueued (i : Nat)
  deriving DecidableEq

namespace QosState

/-- A new controller, nobody inside a call. -/
def init : QosState := ⟨.new, fun _ => .idle none⟩

def setThread (s : QosState) (i : Nat) (pc : QosPc) : QosState :=
  { s with thread := fun j => if j = i then pc else s.thread j }

@[simp] theorem setThread_qos (s : QosState) (i : Nat) (pc : QosPc) : (s.setThread i pc).qos = s.qos := rfl

@[simp] theorem setThread_thread (s : QosState) (i j : Nat) (pc : QosPc) :
    (s.setThread i pc).thread j = if j = i then pc else s.thread j := rfl

/-- The stored level. -/
def level (s : QosState) : LockLevel := s.qos.loadLevel

variable [LowerMap]

/-- One access. `none`: the thread is not at that point of a call. -/
def step (quote : String → String) (s : QosState) : QosAction → Option QosState
  | .setCall i level =>
    match s.thread i with
    | .idle _ => some (s.setThread i (.setStarted level))
    | _ => none
  | .setRead i =>
    match s.thread i with
    | .setStarted level =>
      match s.qos.checkLevel level with
      | some refusal => some (s.setThread i (.idle (some refusal)))
      | none => some (s.setThread i (.setWriting level))
    | _ => none
  | .setWrite i level =>
    if s.thread i = .setWriting level then
      some ({ s with qos := s.qos.storeLevel level }.setThread i (.idle (some .applied)))
    else none
  | .queueCall i cmd =>
    match s.thread i with
    | .idle _ => some (s.setThread i (.queueStarted cmd))
    | _ => none
  | .queueRead i =>
    match s.thread i with
    | .queueStarted cmd =>
      match s.qos.checkCommand quote cmd with
      | some refusal => some (s.setThread i (.idle (some refusal)))
      | none => some (s.setThread i (.queuePushing cmd))
    | _ => none
  | .queuePush i cmd =>
    if s.thread i = .queuePushing cmd then
      some ({ s with qos := s.qos.pushCommand cmd }.setThread i (.idle (some .queued)))
    else none
  | .applyQueued i =>
    match s.thread i with
    | .idle _ => some { s with qos := s.qos.applyQueued.1 }
    | _ => none

end QosState

open QosState

/-- The thread that makes the access. -/
def QosAction.actor : QosAction → Nat
  | .setCall i _ | .setRead i | .setWrite i _ | .queueCall i _ | .queueRead i | .queuePush i _ | .applyQueued i => i

/-- The stored level after an action on a cell that holds `level`. -/
def QosAction.leaves (level : LockLevel) : QosAction → LockLevel
  | .setWrite _ written => written
  | _ => level

/-- Where the actor of `a` may stand after it, `level` being what the cell held. -/
def MayReach (level : LockLevel) (a : QosAction) : QosPc → Prop
  | .setWriting written => a = .setRead a.actor ∧ level ≤ written
  | .queuePushing _ => ¬ LockLevel.run ≤ level
  | _ => True

section Step

variable [LowerMap] {quote : String → String} {s t : QosState} {a : QosAction}

/-- **What an access can do**: the cell changes at a write only, the other threads stay where they are, and a
    thread gets past a check only with the level it compares with. -/
theorem step_cases (h : step quote s a = some t) :
    t.level = a.leaves s.level ∧ (∀ j, j ≠ a.actor → t.thread j = s.thread j) ∧
      MayReach s.level a (t.thread a.actor) := by
  have others : ∀ i pc, ∀ j, j ≠ i → (s.setThread i pc).thread j = s.thread j := fun i pc j hj => by
    simp [hj]
  cases a with
  | setWrite i level =>
    simp only [step] at h
    split at h
    · cases h
      exact ⟨InprocQoS.loadLevel_storeLevel s.qos level, others i _, by simp [QosAction.actor, MayReach]⟩
    · cases h
  | queuePush i cmd =>
    simp only [step] at h
    split at h
    · cases h
      exact ⟨rfl, others i _, by simp [QosAction.actor, MayReach]⟩
    · cases h
  | setRead i =>
    simp only [step] at h
    split at h
    · rename_i level _
      -- the check is made against the level at this moment
      cases hc : s.qos.checkLevel level with
      | some refusal =>
        simp only [hc, Option.some.injEq] at h
        subst h
        exact ⟨rfl, others i _, by simp [QosAction.actor, MayReach]⟩
      | none =>
        simp only [hc, Option.some.injEq] at h
        subst h
        have below : s.level ≤ level := InprocQoS.checkLevel_none.1 hc
        exact ⟨rfl, others i _, by simpa [QosAction.actor, MayReach] using below⟩
    · cases h
  | queueRead i =>
    simp only [step] at h
    split at h
    · rename_i cmd _
      -- so is this one, which passes only below the run level
      cases hc : s.qos.checkCommand quote cmd with
      | some refusal =>
        simp only [hc, Option.some.injEq] at h
        subst h
        exact ⟨rfl, others i _, by simp [QosAction.actor, MayReach]⟩
      | none =>
        simp only [hc, Option.some.injEq] at h
        subst h
        have open_ : ¬ LockLevel.run ≤ s.level := fun locked => InprocQoS.checkCommand_locked locked cmd hc
        exact ⟨rfl, others i _, by simpa [QosAction.actor, MayReach] using open_⟩
    · cases h
  | setCall i level =>
    simp only [step] at h
    split at h <;> cases h
    exact ⟨rfl, others i _, by simp [QosAction.actor, MayReach]⟩
  | queueCall i cmd =>
    simp only [step] at h
    split at h <;> cases h
    exact ⟨rfl, others i _, by simp [QosAction.actor, MayReach]⟩
  | applyQueued i =>
    simp only [step] at h
    split at h <;> cases h
    rename_i last idle
    exact ⟨rfl, fun _ _ => rfl, by simp [QosAction.actor, MayReach, idle]⟩

theorem step_level (h : step quote s a = some t) : t.level = a.leaves s.level := (step_cases h).1

/-- A thread gets to its write by reading a level that is not above it. -/
theorem step_setWriting {i : Nat} {level : LockLevel} (h : step quote s a = some t)
    (ht : t.thread i = .setWriting level) :
    (a.actor ≠ i ∧ s.thread i = .setWriting level) ∨ (a = .setRead i ∧ s.level ≤ level) := by
  obtain ⟨_, others, reach⟩ := step_cases h
  by_cases hi : i = a.actor
  · subst hi
    rw [ht] at reach
    exact Or.inr reach
  · exact Or.inl ⟨fun hc => hi hc.symm, (others i hi).symm.trans ht⟩

/-- A thread gets to its push by reading a level below `Run`. -/
theorem step_queuePushing {i : Nat} {cmd : ConfigCommand} (h : step quote s a = some t)
    (ht : t.thread i = .queuePushing cmd) : s.thread i = .queuePushing cmd ∨ ¬ LockLevel.run ≤ s.level := by
  obtain ⟨_, others, reach⟩ := step_cases h
  by_cases hi : i = a.actor
  · subst hi
    rw [ht] at reach
    exact Or.inr reach
  · exact Or.inl ((others i hi).symm.trans ht)

end Step

/-! ## The properties of a run -/

/-- The action does not lower the level. -/
def Rises [LowerMap] (quote : String → String) (s : QosState) (a : QosAction) : Prop :=
  ∀ t, step quote s a = some t → s.level ≤ t.level

/-- The stored level never decreases. -/
def NeverDecreases [LowerMap] (quote : String → String) (as : List QosAction) : Prop :=
  Trace.Guarded (step quote) (Rises quote) init as

/-- No `queue_config` call that starts after a `set_lock_level` to `Run` or `All` was applied gets to its push,
    which is where it returns `Queued`. -/
def GuardsQueue (as : List QosAction) : Prop :=
  ∀ pre i level mid j cmd post, as = pre ++ .setWrite i level :: (mid ++ .queueCall j cmd :: post) →
    level = .run ∨ level = .all → ∀ cmd', .queuePush j cmd' ∉ post

/-- What happened since thread `i` last read the level in a `set_lock_level` call. -/
def sinceRead (i : Nat) (as : List QosAction) : List QosAction :=
  as.foldl (fun since a => if a = .setRead i then [] else since ++ [a]) []

/-- Between the read and the write of each `set_lock_level` call, no call stores a higher level than the one it
    writes. -/
def Undisturbed (as : List QosAction) : Prop :=
  ∀ pre i level post, as = pre ++ .setWrite i level :: post →
    ∀ j written, .setWrite j written ∈ sinceRead i pre → written ≤ level

theorem sinceRead_snoc (i : Nat) (as : List QosAction) (a : QosAction) :
    sinceRead i (as ++ [a]) = if a = .setRead i then [] else sinceRead i as ++ [a] := by
  simp [sinceRead]

theorem sinceRead_suffix (i : Nat) (as : List QosAction) : ∃ old, as = old ++ sinceRead i as := by
  induction as using List.reverseRecOn with
  | nil => exact ⟨[], rfl⟩
  | append_singleton as a ih =>
    obtain ⟨old, h⟩ := ih
    rw [sinceRead_snoc]
    by_cases hr : a = .setRead i
    · exact ⟨as ++ [a], by simp [hr]⟩
    · exact ⟨old, by rw [if_neg hr, ← List.append_assoc, ← h]⟩

/-- The writes of a thread past its check are not below the cell, unless a higher level was stored since. -/
structure QosInv (as : List QosAction) (s : QosState) : Prop where
  writing : ∀ i level, s.thread i = .setWriting level →
    (∀ j written, .setWrite j written ∈ sinceRead i as → written ≤ level) → s.level ≤ level

section Runs

variable [LowerMap] {quote : String → String} {s t : QosState} {as : List QosAction}

theorem QosInv.step {a : QosAction} (h : QosInv as s) (hs : QosState.step quote s a = some t) :
    QosInv (as ++ [a]) t := by
  refine ⟨fun i level ht quiet => ?_⟩
  rw [step_level hs]
  rcases step_setWriting hs ht with ⟨other, hw⟩ | ⟨rfl, below⟩
  · have kept : a ≠ .setRead i := fun hc => other (by rw [hc]; rfl)
    rw [sinceRead_snoc, if_neg kept] at quiet
    have before : s.level ≤ level := h.writing i level hw fun j written hm => quiet j written (by simp [hm])
    cases a with
    | setWrite j written => exact quiet j written (by simp)
    | _ => exact before
  · exact below

theorem qosInv_run (h : Trace (step quote) init as s) : QosInv as s := by
  refine Trace.snoc_induction (P := QosInv) ⟨?_⟩ (fun _ _ _ _ _ hi hs => hi.step hs) h
  intro i level hw
  cases hw

/-- Along a run that never lowers the level, it ends no lower than it was. -/
theorem level_le_of_rises (hr : Trace.Guarded (step quote) (Rises quote) s as) (h : Trace (step quote) s as t) :
    s.level ≤ t.level := by
  induction h with
  | nil s => exact Nat.le_refl _
  | cons hs _ ih =>
    cases hr with
    | cons hs' rises rest =>
      rw [Option.some.inj (hs'.symm.trans hs)] at rest
      exact Nat.le_trans (rises _ hs) (ih rest)

/-- Under a locked level nobody gets to a push. -/
theorem no_push {j : Nat} (hr : Trace.Guarded (step quote) (Rises quote) s as) (h : Trace (step quote) s as t)
    (locked : LockLevel.run ≤ s.level) (hj : ∀ cmd, s.thread j ≠ .queuePushing cmd) (cmd : ConfigCommand) :
    .queuePush j cmd ∉ as := by
  induction h with
  | nil s => simp
  | @cons s u t a as hs _ ih =>
    cases hr with
    | cons hs' rises rest =>
      rw [Option.some.inj (hs'.symm.trans hs)] at rest
      have locked' : LockLevel.run ≤ u.level := Nat.le_trans locked (rises u hs)
      have hj' : ∀ cmd, u.thread j ≠ .queuePushing cmd := fun cmd hc =>
        (step_queuePushing hs hc).elim (hj cmd) (fun below => below locked)
      intro hm
      rcases List.mem_cons.1 hm with rfl | hm
      · -- the push is enabled behind a check only
        simp only [step, if_neg (hj cmd)] at hs
        cases hs
      · exact ih rest locked' hj' hm

theorem neverDecreases_of_undisturbed (h : Trace (step quote) init as t) (hu : Undisturbed as) :
    NeverDecreases quote as := by
  refine Trace.Guarded.of_forall h ?_
  rintro pre a post u v rfl hpre _ w hw
  rw [step_level hw]
  cases a with
  | setWrite i level =>
    have writing : u.thread i = .setWriting level := by
      simp only [step] at hw
      split at hw
      · assumption
      · cases hw
    exact (qosInv_run hpre).writing i level writing (hu pre i level post rfl)
  | _ => exact Nat.le_refl _

theorem undisturbed_of_neverDecreases (h : Trace (step quote) init as t) (hn : NeverDecreases quote as) :
    Undisturbed as := by
  rintro pre i level post rfl j written hm
  obtain ⟨old, hold⟩ := sinceRead_suffix i pre
  obtain ⟨front, back, hb⟩ := List.append_of_mem hm
  -- the level stored in between is still reached when the write comes
  have cut : pre = (old ++ front) ++ .setWrite j written :: back := by rw [hold, hb]; simp
  subst cut
  obtain ⟨u, hu, hrest⟩ := h.split
  obtain ⟨v, hv, _⟩ := hrest.cons_inv
  obtain ⟨hpre, hpost⟩ := hn.split hu
  obtain ⟨w, hw, hback⟩ := hu.split
  obtain ⟨x, hx, hxu⟩ := hback.cons_inv
  have stored : x.level = written := step_level hx
  have lifted : x.level ≤ u.level := by
    have guarded := (hpre.split hw).2
    cases guarded with
    | cons hx' _ rest =>
      rw [Option.some.inj (hx'.symm.trans hx)] at rest
      exact level_le_of_rises rest hxu
  have last : u.level ≤ v.level := hpost.head v hv
  rw [step_level hv] at last
  exact stored ▸ Nat.le_trans lifted last

theorem guardsQueue_of_neverDecreases (h : Trace (step quote) init as t) (hn : NeverDecreases quote as) :
    GuardsQueue as := by
  rintro pre i level mid j cmd post rfl high cmd'
  obtain ⟨u, hu, hrest⟩ := h.split
  obtain ⟨v, hv, hmid⟩ := hrest.cons_inv
  obtain ⟨w, hw, hcall⟩ := hmid.split
  obtain ⟨x, hx, hpost⟩ := hcall.cons_inv
  have stored : v.level = level := step_level hv
  have locked : LockLevel.run ≤ v.level := by
    rw [stored]
    rcases high with rfl | rfl <;> decide
  have guarded := (hn.split hu).2
  cases guarded with
  | cons hv' _ rest =>
    rw [Option.some.inj (hv'.symm.trans hv)] at rest
    obtain ⟨hmid', hcall'⟩ := rest.split hw
    cases hcall' with
    | cons hx' _ rest' =>
      rw [Option.some.inj (hx'.symm.trans hx)] at rest'
      have locked' : LockLevel.run ≤ x.level := by
        rw [step_level hx]
        exact Nat.le_trans locked (level_le_of_rises hmid' hw)
      refine no_push rest' hpost locked' ?_ cmd'
      intro cmd'' hc
      simp only [step] at hx
      split at hx
      · cases hx
        simp at hc
      · cases hx

/-- **The level rises and guards the queue exactly in the undisturbed runs.** -/
theorem guarded_iff_undisturbed (quote : String → String) (as : List QosAction) (t : QosState)
    (h : Trace (step quote) init as t) : (NeverDecreases quote as ∧ GuardsQueue as) ↔ Undisturbed as := by
  constructor
  · rintro ⟨hn, _⟩
    exact undisturbed_of_neverDecreases h hn
  · intro hu
    have hn := neverDecreases_of_undisturbed h hu
    exact ⟨hn, guardsQueue_of_neverDecreases h hn⟩

end Runs

end Audesys.Amw

/-! ## Two runs -/

namespace Audesys.Amw

open Audesys.Lib Audesys.Runtime QosState

local instance asciiQos : LowerMap := .ascii

/-- The command `loadComponent`. -/
def loadComponent : ConfigCommand := ⟨7, "loadComponent", []⟩

/-- Thread 1 reads the level `None`, thread 0 locks at `Run`, thread 1 writes `Load`, thread 2 queues. -/
def overtakenLevels : List QosAction :=
  [.setCall 0 .run, .setCall 1 .load, .setRead 1, .setRead 0, .setWrite 0 .run, .setWrite 1 .load,
    .queueCall 2 loadComponent, .queueRead 2, .queuePush 2 loadComponent]

/-- Behind an applied lock at `Run` the level goes down, and a command is queued. -/
theorem overtakenLevels_unguarded :
    (∃ t, Trace (step id) init overtakenLevels t ∧ t.qos.configQueue = [loadComponent] ∧
      t.thread 2 = .idle (some .queued)) ∧
      ¬ NeverDecreases id overtakenLevels ∧ ¬ GuardsQueue overtakenLevels := by
  refine ⟨?_, ?_, ?_⟩
  · exact ⟨_, .cons rfl <| .cons rfl <| .cons rfl <| .cons rfl <| .cons rfl <| .cons rfl <| .cons rfl <|
      .cons rfl <| .cons rfl <| .nil _, rfl, rfl⟩
  · intro hn
    have run : ∃ t, Trace (step id) init overtakenLevels t := ⟨_, .cons rfl <| .cons rfl <| .cons rfl <|
      .cons rfl <| .cons rfl <| .cons rfl <| .cons rfl <| .cons rfl <| .cons rfl <| .nil _⟩
    obtain ⟨t, ht⟩ := run
    have low := undisturbed_of_neverDecreases ht hn (overtakenLevels.take 5) 1 .load (overtakenLevels.drop 6) rfl
      0 .run (by decide)
    exact absurd low (by decide)
  · intro hg
    exact hg (overtakenLevels.take 4) 0 .run [.setWrite 1 .load] 2 loadComponent
      [.queueRead 2, .queuePush 2 loadComponent] rfl (Or.inl rfl) loadComponent (by decide)

/-- One caller after the other: `Load`, then `Run`, then a refused command. -/
def orderlyLevels : List QosAction :=
  [.setCall 0 .load, .setRead 0, .setWrite 0 .load, .setCall 1 .run, .setRead 1, .setWrite 1 .run,
    .queueCall 2 loadComponent, .queueRead 2]

theorem orderlyLevels_undisturbed : Undisturbed orderlyLevels := by
  intro pre i level post h j written hm
  rcases pre with _ | ⟨_, _ | ⟨_, _ | ⟨_, _ | ⟨_, _ | ⟨_, _ | ⟨_, _ | ⟨_, _ | ⟨_, _⟩⟩⟩⟩⟩⟩⟩⟩ <;>
    simp [orderlyLevels] at h
  · obtain ⟨rfl, rfl, ⟨rfl, rfl⟩, rfl⟩ := h
    simp [sinceRead] at hm
  · obtain ⟨rfl, rfl, rfl, rfl, rfl, ⟨rfl, rfl⟩, rfl⟩ := h
    simp [sinceRead] at hm

theorem orderlyLevels_guarded :
    (∃ t, Trace (step id) init orderlyLevels t) ∧ NeverDecreases id orderlyLevels ∧ GuardsQueue orderlyLevels := by
  have run : ∃ t, Trace (step id) init orderlyLevels t := ⟨_, .cons rfl <| .cons rfl <| .cons rfl <|
    .cons rfl <| .cons rfl <| .cons rfl <| .cons rfl <| .cons rfl <| .nil _⟩
  obtain ⟨t, ht⟩ := run
  exact ⟨⟨t, ht⟩, (guarded_iff_undisturbed id orderlyLevels t ht).2 orderlyLevels_undisturbed⟩

end Audesys.Amw
