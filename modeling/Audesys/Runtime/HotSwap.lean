import Audesys.Lib.Trace
import Audesys.Hal.Host
import Audesys.Runtime.Engine

/-!
# `Runtime.HotSwap` — hot swap under every interleaving

`prepare_swap`, `commit_swap` and `rollback_swap` run on any number of client threads, next to the engine
thread that takes the pending program at a cycle boundary. Two cells are shared: the pending program (a
`RwLock`) and the committed flag (an atomic). Each access is one action of the system:

* `prepare_swap` writes the pending cell once;
* `commit_swap` checks the pending cell, then stores the flag;
* `rollback_swap` clears the pending cell, then clears the flag;
* the cycle boundary loads the flag, takes and installs the pending program, then clears the flag. From the
  take on it holds the write lock of the pending cell, so nothing else touches that cell until it is done.

The property is that an installed program was committed *as the pending program*. Nothing ties the flag to
the program it was stored for: `prepare_swap` leaves the flag as it is, so a program prepared over a
committed one is installed without a commit of its own. By `hotSwapSafe_of_quiet`, if every
`prepare_swap` finds the protocol at rest, every installation is covered.
-/

namespace Audesys.Runtime

open Audesys.Hal Audesys.Lib

variable [Target]
variable {pre : List SwapAction} {codec : Codec} {x : SwapAction} {s t : SwapState}

/-! ## The system -/

/-- Where a client thread stands inside its current call. -/
inductive ClientPc where
  /-- No call in progress. -/
  | idle
  /-- Inside `commit_swap`, past its check. -/
  | committing
  /-- Inside `rollback_swap`, past the clearing of the pending cell. -/
  | rollingBack
  deriving DecidableEq

/-- Where the engine thread stands inside step 1.5 of the cycle. -/
inductive CyclePc where
  | idle
  /-- The flag was loaded as `true`; the pending cell is not locked yet. -/
  | loaded
  /-- The pending program is taken; the cell's lock is held. -/
  | storing
  deriving DecidableEq

structure SwapState where
  engine : Engine
  client : Nat → ClientPc
  cycle : CyclePc

inductive SwapAction where
  | prepare (bytes : List UInt8)
  | commitCheck (i : Nat)
  | commitStore (i : Nat)
  | rollbackClear (i : Nat)
  | rollbackStore (i : Nat)
  | cycleLoad
  | cycleTake
  | cycleStore
  deriving DecidableEq

namespace SwapState

/-- A fresh engine, nobody inside a call. -/
def init : SwapState := ⟨.new, fun _ => .idle, .idle⟩

def setClient (s : SwapState) (i : Nat) (pc : ClientPc) : SwapState :=
  { s with client := fun j => if j = i then pc else s.client j }

@[simp] theorem setClient_client (s : SwapState) (i j : Nat) (pc : ClientPc) :
    (s.setClient i pc).client j = if j = i then pc else s.client j := rfl

/-- A thread that stands elsewhere than where thread `i` has just been put was there before. -/
theorem client_of_setClient {s : SwapState} {i j : Nat} {pc pc' : ClientPc}
    (h : (s.setClient i pc).client j = pc') (hne : pc ≠ pc') : s.client j = pc' := by
  rw [setClient_client] at h
  split at h
  · exact absurd h hne
  · exact h

/-- One access. `none`: the thread is not at that point of its call, or the lock it needs is held. -/
def step (codec : Codec) (s : SwapState) : SwapAction → Option SwapState
  | .prepare bytes =>
    match s.engine.prepareSwap codec bytes with
    -- a rejected program never reaches the lock
    | .error _ => some s
    | .ok e => if s.cycle = .storing then none else some { s with engine := e }
  | .commitCheck i =>
    if s.client i = .idle ∧ s.cycle ≠ .storing then
      match s.engine.commitCheck with
      | .error _ => some s
      | .ok () => some (s.setClient i .committing)
    else none
  | .commitStore i =>
    if s.client i = .committing then
      some ({ s with engine := s.engine.commitStore }.setClient i .idle)
    else none
  | .rollbackClear i =>
    if s.client i = .idle ∧ s.cycle ≠ .storing then
      some ({ s with engine := s.engine.rollbackClear }.setClient i .rollingBack)
    else none
  | .rollbackStore i =>
    if s.client i = .rollingBack then
      some ({ s with engine := s.engine.rollbackStore }.setClient i .idle)
    else none
  | .cycleLoad =>
    if s.cycle = .idle then
      some (if s.engine.swapCommitted then { s with cycle := .loaded } else s)
    else none
  | .cycleTake =>
    if s.cycle = .loaded then some { s with engine := s.engine.takePending, cycle := .storing } else none
  | .cycleStore =>
    if s.cycle = .storing then some { s with engine := s.engine.clearCommitted, cycle := .idle } else none

end SwapState

open SwapState

/-! ## The property -/

/-- The `prepare_swap` call with these bytes succeeds. -/
def Accepts (codec : Codec) (bytes : List UInt8) : Prop :=
  ∃ program, Engine.validate codec "deserialize: " bytes = .ok program

/-- In the part `b` of a run no rollback completed and no program was prepared. -/
def Undisturbed (codec : Codec) (b : List SwapAction) : Prop :=
  (∀ bytes, .prepare bytes ∈ b → ¬ Accepts codec bytes) ∧ ∀ j, .rollbackStore j ∉ b

/-- After the run `pre`: thread `i` made the check of a `commit_swap` while `P` was pending, and nothing
    disturbed it since. -/
def Checked (codec : Codec) (i : Nat) (pre : List SwapAction) (P : HalProgram) : Prop :=
  ∃ a b s, pre = a ++ .commitCheck i :: b ∧ Trace (step codec) init a s ∧
    s.engine.pendingSwap = some P ∧ Undisturbed codec b

/-- As `Checked`, and that call has returned `Ok`: past its check a thread can only store the flag and
    return. -/
def Covered (codec : Codec) (pre : List SwapAction) (P : HalProgram) : Prop :=
  ∃ i a b s, pre = a ++ .commitCheck i :: b ∧ Trace (step codec) init a s ∧
    s.engine.pendingSwap = some P ∧ Undisturbed codec b ∧ .commitStore i ∈ b

/-- **Hot-swap safety** of a run: whatever a cycle boundary of it installs is covered by a commit. -/
def HotSwapSafe (codec : Codec) (as : List SwapAction) : Prop :=
  ∀ pre post s P, as = pre ++ .cycleTake :: post → Trace (step codec) init pre s →
    s.engine.pendingSwap = some P → Covered codec pre P

/-- The protocol is at rest for an accepted `prepare_swap`: the flag is clear, and nobody is inside a commit,
    a rollback or between the load and the take of a cycle boundary. -/
def Quiet (codec : Codec) (s : SwapState) : SwapAction → Prop
  | .prepare bytes =>
    Accepts codec bytes → s.engine.swapCommitted = false ∧ (∀ i, s.client i = .idle) ∧ s.cycle ≠ .loaded
  | _ => True

/-! ## Runs extend -/

/-- An action that neither prepares a program nor completes a rollback. -/
def Harmless (codec : Codec) (x : SwapAction) : Prop := Undisturbed codec [x]

theorem Undisturbed.snoc {b : List SwapAction} (h : Undisturbed codec b)
    (hx : Harmless codec x) : Undisturbed codec (b ++ [x]) := by
  obtain ⟨hp, hr⟩ := h
  obtain ⟨hp', hr'⟩ := hx
  refine ⟨?_, ?_⟩
  · intro bytes hm
    rcases List.mem_append.1 hm with hm | hm
    · exact hp bytes hm
    · exact hp' bytes hm
  · intro j hm
    rcases List.mem_append.1 hm with hm | hm
    · exact hr j hm
    · exact hr' j hm

theorem Checked.snoc {i : Nat} {P : HalProgram}
    (h : Checked codec i pre P) (hx : Harmless codec x) : Checked codec i (pre ++ [x]) P := by
  obtain ⟨a, b, s, rfl, ht, hs, hb⟩ := h
  exact ⟨a, b ++ [x], s, by simp, ht, hs, hb.snoc hx⟩

theorem Covered.snoc {P : HalProgram}
    (h : Covered codec pre P) (hx : Harmless codec x) : Covered codec (pre ++ [x]) P := by
  obtain ⟨i, a, b, s, rfl, ht, hs, hb, hm⟩ := h
  exact ⟨i, a, b ++ [x], s, by simp, ht, hs, hb.snoc hx, List.mem_append_left _ hm⟩

/-- The store that ends a checked commit covers the pending program. -/
theorem Checked.store {i : Nat} {P : HalProgram}
    (h : Checked codec i pre P) : Covered codec (pre ++ [SwapAction.commitStore i]) P := by
  obtain ⟨a, b, s, rfl, ht, hs, hb⟩ := h
  refine ⟨i, a, b ++ [SwapAction.commitStore i], s, by simp, ht, hs, hb.snoc ⟨by simp, by simp⟩, by simp⟩

/-! ## The invariant -/

/-- What holds after every run whose preparations are quiet. -/
structure SwapInv (codec : Codec) (pre : List SwapAction) (s : SwapState) : Prop where
  /-- As long as the flag (or the boundary's reading of it) stands, the pending program is covered. -/
  covered : s.engine.swapCommitted = true ∨ s.cycle = .loaded →
    ∀ P, s.engine.pendingSwap = some P → Covered codec pre P
  /-- A commit past its check has checked the program that is pending now. -/
  checked : ∀ i, s.client i = .committing → ∀ P, s.engine.pendingSwap = some P → Checked codec i pre P
  /-- Nothing is prepared under an unfinished rollback. -/
  cleared : ∀ i, s.client i = .rollingBack → s.engine.pendingSwap = none

/-- Nothing pending: the invariant has nothing to say. -/
theorem SwapInv.of_none {s : SwapState} (h : s.engine.pendingSwap = none) : SwapInv codec pre s where
  covered := fun _ P hP => by rw [h] at hP; cases hP
  checked := fun _ _ P hP => by rw [h] at hP; cases hP
  cleared := fun _ _ => h

/-- An action that changes neither cell nor any program counter keeps the invariant. -/
theorem SwapInv.stay {s : SwapState}
    (h : SwapInv codec pre s) (hx : Harmless codec x) : SwapInv codec (pre ++ [x]) s where
  covered := fun hc P hP => (h.covered hc P hP).snoc hx
  checked := fun i hi P hP => (h.checked i hi P hP).snoc hx
  cleared := h.cleared

theorem swapInv_prepare {bytes : List UInt8} (h : SwapInv codec pre s) (hq : Quiet codec s (.prepare bytes))
    (hs : step codec s (.prepare bytes) = some t) : SwapInv codec (pre ++ [SwapAction.prepare bytes]) t := by
  cases hv : Engine.validate codec "deserialize: " bytes with
  | error msg =>
    simp [step, Engine.prepareSwap, hv] at hs
    subst hs
    refine h.stay ⟨?_, by simp⟩
    rintro bytes' hm ⟨program, hp⟩
    simp [SwapAction.prepare.injEq] at hm
    rw [hm, hv] at hp
    cases hp
  | ok program =>
    obtain ⟨hf, hi, hl⟩ := hq ⟨program, hv⟩
    simp only [step, Engine.prepareSwap, hv] at hs
    split at hs
    · cases hs
    · cases hs
      -- at rest there is no reading of the flag left that could install the new program
      refine ⟨?_, ?_, ?_⟩
      · rintro (hc | hc)
        · rw [show _ = s.engine.swapCommitted from rfl, hf] at hc; cases hc
        · exact absurd hc hl
      · intro i hc; rw [show _ = s.client i from rfl, hi i] at hc; cases hc
      · intro i hc; rw [show _ = s.client i from rfl, hi i] at hc; cases hc

theorem swapInv_commitCheck {i : Nat} (hr : Trace (step codec) init pre s) (h : SwapInv codec pre s)
    (hs : step codec s (.commitCheck i) = some t) : SwapInv codec (pre ++ [SwapAction.commitCheck i]) t := by
  have hx : Harmless codec (.commitCheck i) := ⟨by simp, by simp⟩
  simp only [step] at hs
  split at hs
  · cases hp : s.engine.pendingSwap with
    | none =>
      simp [Engine.commitCheck, hp] at hs
      subst hs
      exact h.stay hx
    | some Q =>
      simp [Engine.commitCheck, hp] at hs
      subst hs
      refine ⟨fun hc P hP => (h.covered hc P hP).snoc hx, ?_, ?_⟩
      · intro j hj P hP
        by_cases hji : j = i
        · -- the check itself opens the window
          subst hji
          exact ⟨pre, [], s, rfl, hr, hP, by simp, by simp⟩
        · rw [setClient_client, if_neg hji] at hj
          exact (h.checked j hj P hP).snoc hx
      · intro j hj
        exact h.cleared j (client_of_setClient hj (by decide))
  · cases hs

theorem swapInv_commitStore {i : Nat} (h : SwapInv codec pre s) (hs : step codec s (.commitStore i) = some t) :
    SwapInv codec (pre ++ [SwapAction.commitStore i]) t := by
  have hx : Harmless codec (.commitStore i) := ⟨by simp, by simp⟩
  simp only [step] at hs
  split at hs
  · rename_i hi
    cases hs
    refine ⟨fun _ P hP => (h.checked i hi P hP).store, ?_, ?_⟩
    · intro j hj P hP
      exact (h.checked j (client_of_setClient hj (by decide)) P hP).snoc hx
    · intro j hj
      exact h.cleared j (client_of_setClient hj (by decide))
  · cases hs

theorem swapInv_cycle (hx : x = .cycleLoad ∨ x = .cycleTake ∨ x = .cycleStore) (h : SwapInv codec pre s)
    (hs : step codec s x = some t) : SwapInv codec (pre ++ [x]) t := by
  have hh : Harmless codec x := by rcases hx with rfl | rfl | rfl <;> exact ⟨by simp, by simp⟩
  rcases hx with rfl | rfl | rfl
  · simp only [step] at hs
    split at hs
    · cases hs
      split
      · rename_i hc
        refine ⟨fun _ P hP => (h.covered (.inl hc) P hP).snoc hh, (h.stay hh).checked, h.cleared⟩
      · exact h.stay hh
    · cases hs
  · simp only [step] at hs
    split at hs
    · cases hs
      refine .of_none ?_
      show s.engine.takePending.pendingSwap = none
      cases hp : s.engine.pendingSwap with
      | none => simp [Engine.takePending, hp]
      | some P => simp [Engine.takePending, hp, Engine.install, Engine.registerOutputs_pendingSwap]
    · cases hs
  · simp only [step] at hs
    split at hs
    · cases hs
      refine ⟨?_, (h.stay hh).checked, h.cleared⟩
      rintro (hc | hc) <;> cases hc
    · cases hs

theorem swapInv_step (hr : Trace (step codec) init pre s) (h : SwapInv codec pre s) (hq : Quiet codec s x)
    (hs : step codec s x = some t) : SwapInv codec (pre ++ [x]) t := by
  cases x with
  | prepare bytes => exact swapInv_prepare h hq hs
  | commitCheck i => exact swapInv_commitCheck hr h hs
  | commitStore i => exact swapInv_commitStore h hs
  | rollbackClear i =>
    simp only [step] at hs
    split at hs
    · cases hs; exact .of_none rfl
    · cases hs
  | rollbackStore i =>
    simp only [step] at hs
    split at hs
    · rename_i hi
      cases hs
      exact .of_none (h.cleared i hi)
    · cases hs
  | cycleLoad => exact swapInv_cycle (by simp) h hs
  | cycleTake => exact swapInv_cycle (by simp) h hs
  | cycleStore => exact swapInv_cycle (by simp) h hs

/-- The invariant holds along every run with quiet preparations. -/
theorem swapInv_run {as : List SwapAction} {s : SwapState}
    (h : Trace (step codec) init as s) (hq : Trace.Guarded (step codec) (Quiet codec) init as) :
    SwapInv codec as s :=
  Trace.invariant_of_guard (I := SwapInv codec) (.of_none rfl)
    (fun _ _ _ _ hr hi hg hs => swapInv_step hr hi hg hs) h hq

/-! ## Main result -/

/-- **Hot-swap safety.** In every interleaving in which each accepted `prepare_swap` finds the protocol at
    rest, every installed program was committed while it was pending, and neither a rollback nor another
    preparation completed since. -/
theorem hotSwapSafe_of_quiet (codec : Codec) (as : List SwapAction) (t : SwapState)
    (hrun : Trace (step codec) init as t) (hq : Trace.Guarded (step codec) (Quiet codec) init as) :
    HotSwapSafe codec as := by
  intro pre post s P has hs hP
  subst has
  obtain ⟨u, hu, hrest⟩ := hrun.split
  have hus : u = s := hu.det hs
  subst hus
  obtain ⟨v, hv, _⟩ := hrest.cons_inv
  have hl : u.cycle = .loaded := by
    simp only [step] at hv
    split at hv
    · assumption
    · cases hv
  have hinv : SwapInv codec pre u := swapInv_run hu (hq.split hu).1
  exact hinv.covered (.inr hl) P hP

end Audesys.Runtime

/-! ## Two runs on concrete images -/

namespace Audesys.Runtime

open Audesys.Hal Audesys.Lib SwapState

/-- The `bincode` image of the program with a one-letter name and a single `Halt`. -/
def haltImage (name : UInt8) : List UInt8 :=
  [1, 0, 0, 0, 0, 0, 0, 0, name] ++ List.replicate 16 0 ++ [1, 0, 0, 0, 0, 0, 0, 0] ++
    [33, 0, 0, 0] ++ List.replicate 16 0

/-- The program of that image. -/
def haltProgram [Target] (name : String) : HalProgram := .new name [.halt]

/-- A decoder that knows two images. -/
def haltCodec [Target] : Codec where
  deserialize bytes :=
    if bytes = haltImage 0x41 then .ok (haltProgram "A")
    else if bytes = haltImage 0x42 then .ok (haltProgram "B")
    else .error "io error: unexpected end of file"
  parseYaml _ := .ok ()

local instance releaseSwap : Target := host false

/-- Prepare and commit `A`, prepare `B` over it, reach a cycle boundary. -/
def overtakenRun : List SwapAction :=
  [.prepare (haltImage 0x41), .commitCheck 0, .commitStore 0, .prepare (haltImage 0x42), .cycleLoad, .cycleTake]

theorem haltCodec_accepts_B : Accepts haltCodec (haltImage 0x42) := ⟨haltProgram "B", rfl⟩

/-- The flag stored for `A` installs `B`, for which nobody ever called `commit_swap`. -/
theorem overtakenRun_unsafe :
    (∃ t : SwapState, Trace (step haltCodec) init overtakenRun t ∧ t.engine.halProgram = some (haltProgram "B")) ∧
      ¬ HotSwapSafe haltCodec overtakenRun := by
  have hrun : ∃ t : SwapState, Trace (step haltCodec) init overtakenRun t ∧
      t.engine.halProgram = some (haltProgram "B") :=
    ⟨_, .cons rfl (.cons rfl (.cons rfl (.cons rfl (.cons rfl (.cons rfl (.nil _)))))), rfl⟩
  refine ⟨hrun, fun hsafe => ?_⟩
  have hpre : ∃ s : SwapState, Trace (step haltCodec) init overtakenRun.dropLast s ∧
      s.engine.pendingSwap = some (haltProgram "B") :=
    ⟨_, .cons rfl (.cons rfl (.cons rfl (.cons rfl (.cons rfl (.nil _))))), rfl⟩
  obtain ⟨s, hs, hP⟩ := hpre
  obtain ⟨i, a, b, _, hsplit, _, _, ⟨hprep, _⟩, _⟩ := hsafe overtakenRun.dropLast [] s _ rfl hs hP
  -- the only check of the run comes before the second preparation
  have hb : .prepare (haltImage 0x42) ∈ b := by
    simp only [overtakenRun, List.dropLast_cons_cons, List.dropLast_singleton] at hsplit
    rcases a with _ | ⟨_, _ | ⟨_, _ | ⟨_, _ | ⟨_, _ | ⟨_, _⟩⟩⟩⟩⟩ <;> simp at hsplit
    obtain ⟨_, _, rfl⟩ := hsplit
    simp
  exact hprep _ hb haltCodec_accepts_B

/-- Prepare, commit, cycle boundary, with a rejected preparation in between. -/
def plainRun : List SwapAction :=
  [.prepare (haltImage 0x41), .commitCheck 0, .prepare [], .commitStore 0, .cycleLoad, .cycleTake, .cycleStore]

theorem haltCodec_rejects_nil : ¬ Accepts haltCodec [] := by
  rintro ⟨program, h⟩
  cases h

theorem plainRun_quiet : Trace.Guarded (step haltCodec) (Quiet haltCodec) init plainRun :=
  .cons rfl (fun _ => ⟨rfl, fun _ => rfl, nofun⟩) <| .cons rfl trivial <|
    .cons rfl (fun h => absurd h haltCodec_rejects_nil) <| .cons rfl trivial <| .cons rfl trivial <|
    .cons rfl trivial <| .cons rfl trivial <| .nil _

theorem plainRun_safe : HotSwapSafe haltCodec plainRun :=
  hotSwapSafe_of_quiet haltCodec plainRun _
    (.cons rfl (.cons rfl (.cons rfl (.cons rfl (.cons rfl (.cons rfl (.cons rfl (.nil _))))))))
    plainRun_quiet

end Audesys.Runtime
