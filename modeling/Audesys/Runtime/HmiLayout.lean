import Audesys.Lib.Trace
import Audesys.Hal.Host
import Audesys.Runtime.Engine

/-!
# `Runtime.HmiLayout` — layout deployments under every interleaving

`deploy_hmi_layout` runs on any number of client threads, next to the engine thread that applies the pending layout
at a cycle boundary. A deployment makes two accesses: it takes the next generation number, and it overwrites the
pending cell; a cycle boundary takes the pending cell and makes what is in it the active layout. Each access is one
action of the system. File writes of the engine succeed.

Generations never go back, and the newest layout wins, as long as no deployment is overtaken: whoever overwrites
the pending cell holds a larger number than everybody who did so before (`neverBack_of_inOrder`). Nothing in
the code sees to that.
-/

namespace Audesys.Runtime

open Audesys.Hal Audesys.Lib

variable [Target]

/-! ## The accesses -/

namespace Engine

/-- First access of `deploy_hmi_layout`: the counter moves on, and the call goes on with its new value; `none` is the
panic of the addition behind `fetch_add`. -/
def takeGeneration (e : Engine) : Engine × Option UInt64 :=
  ({ e with hmiLayoutGeneration := e.hmiLayoutGeneration + 1 }, MachineInt.add e.hmiLayoutGeneration 1)

/-- Second access of `deploy_hmi_layout`. -/
def storePendingLayout (e : Engine) (yaml : List UInt8) (generation : UInt64) : Engine :=
  { e with pendingHmiLayout := some (yaml, generation) }

/-- Step 1.6 of the cycle. -/
def applyPendingLayout (e : Engine) : Engine :=
  match e.pendingHmiLayout with
  | some layout => { e with pendingHmiLayout := none, hmiLayout := some layout }
  | none => e

def getHmiLayout (e : Engine) : Option (List UInt8 × UInt64) := e.hmiLayout

end Engine

/-! ## The system -/

/-- Where a client thread stands. -/
inductive DeployPc where
  | idle
  /-- Inside `deploy_hmi_layout`, with the number it took. -/
  | holding (yaml : List UInt8) (generation : UInt64)
  /-- The addition panicked. -/
  | panicked
  deriving DecidableEq

structure LayoutState where
  engine : Engine
  client : Nat → DeployPc
  /-- The layouts that got a number, with it. -/
  handedOut : List (List UInt8 × UInt64)

inductive LayoutAction where
  | take (i : Nat) (yaml : List UInt8)
  | store (i : Nat)
  | cycle
  deriving DecidableEq

namespace LayoutState

/-- A fresh engine, nobody inside a call. -/
def init : LayoutState := ⟨.new, fun _ => .idle, []⟩

def setClient (s : LayoutState) (i : Nat) (pc : DeployPc) : LayoutState :=
  { s with client := fun j => if j = i then pc else s.client j }

@[simp] theorem setClient_client (s : LayoutState) (i j : Nat) (pc : DeployPc) :
    (s.setClient i pc).client j = if j = i then pc else s.client j := rfl

/-- Behind the first access of a call of thread `i`. -/
def numbered (s : LayoutState) (i : Nat) (yaml : List UInt8) (taken : Engine × Option UInt64) : LayoutState :=
  match taken.2 with
  | some generation =>
    { s with
      engine := taken.1
      handedOut := s.handedOut ++ [(yaml, generation)] }.setClient i (.holding yaml generation)
  | none => { s with engine := taken.1 }.setClient i .panicked

/-- One access. `none`: the thread is not at that point of its call. -/
def step (codec : Codec) (s : LayoutState) : LayoutAction → Option LayoutState
  | .take i yaml =>
    match s.client i with
    | .idle =>
      match codec.parseYaml yaml with
      -- a rejected layout gets no number
      | .error _ => some s
      | .ok () => some (s.numbered i yaml s.engine.takeGeneration)
    | _ => none
  | .store i =>
    match s.client i with
    | .holding yaml generation =>
      some ({ s with engine := s.engine.storePendingLayout yaml generation }.setClient i .idle)
    | _ => none
  | .cycle => some { s with engine := s.engine.applyPendingLayout }

/-- What one access can do. -/
inductive Step (s : LayoutState) : LayoutAction → LayoutState → Prop
  | rejected {i : Nat} {yaml : List UInt8} : Step s (.take i yaml) s
  | taken {i : Nat} {yaml : List UInt8} {generation : UInt64} (hi : s.client i = .idle) :
      Step s (.take i yaml)
        ({ s with
          engine := s.engine.takeGeneration.1
          handedOut := s.handedOut ++ [(yaml, generation)] }.setClient i (.holding yaml generation))
  | panicked {i : Nat} {yaml : List UInt8} (hi : s.client i = .idle) :
      Step s (.take i yaml) ({ s with engine := s.engine.takeGeneration.1 }.setClient i .panicked)
  | stored {i : Nat} {yaml : List UInt8} {generation : UInt64} (hi : s.client i = .holding yaml generation) :
      Step s (.store i) ({ s with engine := s.engine.storePendingLayout yaml generation }.setClient i .idle)
  | cycle : Step s .cycle { s with engine := s.engine.applyPendingLayout }

theorem Step.numbered {s : LayoutState} {i : Nat} {yaml : List UInt8} {taken : Engine × Option UInt64}
    (hi : s.client i = .idle) (htaken : s.engine.takeGeneration.1 = taken.1) :
    Step s (.take i yaml) (s.numbered i yaml taken) := by
  obtain ⟨engine, generation?⟩ := taken
  obtain rfl : s.engine.takeGeneration.1 = engine := htaken
  cases generation? with
  | some generation => exact .taken hi
  | none => exact .panicked hi

theorem step_cases {codec : Codec} {s t : LayoutState} {a : LayoutAction} (h : step codec s a = some t) : Step s a t := by
  cases a with
  | take i yaml =>
    simp only [step] at h
    split at h
    · rename_i hi
      split at h
      · cases h
        exact .rejected
      · obtain rfl := Option.some.inj h
        exact .numbered hi rfl
    · cases h
  | store i =>
    simp only [step] at h
    split at h
    · rename_i yaml generation hi
      cases h
      exact .stored hi
    · cases h
  | cycle =>
    cases h
    exact .cycle

/-- The layout that was stored last: it is pending, or it is active. -/
def newest (s : LayoutState) : Option (List UInt8 × UInt64) :=
  match s.engine.pendingHmiLayout with
  | some layout => some layout
  | none => s.engine.hmiLayout

end LayoutState

open LayoutState

/-! ## The property -/

/-- Between any two points of a run the generation of the active layout does not decrease. -/
def NeverBack (codec : Codec) (as : List LayoutAction) : Prop :=
  ∀ pre mid post s t, as = pre ++ (mid ++ post) → Trace (step codec) init pre s → Trace (step codec) s mid t →
    ∀ layout, s.engine.getHmiLayout = some layout → ∃ layout', t.engine.getHmiLayout = some layout' ∧ layout.2 ≤ layout'.2

/-- No call is in progress. -/
def Finished (s : LayoutState) : Prop := ∀ i yaml generation, s.client i ≠ .holding yaml generation

/-- After a cycle boundary that finds all calls finished, the layout with the highest number is active. -/
def NewestWins (codec : Codec) (as : List LayoutAction) : Prop :=
  ∀ pre post t, as = pre ++ .cycle :: post → Trace (step codec) init (pre ++ [LayoutAction.cycle]) t → Finished t →
    t.handedOut ≠ [] → ∃ layout ∈ t.handedOut, t.engine.getHmiLayout = some layout ∧ ∀ other ∈ t.handedOut, other.2 ≤ layout.2

/-- No deployment is overtaken: a store finds only smaller numbers in the pending cell and in the active layout. -/
def InOrder (s : LayoutState) : LayoutAction → Prop
  | .store i => ∀ yaml generation, s.client i = .holding yaml generation →
      (∀ layout, s.engine.pendingHmiLayout = some layout → layout.2 < generation) ∧
        ∀ layout, s.engine.hmiLayout = some layout → layout.2 < generation
  | _ => True

/-! ## The invariant -/

/-- What holds after every run without overtaking. -/
structure LayoutInv (s : LayoutState) : Prop where
  /-- What is stored got its number from the counter. -/
  newest_mem : ∀ layout, s.newest = some layout → layout ∈ s.handedOut
  /-- What waits is newer than what is active. -/
  active_le : ∀ active pending, s.engine.hmiLayout = some active → s.engine.pendingHmiLayout = some pending →
    active.2 ≤ pending.2
  /-- Every number is still on its way, or something at least as new has been stored. -/
  accounted : ∀ layout ∈ s.handedOut, (∃ i, s.client i = .holding layout.1 layout.2) ∨
    ∃ stored, s.newest = some stored ∧ layout.2 ≤ stored.2
  /-- What is on its way got its number from the counter. -/
  held_mem : ∀ i yaml generation, s.client i = .holding yaml generation → (yaml, generation) ∈ s.handedOut

theorem layoutInv_init : LayoutInv init where
  newest_mem := by
    intro layout h
    cases h
  active_le := by
    intro active pending h
    cases h
  accounted := by
    intro layout h
    cases h
  held_mem := by
    intro i yaml generation h
    cases h

/-- A number on its way stays there when a thread leaves `idle`. -/
theorem held_of_idle {s : LayoutState} {i j : Nat} {pc : DeployPc} {yaml : List UInt8} {generation : UInt64}
    (hi : s.client i = .idle) (hj : s.client j = .holding yaml generation) :
    (s.setClient i pc).client j = .holding yaml generation := by
  rw [setClient_client, if_neg]
  · exact hj
  · rintro rfl
    rw [hi] at hj
    cases hj

/-- The addition panics. -/
theorem layoutInv_panicked {s : LayoutState} {i : Nat} (h : LayoutInv s) (hi : s.client i = .idle) :
    LayoutInv ({ s with engine := s.engine.takeGeneration.1 }.setClient i .panicked) := by
  refine ⟨h.newest_mem, h.active_le, ?_, ?_⟩
  · intro layout hl
    rcases h.accounted layout hl with ⟨j, hj⟩ | hstored
    · exact .inl ⟨j, held_of_idle hi hj⟩
    · exact .inr hstored
  · intro j yaml generation hj
    rw [setClient_client] at hj
    split at hj
    · cases hj
    · exact h.held_mem j yaml generation hj

/-- A thread takes a number. -/
theorem layoutInv_take {s : LayoutState} {i : Nat} {yaml : List UInt8} {generation : UInt64} (h : LayoutInv s)
    (hi : s.client i = .idle) :
    LayoutInv ({ s with
      engine := s.engine.takeGeneration.1
      handedOut := s.handedOut ++ [(yaml, generation)] }.setClient i (.holding yaml generation)) := by
  refine ⟨?_, h.active_le, ?_, ?_⟩
  · intro layout hl
    exact List.mem_append_left _ (h.newest_mem layout hl)
  · intro layout hl
    rcases List.mem_append.1 hl with hl | hl
    · rcases h.accounted layout hl with ⟨j, hj⟩ | hstored
      · exact .inl ⟨j, held_of_idle hi hj⟩
      · exact .inr hstored
    · rw [List.mem_singleton.1 hl]
      exact .inl ⟨i, by rw [setClient_client, if_pos rfl]⟩
  · intro j yaml' generation' hj
    rw [setClient_client] at hj
    split at hj
    · cases hj
      exact List.mem_append_right _ (List.mem_singleton_self _)
    · exact List.mem_append_left _ (h.held_mem j yaml' generation' hj)

/-- A store that overtakes nobody. -/
theorem layoutInv_store {s : LayoutState} {i : Nat} {yaml : List UInt8} {generation : UInt64} (h : LayoutInv s)
    (hi : s.client i = .holding yaml generation)
    (hpending : ∀ layout, s.engine.pendingHmiLayout = some layout → layout.2 < generation)
    (hactive : ∀ layout, s.engine.hmiLayout = some layout → layout.2 < generation) :
    LayoutInv ({ s with engine := s.engine.storePendingLayout yaml generation }.setClient i .idle) := by
  have hnewest : ∀ stored, s.newest = some stored → stored.2 ≤ generation := by
    intro stored hs
    unfold newest at hs
    split at hs
    · rename_i hp
      cases hs
      exact UInt64.le_of_lt (hpending _ hp)
    · exact UInt64.le_of_lt (hactive stored hs)
  refine ⟨?_, ?_, ?_, ?_⟩
  · intro layout hl
    cases hl
    exact h.held_mem i yaml generation hi
  · intro active pending ha hp
    cases hp
    exact UInt64.le_of_lt (hactive active ha)
  · intro layout hl
    rcases h.accounted layout hl with ⟨j, hj⟩ | ⟨stored, hs, hle⟩
    · by_cases hji : j = i
      · -- the number that is stored right now
        subst hji
        rw [hi] at hj
        cases hj
        exact .inr ⟨_, rfl, UInt64.le_refl _⟩
      · exact .inl ⟨j, by rw [setClient_client, if_neg hji]; exact hj⟩
    · exact .inr ⟨_, rfl, UInt64.le_trans hle (hnewest stored hs)⟩
  · intro j yaml' generation' hj
    rw [setClient_client] at hj
    split at hj
    · cases hj
    · exact h.held_mem j yaml' generation' hj

/-- A cycle boundary moves the newest layout, at most. -/
theorem newest_cycle (s : LayoutState) :
    LayoutState.newest { s with engine := s.engine.applyPendingLayout } = s.newest := by
  unfold newest Engine.applyPendingLayout
  cases hp : s.engine.pendingHmiLayout with
  | none =>
    show (match s.engine.pendingHmiLayout with | some layout => some layout | none => s.engine.hmiLayout) = _
    rw [hp]
  | some layout => rfl

theorem pending_cycle (e : Engine) : e.applyPendingLayout.pendingHmiLayout = none := by
  unfold Engine.applyPendingLayout
  split
  · rfl
  · assumption

theorem layoutInv_cycle {s : LayoutState} (h : LayoutInv s) :
    LayoutInv { s with engine := s.engine.applyPendingLayout } where
  newest_mem := by
    rw [newest_cycle]
    exact h.newest_mem
  active_le := by
    intro active pending _ hp
    rw [pending_cycle] at hp
    cases hp
  accounted := by
    rw [newest_cycle]
    exact h.accounted
  held_mem := h.held_mem

theorem layoutInv_step {codec : Codec} {s t : LayoutState} {a : LayoutAction} (h : LayoutInv s) (hg : InOrder s a)
    (hs : step codec s a = some t) : LayoutInv t := by
  cases step_cases hs with
  | rejected => exact h
  | taken hi => exact layoutInv_take h hi
  | panicked hi => exact layoutInv_panicked h hi
  | stored hi =>
    obtain ⟨hpending, hactive⟩ := hg _ _ hi
    exact layoutInv_store h hi hpending hactive
  | cycle => exact layoutInv_cycle h

theorem layoutInv_run {codec : Codec} {as : List LayoutAction} {s : LayoutState} (h : Trace (step codec) init as s)
    (hg : Trace.Guarded (step codec) InOrder init as) : LayoutInv s :=
  Trace.invariant_of_guard (I := fun _ => LayoutInv) layoutInv_init
    (fun _ _ _ _ _ hi hg hs => layoutInv_step hi hg hs) h hg

/-! ## Main result -/

/-- No action takes the active layout back. -/
theorem active_step {codec : Codec} {s t : LayoutState} {a : LayoutAction} (h : LayoutInv s)
    (hs : step codec s a = some t) {layout : List UInt8 × UInt64} (hl : s.engine.hmiLayout = some layout) :
    ∃ layout', t.engine.hmiLayout = some layout' ∧ layout.2 ≤ layout'.2 := by
  cases step_cases hs with
  | rejected => exact ⟨layout, hl, UInt64.le_refl _⟩
  | taken hi => exact ⟨layout, hl, UInt64.le_refl _⟩
  | panicked hi => exact ⟨layout, hl, UInt64.le_refl _⟩
  | stored hi => exact ⟨layout, hl, UInt64.le_refl _⟩
  | cycle =>
    show ∃ layout', s.engine.applyPendingLayout.hmiLayout = some layout' ∧ layout.2 ≤ layout'.2
    unfold Engine.applyPendingLayout
    split
    · rename_i pending hp
      exact ⟨pending, rfl, h.active_le layout pending hl hp⟩
    · exact ⟨layout, hl, UInt64.le_refl _⟩

theorem active_run {codec : Codec} {mid : List LayoutAction} {s t : LayoutState} (hrun : Trace (step codec) s mid t)
    (h : LayoutInv s) (hg : Trace.Guarded (step codec) InOrder s mid) {layout : List UInt8 × UInt64}
    (hl : s.engine.hmiLayout = some layout) : ∃ layout', t.engine.hmiLayout = some layout' ∧ layout.2 ≤ layout'.2 := by
  induction hrun generalizing layout with
  | nil s => exact ⟨layout, hl, UInt64.le_refl _⟩
  | cons hs _ ih =>
    cases hg with
    | cons hs' hg hrest =>
      rw [hs] at hs'
      cases hs'
      obtain ⟨layout₁, hl₁, hle₁⟩ := active_step h hs hl
      obtain ⟨layout₂, hl₂, hle₂⟩ := ih (layoutInv_step h hg hs) hrest hl₁
      exact ⟨layout₂, hl₂, UInt64.le_trans hle₁ hle₂⟩

/-- **Layout generations.** In every interleaving in which no deployment is overtaken, the generation of the active
layout never decreases, and once all calls have finished and a cycle has run, the layout with the highest number
is active. -/
theorem neverBack_of_inOrder (codec : Codec) (as : List LayoutAction) (t : LayoutState)
    (hrun : Trace (step codec) init as t) (hg : Trace.Guarded (step codec) InOrder init as) :
    NeverBack codec as ∧ NewestWins codec as := by
  refine ⟨?_, ?_⟩
  · intro pre mid post s u has hpre hmid layout hl
    subst has
    obtain ⟨hgpre, hgrest⟩ := hg.split hpre
    exact active_run hmid (layoutInv_run hpre hgpre) (hgrest.split hmid).1 hl
  · intro pre post u has hpre hfinished hne
    subst has
    rw [show pre ++ LayoutAction.cycle :: post = (pre ++ [LayoutAction.cycle]) ++ post by simp] at hg
    have hinv := layoutInv_run hpre (hg.split hpre).1
    -- behind the boundary nothing is pending
    have hpending : u.engine.pendingHmiLayout = none := by
      obtain ⟨v, _, hlast⟩ := hpre.snoc_inv
      cases hlast
      exact pending_cycle _
    have hnewest : u.newest = u.engine.hmiLayout := by
      unfold newest
      rw [hpending]
    have hstored : ∀ layout ∈ u.handedOut, ∃ stored, u.engine.hmiLayout = some stored ∧ layout.2 ≤ stored.2 := by
      intro layout hl
      rcases hinv.accounted layout hl with ⟨i, hi⟩ | hstored
      · exact absurd hi (hfinished i _ _)
      · rw [hnewest] at hstored
        exact hstored
    obtain ⟨first, hfirst⟩ := List.exists_mem_of_ne_nil _ hne
    obtain ⟨active, hactive, _⟩ := hstored first hfirst
    refine ⟨active, hinv.newest_mem active (hnewest.trans hactive), hactive, ?_⟩
    intro other hother
    obtain ⟨stored, heq, hle⟩ := hstored other hother
    rw [hactive] at heq
    cases heq
    exact hle

end Audesys.Runtime

/-! ## Two deployments -/

namespace Audesys.Runtime

open Audesys.Hal Audesys.Lib LayoutState

/-- A decoder that accepts every layout. -/
def lenientCodec [Target] : Codec where
  deserialize _ := .error "io error: unexpected end of file"
  parseYaml _ := .ok ()

local instance releaseLayout : Target := host false

/-- Two calls take their numbers, and the second of them stores first. -/
def overtakenDeploy : List LayoutAction :=
  [.take 0 [0x61], .take 1 [0x62], .store 1, .cycle, .store 0, .cycle]

theorem overtakenDeploy_states : ∃ s t : LayoutState,
    Trace (step lenientCodec) init (overtakenDeploy.take 4) s ∧ Trace (step lenientCodec) s (overtakenDeploy.drop 4) t ∧
      s.engine.getHmiLayout = some ([0x62], 2) ∧ t.engine.getHmiLayout = some ([0x61], 1) ∧ Finished t ∧
      t.handedOut = [([0x61], 1), ([0x62], 2)] := by
  refine ⟨_, _, .cons rfl (.cons rfl (.cons rfl (.cons rfl (.nil _)))), .cons rfl (.cons rfl (.nil _)), rfl, rfl, ?_, rfl⟩
  intro i yaml generation hi
  rcases i with _ | _ | i <;> cases hi

/-- The active layout goes back from generation 2 to generation 1, and stays there. -/
theorem overtakenDeploy_back : ¬ NeverBack lenientCodec overtakenDeploy ∧ ¬ NewestWins lenientCodec overtakenDeploy := by
  obtain ⟨s, t, hs, ht, hactive, hback, hfinished, hhanded⟩ := overtakenDeploy_states
  refine ⟨?_, ?_⟩
  · intro hnever
    obtain ⟨layout, hl, hle⟩ := hnever (overtakenDeploy.take 4) (overtakenDeploy.drop 4) [] s t rfl hs ht _ hactive
    rw [hback] at hl
    cases hl
    exact absurd hle (by decide)
  · intro hwins
    obtain ⟨layout, _, hl, hle⟩ := hwins overtakenDeploy.dropLast [] t rfl (hs.append ht) hfinished (by simp [hhanded])
    rw [hback] at hl
    cases hl
    exact absurd (hle ([0x62], 2) (by simp [hhanded])) (by decide)

/-- The same calls, stored in the order of their numbers. -/
def orderedDeploy : List LayoutAction :=
  [.take 0 [0x61], .take 1 [0x62], .store 0, .cycle, .store 1, .cycle]

theorem orderedDeploy_inOrder : Trace.Guarded (step lenientCodec) InOrder init orderedDeploy := by
  refine .cons rfl trivial (.cons rfl trivial (.cons rfl ?_ (.cons rfl trivial (.cons rfl ?_ (.cons rfl trivial (.nil _))))))
  · intro yaml generation _
    exact ⟨nofun, nofun⟩
  · intro yaml generation hheld
    cases hheld
    refine ⟨nofun, ?_⟩
    intro layout hl
    cases hl
    decide

theorem orderedDeploy_newest : NeverBack lenientCodec orderedDeploy ∧ NewestWins lenientCodec orderedDeploy :=
  neverBack_of_inOrder lenientCodec orderedDeploy _
    (.cons rfl (.cons rfl (.cons rfl (.cons rfl (.cons rfl (.cons rfl (.nil _))))))) orderedDeploy_inOrder

end Audesys.Runtime
