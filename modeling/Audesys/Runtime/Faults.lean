import Audesys.Hal.Division
import Mathlib.Data.List.Perm.Basic

/-!
# `Runtime.Faults` — fault injection of the simulation harness

`resolve_fault` goes through the faults that are active in the current cycle, in the order of their injection: one that
suppresses the signal ends the pass, one out of range rewrites the value. What comes out depends on the order unless the
faults on the signal are of one mind (`orderFree_iff`): a boolean is flipped by every fault out of range, and a value of
a type without a maximum ends the pass at the first one, in front of the faults that would suppress it.
-/

open List

namespace Audesys.Runtime.Simulation

open Audesys.Hal

variable {kinds : List FaultKind} {f : ActiveFault}

/-! ## Faults -/

inductive FaultKind where
  | timeout
  | outOfRange
  | disconnect
  deriving DecidableEq

/-- A signal under such a fault is suppressed. -/
def FaultKind.suppresses : FaultKind → Bool
  | .timeout | .disconnect => true
  | .outOfRange => false

theorem FaultKind.suppresses_iff {k : FaultKind} : k.suppresses = true ↔ k ≠ .outOfRange := by
  cases k <;> decide

structure ActiveFault where
  kind : FaultKind
  signal : String
  startCycle : UInt64
  durationCycles : UInt64
  deriving DecidableEq

variable [Target]

/-- `f32::MAX` -/
class F32Max where
  max : Target.F32

/-- The condition of `active_faults`. `none`: the end of a fault that has begun overflows, where that is checked. -/
def ActiveFault.isActive (f : ActiveFault) (current : UInt64) : Option Bool :=
  if f.startCycle ≤ current then
    (MachineInt.add f.startCycle f.durationCycles).map fun stop => decide (current < stop)
  else some false

/-- `active_faults` -/
def activeFaults (current : UInt64) : List ActiveFault → Option (List ActiveFault)
  | [] => some []
  | f :: fs =>
    (f.isActive current).bind fun active =>
      (activeFaults current fs).map fun rest => if active then f :: rest else rest

/-- The value out of range. `none`: the type has none. -/
def maxed [F32Max] : HalValue → Option HalValue
  | .f32 _ => some (.f32 F32Max.max)
  | .u32 _ => some (.u32 (UInt32.ofNat (2 ^ 32 - 1)))
  | .s32 _ => some (.s32 Int32.maxValue)
  | .bool b => some (.bool !b)
  | _ => none

/-- The loop of `resolve_fault`: what it returns, and the value it leaves. -/
def resolve [F32Max] (signal : String) : List ActiveFault → HalValue → Bool × HalValue
  | [], value => (true, value)
  | f :: fs, value =>
    if f.signal ≠ signal then resolve signal fs value
    else
      match f.kind with
      | .timeout | .disconnect => (false, value)
      | .outOfRange =>
        match maxed value with
        | none => (true, value)
        | some m => resolve signal fs m

/-- `resolve_fault` -/
def resolveFault [F32Max] (faults : List ActiveFault) (current : UInt64) (signal : String) (value : HalValue) :
    Option (Bool × HalValue) :=
  (activeFaults current faults).map fun active => resolve signal active value

/-! ## What is active -/

namespace ActiveFault

/-- The fault has begun. -/
def Begun (f : ActiveFault) (current : UInt64) : Prop := f.startCycle ≤ current

/-- Its end is past the last cycle number. -/
def Endless (f : ActiveFault) : Prop := 2 ^ 64 ≤ f.startCycle.toNat + f.durationCycles.toNat

/-- The fault is active on the signal. -/
structure ActiveOn (f : ActiveFault) (current : UInt64) (signal : String) : Prop where
  signal : f.signal = signal
  begun : f.Begun current
  lasts : current.toNat < f.startCycle.toNat + f.durationCycles.toNat

instance (f : ActiveFault) (current : UInt64) : Decidable (f.Begun current) :=
  inferInstanceAs (Decidable (f.startCycle ≤ current))

instance (f : ActiveFault) : Decidable f.Endless :=
  inferInstanceAs (Decidable (2 ^ 64 ≤ f.startCycle.toNat + f.durationCycles.toNat))

/-- The fault is in force: it has begun, and its end is a later cycle number. -/
def InForce (f : ActiveFault) (current : UInt64) : Prop :=
  f.Begun current ∧ ¬ f.Endless ∧ current.toNat < f.startCycle.toNat + f.durationCycles.toNat

instance (f : ActiveFault) (current : UInt64) : Decidable (f.InForce current) := by
  unfold InForce
  infer_instance

variable {current : UInt64}

theorem isActive_eq (h : Target.overflowChecks = true → f.Begun current → ¬ f.Endless) :
    f.isActive current = some (decide (f.InForce current)) := by
  unfold isActive
  by_cases hbegun : f.startCycle ≤ current
  · have hlow : f.startCycle.toNat ≤ current.toNat := hbegun
    have hcurrent := current.toNat_lt
    have hduration := f.durationCycles.toNat_lt
    rw [if_pos hbegun]
    have hsum : MachineInt.toInt f.startCycle + MachineInt.toInt f.durationCycles =
        ((f.startCycle.toNat + f.durationCycles.toNat : Nat) : Int) := rfl
    have hcast : (MachineInt.ofInt ((f.startCycle.toNat + f.durationCycles.toNat : Nat) : Int) : UInt64).toNat =
        (f.startCycle.toNat + f.durationCycles.toNat) % 2 ^ 64 := by
      show (UInt64.ofNat (((f.startCycle.toNat + f.durationCycles.toNat : Nat) : Int) % 2 ^ 64).toNat).toNat = _
      rw [UInt64.toNat_ofNat']
      omega
    -- the end of the fault as a cycle number
    have hstop : ∃ stop, MachineInt.add f.startCycle f.durationCycles = some stop ∧
        stop.toNat = (f.startCycle.toNat + f.durationCycles.toNat) % 2 ^ 64 := by
      unfold MachineInt.add MachineInt.checked
      rw [hsum]
      split
      · exact ⟨_, rfl, hcast⟩
      · rename_i hout
        split
        · rename_i hchecks
          have hends := h hchecks hbegun
          unfold Endless at hends
          refine absurd ⟨Int.natCast_nonneg _, ?_⟩ hout
          show ((f.startCycle.toNat + f.durationCycles.toNat : Nat) : Int) ≤ 2 ^ 64 - 1
          omega
        · exact ⟨_, rfl, hcast⟩
    obtain ⟨stop, hadd, hvalue⟩ := hstop
    rw [hadd, Option.map_some]
    refine congrArg some (decide_eq_decide.2 ?_)
    unfold InForce Endless Begun
    rw [and_iff_right hbegun, UInt64.lt_iff_toNat_lt, hvalue]
    omega
  · rw [if_neg hbegun]
    exact congrArg some (decide_eq_false fun h => hbegun h.1).symm

theorem isActive_none (hchecks : Target.overflowChecks = true) (hbegun : f.Begun current) (hends : f.Endless) :
    f.isActive current = none := by
  have hout : ¬ MachineInt.InRange UInt64 (MachineInt.toInt f.startCycle + MachineInt.toInt f.durationCycles) := by
    rintro ⟨-, hle⟩
    have hle' : (f.startCycle.toNat : Int) + (f.durationCycles.toNat : Int) ≤ 2 ^ 64 - 1 := hle
    unfold Endless at hends
    omega
  unfold isActive
  rw [if_pos (show f.startCycle ≤ current from hbegun)]
  unfold MachineInt.add MachineInt.checked
  rw [if_neg hout, if_pos hchecks]
  rfl

end ActiveFault

/-- No fault that has begun overflows in a build that checks. -/
def Countable (faults : List ActiveFault) (current : UInt64) : Prop :=
  Target.overflowChecks = true → ∀ f ∈ faults, f.Begun current → ¬ f.Endless

theorem activeFaults_eq {faults : List ActiveFault} {current : UInt64} (h : Countable faults current) :
    activeFaults current faults = some (faults.filter fun f => decide (f.InForce current)) := by
  induction faults with
  | nil => rfl
  | cons f fs ih =>
    unfold activeFaults
    rw [ActiveFault.isActive_eq fun hchecks => h hchecks f mem_cons_self,
      ih fun hchecks g hg => h hchecks g (mem_cons_of_mem _ hg), Option.bind_some, Option.map_some,
      filter_cons]

theorem activeFaults_none {faults : List ActiveFault} {current : UInt64} (h : ¬ Countable faults current) :
    activeFaults current faults = none := by
  unfold Countable at h
  push Not at h
  obtain ⟨hchecks, f, hf, hbegun, hends⟩ := h
  induction faults with
  | nil => cases hf
  | cons g fs ih =>
    unfold activeFaults
    rcases mem_cons.1 hf with rfl | hf
    · rw [ActiveFault.isActive_none hchecks hbegun hends]
      rfl
    · rw [ih hf]
      cases g.isActive current <;> rfl

/-! ## The pass over the kinds -/

section Kinds

variable [F32Max]

/-- The loop of `resolve_fault` on the kinds of the faults on the signal. -/
def resolveKinds : List FaultKind → HalValue → Bool × HalValue
  | [], value => (true, value)
  | .outOfRange :: kinds, value =>
    match maxed value with
    | none => (true, value)
    | some m => resolveKinds kinds m
  | _ :: _, value => (false, value)

theorem resolve_eq (signal : String) (faults : List ActiveFault) (value : HalValue) :
    resolve signal faults value =
      resolveKinds ((faults.filter fun f => decide (f.signal = signal)).map (·.kind)) value := by
  induction faults generalizing value with
  | nil => rfl
  | cons f fs ih =>
    unfold resolve
    by_cases hsignal : f.signal = signal
    · rw [if_neg (not_not.2 hsignal), filter_cons, if_pos (decide_eq_true hsignal), map_cons]
      cases f.kind with
      | timeout | disconnect => rfl
      | outOfRange =>
        unfold resolveKinds
        cases maxed value with
        | none => rfl
        | some m => exact ih m
    · rw [if_pos hsignal, filter_cons, if_neg (by simpa using hsignal)]
      exact ih value

variable {value m : HalValue}

theorem resolveKinds_outOfRange (h : maxed value = some m) :
    resolveKinds (.outOfRange :: kinds) value = resolveKinds kinds m := by
  rw [resolveKinds, h]

/-- Out of range, a value stays in its type. -/
theorem maxed_isSome (h : maxed value = some m) : (maxed m).isSome = true := by
  cases value <;> cases h <;> rfl

/-- A value of a type with a maximum: the pass suppresses it if some fault does. -/
theorem resolveKinds_fst (h : (maxed value).isSome = true) :
    (resolveKinds kinds value).1 = false ↔ ∃ k ∈ kinds, k.suppresses = true := by
  induction kinds generalizing value with
  | nil => simp [resolveKinds]
  | cons k kinds ih =>
    cases k with
    | timeout | disconnect => exact iff_of_true rfl ⟨_, mem_cons_self, rfl⟩
    | outOfRange =>
      obtain ⟨m, hm⟩ := Option.isSome_iff_exists.1 h
      rw [resolveKinds_outOfRange hm, ih (maxed_isSome hm)]
      simp [FaultKind.suppresses]

/-- A value of another type: the first fault decides, and the value stays. -/
theorem resolveKinds_of_none (h : maxed value = none) :
    resolveKinds kinds value = (!(kinds.head?.any (·.suppresses)), value) := by
  rcases kinds with _ | ⟨_ | _ | _, kinds⟩
  · rfl
  · rfl
  · unfold resolveKinds
    rw [h]
    rfl
  · rfl

/-- No fault out of range: the value stays. -/
theorem resolveKinds_of_suppressing (h : ∀ k ∈ kinds, k ≠ .outOfRange) : (resolveKinds kinds value).2 = value := by
  rcases kinds with _ | ⟨_ | _ | _, kinds⟩
  · rfl
  · rfl
  · exact absurd rfl (h _ mem_cons_self)
  · rfl

/-- The maximum stays. -/
theorem resolveKinds_of_max (h : maxed value = some value) : (resolveKinds kinds value).2 = value := by
  induction kinds with
  | nil => rfl
  | cons k kinds ih =>
    cases k with
    | timeout | disconnect => rfl
    | outOfRange =>
      rw [resolveKinds_outOfRange h]
      exact ih

/-- Only faults out of range: the value is the maximum, unless there are none. -/
theorem resolveKinds_of_outOfRange (hm : maxed value = some m) (hmax : maxed m = some m)
    (h : ∀ k ∈ kinds, k = .outOfRange) : (resolveKinds kinds value).2 = if kinds = [] then value else m := by
  rcases kinds with _ | ⟨k, kinds⟩
  · rfl
  · obtain rfl := h k mem_cons_self
    rw [resolveKinds_outOfRange hm, if_neg (cons_ne_nil _ _)]
    exact resolveKinds_of_max hmax

/-- A boolean comes out the other way if it goes in the other way. -/
theorem resolveKinds_not (kinds : List FaultKind) (b : Bool) :
    ∃ c, (resolveKinds kinds (.bool b)).2 = .bool c ∧ (resolveKinds kinds (.bool !b)).2 = .bool !c := by
  induction kinds generalizing b with
  | nil => exact ⟨b, rfl, rfl⟩
  | cons k kinds ih =>
    cases k with
    | timeout | disconnect => exact ⟨b, rfl, rfl⟩
    | outOfRange => exact ih !b

end Kinds

/-! ## Order -/

section Order

variable [F32Max]

/-- The faults that the pass meets on the signal. -/
def effective (faults : List ActiveFault) (current : UInt64) (signal : String) : List ActiveFault :=
  (faults.filter fun f => decide (f.InForce current)).filter fun f => decide (f.signal = signal)

/-- **Fault injection that does not depend on order**: the signal is suppressed exactly if a fault that is active on it
suppresses it, and the value is the same for every order of the faults and with one of them listed twice. -/
structure OrderFree (faults : List ActiveFault) (current : UInt64) (signal : String) (value : HalValue) : Prop where
  suppressed : ∃ outcome, resolveFault faults current signal value = some outcome ∧
    (outcome.1 = false ↔ ∃ f ∈ faults, f.ActiveOn current signal ∧ f.kind.suppresses = true)
  permuted : ∀ faults', faults'.Perm faults →
    (resolveFault faults' current signal value).map Prod.snd = (resolveFault faults current signal value).map Prod.snd
  repeated : ∀ f ∈ faults, ∀ faults', faults'.Perm (f :: faults) →
    (resolveFault faults' current signal value).map Prod.snd = (resolveFault faults current signal value).map Prod.snd

/-- Kinds whose order does not matter for the value: for a boolean all of them suppress it, for a value with a maximum
all do the same or it has the maximum already, for another value the first one suppresses it if any does. -/
def OfOneMind (kinds : List FaultKind) : HalValue → Prop
  | .bool _ => ∀ k ∈ kinds, k ≠ .outOfRange
  | .f32 x => maxed (.f32 x) = some (.f32 x) ∨ (∀ k ∈ kinds, k ≠ .outOfRange) ∨ ∀ k ∈ kinds, k = .outOfRange
  | .u32 n => maxed (.u32 n) = some (.u32 n) ∨ (∀ k ∈ kinds, k ≠ .outOfRange) ∨ ∀ k ∈ kinds, k = .outOfRange
  | .s32 n => maxed (.s32 n) = some (.s32 n) ∨ (∀ k ∈ kinds, k ≠ .outOfRange) ∨ ∀ k ∈ kinds, k = .outOfRange
  | _ => kinds.head?.any (·.suppresses) = true ∨ ∀ k ∈ kinds, k = .outOfRange

/-- **Faults that the pass gets right**: no end overflows where that is checked, a suppressing fault that lasts past the
last cycle number is not the only one, and the kinds are of one mind. -/
structure Settled (faults : List ActiveFault) (current : UInt64) (signal : String) (value : HalValue) : Prop where
  countable : Countable faults current
  reached : ∀ f ∈ faults, f.ActiveOn current signal → f.kind.suppresses = true →
    ∃ g ∈ effective faults current signal, g.kind.suppresses = true
  kinds : OfOneMind ((effective faults current signal).map (·.kind)) value

theorem ofOneMind_of_none {value : HalValue} (h : maxed value = none) :
    OfOneMind kinds value ↔ kinds.head?.any (·.suppresses) = true ∨ ∀ k ∈ kinds, k = .outOfRange := by
  cases value <;> first | exact Iff.rfl | cases h

theorem ofOneMind_of_max {value m : HalValue} (h : maxed value = some m) (hmax : maxed m = some m) :
    OfOneMind kinds value ↔
      maxed value = some value ∨ (∀ k ∈ kinds, k ≠ .outOfRange) ∨ ∀ k ∈ kinds, k = .outOfRange := by
  cases value with
  | bool b =>
    cases h
    exact absurd (HalValue.bool.inj (Option.some.inj hmax)) (Bool.not_ne_self _)
  | f32 x => exact Iff.rfl
  | u32 n => exact Iff.rfl
  | s32 n => exact Iff.rfl
  | _ => cases h

/-- A value out of range is at its maximum, unless it is a boolean. -/
theorem maxed_maxed {value m : HalValue} (h : maxed value = some m) : maxed m = some m ∨ ∃ b, value = .bool b := by
  cases value with
  | bool b => exact .inr ⟨b, rfl⟩
  | f32 x | u32 n | s32 n =>
    cases h
    exact .inl rfl
  | _ => cases h

variable {faults faults' : List ActiveFault} {current : UInt64} {signal : String} {value : HalValue}

section
omit [Target] [F32Max]

theorem mem_effective :
    f ∈ effective faults current signal ↔ f ∈ faults ∧ f.InForce current ∧ f.signal = signal := by
  unfold effective
  rw [mem_filter, mem_filter, decide_eq_true_eq, decide_eq_true_eq, and_assoc]

/-- What the pass meets is active. -/
theorem activeOn_of_mem_effective (h : f ∈ effective faults current signal) :
    f ∈ faults ∧ f.ActiveOn current signal := by
  obtain ⟨hf, hforce, hsignal⟩ := mem_effective.1 h
  exact ⟨hf, hsignal, hforce.1, hforce.2.2⟩

theorem effective_cons (h : f ∈ effective faults current signal) (rest : List ActiveFault) :
    effective (f :: rest) current signal = f :: effective rest current signal := by
  obtain ⟨-, hforce, hsignal⟩ := mem_effective.1 h
  unfold effective
  rw [filter_cons, if_pos (decide_eq_true hforce), filter_cons, if_pos (decide_eq_true hsignal)]

end

omit [F32Max] in
theorem Countable.of_subset (h : Countable faults current) (hsub : faults' ⊆ faults) : Countable faults' current :=
  fun hchecks f hf => h hchecks f (hsub hf)

theorem resolveFault_eq (h : Countable faults current) : resolveFault faults current signal value =
      some (resolveKinds ((effective faults current signal).map (·.kind)) value) := by
  unfold resolveFault
  rw [activeFaults_eq h, Option.map_some, resolve_eq]
  rfl

/-- The value that a permutation of the faults leaves. -/
theorem left_eq (h : Countable faults current) (hsub : faults' ⊆ faults) :
    (resolveFault faults' current signal value).map Prod.snd =
      some (resolveKinds ((effective faults' current signal).map (·.kind)) value).2 := by
  rw [resolveFault_eq (h.of_subset hsub)]
  rfl

section
omit [Target] [F32Max]

/-- Every suppressing kind that the pass meets is the kind of an active fault. -/
theorem exists_active {k : FaultKind} (hk : k ∈ (effective faults current signal).map (·.kind))
    (hsup : k.suppresses = true) : ∃ f ∈ faults, f.ActiveOn current signal ∧ f.kind.suppresses = true := by
  obtain ⟨f, hf, rfl⟩ := mem_map.1 hk
  obtain ⟨hmem, hactive⟩ := activeOn_of_mem_effective hf
  exact ⟨f, hmem, hactive, hsup⟩

theorem exists_kind : (∃ g ∈ effective faults current signal, g.kind.suppresses = true) ↔
    ∃ k ∈ (effective faults current signal).map (·.kind), k.suppresses = true := by
  simp only [mem_map, exists_exists_and_eq_and]

/-- The first kind suppresses, or none does. -/
theorem head_suppresses_iff (h : kinds.head?.any (·.suppresses) = true ∨ ∀ k ∈ kinds, k = .outOfRange) :
    kinds.head?.any (·.suppresses) = true ↔ ∃ k ∈ kinds, k.suppresses = true := by
  constructor
  · intro hhead
    cases kinds with
    | nil => cases hhead
    | cons k kinds => exact ⟨k, mem_cons_self, hhead⟩
  · rintro ⟨k, hk, hsup⟩
    rcases h with hhead | hall
    · exact hhead
    · rw [hall k hk] at hsup
      cases hsup

end

namespace OrderFree

variable (h : OrderFree faults current signal value)
include h

theorem countable : Countable faults current := by
  by_contra hnot
  obtain ⟨outcome, houtcome, -⟩ := h.suppressed
  unfold resolveFault at houtcome
  rw [activeFaults_none hnot] at houtcome
  cases houtcome

/-- What the pass returns, on the kinds. -/
theorem returns : (resolveKinds ((effective faults current signal).map (·.kind)) value).1 = false ↔
    ∃ f ∈ faults, f.ActiveOn current signal ∧ f.kind.suppresses = true := by
  obtain ⟨outcome, houtcome, hiff⟩ := h.suppressed
  rw [resolveFault_eq h.countable] at houtcome
  cases houtcome
  exact hiff

/-- The value that another order leaves. -/
theorem left_perm (hperm : faults'.Perm faults) :
    (resolveKinds ((effective faults' current signal).map (·.kind)) value).2 =
      (resolveKinds ((effective faults current signal).map (·.kind)) value).2 := by
  have hleft := h.permuted faults' hperm
  rw [left_eq h.countable hperm.subset, left_eq h.countable (List.Subset.refl _)] at hleft
  exact Option.some.inj hleft

theorem left_twice (hf : f ∈ faults) (hperm : faults'.Perm (f :: faults)) :
    (resolveKinds ((effective faults' current signal).map (·.kind)) value).2 =
      (resolveKinds ((effective faults current signal).map (·.kind)) value).2 := by
  have hsub : faults' ⊆ faults := fun g hg => by
    rcases mem_cons.1 (hperm.subset hg) with rfl | hg
    · exact hf
    · exact hg
  have hleft := h.repeated f hf faults' hperm
  rw [left_eq h.countable hsub, left_eq h.countable (List.Subset.refl _)] at hleft
  exact Option.some.inj hleft

/-- A boolean that a fault flips is flipped once more by the same fault. -/
theorem of_bool {b : Bool} (hb : value = .bool b) (hf : f ∈ effective faults current signal) :
    f.kind ≠ .outOfRange := by
  intro hkind
  subst hb
  have hmem := (activeOn_of_mem_effective hf).1
  have hperm := perm_cons_erase hmem
  have honce := h.left_perm hperm.symm
  have htwice := h.left_twice hmem (hperm.cons f).symm
  rw [effective_cons hf, map_cons, hkind] at honce
  rw [effective_cons hf, effective_cons hf, map_cons, map_cons, hkind] at htwice
  obtain ⟨c, hin, hout⟩ := resolveKinds_not ((effective (faults.erase f) current signal).map (·.kind)) b
  have hflip : (resolveKinds ((effective (faults.erase f) current signal).map (·.kind)) (.bool !b)).2 =
      (resolveKinds ((effective (faults.erase f) current signal).map (·.kind)) (.bool (!(!b)))).2 :=
    honce.trans htwice.symm
  rw [Bool.not_not, hin, hout] at hflip
  exact absurd (HalValue.bool.inj hflip) (Bool.not_ne_self c)

/-- A fault out of range in front of a suppressing one leaves the maximum, and behind it the value as it was. -/
theorem of_max {m : HalValue} (hm : maxed value = some m) {f g : ActiveFault}
    (hf : f ∈ effective faults current signal) (hg : g ∈ effective faults current signal)
    (hfkind : f.kind = .outOfRange) (hgkind : g.kind ≠ .outOfRange) : m = value := by
  have hne : g ≠ f := fun heq => hgkind (heq ▸ hfkind)
  have hperm : faults.Perm (f :: g :: (faults.erase f).erase g) := by
    refine (perm_cons_erase (activeOn_of_mem_effective hf).1).trans (List.Perm.cons f ?_)
    exact perm_cons_erase ((mem_erase_of_ne hne).2 (activeOn_of_mem_effective hg).1)
  have hfirst := h.left_perm hperm.symm
  have hsecond := h.left_perm ((List.Perm.swap f g _).trans hperm.symm)
  rw [effective_cons hf, effective_cons hg, map_cons, map_cons, hfkind] at hfirst
  rw [effective_cons hg, map_cons] at hsecond
  have hstop : ∀ (kinds : List FaultKind) v, (resolveKinds (g.kind :: kinds) v).2 = v := by
    intro kinds v
    cases hk : g.kind with
    | outOfRange => exact absurd hk hgkind
    | timeout | disconnect => rfl
  rw [hstop] at hsecond
  rw [resolveKinds_outOfRange hm, hstop] at hfirst
  exact hfirst.trans hsecond.symm

end OrderFree

namespace Settled

variable (h : Settled faults current signal value)
include h

/-- The pass suppresses the signal exactly if an active fault does. -/
theorem suppressed : (resolveKinds ((effective faults current signal).map (·.kind)) value).1 = false ↔
    ∃ f ∈ faults, f.ActiveOn current signal ∧ f.kind.suppresses = true := by
  have hkinds : (∃ k ∈ (effective faults current signal).map (·.kind), k.suppresses = true) ↔
      ∃ f ∈ faults, f.ActiveOn current signal ∧ f.kind.suppresses = true := by
    constructor
    · rintro ⟨k, hk, hsup⟩
      exact exists_active hk hsup
    · rintro ⟨f, hf, hactive, hsup⟩
      exact exists_kind.1 (h.reached f hf hactive hsup)
  rw [← hkinds]
  cases hm : maxed value with
  | some m => exact resolveKinds_fst (hm ▸ rfl)
  | none =>
    rw [resolveKinds_of_none hm, Bool.not_eq_false']
    exact head_suppresses_iff ((ofOneMind_of_none hm).1 h.kinds)

/-- Kinds with the same members leave the same value. -/
theorem left (hkinds : ∀ k, k ∈ kinds ↔ k ∈ (effective faults current signal).map (·.kind)) :
    (resolveKinds kinds value).2 = (resolveKinds ((effective faults current signal).map (·.kind)) value).2 := by
  have hsuppressing : (∀ k ∈ (effective faults current signal).map (·.kind), k ≠ .outOfRange) →
      (resolveKinds kinds value).2 = (resolveKinds ((effective faults current signal).map (·.kind)) value).2 := by
    intro hall
    rw [resolveKinds_of_suppressing hall, resolveKinds_of_suppressing fun k hk => hall k ((hkinds k).1 hk)]
  cases hm : maxed value with
  | none => rw [resolveKinds_of_none hm, resolveKinds_of_none hm]
  | some m =>
    rcases maxed_maxed hm with hmax | ⟨b, rfl⟩
    · rcases (ofOneMind_of_max hm hmax).1 h.kinds with hself | hall | hall
      · rw [resolveKinds_of_max hself, resolveKinds_of_max hself]
      · exact hsuppressing hall
      · have hempty : kinds = [] ↔ (effective faults current signal).map (·.kind) = [] := by
          rw [eq_nil_iff_forall_not_mem, eq_nil_iff_forall_not_mem]
          exact forall_congr' fun k => not_congr (hkinds k)
        rw [resolveKinds_of_outOfRange hm hmax hall,
          resolveKinds_of_outOfRange hm hmax fun k hk => hall k ((hkinds k).1 hk)]
        exact if_congr hempty rfl rfl
    · exact hsuppressing h.kinds

end Settled

/-- **Fault injection does not depend on order** exactly for settled faults. -/
theorem orderFree_iff (faults : List ActiveFault) (current : UInt64) (signal : String) (value : HalValue) :
    OrderFree faults current signal value ↔ Settled faults current signal value := by
  constructor
  · intro h
    -- a suppressing kind among those that the pass meets, if there is one at all
    have hreturns := h.returns
    cases hm : maxed value with
    | none =>
      rw [resolveKinds_of_none hm, Bool.not_eq_false'] at hreturns
      have hhead : ∀ {f : ActiveFault}, f ∈ faults → f.ActiveOn current signal → f.kind.suppresses = true →
          ((effective faults current signal).map (·.kind)).head?.any (·.suppresses) = true :=
        fun hf hactive hsup => hreturns.2 ⟨_, hf, hactive, hsup⟩
      refine ⟨h.countable, fun f hf hactive hsup => ?_, (ofOneMind_of_none hm).2 ?_⟩
      · exact exists_kind.2 ((head_suppresses_iff (.inl (hhead hf hactive hsup))).1 (hhead hf hactive hsup))
      · by_contra hnot
        push Not at hnot
        obtain ⟨hfirst, k, hk, hkind⟩ := hnot
        obtain ⟨f, hf, hactive, hsup⟩ := exists_active hk (FaultKind.suppresses_iff.2 hkind)
        exact hfirst (hhead hf hactive hsup)
    | some m =>
      rw [resolveKinds_fst (hm ▸ rfl)] at hreturns
      refine ⟨h.countable, fun f hf hactive hsup => exists_kind.2 (hreturns.2 ⟨f, hf, hactive, hsup⟩), ?_⟩
      rcases maxed_maxed hm with hmax | ⟨b, rfl⟩
      · refine (ofOneMind_of_max hm hmax).2 ?_
        by_contra hnot
        push Not at hnot
        obtain ⟨hself, ⟨kf, hkf, hkindf⟩, kg, hkg, hkindg⟩ := hnot
        obtain ⟨f, hf, rfl⟩ := mem_map.1 hkf
        obtain ⟨g, hg, rfl⟩ := mem_map.1 hkg
        exact hself (hm.trans (congrArg some (h.of_max hm hf hg hkindf hkindg)))
      · intro k hk
        obtain ⟨f, hf, rfl⟩ := mem_map.1 hk
        exact h.of_bool rfl hf
  · intro h
    have hperm : ∀ {faults'}, (∀ f, f ∈ faults' ↔ f ∈ faults) →
        (resolveFault faults' current signal value).map Prod.snd =
          (resolveFault faults current signal value).map Prod.snd := by
      intro faults' hmem
      have hsub : faults' ⊆ faults := fun f hf => (hmem f).1 hf
      rw [left_eq h.countable hsub, left_eq h.countable (List.Subset.refl _), h.left]
      intro k
      simp only [mem_map, mem_effective, hmem]
    refine ⟨⟨_, resolveFault_eq h.countable, h.suppressed⟩, fun faults' hp => hperm fun f => hp.mem_iff, ?_⟩
    intro f hf faults' hp
    refine hperm fun g => hp.mem_iff.trans ?_
    rw [mem_cons]
    exact or_iff_right_of_imp fun heq => heq ▸ hf

end Order

end Audesys.Runtime.Simulation

/-! ## A device out of range and disconnected -/

namespace Audesys.Runtime.Simulation

open Audesys.Hal

local instance debugBuild : Target := host true

local instance ieeeMax : F32Max := ⟨(0x7F7FFFFF : UInt32)⟩

/-- Out of range in the first five cycles. -/
def levelOutOfRange : ActiveFault := ⟨.outOfRange, "level", 0, 5⟩

/-- Disconnected in the first five cycles. -/
def levelDisconnected : ActiveFault := ⟨.disconnect, "level", 0, 5⟩

/-- A byte has no maximum here: the pass ends in front of the disconnection. -/
theorem level_not_suppressed :
    resolveFault [levelOutOfRange, levelDisconnected] 0 "level" (.u8 7) = some (true, .u8 7) ∧
      resolveFault [levelDisconnected, levelOutOfRange] 0 "level" (.u8 7) = some (false, .u8 7) ∧
      ¬ OrderFree [levelOutOfRange, levelDisconnected] 0 "level" (.u8 7) := by
  refine ⟨by decide, by decide, fun h => ?_⟩
  obtain ⟨outcome, houtcome, hiff⟩ := h.suppressed
  have hreturned : resolveFault [levelOutOfRange, levelDisconnected] 0 "level" (.u8 7) = some (true, .u8 7) := by decide
  rw [hreturned] at houtcome
  cases houtcome
  exact absurd (hiff.2 ⟨levelDisconnected, by simp, ⟨rfl, by decide, by decide⟩, rfl⟩) (by decide)

end Audesys.Runtime.Simulation
