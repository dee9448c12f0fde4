import Audesys.Hal.Host
import Audesys.Hal.Symbolic
import Audesys.Lib.Assign
import Mathlib.Data.List.Nodup

/-!
# `Runtime.Cycle` — one cycle of the engine

The barriers and phases of a cycle of `Engine::start_with_cycle`: the monitored signals are read from the middleware, the
computed ones are computed, the program runs on the values of all signals, the registry takes over what it leaves, and the
signals that the engine owns are published. `SignalRegistry` (`signals.rs`) is a hash map; the list is the order in which
it is iterated, and the names of the VM's signals come in an order of their own. Neither matters (`Cycle.registry_perm`).
-/

open List

namespace Audesys.Runtime

open Audesys.Hal Audesys.Lib

variable [Target]

/-- `WriteStrategy`. What the function of a computed signal returns is the `call` of the cycle. -/
inductive WriteStrategy where
  | own | monitored | computed
  deriving DecidableEq

structure RegisteredSignal where
  name : String
  value : HalValue
  strategy : WriteStrategy

abbrev SignalRegistry := List RegisteredSignal

/-! ## The registry -/

namespace SignalRegistry

/-- The error for a name that is not registered is dropped by every caller. -/
def updateValue (signals : SignalRegistry) (name : String) (value : HalValue) : SignalRegistry :=
  signals.map fun d => if d.name = name then { d with value } else d

/-- The loop around `update_value`, over the names that there is a value for. -/
def updateValues (f : SignalTable) (names : List String) (signals : SignalRegistry) : SignalRegistry :=
  names.foldl (fun signals name => (f name).elim signals (signals.updateValue name)) signals

def namesOf (strategy : WriteStrategy) (signals : SignalRegistry) : List String :=
  (signals.filter (·.strategy = strategy)).map (·.name)

def values (signals : SignalRegistry) : List (String × HalValue) := signals.map fun d => (d.name, d.value)

theorem updateValues_eq (f : SignalTable) (names : List String) (signals : SignalRegistry) :
    updateValues f names signals =
      signals.map fun d => if d.name ∈ names then { d with value := (f d.name).getD d.value } else d := by
  induction names using List.reverseRecOn with
  | nil => simp [updateValues]
  | append_singleton names name ih =>
    unfold updateValues at ih ⊢
    rw [foldl_append, ih, foldl_cons, foldl_nil]
    cases hf : f name with
    | none =>
      refine map_congr_left fun d _ => ?_
      by_cases hd : d.name = name
      · subst hd
        simp [hf]
      · simp [hd]
    | some v =>
      rw [Option.elim, updateValue, map_map]
      refine map_congr_left fun d _ => ?_
      by_cases hd : d.name = name
      · by_cases hmem : name ∈ names <;> simp [hd, hf, hmem]
      · by_cases hmem : d.name ∈ names <;> simp [hd, hmem]

/-- An update of all signals of one strategy. -/
theorem updateValues_namesOf {signals : SignalRegistry} (hnodup : (signals.map (·.name)).Nodup) (f : SignalTable)
    (strategy : WriteStrategy) : updateValues f (signals.namesOf strategy) signals =
      signals.map fun d => if d.strategy = strategy then { d with value := (f d.name).getD d.value } else d := by
  rw [updateValues_eq]
  refine map_congr_left fun d hd => ?_
  have hmem : d.name ∈ signals.namesOf strategy ↔ d.strategy = strategy := by
    simp only [namesOf, mem_map, mem_filter, decide_eq_true_eq]
    constructor
    · rintro ⟨d', ⟨hd', hs⟩, hname⟩
      rwa [← inj_on_of_nodup_map hnodup hd' hd hname]
    · exact fun hs => ⟨d, ⟨hd, hs⟩, rfl⟩
  simp only [hmem]

end SignalRegistry

/-! ## The cycle -/

open SignalRegistry

def readBarrier (table : SignalTable) (signals : SignalRegistry) : SignalRegistry :=
  updateValues table (signals.namesOf .monitored) signals

def computePhase (call : String → HalValue) (signals : SignalRegistry) : SignalRegistry :=
  updateValues (fun name => some (call name)) (signals.namesOf .computed) signals

/-- The executor in front of the run: reset, with the cycle time and the values of all signals. -/
def syncSignals (ms : UInt64) (signals : SignalRegistry) (vm : Vm) : Vm :=
  signals.foldl (fun vm d => vm.writeSignal d.name d.value) (vm.reset.setCycleTime ms)

def writeBarrier (signals : SignalRegistry) (table : SignalTable) : SignalTable :=
  (signals.filter (·.strategy = .own)).foldl (fun table d => Function.update table d.name (some d.value)) table

/-- The engine's registry, the table of the middleware and the machine of the executor. -/
structure CycleState where
  signals : SignalRegistry
  table : SignalTable
  vm : Vm

/-- A cycle with a loaded program that halts; `names` is the order in which its signals are taken over. -/
inductive Cycle (code : List Instruction) (ms : UInt64) (call : String → HalValue) : CycleState → CycleState → Prop
  | intro {s : CycleState} {signals : SignalRegistry} {vm : Vm} {names : List String}
      (hread : computePhase call (readBarrier s.table s.signals) = signals)
      (hhalts : HaltsAt code (syncSignals ms signals s.vm) vm) (hnames : ∀ n, n ∈ names ↔ (vm.signals n).isSome) :
      Cycle code ms call s ⟨updateValues vm.signals names signals,
        writeBarrier (updateValues vm.signals names signals) s.table, vm.reset⟩

/-! ## What a cycle does -/

/-- The value of a signal that the program finds. -/
def input (table : SignalTable) (call : String → HalValue) (d : RegisteredSignal) : HalValue :=
  match d.strategy with
  | .own => d.value
  | .monitored => (table d.name).getD d.value
  | .computed => call d.name

/-- The registry in front of the run. -/
def inputs (table : SignalTable) (call : String → HalValue) (signals : SignalRegistry) : SignalRegistry :=
  signals.map fun d => { d with value := input table call d }

/-- The registry behind it. -/
def outputs (left : SignalTable) (signals : SignalRegistry) : SignalRegistry :=
  signals.map fun d => { d with value := (left d.name).getD d.value }

theorem map_name_outputs (left : SignalTable) (signals : SignalRegistry) :
    (outputs left signals).map (·.name) = signals.map (·.name) := by
  simp [outputs, Function.comp_def]

theorem map_name_inputs (table : SignalTable) (call : String → HalValue) (signals : SignalRegistry) :
    (inputs table call signals).map (·.name) = signals.map (·.name) := by
  simp [inputs, Function.comp_def]

variable {signals : SignalRegistry} {table : SignalTable} {call : String → HalValue} {code : List Instruction}
  {ms : UInt64} {s t : CycleState}

theorem inputs_eq (hnodup : (signals.map (·.name)).Nodup) :
    computePhase call (readBarrier table signals) = inputs table call signals := by
  have hread := updateValues_namesOf hnodup table .monitored
  have hkept : (readBarrier table signals).map (·.name) = signals.map (·.name) := by
    rw [readBarrier, hread, map_map]
    refine map_congr_left fun d _ => ?_
    rw [Function.comp_apply]
    split <;> rfl
  rw [computePhase, updateValues_namesOf (hkept ▸ hnodup), readBarrier, hread, map_map]
  refine map_congr_left fun d _ => ?_
  obtain ⟨name, value, strategy⟩ := d
  cases strategy <;> rfl

theorem syncSignals_eq (ms : UInt64) (signals : SignalRegistry) (vm : Vm) :
    syncSignals ms signals vm = scanStart (vm.setCycleTime ms) (setAll signals.values) := by
  unfold syncSignals
  induction signals using List.reverseRecOn with
  | nil => rfl
  | append_singleton signals d ih =>
    rw [foldl_append, ih, foldl_cons, foldl_nil, values, values, map_append, map_singleton,
      setAll_snoc]
    unfold Vm.writeSignal scanStart
    congr 1
    funext n
    by_cases hn : n = d.name
    · rw [if_pos hn, hn, Function.update_self]
    · rw [if_neg hn, Function.update_of_ne hn]

theorem writeBarrier_eq (signals : SignalRegistry) (table : SignalTable) (n : String) :
    writeBarrier signals table n = (setAll (values (signals.filter (·.strategy = .own))) n).or (table n) := by
  unfold writeBarrier
  induction signals.filter (·.strategy = .own) using List.reverseRecOn with
  | nil => rfl
  | append_singleton l d ih =>
    rw [foldl_append, foldl_cons, foldl_nil, values, map_append, map_singleton, setAll_snoc]
    by_cases hn : n = d.name
    · rw [hn, Function.update_self, Function.update_self]
      rfl
    · rw [Function.update_of_ne hn, Function.update_of_ne hn, ih]
      rfl

theorem setAll_values {signals' : SignalRegistry} (hnodup : (signals.map (·.name)).Nodup)
    (hperm : signals.Perm signals') : setAll signals.values = setAll signals'.values :=
  setAll_perm (by rwa [values, map_map]) (hperm.map _)

theorem outputs_eq {vm : Vm} {names : List String} (hnames : ∀ n, n ∈ names ↔ (vm.signals n).isSome) :
    updateValues vm.signals names signals = outputs vm.signals signals := by
  rw [updateValues_eq]
  refine map_congr_left fun d _ => ?_
  split
  · rfl
  · rename_i hmem
    rw [hnames, Option.not_isSome_iff_eq_none] at hmem
    simp [hmem]

/-- What is published: the signals of the engine. -/
def published (signals : SignalRegistry) : List (String × HalValue) := values (signals.filter (·.strategy = .own))

/-- **A cycle of the engine.** The program runs on the inputs of the cycle and on nothing else, the registry takes over
what it leaves, and of that the middleware gets what the engine owns. -/
theorem Cycle.run_eq (h : Cycle code ms call s t) (hnodup : (s.signals.map (·.name)).Nodup) :
    ∃ vm, HaltsAt code (scanStart (s.vm.setCycleTime ms) (setAll (inputs s.table call s.signals).values)) vm ∧
      t.signals = outputs vm.signals (inputs s.table call s.signals) ∧ t.vm = vm.reset ∧
      ∀ n, t.table n = (setAll (published t.signals) n).or (s.table n) := by
  cases h with
  | @intro signals vm names hread hhalts hnames =>
    rw [inputs_eq hnodup] at hread
    rw [syncSignals_eq, ← hread] at hhalts
    exact ⟨vm, hhalts, by rw [outputs_eq hnames, hread], rfl, writeBarrier_eq _ _⟩

/-- A program that halts at once has a cycle. -/
theorem Cycle.exists_of_halt (h : code[0]? = some .halt) (s : CycleState) : ∃ t, Cycle code ms call s t := by
  refine ⟨_, .intro rfl ⟨0, _, .refl _, step_halt (by rwa [syncSignals_eq])⟩
    (show ∀ n, n ∈ (computePhase call (readBarrier s.table s.signals)).values.map Prod.fst ↔ _ from fun n => ?_)⟩
  rw [syncSignals_eq]
  constructor
  · intro hn
    obtain ⟨v, hv⟩ := exists_setAll hn
    exact Option.isSome_iff_exists.2 ⟨v, hv⟩
  · intro hn
    obtain ⟨v, hv⟩ := Option.isSome_iff_exists.1 hn
    exact mem_map.2 ⟨_, mem_of_setAll hv, rfl⟩

end Audesys.Runtime

/-! ## Two signals -/

namespace Audesys.Runtime

open Audesys.Hal

local instance releaseCycle : Target := host false

/-- An output of the program and an input. -/
def twoSignals : SignalRegistry := [⟨"out", .bool false, .own⟩, ⟨"in", .bool false, .monitored⟩]

/-- A cycle of the empty program. -/
abbrev IdleCycle : CycleState → CycleState → Prop := Cycle [.halt] 10 fun _ => .bool false

end Audesys.Runtime
