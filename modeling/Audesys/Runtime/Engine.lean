import Audesys.Hal.Executor

/-!
# `Runtime.Engine` — the shared cells of the controller engine and its client operations

The part of `Engine` (`audesys-runtime`, `engine.rs`) that the IPC server reads and writes: the lock level
with the configuration queue, the pause flags, the loaded program with its executor, the hot-swap cells, the
HMI layout cells and the signal registry. Every cell sits behind its own lock or is an atomic; the functions
below are the bodies of the API calls, each as one transformation of the record. Where a body touches two
cells one after the other (`commitSwap`, `rollbackSwap`, the cycle boundary) the single accesses are
definitions of their own, so that an interleaved model can use them.

Program bytes are decoded by `bincode` and layouts are validated by `serde_yaml`; both stand in `Codec`.
-/

namespace Audesys.Runtime

open Audesys.Hal

variable [Target]

/-- The third-party decoders: `bincode::deserialize` for programs and `serde_yaml::from_str` for layouts
    (which the engine only runs for its verdict). -/
structure Codec where
  deserialize : List UInt8 → Except String HalProgram
  parseYaml : List UInt8 → Except String Unit

/-! ## Data -/

/-- `LockLevel`, ordered by its discriminant. -/
inductive LockLevel where
  | none | load | config | params | run | all
  deriving DecidableEq

namespace LockLevel

def toNat : LockLevel → Nat
  | .none => 0 | .load => 1 | .config => 2 | .params => 3 | .run => 4 | .all => 5

/-- The `Debug` text of a level. -/
def name : LockLevel → String
  | .none => "None" | .load => "Load" | .config => "Config" | .params => "Params" | .run => "Run"
  | .all => "All"

end LockLevel

/-- One command queued at the configuration barrier. -/
structure ConfigCommand where
  id : UInt64
  method : String
  params : List UInt8
  deriving DecidableEq

/-- A registered signal. The engine registers program outputs with the `Own` write strategy. -/
structure SignalDef where
  name : String
  pinType : HalPinType
  value : HalValue

/-- The cells of the engine. `halExecutorPoisoned` is the poison flag of the executor's lock: it is the one
    lock of the engine under which a thread of this program can panic (the VM runs under it). -/
structure Engine where
  lockLevel : LockLevel
  configQueue : List ConfigCommand
  paused : Bool
  stepRequested : Bool
  halProgram : Option HalProgram
  halExecutor : Option Executor
  halExecutorPoisoned : Bool
  pendingSwap : Option HalProgram
  swapCommitted : Bool
  pendingHmiLayout : Option (List UInt8 × UInt64)
  hmiLayoutGeneration : UInt64
  hmiLayout : Option (List UInt8 × UInt64)
  signals : String → Option SignalDef

namespace Engine

/-- `Engine::new`. -/
def new : Engine where
  lockLevel := .none
  configQueue := []
  paused := false
  stepRequested := false
  halProgram := none
  halExecutor := none
  halExecutorPoisoned := false
  pendingSwap := none
  swapCommitted := false
  pendingHmiLayout := none
  hmiLayoutGeneration := 0
  hmiLayout := none
  signals := fun _ => none

/-! ## Debug and configuration -/

def pause (e : Engine) : Engine := { e with paused := true }
def resume (e : Engine) : Engine := { e with paused := false }
def stepCycle (e : Engine) : Engine := { e with paused := true, stepRequested := true }

/-- `queue_config`: refused from `Run` on. -/
def queueConfig (e : Engine) (command : ConfigCommand) : Except String Engine :=
  if LockLevel.run.toNat ≤ e.lockLevel.toNat then
    .error ("Configuration locked: engine is at " ++ e.lockLevel.name ++ " level")
  else .ok { e with configQueue := e.configQueue ++ [command] }

/-! ## Programs -/

/-- `SignalRegistry::register`: the first definition of a name stays. -/
def register (e : Engine) (d : SignalDef) : Engine :=
  match e.signals d.name with
  | some _ => e
  | none => { e with signals := fun n => if n = d.name then some d else e.signals n }

/-- The written signals of a program become `Own` signals of the registry. -/
def registerOutputs (e : Engine) (program : HalProgram) : Engine :=
  program.signals.foldl
    (fun e b =>
      match b.direction with
      | .write | .readWrite => e.register ⟨b.halSignalName, b.halPinType, .s32 0⟩
      | .read => e)
    e

@[simp] theorem register_pendingSwap (e : Engine) (d : SignalDef) :
    (e.register d).pendingSwap = e.pendingSwap := by
  unfold register
  split <;> rfl

@[simp] theorem registerOutputs_pendingSwap (e : Engine) (program : HalProgram) :
    (e.registerOutputs program).pendingSwap = e.pendingSwap := by
  unfold registerOutputs
  generalize program.signals = bs
  induction bs generalizing e with
  | nil => rfl
  | cons b bs ih =>
    rw [List.foldl_cons, ih]
    split <;> simp

/-- Make `program` the running program: new executor, outputs registered, both cells written. -/
def install (e : Engine) (program : HalProgram) : Engine :=
  { e.registerOutputs program with halProgram := some program, halExecutor := some (.new program) }

/-- The checks `load_hal_program` and `prepare_swap` make before they touch the engine; they differ only in
    the text in front of the decoder's message. -/
def validate (codec : Codec) (what : String) (bytes : List UInt8) : Except String HalProgram :=
  match codec.deserialize bytes with
  | .error msg => .error (what ++ msg)
  | .ok program => if program.isWellFormed then .ok program else .error "Program is not well-formed"

/-- `load_hal_program`. The second component is `none` when the write of the executor cell panics on a
    poisoned lock; the program cell has been written by then. -/
def loadHalProgram (codec : Codec) (e : Engine) (bytes : List UInt8) : Engine × Option (Except String Unit) :=
  match validate codec "Failed to deserialize HAL program: " bytes with
  | .error msg => (e, some (.error msg))
  | .ok program =>
    if e.halExecutorPoisoned then
      ({ e.registerOutputs program with halProgram := some program }, none)
    else (e.install program, some (.ok ()))

/-! ## Hot swap -/

/-- `prepare_swap`: the one write is the store to the pending cell. -/
def prepareSwap (codec : Codec) (e : Engine) (bytes : List UInt8) : Except String Engine :=
  match validate codec "deserialize: " bytes with
  | .error msg => .error msg
  | .ok program => .ok { e with pendingSwap := some program }

/-- First access of `commit_swap`: the check of the pending cell. -/
def commitCheck (e : Engine) : Except String Unit :=
  if e.pendingSwap.isNone then .error "No pending swap prepared" else .ok ()

/-- Second access of `commit_swap`: the store to the flag. -/
def commitStore (e : Engine) : Engine := { e with swapCommitted := true }

/-- `commit_swap` run without interruption. -/
def commitSwap (e : Engine) : Except String Engine :=
  match e.commitCheck with
  | .error msg => .error msg
  | .ok () => .ok e.commitStore

/-- First access of `rollback_swap`. -/
def rollbackClear (e : Engine) : Engine := { e with pendingSwap := none }

/-- Second access of `rollback_swap`. -/
def rollbackStore (e : Engine) : Engine := { e with swapCommitted := false }

/-- `rollback_swap` run without interruption. -/
def rollbackSwap (e : Engine) : Engine := e.rollbackClear.rollbackStore

/-- Step 1.5 of the cycle, inside the pending cell's lock: take the pending program and install it. -/
def takePending (e : Engine) : Engine :=
  match e.pendingSwap with
  | some program => { e with pendingSwap := none }.install program
  | none => e

/-- Step 1.5 of the cycle, its last access. -/
def clearCommitted (e : Engine) : Engine := { e with swapCommitted := false }

/-! ## HMI layout -/

/-- `deploy_hmi_layout`; `parseYaml` covers the UTF-8 check and the YAML check. -/
def deployHmiLayout (codec : Codec) (e : Engine) (yaml : List UInt8) : Except String (Engine × UInt64) :=
  match codec.parseYaml yaml with
  | .error msg => .error msg
  | .ok () =>
    let generation := e.hmiLayoutGeneration + 1
    .ok ({ e with hmiLayoutGeneration := generation, pendingHmiLayout := some (yaml, generation) },
      generation)

/-! ## Breakpoints -/

/-- Apply an operation to the loaded executor, if there is one. -/
def withExecutor (e : Engine) (f : Executor → Executor) : Engine :=
  { e with halExecutor := e.halExecutor.map f }

end Engine

end Audesys.Runtime
