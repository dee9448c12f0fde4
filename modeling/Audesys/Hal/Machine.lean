import Audesys.Hal.Executor
import Audesys.Lib.Run

/-!
# `Hal.Machine` — the register VM as a deterministic machine

`next code` is one step of the VM that goes on; it is `none` where the run halts or panics. What each
instruction the compilers emit does to the state is stated once here, on registers addressed by their number
(`get`, `set`), and `runToHalt` is tied to counted runs of `next`.
-/

namespace Audesys.Hal

open Audesys.Lib

variable [Target]

namespace Vm

variable {target : UInt32}
variable {f : HalValue → HalValue → Option HalValue}

/-! ## Registers by number -/

/-- The value of a register; the register file has sixteen. -/
def get (vm : Vm) (r : UInt8) : HalValue := (vm.readRegister r).getD (.s32 0)

/-- The state with a register written. -/
def set (vm : Vm) (r : UInt8) (v : HalValue) : Vm := (vm.writeRegister r v).getD vm

section
variable (vm : Vm) (r r' : UInt8) (v : HalValue)

theorem readRegister_eq (h : r.toNat < registerCount) : vm.readRegister r = some (vm.get r) := by
  simp [get, readRegister, dif_pos h]

theorem writeRegister_eq (h : r.toNat < registerCount) : vm.writeRegister r v = some (vm.set r v) := by
  simp [set, writeRegister, if_pos h]

theorem get_set_self (h : r.toNat < registerCount) : (vm.set r v).get r = v := by
  simp [get, set, readRegister, writeRegister, dif_pos h, if_pos h]

variable {r r'}

theorem get_set_ne (h : r' ≠ r) : (vm.set r v).get r' = vm.get r' := by
  have hne : r'.toNat ≠ r.toNat := fun heq => h (UInt8.toNat_inj.1 heq)
  unfold set writeRegister
  split
  · simp [get, readRegister, if_neg hne]
  · rfl

variable (r)

@[simp] theorem set_ip : (vm.set r v).ip = vm.ip := by unfold set writeRegister; split <;> rfl
@[simp] theorem set_signals : (vm.set r v).signals = vm.signals := by unfold set writeRegister; split <;> rfl
@[simp] theorem set_flagsZero : (vm.set r v).flagsZero = vm.flagsZero := by
  unfold set writeRegister; split <;> rfl
@[simp] theorem set_callStack : (vm.set r v).callStack = vm.callStack := by
  unfold set writeRegister; split <;> rfl

@[simp] theorem advanceIp_ip : vm.advanceIp.ip = vm.ip + 1 := rfl
@[simp] theorem advanceIp_get : vm.advanceIp.get r = vm.get r := rfl
@[simp] theorem advanceIp_signals : vm.advanceIp.signals = vm.signals := rfl
@[simp] theorem advanceIp_flagsZero : vm.advanceIp.flagsZero = vm.flagsZero := rfl
@[simp] theorem advanceIp_callStack : vm.advanceIp.callStack = vm.callStack := rfl
@[simp] theorem setIp_ip (n : Nat) : (vm.setIp n).ip = n := rfl
@[simp] theorem setIp_get (n : Nat) : (vm.setIp n).get r = vm.get r := rfl
@[simp] theorem setIp_signals (n : Nat) : (vm.setIp n).signals = vm.signals := rfl
@[simp] theorem setIp_flagsZero (n : Nat) : (vm.setIp n).flagsZero = vm.flagsZero := rfl
@[simp] theorem setIp_callStack (n : Nat) : (vm.setIp n).callStack = vm.callStack := rfl
@[simp] theorem setFlagsZero_ip (b : Bool) : (vm.setFlagsZero b).ip = vm.ip := rfl
@[simp] theorem setFlagsZero_get (b : Bool) : (vm.setFlagsZero b).get r = vm.get r := rfl
@[simp] theorem setFlagsZero_signals (b : Bool) : (vm.setFlagsZero b).signals = vm.signals := rfl
@[simp] theorem setFlagsZero_flagsZero (b : Bool) : (vm.setFlagsZero b).flagsZero = b := rfl
@[simp] theorem setFlagsZero_callStack (b : Bool) : (vm.setFlagsZero b).callStack = vm.callStack := rfl
@[simp] theorem writeSignal_ip (n : String) : (vm.writeSignal n v).ip = vm.ip := rfl
@[simp] theorem writeSignal_get (n : String) : (vm.writeSignal n v).get r = vm.get r := rfl
@[simp] theorem writeSignal_callStack (n : String) : (vm.writeSignal n v).callStack = vm.callStack := rfl
@[simp] theorem writeSignal_flagsZero (n : String) : (vm.writeSignal n v).flagsZero = vm.flagsZero := rfl
@[simp] theorem writeSignal_signals (n : String) :
    (vm.writeSignal n v).signals = fun m => if m = n then some v else vm.signals m := rfl
@[simp] theorem reset_get : vm.reset.get r = .s32 0 := by
  unfold get readRegister reset
  split <;> rfl

end

end Vm

/-! ## Steps -/

/-- A step that goes on. -/
def next (code : List Instruction) (vm : Vm) : Option Vm :=
  match vm.step code with
  | some (vm', .cont) => some vm'
  | _ => none

/-- The opcodes that `executeInstruction` hands to `execPlain`. -/
def Opcode.isPlain : Opcode → Bool
  | .jump | .jumpIf | .call | .ret | .halt => false
  | _ => true

section
variable {code : List Instruction} {vm : Vm} {inst : Instruction}

theorem step_plain (h : code[vm.ip]? = some inst) (hp : inst.opcode.isPlain) :
    vm.step code = (Exec.execPlain vm inst).map (fun vm' => (vm'.advanceIp, .cont)) := by
  obtain ⟨op, args⟩ := inst
  unfold Vm.step
  rw [h]
  cases op <;> simp [Opcode.isPlain] at hp <;>
    · simp [Exec.executeInstruction, Exec.isJump]
      cases Exec.execPlain vm _ <;> rfl

theorem next_plain (h : code[vm.ip]? = some inst) (hp : inst.opcode.isPlain) :
    next code vm = (Exec.execPlain vm inst).map Vm.advanceIp := by
  unfold next
  rw [step_plain h hp]
  cases Exec.execPlain vm inst <;> rfl

theorem next_loadImm {r : UInt8} {v : HalValue} (h : code[vm.ip]? = some (.loadImm r v))
    (hr : r.toNat < registerCount) : next code vm = some (vm.set r v).advanceIp := by
  rw [next_plain h rfl]
  show Option.map Vm.advanceIp (vm.writeRegister r v) = _
  rw [Vm.writeRegister_eq _ _ _ hr, Option.map_some]

theorem next_cmp {f : HalValue → HalValue → Bool} {op : Opcode} {a b : UInt8}
    (h : code[vm.ip]? = some (.cmp op a b)) (hop : op.isPlain)
    (hf : ∀ vm args, Exec.execPlain vm ⟨op, args⟩ = Exec.execCompare f vm args)
    (ha : a.toNat < registerCount) (hb : b.toNat < registerCount) :
    next code vm = some (vm.setFlagsZero (f (vm.get a) (vm.get b))).advanceIp := by
  rw [next_plain h hop, Instruction.cmp, hf]
  simp [Exec.execCompare, Exec.readReg, Vm.readRegister_eq _ _ ha, Vm.readRegister_eq _ _ hb]

theorem next_arith {op : Opcode} {a b out : UInt8} {v : HalValue}
    (h : code[vm.ip]? = some (.arith op a b out)) (hop : op.isPlain)
    (hf : ∀ vm args, Exec.execPlain vm ⟨op, args⟩ = Exec.execArithBinop f vm args)
    (ha : a.toNat < registerCount) (hb : b.toNat < registerCount) (ho : out.toNat < registerCount)
    (hv : f (vm.get a) (vm.get b) = some v) : next code vm = some (vm.set out v).advanceIp := by
  rw [next_plain h hop, Instruction.arith, hf]
  simp [Exec.execArithBinop, Exec.readReg, Exec.destReg, Vm.readRegister_eq _ _ ha, Vm.readRegister_eq _ _ hb, hv, Vm.writeRegister_eq _ _ _ ho]

theorem next_not {a : UInt8} (h : code[vm.ip]? = some (.arith .not a a a)) (ha : a.toNat < registerCount) :
    next code vm = some (vm.set a (vm.get a).not).advanceIp := by
  rw [next_plain h rfl]
  simp [Exec.execPlain, Instruction.arith, Exec.execUnary, Exec.readReg, Exec.destReg, Vm.readRegister_eq _ _ ha, Vm.writeRegister_eq _ _ _ ha]

theorem next_loadSignal {name : String} {r : UInt8}
    (h : code[vm.ip]? = some ⟨.load, [.register r, .signalName name]⟩) (hr : r.toNat < registerCount) :
    next code vm = some (vm.set r ((vm.signals name).getD (.bool false))).advanceIp := by
  rw [next_plain h rfl]
  show Option.map Vm.advanceIp (vm.writeRegister r _) = _
  rw [Vm.writeRegister_eq _ _ _ hr, Option.map_some]
  rfl

theorem next_loadReg {a b : UInt8} (h : code[vm.ip]? = some ⟨.load, [.register a, .register b]⟩)
    (ha : a.toNat < registerCount) (hb : b.toNat < registerCount) :
    next code vm = some (vm.set a (vm.get b)).advanceIp := by
  rw [next_plain h rfl]
  simp [Exec.execPlain, Exec.execLoad, Vm.readRegister_eq _ _ hb, Vm.writeRegister_eq _ _ _ ha]

theorem next_notReg {a b : UInt8} (h : code[vm.ip]? = some ⟨.not, [.register a, .register b]⟩)
    (ha : a.toNat < registerCount) (hb : b.toNat < registerCount) :
    next code vm = some (vm.set b (vm.get a).not).advanceIp := by
  rw [next_plain h rfl]
  simp [Exec.execPlain, Exec.execUnary, Exec.readReg, Exec.destReg, Vm.readRegister_eq _ _ ha, Vm.writeRegister_eq _ _ _ hb]

/-- Arithmetic without a result panics. -/
theorem step_arith_none {op : Opcode} {a b out : UInt8}
    (h : code[vm.ip]? = some (.arith op a b out)) (hop : op.isPlain)
    (hf : ∀ vm args, Exec.execPlain vm ⟨op, args⟩ = Exec.execArithBinop f vm args)
    (ha : a.toNat < registerCount) (hb : b.toNat < registerCount) (hv : f (vm.get a) (vm.get b) = none) :
    vm.step code = none := by
  rw [step_plain h hop, Instruction.arith, hf]
  simp [Exec.execArithBinop, Exec.readReg, Vm.readRegister_eq _ _ ha, Vm.readRegister_eq _ _ hb, hv]

theorem next_store {name : String} {r : UInt8}
    (h : code[vm.ip]? = some ⟨.store, [.signalName name, .register r]⟩) (hr : r.toNat < registerCount) :
    next code vm = some (vm.writeSignal name (vm.get r)).advanceIp := by
  rw [next_plain h rfl]
  simp [Exec.execPlain, Exec.execStore, Exec.readReg, Vm.readRegister_eq _ _ hr]

theorem next_jump (h : code[vm.ip]? = some (.jump target)) : next code vm = some (vm.setIp target.toNat) := by
  unfold next Vm.step
  rw [h]
  rfl

theorem next_jumpIf (h : code[vm.ip]? = some (.jumpIf target)) :
    next code vm = some (if vm.flagsZero then vm.setIp target.toNat else vm.advanceIp) := by
  unfold next Vm.step
  rw [h]
  cases hf : vm.flagsZero <;>
    simp [Exec.executeInstruction, Instruction.jumpIf, Exec.execJumpIf, hf, Exec.isJump]

theorem next_jumpIf_taken (h : code[vm.ip]? = some (.jumpIf target)) (hf : vm.flagsZero = true) :
    next code vm = some (vm.setIp target.toNat) := by rw [next_jumpIf h, if_pos hf]

theorem next_jumpIf_through (h : code[vm.ip]? = some (.jumpIf target))
    (hf : vm.flagsZero = false) : next code vm = some vm.advanceIp := by
  rw [next_jumpIf h, if_neg (by simp [hf])]

theorem step_halt (h : code[vm.ip]? = some .halt) : vm.step code = some (vm.advanceIp, .halted) := by
  unfold Vm.step
  rw [h]
  rfl

theorem next_halt (h : code[vm.ip]? = some .halt) : next code vm = none := by
  unfold next
  rw [step_halt h]

end

/-! ## Straight-line code and regions -/

section
variable (code : List Instruction)

/-- A step to the next instruction. -/
def advance (vm : Vm) : Option Vm :=
  match next code vm with
  | some vm' => if vm'.ip = vm.ip + 1 then some vm' else none
  | none => none

/-- A step that ends strictly between `lo` and `hi`. -/
def stay (lo hi : Nat) (vm : Vm) : Option Vm :=
  match next code vm with
  | some vm' => if lo < vm'.ip ∧ vm'.ip < hi then some vm' else none
  | none => none

variable {code}

theorem advance_eq {vm vm' : Vm} : advance code vm = some vm' ↔ next code vm = some vm' ∧ vm'.ip = vm.ip + 1 := by
  unfold advance
  cases h : next code vm with
  | none => simp
  | some u =>
    simp
    constructor
    · rintro ⟨hip, rfl⟩
      exact ⟨rfl, hip⟩
    · rintro ⟨rfl, hip⟩
      exact ⟨hip, rfl⟩

theorem stay_eq {lo hi : Nat} {vm vm' : Vm} :
    stay code lo hi vm = some vm' ↔ next code vm = some vm' ∧ lo < vm'.ip ∧ vm'.ip < hi := by
  unfold stay
  cases h : next code vm with
  | none => simp
  | some u =>
    simp
    constructor
    · rintro ⟨hip, rfl⟩
      exact ⟨rfl, hip⟩
    · rintro ⟨rfl, hip⟩
      exact ⟨hip, rfl⟩

theorem run_of_advance {n : Nat} {vm vm' : Vm} (h : RunN (advance code) n vm vm') :
    RunN (next code) n vm vm' := h.mono fun _ _ hs => (advance_eq.1 hs).1

/-- Straight-line code stays in the region around it. -/
theorem stay_of_advance {lo hi n : Nat} {vm vm' : Vm} (h : RunN (advance code) n vm vm')
    (hlo : lo ≤ vm.ip) (hhi : vm'.ip < hi) : RunN (stay code lo hi) n vm vm' := by
  have hip : ∀ {n vm vm'}, RunN (advance code) n vm vm' → vm'.ip = vm.ip + n := by
    intro n vm vm' h
    induction h with
    | refl s => rfl
    | step hs _ ih =>
      have := (advance_eq.1 hs).2
      omega
  induction h with
  | refl s => exact .refl s
  | @step n s t u hs ht ih =>
    obtain ⟨hn, ht'⟩ := advance_eq.1 hs
    have hend := hip ht
    exact .step (stay_eq.2 ⟨hn, by omega, by omega⟩) (ih (by omega) hhi)

end

/-! ## Running to the halt -/

section
variable {code : List Instruction}

theorem next_of_step {vm vm' : Vm} (h : vm.step code = some (vm', .cont)) : next code vm = some vm' := by
  unfold next
  rw [h]

theorem step_of_next {vm vm' : Vm} (h : next code vm = some vm') : vm.step code = some (vm', .cont) := by
  unfold next at h
  split at h
  · rename_i hs
    cases h
    exact hs
  · cases h

/-- The machine never stops at a breakpoint. -/
theorem step_ne_breaked {vm vm' : Vm} : vm.step code ≠ some (vm', .breaked) := by
  intro h
  simp only [Vm.step, Option.bind_eq_bind, Option.bind_eq_some_iff] at h
  obtain ⟨inst, _, ⟨vm₁, res⟩, he, h⟩ := h
  simp only [Option.some.injEq, Prod.mk.injEq] at h
  obtain ⟨_, rfl⟩ := h
  unfold Exec.executeInstruction at he
  split at he
  · simp at he
  · simp at he
  · simp at he
  · unfold Exec.execRet at he
    split at he
    · simp only [Option.bind_eq_bind] at he
      split at he <;> simp [Option.bind_eq_some_iff] at he
    · simp at he
  · simp at he
  · simp at he

/-- `vm` runs into a halting instruction, which leaves `vm'`. -/
def HaltsAt (code : List Instruction) (vm vm' : Vm) : Prop :=
  ∃ n last, RunN (next code) n vm last ∧ last.step code = some (vm', .halted)

theorem HaltsAt.det {vm vm₁ vm₂ : Vm} (h₁ : HaltsAt code vm vm₁) (h₂ : HaltsAt code vm vm₂) : vm₁ = vm₂ := by
  obtain ⟨n₁, l₁, hr₁, hs₁⟩ := h₁
  obtain ⟨n₂, l₂, hr₂, hs₂⟩ := h₂
  have hstop : ∀ {l v : Vm}, l.step code = some (v, .halted) → next code l = none := by
    intro l v h
    unfold next
    rw [h]
  have hn : n₁ = n₂ :=
    Nat.le_antisymm (hr₁.le_of_stopped hr₂ (hstop hs₂)) (hr₂.le_of_stopped hr₁ (hstop hs₁))
  subst hn
  have hl := hr₁.det hr₂
  rw [hl, hs₂] at hs₁
  simpa using hs₁.symm

/-- A run that ends in a panic halts nowhere. -/
theorem not_haltsAt {n : Nat} {vm last vm' : Vm} (hr : RunN (next code) n vm last) (hs : last.step code = none) :
    ¬ HaltsAt code vm vm' := by
  rintro ⟨m, last', hr', hs'⟩
  have hstop : next code last = none := by
    unfold next
    rw [hs]
  have hstop' : next code last' = none := by
    unfold next
    rw [hs']
  have hn : m = n := Nat.le_antisymm (hr'.le_of_stopped hr hstop) (hr.le_of_stopped hr' hstop')
  subst hn
  rw [hr.det hr', hs'] at hs
  cases hs

/-- A halting run bounds the number of steps. -/
theorem HaltsAt.bounded {vm vm' : Vm} (h : HaltsAt code vm vm') :
    ∃ N, ∀ n u, RunN (next code) n vm u → n ≤ N := by
  obtain ⟨n, last, hr, hs⟩ := h
  have hstop : next code last = none := by
    unfold next
    rw [hs]
  exact ⟨n, fun m u hm => hm.le_of_stopped hr hstop⟩

end

/-- An executor outside debug mode, with the given machine. -/
def Executor.at (program : HalProgram) (vm : Vm) : Executor := { Executor.new program with vm := vm }

theorem Executor.step_at (program : HalProgram) (vm : Vm) :
    (Executor.at program vm).step = (vm.step program.instructions).map (fun p => (Executor.at program p.1, p.2)) :=
  Executor.step_of_not_debug rfl

/-- **Running to the halt** is a counted run of the machine that ends in a halting instruction. -/
theorem runToHalt_iff (program : HalProgram) (vm vm' : Vm) :
    (∃ fuel steps, (Executor.at program vm).runToHalt fuel 0 = some (Executor.at program vm', steps)) ↔
      HaltsAt program.instructions vm vm' := by
  constructor
  · rintro ⟨fuel, steps, h⟩
    suffices hgen : ∀ fuel k steps vm, (Executor.at program vm).runToHalt fuel k =
        some (Executor.at program vm', steps) → HaltsAt program.instructions vm vm' from hgen _ _ _ _ h
    intro fuel
    induction fuel with
    | zero => intro k steps vm h; exact absurd h (by simp [Executor.runToHalt])
    | succ fuel ih =>
      intro k steps vm h
      simp only [Executor.runToHalt, Executor.step_at, Option.bind_eq_bind, Option.bind_eq_some_iff,
        Option.map_eq_some_iff, Prod.exists] at h
      obtain ⟨ex, res, ⟨vm₁, _, hs, heq⟩, h⟩ := h
      cases heq
      cases res with
      | cont =>
        obtain ⟨n, last, hr, hl⟩ := ih _ _ _ h
        exact ⟨n + 1, last, .step (next_of_step hs) hr, hl⟩
      | halted =>
        simp at h
        have hvm : vm₁ = vm' := congrArg Executor.vm h.1
        exact ⟨0, vm, .refl vm, hvm ▸ hs⟩
      | breaked => exact absurd hs step_ne_breaked
  · rintro ⟨n, last, hr, hl⟩
    suffices hgen : ∀ k, ∃ steps, (Executor.at program vm).runToHalt (n + 1) k =
        some (Executor.at program vm', steps) from ⟨n + 1, hgen 0⟩
    induction hr with
    | refl s =>
      intro k
      exact ⟨k + 1, by simp [Executor.runToHalt, Executor.step_at, hl]⟩
    | @step n s t u hs _ ih =>
      intro k
      obtain ⟨steps, h⟩ := ih hl (k + 1)
      refine ⟨steps, ?_⟩
      rw [Executor.runToHalt]
      simp [Executor.step_at, step_of_next hs]
      exact h

end Audesys.Hal
