import Audesys.Hal.Steps

/-!
# `Hal.Relocate` — code moved to another address

A jump names an index of its program, so code moved behind other code has to have its jumps moved with it. Where that
is done, the machine goes through the moved code as it goes through the code itself, step for step
(`RelocatedAt.run`). The instruction pointer is no operand: what a plain instruction does is the same everywhere
(`execPlain_setIp`).
-/

namespace Audesys.Hal

open Audesys.Lib

variable [Target]

/-! ## The instruction pointer is no operand -/

/-- The plain instructions on registers and signals alone. -/
def Opcode.onRegisters : Opcode → Bool
  | .nop | .load | .store | .add | .sub | .mul | .div | .mod | .neg | .eq | .neq | .gt | .lt | .gte | .lte
  | .and | .or | .xor | .not => true
  | _ => false

section
variable (vm : Vm) (n : Nat) (args : List Operand)

theorem writeRegister_setIp (r : UInt8) (v : HalValue) :
    (vm.setIp n).writeRegister r v = (vm.writeRegister r v).map (Vm.setIp · n) := by
  unfold Vm.writeRegister
  split <;> rfl

theorem readReg_setIp (op : Operand) : Exec.readReg (vm.setIp n) op = Exec.readReg vm op := by
  cases op <;> rfl

theorem execLoad_setIp : Exec.execLoad (vm.setIp n) args = (Exec.execLoad vm args).map (Vm.setIp · n) := by
  unfold Exec.execLoad
  split
  · rename_i dest src rest
    cases src <;> simp [writeRegister_setIp] <;> rfl
  · rfl

theorem execStore_setIp : Exec.execStore (vm.setIp n) args = (Exec.execStore vm args).map (Vm.setIp · n) := by
  unfold Exec.execStore
  split
  · simp [readReg_setIp]
    rfl
  · rfl

theorem execArithBinop_setIp (f : HalValue → HalValue → Option HalValue) :
    Exec.execArithBinop f (vm.setIp n) args = (Exec.execArithBinop f vm args).map (Vm.setIp · n) := by
  unfold Exec.execArithBinop
  split
  · simp [readReg_setIp, writeRegister_setIp]
  · rfl

theorem execUnary_setIp (f : HalValue → Option HalValue) :
    Exec.execUnary f (vm.setIp n) args = (Exec.execUnary f vm args).map (Vm.setIp · n) := by
  unfold Exec.execUnary
  split
  · simp [readReg_setIp, writeRegister_setIp]
  · rfl

theorem execCompare_setIp (f : HalValue → HalValue → Bool) :
    Exec.execCompare f (vm.setIp n) args = (Exec.execCompare f vm args).map (Vm.setIp · n) := by
  unfold Exec.execCompare
  split
  · simp [readReg_setIp]
    rfl
  · rfl

/-- What a plain instruction does is the same wherever it stands. -/
theorem execPlain_setIp {inst : Instruction} (h : inst.opcode.onRegisters = true) :
    Exec.execPlain (vm.setIp n) inst = (Exec.execPlain vm inst).map (Vm.setIp · n) := by
  obtain ⟨op, args⟩ := inst
  cases op with
  | nop => rfl
  | load => exact execLoad_setIp vm n args
  | store => exact execStore_setIp vm n args
  | neg | not => exact execUnary_setIp vm n args _
  | eq | neq | gt | lt | gte | lte => exact execCompare_setIp vm n args _
  | add | sub | mul | div | mod | and | or | xor => exact execArithBinop_setIp vm n args _
  | _ => cases h

end

omit [Target] in
theorem Opcode.isPlain_of_onRegisters {op : Opcode} (h : op.onRegisters = true) : op.isPlain = true := by
  cases op <;> first | rfl | cases h

/-! ## Moved code -/

/-- The jumps of `l` name, from `base` on, the addresses they name in `l`, moved by `base`. -/
structure JumpsMoved (code : List Instruction) (base : Nat) (l : List Instruction) : Prop where
  jump : ∀ k t, l[k]? = some (.jump t) → ∃ t', code[base + k]? = some (.jump t') ∧ t'.toNat = base + t.toNat
  jumpIf : ∀ k t, l[k]? = some (.jumpIf t) → ∃ t', code[base + k]? = some (.jumpIf t') ∧ t'.toNat = base + t.toNat

/-- The instructions that `RelocatedAt.run` follows. -/
def Instruction.Followed (inst : Instruction) : Prop :=
  inst.opcode.onRegisters = true ∨ (∃ t, inst = .jump t) ∨ ∃ t, inst = .jumpIf t

/-- `l` stands in `code` from `base` on, moved with its jumps. -/
structure RelocatedAt (code : List Instruction) (base : Nat) (l : List Instruction) : Prop
    extends JumpsMoved code base l where
  plain : ∀ k inst, l[k]? = some inst → inst.opcode.isPlain = true → code[base + k]? = some inst

/-- A state, moved into code that starts at `base`. -/
def Vm.movedTo (vm : Vm) (base : Nat) : Vm := vm.setIp (base + vm.ip)

namespace RelocatedAt

variable {code l : List Instruction} {base : Nat}

/-- One step. -/
theorem step (h : RelocatedAt code base l) (hl : ∀ inst ∈ l, inst.Followed) {v w : Vm} (hnext : next l v = some w) :
    next code (v.movedTo base) = some (w.movedTo base) := by
  have hsome : ∃ inst, l[v.ip]? = some inst := by
    cases hinst : l[v.ip]? with
    | none =>
      unfold next Vm.step at hnext
      rw [hinst] at hnext
      cases hnext
    | some inst => exact ⟨inst, rfl⟩
  obtain ⟨inst, hinst⟩ := hsome
  rcases hl inst (List.mem_of_getElem? hinst) with hreg | ⟨t, rfl⟩ | ⟨t, rfl⟩
  · have hplain := Opcode.isPlain_of_onRegisters hreg
    have hmoved : code[(v.movedTo base).ip]? = some inst := h.plain v.ip inst hinst hplain
    rw [next_plain hinst hplain, Option.map_eq_some_iff] at hnext
    obtain ⟨u, hexec, rfl⟩ := hnext
    have hip : u.ip = v.ip := (plain_of_execPlain hexec).ip
    rw [next_plain hmoved hplain, Vm.movedTo, execPlain_setIp v _ hreg, hexec, Option.map_some, Option.map_some,
      Option.some.injEq]
    unfold Vm.movedTo
    rw [Vm.advanceIp_ip, hip, ← Nat.add_assoc]
    rfl
  · obtain ⟨t', hmoved, ht⟩ := h.jump v.ip t hinst
    rw [next_jump hinst] at hnext
    cases hnext
    have hnext' : next code (v.movedTo base) = some ((v.movedTo base).setIp t'.toNat) := next_jump hmoved
    rw [hnext', ht]
    rfl
  · obtain ⟨t', hmoved, ht⟩ := h.jumpIf v.ip t hinst
    rw [next_jumpIf hinst] at hnext
    cases hnext
    have hnext' : next code (v.movedTo base) =
        some (if v.flagsZero = true then (v.movedTo base).setIp t'.toNat else (v.movedTo base).advanceIp) :=
      next_jumpIf hmoved
    rw [hnext', ht]
    -- the flag is that of the state itself
    show some (if v.flagsZero = true then _ else _) = _
    by_cases hflag : v.flagsZero = true
    · rw [if_pos hflag, if_pos hflag]
      rfl
    · rw [if_neg hflag, if_neg hflag]
      rfl

/-- **A run.** The machine goes through the moved code as through the code itself. -/
theorem run (h : RelocatedAt code base l) (hl : ∀ inst ∈ l, inst.Followed) {n : Nat} {v w : Vm}
    (hrun : RunN (next l) n v w) : RunN (next code) n (v.movedTo base) (w.movedTo base) := by
  induction hrun with
  | refl v => exact .refl _
  | step hnext _ ih => exact .step (h.step hl hnext) ih

end RelocatedAt

/-- Code that is only copied is moved where it has no jumps. -/
theorem jumpsMoved_of_codeAt {code l : List Instruction} {base : Nat} (hcode : CodeAt code base l)
    (hl : ∀ inst ∈ l, inst.opcode.isPlain = true) : RelocatedAt code base l where
  jump := by
    intro k t hk
    exact absurd (hl _ (List.mem_of_getElem? hk)) (by simp [Instruction.jump, Opcode.isPlain])
  jumpIf := by
    intro k t hk
    exact absurd (hl _ (List.mem_of_getElem? hk)) (by simp [Instruction.jumpIf, Opcode.isPlain])
  plain := by
    intro k inst hk _
    obtain ⟨hlt, rfl⟩ := List.getElem?_eq_some_iff.1 hk
    exact hcode.get hlt

/-- A copied jump still names its own address. -/
theorem not_jumpsMoved {code l : List Instruction} {base : Nat} (hcode : CodeAt code base l) (hbase : 0 < base)
    {t : UInt32} (ht : Instruction.jumpIf t ∈ l) : ¬ JumpsMoved code base l := by
  intro h
  obtain ⟨k, hlt, hk⟩ := List.mem_iff_getElem.1 ht
  obtain ⟨t', hmoved, haddr⟩ := h.jumpIf k t (by rw [List.getElem?_eq_getElem hlt, hk])
  rw [hcode.get hlt, hk] at hmoved
  have hsame : t = t' := by
    have heq := Option.some.inj hmoved
    simpa only [Instruction.jumpIf, Instruction.mk.injEq, List.cons.injEq, Operand.immediate.injEq, HalValue.u32.injEq,
      true_and, and_true] using heq
  rw [hsame] at haddr
  omega

end Audesys.Hal
