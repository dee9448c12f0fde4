import Audesys.Cnc.Config

/-!
# `Cnc.Emit` — the emitters the generators share

A generator writes into one growing list of instructions, and patches the target of a skip once it knows how far to
skip. The four generators bring their own copies of the helpers below, which differ in the registers they borrow; the
registers are parameters here.

A skip is a `JumpIf` with the register of its condition in front of the target. The machine looks for the target in
front, finds none, and goes on; so of what an emitter appends only the `blind` form counts, which no patch of a skip
changes (`Emits`).
-/

namespace Audesys.Cnc

open Audesys.Hal Audesys.Lib

variable [Target]

/-- Code that appends to `instructions: &mut Vec<Instruction>`. -/
abbrev Emit := StateM (List Instruction)

/-- `instructions.push`. -/
def push (inst : Instruction) : Emit Unit := fun is => ((), is ++ [inst])

/-- `instructions.len()`. -/
def len : Emit Nat := fun is => (is.length, is)

/-- Returning a value emits nothing. -/
theorem pure_eq {α : Type} (a : α) (is : List Instruction) : (pure a : Emit α) is = (a, is) := rfl

/-- The program text of a generator. -/
def emitted (m : Emit Unit) : List Instruction := (m []).2

/-- `Instruction::new(Opcode::Load, [Register, SignalName])`. -/
def loadSignal (reg : UInt8) (name : String) : Emit Unit := push ⟨.load, [.register reg, .signalName name]⟩

/-- `Instruction::new(Opcode::Store, [SignalName, Register])`. -/
def storeSignal (name : String) (reg : UInt8) : Emit Unit := push ⟨.store, [.signalName name, .register reg]⟩

def loadF64 (reg : UInt8) (x : Target.F64) : Emit Unit := push (.loadImm reg (.f64 x))

/-- `copy_reg`, `emit_copy`: `dst = src + 0`. -/
def copyReg (src dst zeroReg : UInt8) : Emit Unit := push (.arith .add src zeroReg dst)

/-- `cmp_gt`, `cmp_lt`: copy and compare. The result is in the flag; `dst` keeps the copy. -/
def cmpReg (op : Opcode) (a b dst zeroReg : UInt8) : Emit Unit := do
  copyReg a dst zeroReg
  push (.cmp op dst b)

/-- `cmp_eq_imm`, `emit_cmp_eq_imm`, with the register `temp` borrowed for the immediate. -/
def cmpEqImm (reg : UInt8) (imm : Target.F64) (temp : UInt8) : Emit Unit := do
  loadF64 temp imm
  push (.cmp .eq reg temp)

/-- `cmp_ne_imm`. -/
def cmpNeImm (reg : UInt8) (imm : Target.F64) (dst temp zeroReg : UInt8) : Emit Unit := do
  loadF64 temp imm
  copyReg reg dst zeroReg
  push (.cmp .neq dst temp)

/-- `emit_jump_if_not`: invert the condition, with `temp` borrowed for the zero, and skip on it. The result is the
index of the skip, whose target is a placeholder. -/
def skipIfNot (condReg temp : UInt8) : Emit Nat := do
  cmpEqImm condReg f0 temp
  let idx ← len
  push ⟨.jumpIf, [.register condReg, .immediate (.u32 0)]⟩
  pure idx

/-- What `patch_jump` does to the instruction it finds. -/
def retarget (target : Nat) (inst : Instruction) : Instruction :=
  if inst.opcode = .jumpIf ∧ 2 ≤ inst.operands.length then
    { inst with operands := inst.operands.set 1 (.immediate (.u32 (.ofNat target))) }
  else inst

/-- `patch_jump`. -/
def patchJump (jumpIdx target : Nat) : Emit Unit := fun is => ((), is.modify jumpIdx (retarget target))

/-- The two constants at the start of every program. -/
def emitConstants [F64Literals] (rZero rOne : UInt8) : Emit Unit := do
  loadF64 rZero f0
  loadF64 rOne f1

/-! ## What an emitter appends -/

theorem blind_retarget (target : Nat) (inst : Instruction) : (retarget target inst).blind = inst.blind := by
  unfold retarget
  split
  · obtain ⟨op, args⟩ := inst
    rename_i h
    obtain ⟨rfl, hlen⟩ := h
    match args with
    | a :: b :: rest => cases a with
      | immediate v => cases v <;> rfl
      | _ => rfl
  · rfl

theorem map_blind_modify (is : List Instruction) (i target : Nat) :
    (is.modify i (retarget target)).map Instruction.blind = is.map Instruction.blind := by
  induction is generalizing i with
  | nil =>
    cases i <;> rfl
  | cons inst is ih =>
    cases i with
    | zero =>
      rw [List.modify_zero_cons, List.map_cons, List.map_cons, blind_retarget]
    | succ i =>
      rw [List.modify_succ_cons, List.map_cons, List.map_cons, ih]

/-- The emitter appends `l`, up to the targets of skips. The instances give the list of each helper; a generator is a
chain of helpers, and `Emits.bind` puts the lists together. -/
class Emits {α : Type} (m : Emit α) (l : outParam (List Instruction)) : Prop where
  appends : ∀ is, (m is).2.map Instruction.blind = is.map Instruction.blind ++ l

namespace Emits

variable {α β : Type} {m : Emit α} {f : α → Emit β} {l l₁ l₂ : List Instruction}

/-- One emitter after the other. What the second appends does not depend on the index the first returns. -/
theorem bind (h₁ : Emits m l₁) (h₂ : ∀ a, Emits (f a) l₂) : Emits (m >>= f) (l₁ ++ l₂) where
  appends := by
    intro is
    show ((f (m is).1) (m is).2).2.map Instruction.blind = _
    rw [(h₂ _).appends, h₁.appends, List.append_assoc]

instance pure (a : α) : Emits (pure a : Emit α) [] := ⟨fun _ => (List.append_nil _).symm⟩
instance push (inst : Instruction) : Emits (push inst) [inst.blind] := ⟨fun _ => List.map_append⟩
instance len : Emits len [] := ⟨fun _ => (List.append_nil _).symm⟩

instance patchJump (jumpIdx target : Nat) : Emits (patchJump jumpIdx target) [] where
  appends := by
    intro is
    rw [List.append_nil]
    exact map_blind_modify is jumpIdx target

instance loadSignal (reg : UInt8) (name : String) :
    Emits (loadSignal reg name) [⟨.load, [.register reg, .signalName name]⟩] := inferInstanceAs (Emits (Cnc.push _) _)
instance storeSignal (name : String) (reg : UInt8) :
    Emits (storeSignal name reg) [⟨.store, [.signalName name, .register reg]⟩] := inferInstanceAs (Emits (Cnc.push _) _)
instance loadF64 (reg : UInt8) (x : Target.F64) : Emits (loadF64 reg x) [.loadImm reg (.f64 x)] :=
  inferInstanceAs (Emits (Cnc.push _) _)
instance copyReg (src dst zeroReg : UInt8) : Emits (copyReg src dst zeroReg) [.arith .add src zeroReg dst] :=
  inferInstanceAs (Emits (Cnc.push _) _)

/-- A loop over the axes. -/
theorem forM {as : List β} {f : β → Emit PUnit} {block : β → List Instruction} (h : ∀ a, Emits (f a) (block a)) :
    Emits (as.forM f) (as.flatMap block) := by
  induction as with
  | nil => exact pure _
  | cons a as ih => exact (h a).bind fun _ => ih

/-- The whole text of a generator. -/
theorem emitted {m : Emit Unit} (h : Emits m l) : (emitted m).map Instruction.blind = l := h.appends []

end Emits

section
variable (a b reg dst temp zeroReg : UInt8) (imm : Target.F64)

instance emits_cmpReg (op : Opcode) :
    Emits (cmpReg op a b dst zeroReg) [.arith .add a zeroReg dst, (Instruction.cmp op dst b).blind] :=
  Emits.bind (.copyReg ..) fun _ => .push _

instance emits_cmpEqImm : Emits (cmpEqImm reg imm temp) [.loadImm temp (.f64 imm), .cmp .eq reg temp] :=
  Emits.bind (.loadF64 ..) fun _ => .push _

instance emits_cmpNeImm :
    Emits (cmpNeImm reg imm dst temp zeroReg)
      [.loadImm temp (.f64 imm), .arith .add reg zeroReg dst, .cmp .neq dst temp] :=
  Emits.bind (.loadF64 ..) fun _ => Emits.bind (.copyReg ..) fun _ => .push _

/-- The skip of `skipIfNot` is a `Nop` to the machine. -/
instance emits_skipIfNot :
    Emits (skipIfNot reg temp) [.loadImm temp (.f64 f0), .cmp .eq reg temp, ⟨.nop, []⟩] :=
  Emits.bind (emits_cmpEqImm ..) fun _ => Emits.bind .len fun _ => Emits.bind (.push _) fun _ => .pure _

end

/-! ## Straight programs -/

section
variable [F64Literals] {rZero rOne : UInt8}

/-- The registers of the two constants. -/
def consts (rZero rOne : UInt8) : List (UInt8 × HalValue) := [(rZero, .f64 f0), (rOne, .f64 f1)]

theorem consts_of {st : SymState} (hzero : st.regs rZero = some (.value (.f64 f0)))
    (hone : st.regs rOne = some (.value (.f64 f1))) : ∀ p ∈ consts rZero rOne, st.regs p.1 = some (.value p.2) := by
  intro p hp
  rcases List.mem_cons.1 hp with rfl | hp
  · exact hzero
  · rw [List.mem_singleton.1 hp]
    exact hone

/-- The code of the two constants. -/
def constantsCode (rZero rOne : UInt8) : List Instruction := [.loadImm rZero (.f64 f0), .loadImm rOne (.f64 f1)]

instance emits_emitConstants : Emits (emitConstants rZero rOne) (constantsCode rZero rOne) :=
  Emits.bind (.loadF64 ..) fun _ => .loadF64 ..

theorem straight_constantsCode (hzero : rZero.toNat < registerCount) (hone : rOne.toNat < registerCount)
    (hne : rZero ≠ rOne) :
    Straight (constantsCode rZero rOne) (Holds []) (Holds (consts rZero rOne)) (fun σ => σ) := by
  have hrun : (SymState.ofConsts []).run (constantsCode rZero rOne) =
      some ((SymState.ofConsts []).set rZero (some (.value (.f64 f0))) |>.set rOne (some (.value (.f64 f1)))) := by
    simp only [constantsCode, SymState.run, SymState.step, Instruction.loadImm, if_pos hzero, if_pos hone, Option.bind_some]
  refine Straight.ofRun _ hrun (consts_of ?_ ?_)
  · simp only [SymState.set, if_neg hne, if_true]
  · simp only [SymState.set, if_true]

/-- Constants first, then the axes one after the other; the block of an axis has `n` instructions at least. -/
theorem exists_axesCode {α : Type} {as : List α} {emitAxis : α → Emit PUnit} {effect : α → SignalTable → SignalTable}
    (n : Nat) (hzero : rZero.toNat < registerCount) (hone : rOne.toNat < registerCount) (hne : rZero ≠ rOne)
    (h : ∀ a, ∃ l, Emits (emitAxis a) l ∧ n ≤ l.length ∧
      Straight l (Holds (consts rZero rOne)) (Holds (consts rZero rOne)) (effect a)) :
    ∃ l, (emitted (do emitConstants rZero rOne; as.forM emitAxis; push .halt)).map Instruction.blind = l ++ [.halt] ∧
      n * as.length ≤ l.length ∧
      Straight l (Holds []) (Holds (consts rZero rOne)) (fun σ => as.foldl (fun τ a => effect a τ) σ) := by
  choose code hcode using h
  refine ⟨_ ++ as.flatMap code, ?_, ?_,
    (straight_constantsCode hzero hone hne).append (.flatMap fun a _ => (hcode a).2.2)⟩
  · have hemits : Emits (do emitConstants rZero rOne; as.forM emitAxis; push .halt) _ :=
      Emits.bind emits_emitConstants fun _ => Emits.bind (.forM fun a => (hcode a).1) fun _ => .push _
    rw [List.append_assoc]
    exact hemits.emitted
  · rw [List.length_append]
    refine Nat.le_trans ?_ (Nat.le_add_left ..)
    induction as with
    | nil => exact Nat.le_refl _
    | cons a as ih =>
      rw [List.flatMap_cons, List.length_append, List.length_cons, Nat.mul_succ]
      have hlen := (hcode a).2.1
      omega

end

end Audesys.Cnc
