import Audesys.Hal.Host
import Audesys.Hal.Steps

/-!
# `Hal.Confined` — the assertions of `step`, `read_register` and `write_register`

Which registers the handler of an instruction passes to the two accessors (`footprint`), and when a step trips
one of the assertions (`Trips`). The footprint is complete: a step panics exactly if it trips an assertion or
if an operator on values panics (`step_eq_none_iff`).

The loader asks for a `Halt` somewhere in the program. A run stays inside the program and the register file
exactly as long as every instruction it executes is confined (`confined_iff`); `Closed` is a check on the
program alone that is enough for all runs.
-/

namespace Audesys.Hal

open Audesys.Lib

variable [Target]
variable {args : List Operand}
variable {op : Operand} {v : HalValue}

/-! ## Footprints -/

def InFile (r : UInt8) : Prop := r.toNat < registerCount

instance (r : UInt8) : Decidable (InFile r) := inferInstanceAs (Decidable (_ < _))

def Operand.registers : Operand → List UInt8
  | .register r => [r]
  | _ => []

/-- The registers a handler reads and then, after computing, writes. -/
structure Footprint where
  reads : List UInt8
  writes : List UInt8

namespace Footprint

def empty : Footprint := ⟨[], []⟩

def load : List Operand → Footprint
  | .register dest :: src :: _ => ⟨src.registers, [dest]⟩
  | _ => empty

def store : List Operand → Footprint
  | .signalName _ :: src :: _ => ⟨src.registers, []⟩
  | _ => empty

def loadIndex : List Operand → Footprint
  | .register dest :: .register arr :: .register idx :: _ => ⟨[arr, idx], [dest]⟩
  | _ => empty

def storeIndex : List Operand → Footprint
  | .register arr :: .register idx :: .register value :: _ => ⟨[arr, idx, value], [arr]⟩
  | _ => empty

def arith : List Operand → Footprint
  | op0 :: op1 :: op2 :: _ => ⟨op0.registers ++ op1.registers, [Exec.destReg op2]⟩
  | _ => empty

def unary : List Operand → Footprint
  | op0 :: op1 :: _ => ⟨op0.registers, [Exec.destReg op1]⟩
  | _ => empty

def compare : List Operand → Footprint
  | op0 :: op1 :: _ => ⟨op0.registers ++ op1.registers, []⟩
  | _ => empty

def timerRun : List Operand → Footprint
  | .immediate (.u32 _) :: .register r :: op2 :: _ => if (presetOf op2).isSome then ⟨[r], []⟩ else empty
  | _ => empty

def counterRun : List Operand → Footprint
  | .immediate (.u32 _) :: .register cu :: .register cd :: .immediate (.u32 _) :: _ :: _ => ⟨[cu, cd], []⟩
  | _ => empty

def srRun : List Operand → Footprint
  | .immediate (.u32 _) :: op1 :: op2 :: _ :: _ => ⟨op1.registers ++ op2.registers, []⟩
  | _ => empty

def edgeRun : List Operand → Footprint
  | .immediate (.u32 _) :: op1 :: _ :: _ => ⟨op1.registers, []⟩
  | _ => empty

/-- `ReadTimer`, `ReadCounter` and `ReadSr` write two outputs. -/
def readPair : List Operand → Footprint
  | .immediate (.u32 _) :: .register a :: .register b :: _ => ⟨[], [a, b]⟩
  | _ => empty

def readEdge : List Operand → Footprint
  | .immediate (.u32 _) :: .register q :: _ => ⟨[], [q]⟩
  | _ => empty

/-- The result register is copied to `r0`. -/
def ret : List Operand → Footprint
  | .register r :: _ => ⟨[r], [0]⟩
  | _ => empty

end Footprint

def footprint (inst : Instruction) : Footprint :=
  match inst.opcode with
  | .load => .load inst.operands
  | .store => .store inst.operands
  | .loadIndex => .loadIndex inst.operands
  | .storeIndex => .storeIndex inst.operands
  | .add | .sub | .mul | .div | .mod | .and | .or | .xor => .arith inst.operands
  | .neg | .not => .unary inst.operands
  | .eq | .neq | .gt | .lt | .gte | .lte => .compare inst.operands
  | .timerRun => .timerRun inst.operands
  | .counterRun => .counterRun inst.operands
  | .srRun => .srRun inst.operands
  | .edgeRun => .edgeRun inst.operands
  | .readTimer | .readCounter | .readSr => .readPair inst.operands
  | .readEdge => .readEdge inst.operands
  | .ret => .ret inst.operands
  | .nop | .jump | .jumpIf | .call | .halt => .empty

/-! ## Operators that panic -/

namespace Computes

def arith (f : HalValue → HalValue → Option HalValue) (vm : Vm) : List Operand → Bool
  | op0 :: op1 :: _ :: _ =>
    match Exec.readReg vm op0, Exec.readReg vm op1 with
    | some a, some b => (f a b).isSome
    | _, _ => true
  | _ => true

def unary (f : HalValue → Option HalValue) (vm : Vm) : List Operand → Bool
  | op0 :: _ :: _ =>
    match Exec.readReg vm op0 with
    | some a => (f a).isSome
    | none => true
  | _ => true

def loadIndex (vm : Vm) : List Operand → Bool
  | .register _ :: .register arr :: .register idx :: _ =>
    match vm.readRegister arr, vm.readRegister idx with
    | some a, some i => (a.index (Exec.valueAsUsize i)).isSome
    | _, _ => true
  | _ => true

def storeIndex (vm : Vm) : List Operand → Bool
  | .register arr :: .register idx :: .register value :: _ =>
    match vm.readRegister arr, vm.readRegister idx, vm.readRegister value with
    | some a, some i, some v => (a.setIndex (Exec.valueAsUsize i) v).isSome
    | _, _, _ => true
  | _ => true

def counterRun (vm : Vm) : List Operand → Bool
  | .immediate (.u32 i) :: .register cu :: .register cd :: .immediate (.u32 pv) :: op4 :: _ =>
    match Exec.readBool vm cu, Exec.readBool vm cd with
    | some cu, some cd => (Exec.tickCounter (vm.counterAt i) (Exec.counterKindOf op4) pv cu cd).isSome
    | _, _ => true
  | _ => true

end Computes

/-- The arithmetic between the reads and the writes does not panic. -/
def computes (vm : Vm) (inst : Instruction) : Bool :=
  match inst.opcode with
  | .add => Computes.arith HalValue.add vm inst.operands
  | .sub => Computes.arith HalValue.sub vm inst.operands
  | .mul => Computes.arith HalValue.mul vm inst.operands
  | .div => Computes.arith Exec.divOp vm inst.operands
  | .mod => Computes.arith Exec.modOp vm inst.operands
  | .neg => Computes.unary HalValue.neg vm inst.operands
  | .loadIndex => Computes.loadIndex vm inst.operands
  | .storeIndex => Computes.storeIndex vm inst.operands
  | .counterRun => Computes.counterRun vm inst.operands
  | _ => true

/-! ## Trips -/

/-- The assertion of `read_register` or `write_register` fails. A `Ret` on an empty call stack comes to
    neither of them. -/
def TripsRegister (vm : Vm) (inst : Instruction) : Prop :=
  ¬ Ends vm inst ∧ ((∃ r ∈ (footprint inst).reads, ¬ InFile r) ∨
    (computes vm inst = true ∧ ∃ r ∈ (footprint inst).writes, ¬ InFile r))

/-- The step of `vm` trips the bounds assertion on the instruction pointer or a register assertion. -/
def Trips (code : List Instruction) (vm : Vm) : Prop :=
  code.length ≤ vm.ip ∨ ∃ inst, code[vm.ip]? = some inst ∧ TripsRegister vm inst

/-! ## Every panic -/

/-- The handler panics. -/
def Faulty (fp : Footprint) (computed : Bool) : Prop :=
  (∃ r ∈ fp.reads, ¬ InFile r) ∨ computed = false ∨ ∃ r ∈ fp.writes, ¬ InFile r

section
variable {vm : Vm}

theorem readRegister_none {r : UInt8} : vm.readRegister r = none ↔ ¬ InFile r := by
  unfold Vm.readRegister InFile
  split <;> simp_all

theorem writeRegister_none {r : UInt8} : vm.writeRegister r v = none ↔ ¬ InFile r := by
  unfold Vm.writeRegister InFile
  split <;> simp_all

theorem inFile_of_read {r : UInt8} (h : vm.readRegister r = some v) : InFile r := by
  by_contra hr
  rw [readRegister_none.2 hr] at h
  cases h

theorem readReg_none : Exec.readReg vm op = none ↔ ∃ r ∈ op.registers, ¬ InFile r := by
  cases op with
  | register r => simp [Exec.readReg, Operand.registers, readRegister_none]
  | immediate v => simp [Exec.readReg, Operand.registers]
  | signalName n => simp [Exec.readReg, Operand.registers]

theorem no_fault_of_readReg (h : Exec.readReg vm op = some v) : ¬ ∃ r ∈ op.registers, ¬ InFile r := by
  intro hr
  rw [readReg_none.2 hr] at h
  cases h

theorem readBool_none {r : UInt8} : Exec.readBool vm r = none ↔ ¬ InFile r := by
  rw [← @readRegister_none _ vm]
  unfold Exec.readBool
  cases h : vm.readRegister r with
  | none => simp
  | some v => cases v <;> simp

theorem readBoolOperand_none : Exec.readBoolOperand vm op = none ↔ ∃ r ∈ op.registers, ¬ InFile r := by
  cases op with
  | register r => simp [Exec.readBoolOperand, Operand.registers, readBool_none]
  | immediate v => simp [Exec.readBoolOperand, Operand.registers]
  | signalName n => simp [Exec.readBoolOperand, Operand.registers]

theorem no_fault_of_readBoolOperand {b : Bool} (h : Exec.readBoolOperand vm op = some b) :
    ¬ ∃ r ∈ op.registers, ¬ InFile r := by
  intro hr
  rw [readBoolOperand_none.2 hr] at h
  cases h

omit [Target] in
/-- Two operands, read one after the other. -/
theorem faulty_append {xs ys ws : List UInt8} {c : Bool} :
    Faulty ⟨xs ++ ys, ws⟩ c ↔ (∃ r ∈ xs, ¬ InFile r) ∨ Faulty ⟨ys, ws⟩ c := by
  unfold Faulty
  constructor
  · rintro (⟨r, hr, hbad⟩ | h)
    · rcases List.mem_append.1 hr with hr | hr
      · exact .inl ⟨r, hr, hbad⟩
      · exact .inr (.inl ⟨r, hr, hbad⟩)
    · exact .inr (.inr h)
  · rintro (⟨r, hr, hbad⟩ | ⟨r, hr, hbad⟩ | h)
    · exact .inl ⟨r, List.mem_append_left _ hr, hbad⟩
    · exact .inl ⟨r, List.mem_append_right _ hr, hbad⟩
    · exact .inr h

theorem execLoad_none : Exec.execLoad vm args = none ↔ Faulty (.load args) true := by
  unfold Exec.execLoad Footprint.load
  split
  · rename_i dest src rest
    cases src with
    | immediate v => simp [Faulty, Operand.registers, writeRegister_none]
    | signalName n => simp [Faulty, Operand.registers, writeRegister_none]
    | register r =>
      cases h : vm.readRegister r with
      | none => simp [Faulty, Operand.registers, h, readRegister_none.1 h]
      | some v => simp [Faulty, Operand.registers, h, inFile_of_read h, writeRegister_none]
  · simp_all [Faulty, Footprint.empty]

theorem execStore_none : Exec.execStore vm args = none ↔ Faulty (.store args) true := by
  unfold Exec.execStore Footprint.store
  split
  · rename_i name src rest
    cases h : Exec.readReg vm src with
    | none => exact ⟨fun _ => .inl (readReg_none.1 h), fun _ => rfl⟩
    | some v => simpa [Faulty] using no_fault_of_readReg h
  · simp_all [Faulty, Footprint.empty]

theorem execLoadIndex_none :
    Exec.execLoadIndex vm args = none ↔ Faulty (.loadIndex args) (Computes.loadIndex vm args) := by
  unfold Exec.execLoadIndex
  split
  · rename_i dest arr idx rest
    simp only [Footprint.loadIndex, Computes.loadIndex]
    cases ha : vm.readRegister arr with
    | none => simp [Faulty, readRegister_none.1 ha]
    | some a =>
      cases hi : vm.readRegister idx with
      | none => simp [Faulty, readRegister_none.1 hi]
      | some i =>
        cases he : a.index (Exec.valueAsUsize i) with
        | none => simp [Faulty, he]
        | some e => simp [Faulty, he, inFile_of_read ha, inFile_of_read hi, writeRegister_none]
  · simp_all [Faulty, Footprint.loadIndex, Computes.loadIndex, Footprint.empty]

theorem execStoreIndex_none :
    Exec.execStoreIndex vm args = none ↔ Faulty (.storeIndex args) (Computes.storeIndex vm args) := by
  unfold Exec.execStoreIndex
  split
  · rename_i arr idx value rest
    simp only [Footprint.storeIndex, Computes.storeIndex]
    cases ha : vm.readRegister arr with
    | none => simp [Faulty, readRegister_none.1 ha]
    | some a =>
      cases hi : vm.readRegister idx with
      | none => simp [Faulty, readRegister_none.1 hi]
      | some i =>
        cases hv : vm.readRegister value with
        | none => simp [Faulty, readRegister_none.1 hv]
        | some v =>
          cases hu : a.setIndex (Exec.valueAsUsize i) v with
          | none => simp [Faulty, hu]
          | some u =>
            simp [Faulty, hu, inFile_of_read ha, inFile_of_read hi, inFile_of_read hv, writeRegister_none]
  · simp_all [Faulty, Footprint.storeIndex, Computes.storeIndex, Footprint.empty]

theorem execArithBinop_none {f : HalValue → HalValue → Option HalValue} :
    Exec.execArithBinop f vm args = none ↔ Faulty (.arith args) (Computes.arith f vm args) := by
  unfold Exec.execArithBinop
  split
  · rename_i op0 op1 op2 rest
    simp only [Footprint.arith, Computes.arith]
    rw [faulty_append]
    cases ha : Exec.readReg vm op0 with
    | none => simpa using .inl (readReg_none.1 ha)
    | some a =>
      rw [or_iff_right (no_fault_of_readReg ha)]
      cases hb : Exec.readReg vm op1 with
      | none => simpa using .inl (readReg_none.1 hb)
      | some b =>
        rw [Faulty, or_iff_right (no_fault_of_readReg hb)]
        cases hr : f a b with
        | none => simp [hr]
        | some r => simp [hr, writeRegister_none]
  · simp_all [Faulty, Footprint.arith, Computes.arith, Footprint.empty]

theorem execUnary_none {f : HalValue → Option HalValue} :
    Exec.execUnary f vm args = none ↔ Faulty (.unary args) (Computes.unary f vm args) := by
  unfold Exec.execUnary
  split
  · rename_i op0 op1 rest
    simp only [Footprint.unary, Computes.unary]
    cases ha : Exec.readReg vm op0 with
    | none => simpa using .inl (readReg_none.1 ha)
    | some a =>
      rw [Faulty, or_iff_right (no_fault_of_readReg ha)]
      cases hr : f a with
      | none => simp [hr]
      | some r => simp [hr, writeRegister_none]
  · simp_all [Faulty, Footprint.unary, Computes.unary, Footprint.empty]

theorem execCompare_none {f : HalValue → HalValue → Bool} :
    Exec.execCompare f vm args = none ↔ Faulty (.compare args) true := by
  unfold Exec.execCompare Footprint.compare
  split
  · rename_i op0 op1 rest
    rw [faulty_append]
    cases ha : Exec.readReg vm op0 with
    | none => simpa using .inl (readReg_none.1 ha)
    | some a =>
      rw [or_iff_right (no_fault_of_readReg ha)]
      cases hb : Exec.readReg vm op1 with
      | none => simpa using .inl (readReg_none.1 hb)
      | some b => simpa [Faulty] using no_fault_of_readReg hb
  · simp_all [Faulty, Footprint.empty]

theorem execTimerRun_none : Exec.execTimerRun vm args = none ↔ Faulty (.timerRun args) true := by
  unfold Footprint.timerRun
  split
  · rename_i i r op2 rest
    rw [execTimerRun_eq]
    cases hp : presetOf op2 with
    | none => simp [Faulty, Footprint.empty]
    | some pt =>
      have htimer := getElem?_grow_self vm.timers i.toNat (Vm.freshTimer (Exec.timerKindOf rest.head?))
      cases hr : vm.readRegister r with
      | none => simp [Faulty, readRegister_none.1 hr]
      | some v => simp [Faulty, inFile_of_read hr, growTimers, htimer]
  · rename_i hno
    have hsome : Exec.execTimerRun vm args ≠ none := by
      unfold Exec.execTimerRun
      split
      · split
        · exact absurd rfl (hno _ _ _ _)
        · simp
      · simp
    simp [Faulty, Footprint.empty, hsome]

theorem execCounterRun_none :
    Exec.execCounterRun vm args = none ↔ Faulty (.counterRun args) (Computes.counterRun vm args) := by
  unfold Footprint.counterRun Computes.counterRun
  split
  · rename_i i cu cd pv op4 rest
    have hcounter := getElem?_grow_self vm.counters i.toNat (Vm.freshCounter .ctu)
    -- growing the table leaves the registers alone
    have hread : ∀ r, Exec.readBool
        { vm with counters := Vm.grow vm.counters i.toNat (Vm.freshCounter .ctu) } r = Exec.readBool vm r :=
      fun _ => rfl
    simp only [Exec.execCounterRun, hread, Option.bind_eq_bind]
    cases hcu : Exec.readBool vm cu with
    | none => simp [Faulty, readBool_none.1 hcu]
    | some u =>
      have hu : InFile cu := by
        by_contra hbad
        rw [readBool_none.2 hbad] at hcu
        cases hcu
      cases hcd : Exec.readBool vm cd with
      | none => simp [Faulty, readBool_none.1 hcd]
      | some d =>
        have hd : InFile cd := by
          by_contra hbad
          rw [readBool_none.2 hbad] at hcd
          cases hcd
        simp [hcounter, Faulty, Vm.counterAt]
        cases Exec.tickCounter ((vm.counters[i.toNat]?).getD (Vm.freshCounter .ctu)) (Exec.counterKindOf op4)
          pv u d <;> simp [hu, hd]
  · rename_i hno
    have hsome : Exec.execCounterRun vm args ≠ none := by
      unfold Exec.execCounterRun
      split
      · split
        · exact absurd rfl (hno _ _ _ _ _ _)
        · simp
      · simp
    have htrue : Computes.counterRun vm args = true := by
      unfold Computes.counterRun
      split
      · exact absurd rfl (hno _ _ _ _ _ _)
      · rfl
    simp_all [Faulty, Footprint.empty]

theorem execSrRun_none : Exec.execSrRun vm args = none ↔ Faulty (.srRun args) true := by
  unfold Exec.execSrRun Footprint.srRun
  split
  · rename_i i op1 op2 op3 rest
    have hsr := getElem?_grow_self vm.srs i.toNat (Vm.freshSr (Exec.srKindOf op3))
    rw [faulty_append]
    cases hs : Exec.readBoolOperand vm op1 with
    | none => simpa using .inl (readBoolOperand_none.1 hs)
    | some s =>
      rw [or_iff_right (no_fault_of_readBoolOperand hs)]
      cases hr : Exec.readBoolOperand vm op2 with
      | none => simpa using .inl (readBoolOperand_none.1 hr)
      | some r =>
        rw [Faulty, or_iff_right (no_fault_of_readBoolOperand hr)]
        simp [hsr]
  · simp_all [Faulty, Footprint.empty]

theorem execEdgeRun_none : Exec.execEdgeRun vm args = none ↔ Faulty (.edgeRun args) true := by
  unfold Exec.execEdgeRun Footprint.edgeRun
  split
  · rename_i i op1 op2 rest
    have hedge := getElem?_grow_self vm.edges i.toNat Vm.freshEdge
    cases hc : Exec.readBoolOperand vm op1 with
    | none => simpa using .inl (readBoolOperand_none.1 hc)
    | some clk =>
      rw [Faulty, or_iff_right (no_fault_of_readBoolOperand hc)]
      simp [hedge]
  · simp_all [Faulty, Footprint.empty]

/-- Two outputs are written one after the other. -/
theorem writePair_none {a b : UInt8} {x y : HalValue} :
    ((vm.writeRegister a x).bind fun vm' => vm'.writeRegister b y) = none ↔ Faulty ⟨[], [a, b]⟩ true := by
  cases ha : vm.writeRegister a x with
  | none => simp [Faulty, writeRegister_none.1 ha]
  | some vm' =>
    have hfile : InFile a := by
      by_contra hbad
      rw [writeRegister_none.2 hbad] at ha
      cases ha
    simp [Faulty, hfile, writeRegister_none]

theorem execReadTimer_none : Exec.execReadTimer vm args = none ↔ Faulty (.readPair args) true := by
  unfold Footprint.readPair
  split
  · rename_i i a b rest
    simp only [Exec.execReadTimer, getElem?_grow_self, Option.bind_eq_bind, Option.bind_some]
    exact writePair_none
  · rename_i hno
    unfold Exec.execReadTimer
    split
    · split
      · exact absurd rfl (hno _ _ _ _)
      · simp [Faulty, Footprint.empty]
    · simp [Faulty, Footprint.empty]

theorem execReadCounter_none : Exec.execReadCounter vm args = none ↔ Faulty (.readPair args) true := by
  unfold Footprint.readPair
  split
  · rename_i i a b rest
    simp only [Exec.execReadCounter, getElem?_grow_self, Option.bind_eq_bind, Option.bind_some]
    exact writePair_none
  · rename_i hno
    unfold Exec.execReadCounter
    split
    · split
      · exact absurd rfl (hno _ _ _ _)
      · simp [Faulty, Footprint.empty]
    · simp [Faulty, Footprint.empty]

theorem execReadSr_none : Exec.execReadSr vm args = none ↔ Faulty (.readPair args) true := by
  unfold Footprint.readPair
  split
  · rename_i i a b rest
    simp only [Exec.execReadSr, getElem?_grow_self, Option.bind_eq_bind, Option.bind_some]
    exact writePair_none
  · rename_i hno
    unfold Exec.execReadSr
    split
    · split
      · exact absurd rfl (hno _ _ _ _)
      · simp [Faulty, Footprint.empty]
    · simp [Faulty, Footprint.empty]

theorem execReadEdge_none : Exec.execReadEdge vm args = none ↔ Faulty (.readEdge args) true := by
  unfold Footprint.readEdge
  split
  · rename_i i a rest
    simp [Exec.execReadEdge, getElem?_grow_self]
    simp [Faulty, writeRegister_none]
  · rename_i hno
    unfold Exec.execReadEdge
    split
    · split
      · exact absurd rfl (hno _ _ _)
      · simp [Faulty, Footprint.empty]
    · simp [Faulty, Footprint.empty]

/-- Bit operations are total. -/
theorem execBitop_none {f : HalValue → HalValue → HalValue} :
    Exec.execArithBinop (fun a b => some (f a b)) vm args = none ↔ Faulty (.arith args) true := by
  rw [execArithBinop_none]
  have htotal : Computes.arith (fun a b => some (f a b)) vm args = true := by
    unfold Computes.arith
    split
    · split <;> rfl
    · rfl
  rw [htotal]

theorem execNot_none : Exec.execUnary (fun a => some a.not) vm args = none ↔ Faulty (.unary args) true := by
  rw [execUnary_none]
  have htotal : Computes.unary (fun a => some a.not) vm args = true := by
    unfold Computes.unary
    split
    · split <;> rfl
    · rfl
  rw [htotal]

theorem execPlain_none {inst : Instruction} (hop : inst.opcode.isPlain) :
    Exec.execPlain vm inst = none ↔ Faulty (footprint inst) (computes vm inst) := by
  obtain ⟨op, args⟩ := inst
  cases op with
  | load => exact execLoad_none
  | store => exact execStore_none
  | loadIndex => exact execLoadIndex_none
  | storeIndex => exact execStoreIndex_none
  | add | sub | mul | div | mod => exact execArithBinop_none
  | and | or | xor => exact execBitop_none
  | neg => exact execUnary_none
  | not => exact execNot_none
  | eq | neq | gt | lt | gte | lte => exact execCompare_none
  | timerRun => exact execTimerRun_none
  | readTimer => exact execReadTimer_none
  | counterRun => exact execCounterRun_none
  | readCounter => exact execReadCounter_none
  | srRun => exact execSrRun_none
  | readSr => exact execReadSr_none
  | edgeRun => exact execEdgeRun_none
  | readEdge => exact execReadEdge_none
  | nop => simp [Exec.execPlain, footprint, computes, Faulty, Footprint.empty]
  | jump | jumpIf | call | ret | halt => cases hop

theorem execRet_none : Exec.execRet vm args = none ↔ vm.callStack ≠ [] ∧ Faulty (.ret args) true := by
  unfold Exec.execRet
  split
  · rename_i returnIp rest hstack
    have hne : vm.callStack ≠ [] := by
      rw [hstack]
      exact List.cons_ne_nil _ _
    rw [and_iff_right hne]
    cases args with
    | nil => simp [Footprint.ret, Footprint.empty, Faulty]
    | cons op args =>
      cases op with
      | immediate v => simp [Footprint.ret, Footprint.empty, Faulty]
      | signalName n => simp [Footprint.ret, Footprint.empty, Faulty]
      | register r =>
        -- popping the stack leaves the registers alone
        have hread : Vm.readRegister { vm with callStack := rest } r = vm.readRegister r := rfl
        have hzero : InFile 0 := by decide
        simp [hread]
        cases h : vm.readRegister r with
        | none => simp [Footprint.ret, Faulty, readRegister_none.1 h]
        | some v =>
          have hwrite : Vm.writeRegister { vm with callStack := rest } 0 v ≠ none := by
            intro hnone
            exact writeRegister_none.1 hnone hzero
          obtain ⟨u, hu⟩ := Option.ne_none_iff_exists'.1 hwrite
          simp [Footprint.ret, Faulty, inFile_of_read h, hzero, hu]
  · rename_i hstack
    simp [hstack]

/-- A handler fails where it trips an assertion or an operator panics. -/
theorem tripsRegister_or {inst : Instruction} (h : ¬ Ends vm inst) :
    (TripsRegister vm inst ∨ computes vm inst = false) ↔ Faulty (footprint inst) (computes vm inst) := by
  unfold TripsRegister Faulty
  rw [and_iff_right h]
  cases computes vm inst <;> simp

theorem executeInstruction_none {inst : Instruction} :
    Exec.executeInstruction vm inst = none ↔ TripsRegister vm inst ∨ computes vm inst = false := by
  by_cases hop : inst.opcode.isPlain
  · have hends : ¬ Ends vm inst := by
      rintro (h | ⟨h, _⟩) <;> rw [h] at hop <;> cases hop
    rw [tripsRegister_or hends, ← execPlain_none hop]
    obtain ⟨op, args⟩ := inst
    cases op <;> first | (cases hop; done) | simp [Exec.executeInstruction]
  · obtain ⟨op, args⟩ := inst
    cases op with
    | jump | jumpIf | call | halt =>
      simp [Exec.executeInstruction, TripsRegister, footprint, Footprint.empty, computes]
    | ret =>
      show Exec.execRet vm args = none ↔ _
      rw [execRet_none]
      by_cases hstack : vm.callStack = []
      · simp [hstack, TripsRegister, Ends, computes]
      · have hends : ¬ Ends vm ⟨.ret, args⟩ := by simp [Ends, hstack]
        rw [and_iff_right hstack, tripsRegister_or hends]
        rfl
    | _ => exact absurd rfl hop

end

/-- **Every panic.** A step panics exactly if it trips an assertion or an operator panics. -/
theorem step_eq_none_iff {code : List Instruction} {vm : Vm} :
    vm.step code = none ↔ Trips code vm ∨ ∃ inst, code[vm.ip]? = some inst ∧ computes vm inst = false := by
  unfold Vm.step Trips
  cases hinst : code[vm.ip]? with
  | none =>
    have hout := List.getElem?_eq_none_iff.1 hinst
    simp [hout]
  | some inst =>
    obtain ⟨hin, _⟩ := List.getElem?_eq_some_iff.1 hinst
    have hlt : ¬ code.length ≤ vm.ip := by omega
    have hnone := @executeInstruction_none _ vm inst
    cases hexec : Exec.executeInstruction vm inst with
    | none =>
      rw [hexec] at hnone
      simpa [hexec, hlt] using hnone.1 rfl
    | some r =>
      rw [hexec] at hnone
      simpa [hexec, hlt] using hnone

/-! ## Confined runs -/

/-- The instruction stays inside the register file and the program, given that it does not end the run: its
    registers are in the file, and the next instruction pointer is in the program. -/
def Confined (code : List Instruction) (vm : Vm) (inst : Instruction) : Prop :=
  ¬ Ends vm inst → (∀ r ∈ (footprint inst).reads, InFile r) ∧
    (computes vm inst = true → (∀ r ∈ (footprint inst).writes, InFile r) ∧ succIp vm inst < code.length)

theorem length_pos_of_isWellFormed {p : HalProgram} (h : p.isWellFormed) : 0 < p.instructions.length := by
  unfold HalProgram.isWellFormed at h
  obtain ⟨inst, hmem, _⟩ := List.any_eq_true.1 h
  exact List.length_pos_of_mem hmem

section
variable {code : List Instruction} {vm vm' : Vm} {inst : Instruction}

theorem not_tripsRegister (h : Confined code vm inst) : ¬ TripsRegister vm inst := by
  rintro ⟨hends, ⟨r, hr, hbad⟩ | ⟨hcomp, r, hr, hbad⟩⟩
  · exact hbad ((h hends).1 r hr)
  · exact hbad (((h hends).2 hcomp).1 r hr)

/-- A confined instruction that goes on leads into the program. -/
theorem ip_lt_of_confined (hinst : code[vm.ip]? = some inst) (h : Confined code vm inst)
    (hnext : next code vm = some vm') : vm'.ip < code.length := by
  obtain ⟨inst', hinst', heffect⟩ := step_effect (step_of_next hnext)
  rw [hinst] at hinst'
  cases hinst'
  have hends : ¬ Ends vm inst := by
    intro hends
    cases heffect.ends.2 hends
  have hcomp : computes vm inst = true := by
    by_contra hfalse
    have hnone := step_eq_none_iff.2 (.inr ⟨inst, hinst, Bool.eq_false_iff.2 hfalse⟩)
    rw [step_of_next hnext] at hnone
    cases hnone
  rw [heffect.ip]
  exact ((h hends).2 hcomp).2

/-- An instruction that neither ends the run nor panics goes on. -/
theorem next_of_goes_on (hinst : code[vm.ip]? = some inst) (hends : ¬ Ends vm inst)
    (hsafe : ¬ Trips code vm) (hcomp : computes vm inst = true) :
    ∃ u, next code vm = some u ∧ u.ip = succIp vm inst := by
  cases hstep : vm.step code with
  | none =>
    rcases step_eq_none_iff.1 hstep with h | ⟨inst', hinst', h⟩
    · exact absurd h hsafe
    · rw [hinst] at hinst'
      cases hinst'
      rw [hcomp] at h
      cases h
  | some r =>
    obtain ⟨u, result⟩ := r
    obtain ⟨inst', hinst', heffect⟩ := step_effect hstep
    rw [hinst] at hinst'
    cases hinst'
    cases result with
    | cont => exact ⟨u, next_of_step hstep, heffect.ip⟩
    | halted => exact absurd (heffect.ends.1 rfl) hends
    | breaked => exact absurd hstep step_ne_breaked

theorem confined_of_safe {n : Nat} {start : Vm}
    (hsafe : ∀ n u, RunN (next code) n start u → ¬ Trips code u) (hrun : RunN (next code) n start vm)
    (hinst : code[vm.ip]? = some inst) : Confined code vm inst := by
  intro hends
  have hgood := hsafe n vm hrun
  have hregister : ¬ TripsRegister vm inst := fun h => hgood (.inr ⟨inst, hinst, h⟩)
  have hreads : ∀ r ∈ (footprint inst).reads, InFile r := by
    intro r hr
    by_contra hbad
    exact hregister ⟨hends, .inl ⟨r, hr, hbad⟩⟩
  refine ⟨hreads, ?_⟩
  intro hcomp
  have hwrites : ∀ r ∈ (footprint inst).writes, InFile r := by
    intro r hr
    by_contra hbad
    exact hregister ⟨hends, .inr ⟨hcomp, r, hr, hbad⟩⟩
  refine ⟨hwrites, ?_⟩
  obtain ⟨u, hnext, hip⟩ := next_of_goes_on hinst hends hgood hcomp
  have hin := hsafe (n + 1) u (hrun.snoc hnext)
  rw [← hip]
  by_contra hout
  exact hin (.inl (Nat.le_of_not_lt hout))

/-- A run of confined instructions stays in the program. -/
theorem ip_lt_of_run {start : Vm} (hstart : start.ip < code.length)
    (hall : ∀ n u inst, RunN (next code) n start u → code[u.ip]? = some inst → Confined code u inst)
    {n : Nat} (hrun : RunN (next code) n start vm) : vm.ip < code.length := by
  cases n with
  | zero =>
    cases hrun
    exact hstart
  | succ n =>
    obtain ⟨u, hu, hnext⟩ := hrun.last
    obtain ⟨inst, hinst, _⟩ := step_effect (step_of_next hnext)
    exact ip_lt_of_confined hinst (hall n u inst hu hinst) hnext

end

/-- **Loader validation.** A run of a program with a `Halt` trips no assertion exactly if every instruction it
    executes is confined. -/
theorem confined_iff (p : HalProgram) (hwf : p.isWellFormed) (vm : Vm) (signals : String → Option HalValue) :
    (∀ n u, RunN (next p.instructions) n (scanStart vm signals) u → ¬ Trips p.instructions u) ↔
      ∀ n u inst, RunN (next p.instructions) n (scanStart vm signals) u → p.instructions[u.ip]? = some inst →
        Confined p.instructions u inst := by
  constructor
  · intro hsafe n u inst hrun hinst
    exact confined_of_safe hsafe hrun hinst
  · intro hall n u hrun htrip
    have hip := ip_lt_of_run (length_pos_of_isWellFormed hwf) hall hrun
    rcases htrip with hout | ⟨inst, hinst, hbad⟩
    · omega
    · exact not_tripsRegister (hall n u inst hrun hinst) hbad

/-! ## A check on the program -/

/-- Where a run can go on after the instruction at `c`. A `Ret` goes on where the matching `Call` says. -/
def exits (c : Nat) (inst : Instruction) : List Nat :=
  match inst.opcode, inst.operands with
  | .jump, .immediate (.u32 target) :: _ => [target.toNat]
  | .jump, _ => [c]
  | .jumpIf, .immediate (.u32 target) :: _ => [target.toNat, c + 1]
  | .call, args => [(Exec.readU32Operand args.head?).toNat, c + 2]
  | .ret, _ => []
  | .halt, _ => []
  | _, _ => [c + 1]

/-- Every register is in the file, and every exit in the program. -/
def closed (code : List Instruction) : Bool :=
  code.zipIdx.all fun (inst, c) =>
    ((footprint inst).reads ++ (footprint inst).writes).all (fun r => decide (InFile r)) &&
      (exits c inst).all (fun t => decide (t < code.length))

section
variable {code : List Instruction} {vm vm' : Vm} {inst : Instruction}

theorem closed_inst {c : Nat} (h : closed code = true) (hinst : code[c]? = some inst) :
    (∀ r ∈ (footprint inst).reads, InFile r) ∧ (∀ r ∈ (footprint inst).writes, InFile r) ∧
      ∀ t ∈ exits c inst, t < code.length := by
  have hmem : (inst, c) ∈ code.zipIdx := by
    rw [List.mem_zipIdx_iff_getElem?]
    exact hinst
  have hboth := List.all_eq_true.1 h _ hmem
  simp only [Bool.and_eq_true, List.all_eq_true, decide_eq_true_eq, List.mem_append] at hboth
  exact ⟨fun r hr => hboth.1 r (.inl hr), fun r hr => hboth.1 r (.inr hr), hboth.2⟩

/-- Behind every open call there is room for the instruction that its return goes to. -/
def Roomy (code : List Instruction) (vm : Vm) : Prop := ∀ a ∈ vm.callStack, a + 1 < code.length

theorem succIp_lt (h : ∀ t ∈ exits vm.ip inst, t < code.length) (hroom : Roomy code vm)
    (hends : ¬ Ends vm inst) : succIp vm inst < code.length := by
  unfold succIp
  split
  · rename_i target rest hop hargs
    exact h _ (by simp [exits, hop, hargs])
  · rename_i hop hno
    refine h _ ?_
    unfold exits
    split <;> simp_all
  · rename_i target rest hop hargs
    split
    · exact h _ (by simp [exits, hop, hargs])
    · exact h _ (by simp [exits, hop, hargs])
  · rename_i hop
    exact h _ (by simp [exits, hop])
  · rename_i hop
    cases hstack : vm.callStack with
    | nil => exact absurd (.inr ⟨hop, hstack⟩) hends
    | cons a rest => exact hroom a (by simp [hstack])
  · rename_i hjump hno hjumpIf hcall hret
    have hhalt : inst.opcode ≠ .halt := fun hop => hends (.inl hop)
    refine h _ ?_
    unfold exits
    split <;> simp_all

theorem roomy_step (hclosed : closed code = true) (hnext : next code vm = some vm') (h : Roomy code vm) :
    Roomy code vm' := by
  obtain ⟨inst, hinst, heffect⟩ := step_effect (step_of_next hnext)
  intro a ha
  rw [heffect.callStack] at ha
  unfold stackAfter at ha
  split at ha
  · rename_i hop
    rcases List.mem_cons.1 ha with rfl | ha
    · exact (closed_inst hclosed hinst).2.2 _ (by simp [exits, hop])
    · exact h a ha
  · exact h a (List.mem_of_mem_tail ha)
  · exact h a ha

end

/-- **A closed program** is confined in every run, whatever the signals. -/
theorem confined_of_closed {code : List Instruction} (hclosed : closed code = true) (vm : Vm)
    (signals : String → Option HalValue) {n : Nat} {u : Vm} {inst : Instruction}
    (hrun : RunN (next code) n (scanStart vm signals) u) (hinst : code[u.ip]? = some inst) :
    Confined code u inst := by
  have hstart : Roomy code (scanStart vm signals) := by
    intro a ha
    cases ha
  have hroom : Roomy code u := hrun.invariant (fun s t hs hinv => roomy_step hclosed hs hinv) hstart
  obtain ⟨hreads, hwrites, hexits⟩ := closed_inst hclosed hinst
  intro hends
  exact ⟨hreads, fun _ => ⟨hwrites, succIp_lt hexits hroom hends⟩⟩

end Audesys.Hal

/-! ## Two programs -/

namespace Audesys.Hal

open Audesys.Lib

local instance releaseConfined : Target := host false

/-- The loader accepts a jump out of the program, because a `Halt` follows it. -/
def leaving : HalProgram := HalProgram.new "leaving" [.jump 7, .halt]

theorem leaving_trips : leaving.isWellFormed = true ∧
    ∃ n u, RunN (next leaving.instructions) n (scanStart Vm.new fun _ => none) u ∧ Trips leaving.instructions u :=
  ⟨rfl, 1, _, .single rfl, .inl (by decide)⟩

/-- A jump over a `Halt` and back to it. -/
def returning : HalProgram := HalProgram.new "returning" [.jump 2, .halt, .loadImm 0 (.s32 1), .jump 1]

theorem returning_safe : returning.isWellFormed = true ∧
    ∀ n u, RunN (next returning.instructions) n (scanStart Vm.new fun _ => none) u →
      ¬ Trips returning.instructions u :=
  ⟨rfl, (confined_iff returning rfl Vm.new _).2 fun _ _ _ hrun hinst =>
    confined_of_closed (by decide) Vm.new _ hrun hinst⟩

end Audesys.Hal
