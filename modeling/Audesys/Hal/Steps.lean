import Audesys.Hal.Machine

/-!
# `Hal.Steps` — what one step of the VM can do

`Vm.step` in terms of the state it leaves, once for all opcodes: where the instruction pointer goes (`succIp`),
what becomes of the call stack (`stackAfter`), and which function blocks an instruction leaves alone (`Kept`).
A function block is addressed by an index into a table that grows on demand, so its state is read with the
state of a fresh block as the default.
-/

namespace Audesys.Hal

open Audesys.Lib

variable [Target]

/-! ## Function blocks by index -/

/-- The part of a timer's state that the next scan depends on; `TimerRun` writes the rest anew. -/
structure TimerCore where
  inVal : Bool
  elapsedMs : UInt64
  q : Bool
  deriving DecidableEq

omit [Target] in
def TimerState.core (t : TimerState) : TimerCore := ⟨t.inVal, t.elapsedMs, t.q⟩

def TimerCore.fresh : TimerCore := ⟨false, 0, false⟩

namespace Vm

/-- A timer that was never run is in the state `add_timer` gives it. -/
def timerCore (vm : Vm) (i : UInt32) : TimerCore := ((vm.timers[i.toNat]?).map TimerState.core).getD .fresh

def counterAt (vm : Vm) (i : UInt32) : CounterState := (vm.counters[i.toNat]?).getD (freshCounter .ctu)

end Vm

section
omit [Target]

/-- Growing a table adds fresh entries only. -/
theorem getElem?_grow {α β : Type} (f : α → β) {fresh : α} {d : β} (hf : f fresh = d) (xs : List α) (idx i : Nat) :
    (((Vm.grow xs idx fresh)[i]?).map f).getD d = ((xs[i]?).map f).getD d := by
  unfold Vm.grow
  rcases Nat.lt_or_ge i xs.length with hlt | hge
  · rw [List.getElem?_append_left hlt]
  · rw [List.getElem?_append_right hge, List.getElem?_replicate, List.getElem?_eq_none hge]
    split
    · rw [Option.map_some, Option.getD_some, hf]
      rfl
    · rfl

theorem length_grow {α : Type} (xs : List α) (idx : Nat) (fresh : α) : idx < (Vm.grow xs idx fresh).length := by
  unfold Vm.grow
  rw [List.length_append, List.length_replicate]
  omega

theorem getElem?_grow_self {α : Type} (xs : List α) (idx : Nat) (fresh : α) :
    (Vm.grow xs idx fresh)[idx]? = some ((xs[idx]?).getD fresh) := by
  have h := @getElem?_grow α α id fresh fresh rfl xs idx idx
  have hlt := length_grow xs idx fresh
  rw [List.getElem?_eq_getElem hlt] at h ⊢
  simp [id] at h
  rw [h]

theorem getElem?_set_other {α β : Type} (f : α → β) (d : β) (xs : List α) {i j : Nat} (h : i ≠ j) (x : α) :
    (((xs.set i x)[j]?).map f).getD d = ((xs[j]?).map f).getD d := by
  rw [List.getElem?_set_ne h]

end

/-! ## What an instruction keeps -/

/-- The instruction runs the function block of that kind and index. -/
def Instruction.runs (inst : Instruction) (op : Opcode) (i : UInt32) : Prop :=
  inst.opcode = op ∧ inst.operands.head? = some (.immediate (.u32 i))

/-- The cycle time, and every timer and counter that the instruction does not run. -/
structure Kept (inst : Instruction) (vm vm' : Vm) : Prop where
  cycleTimeMs : vm'.cycleTimeMs = vm.cycleTimeMs
  timers : ∀ i, ¬ inst.runs .timerRun i → vm'.timerCore i = vm.timerCore i
  counters : ∀ i, ¬ inst.runs .counterRun i → vm'.counterAt i = vm.counterAt i

/-- All but registers, the flag and signals. -/
structure SameBlocks (vm vm' : Vm) : Prop where
  ip : vm'.ip = vm.ip
  callStack : vm'.callStack = vm.callStack
  cycleTimeMs : vm'.cycleTimeMs = vm.cycleTimeMs
  timers : vm'.timers = vm.timers
  counters : vm'.counters = vm.counters

/-- What an instruction that does not jump does to the rest of the state. -/
structure Plain (inst : Instruction) (vm vm' : Vm) : Prop extends Kept inst vm vm' where
  ip : vm'.ip = vm.ip
  callStack : vm'.callStack = vm.callStack

namespace SameBlocks

variable {vm vm' vm'' : Vm}

theorem refl (vm : Vm) : SameBlocks vm vm := ⟨rfl, rfl, rfl, rfl, rfl⟩

theorem trans (h₁ : SameBlocks vm vm') (h₂ : SameBlocks vm' vm'') : SameBlocks vm vm'' :=
  ⟨h₂.ip.trans h₁.ip, h₂.callStack.trans h₁.callStack, h₂.cycleTimeMs.trans h₁.cycleTimeMs,
    h₂.timers.trans h₁.timers, h₂.counters.trans h₁.counters⟩

theorem writeRegister {r : UInt8} {v : HalValue} (h : vm.writeRegister r v = some vm') : SameBlocks vm vm' := by
  unfold Vm.writeRegister at h
  split at h
  · cases h
    exact ⟨rfl, rfl, rfl, rfl, rfl⟩
  · cases h

theorem plain (h : SameBlocks vm vm') (inst : Instruction) : Plain inst vm vm' where
  ip := h.ip
  callStack := h.callStack
  cycleTimeMs := h.cycleTimeMs
  timers i _ := by rw [Vm.timerCore, Vm.timerCore, h.timers]
  counters i _ := by rw [Vm.counterAt, Vm.counterAt, h.counters]

end SameBlocks

theorem Plain.then {inst : Instruction} {vm vm' vm'' : Vm} (h₁ : Plain inst vm vm') (h₂ : SameBlocks vm' vm'') :
    Plain inst vm vm'' := by
  have h := h₂.plain inst
  refine ⟨⟨h.cycleTimeMs.trans h₁.cycleTimeMs, ?_, ?_⟩, h.ip.trans h₁.ip, h.callStack.trans h₁.callStack⟩
  · intro i hi
    rw [h.timers i hi, h₁.timers i hi]
  · intro i hi
    rw [h.counters i hi, h₁.counters i hi]

section
variable {vm vm' : Vm} {args : List Operand}

theorem sameBlocks_load (h : Exec.execLoad vm args = some vm') : SameBlocks vm vm' := by
  unfold Exec.execLoad at h
  split at h
  · simp only [Option.bind_eq_bind] at h
    split at h
    · exact .writeRegister h
    · obtain ⟨v, _, h⟩ := Option.bind_eq_some_iff.1 h
      exact .writeRegister h
    · exact .writeRegister h
  · cases h
    exact .refl vm

theorem sameBlocks_store (h : Exec.execStore vm args = some vm') : SameBlocks vm vm' := by
  unfold Exec.execStore at h
  split at h
  · rw [Option.bind_eq_bind, Option.bind_eq_some_iff] at h
    obtain ⟨v, _, h⟩ := h
    cases h
    exact ⟨rfl, rfl, rfl, rfl, rfl⟩
  · cases h
    exact .refl vm

theorem sameBlocks_loadIndex (h : Exec.execLoadIndex vm args = some vm') : SameBlocks vm vm' := by
  unfold Exec.execLoadIndex at h
  split at h
  · simp [Option.bind_eq_some_iff] at h
    obtain ⟨a, _, i, _, e, _, h⟩ := h
    exact .writeRegister h
  · cases h
    exact .refl vm

theorem sameBlocks_storeIndex (h : Exec.execStoreIndex vm args = some vm') : SameBlocks vm vm' := by
  unfold Exec.execStoreIndex at h
  split at h
  · simp [Option.bind_eq_some_iff] at h
    obtain ⟨a, _, i, _, v, _, u, _, h⟩ := h
    exact .writeRegister h
  · cases h
    exact .refl vm

theorem sameBlocks_arith {f : HalValue → HalValue → Option HalValue}
    (h : Exec.execArithBinop f vm args = some vm') : SameBlocks vm vm' := by
  unfold Exec.execArithBinop at h
  split at h
  · simp [Option.bind_eq_some_iff] at h
    obtain ⟨a, _, b, _, r, _, h⟩ := h
    exact .writeRegister h
  · cases h
    exact .refl vm

theorem sameBlocks_unary {f : HalValue → Option HalValue} (h : Exec.execUnary f vm args = some vm') :
    SameBlocks vm vm' := by
  unfold Exec.execUnary at h
  split at h
  · simp [Option.bind_eq_some_iff] at h
    obtain ⟨a, _, r, _, h⟩ := h
    exact .writeRegister h
  · cases h
    exact .refl vm

theorem sameBlocks_compare {f : HalValue → HalValue → Bool} (h : Exec.execCompare f vm args = some vm') :
    SameBlocks vm vm' := by
  unfold Exec.execCompare at h
  split at h
  · simp [Option.bind_eq_some_iff] at h
    obtain ⟨a, _, b, _, rfl⟩ := h
    exact ⟨rfl, rfl, rfl, rfl, rfl⟩
  · cases h
    exact .refl vm

/-! ## What a function block keeps -/

theorem timerCore_grow (vm : Vm) (idx : Nat) (kind : TimerKind) (i : UInt32) :
    Vm.timerCore { vm with timers := Vm.grow vm.timers idx (Vm.freshTimer kind) } i = vm.timerCore i :=
  getElem?_grow TimerState.core rfl vm.timers idx i.toNat

theorem counterAt_grow (vm : Vm) (idx : Nat) (i : UInt32) :
    Vm.counterAt { vm with counters := Vm.grow vm.counters idx (Vm.freshCounter .ctu) } i = vm.counterAt i := by
  have h := @getElem?_grow CounterState CounterState id (Vm.freshCounter .ctu) _ rfl vm.counters idx i.toNat
  simp only [Option.map_id, id] at h
  exact h

/-- The preset operand of `TimerRun`, as `u64`. -/
def presetOf : Operand → Option UInt64
  | .immediate (.u32 p) => some (UInt64.ofNat p.toNat)
  | .immediate (.s32 p) => some (UInt64.ofInt p.toInt)
  | _ => none

/-- The table after `TimerRun` has made room for its timer. -/
def growTimers (vm : Vm) (i : UInt32) (kind : TimerKind) : Vm :=
  { vm with timers := Vm.grow vm.timers i.toNat (Vm.freshTimer kind) }

theorem execTimerRun_eq (vm : Vm) (i : UInt32) (r : UInt8) (op2 : Operand) (rest : List Operand) :
    Exec.execTimerRun vm (.immediate (.u32 i) :: .register r :: op2 :: rest) =
      match presetOf op2 with
      | none => some (growTimers vm i (Exec.timerKindOf rest.head?))
      | some pt => (vm.readRegister r).bind fun v =>
        ((growTimers vm i (Exec.timerKindOf rest.head?)).timers[i.toNat]?).bind fun t =>
          some { growTimers vm i (Exec.timerKindOf rest.head?) with
            timers := (growTimers vm i (Exec.timerKindOf rest.head?)).timers.set i.toNat
              (Exec.tickTimer t (Exec.timerKindOf rest.head?) pt (v.beq (.bool true)) vm.cycleTimeMs) } := by
  cases op2 with
  | register r' => rfl
  | signalName n => rfl
  | immediate v => cases v <;> rfl

theorem plain_growTimers (inst : Instruction) (vm : Vm) (i : UInt32) (kind : TimerKind) :
    Plain inst vm (growTimers vm i kind) :=
  ⟨⟨rfl, fun j _ => timerCore_grow vm _ _ j, fun _ _ => rfl⟩, rfl, rfl⟩

/-- The timer table may grow, and change at the index that is run. -/
theorem plain_timerRun (h : Exec.execTimerRun vm args = some vm') : Plain ⟨.timerRun, args⟩ vm vm' := by
  unfold Exec.execTimerRun at h
  split at h
  · rename_i i op1 op2 rest
    cases op1 with
    | register r =>
      have heq := h.symm.trans (execTimerRun_eq vm i r op2 rest)
      split at heq
      · cases heq
        exact plain_growTimers _ vm i _
      · obtain ⟨v, _, heq⟩ := Option.bind_eq_some_iff.1 heq.symm
        obtain ⟨t, _, heq⟩ := Option.bind_eq_some_iff.1 heq
        cases heq
        refine ⟨⟨rfl, ?_, fun _ _ => rfl⟩, rfl, rfl⟩
        intro j hj
        have hne : i.toNat ≠ j.toNat := by
          intro hij
          rw [UInt32.toNat_inj] at hij
          exact hj ⟨rfl, by rw [hij]; rfl⟩
        rw [← timerCore_grow vm i.toNat (Exec.timerKindOf rest.head?) j]
        exact getElem?_set_other _ _ _ hne _
    | immediate v =>
      cases h
      exact plain_growTimers _ vm i _
    | signalName n =>
      cases h
      exact plain_growTimers _ vm i _
  · cases h
    exact (SameBlocks.refl vm).plain _

theorem plain_readTimer (h : Exec.execReadTimer vm args = some vm') : Plain ⟨.readTimer, args⟩ vm vm' := by
  unfold Exec.execReadTimer at h
  split at h
  · rename_i i op1 op2 rest
    have hgrown := plain_growTimers ⟨.readTimer, .immediate (.u32 i) :: op1 :: op2 :: rest⟩ vm i .ton
    split at h
    · simp [Option.bind_eq_some_iff] at h
      obtain ⟨t, _, vm₁, hq, het⟩ := h
      exact hgrown.then ((SameBlocks.writeRegister hq).trans (.writeRegister het))
    · cases h
      exact hgrown
  · cases h
    exact (SameBlocks.refl vm).plain _

theorem plain_counterRun (h : Exec.execCounterRun vm args = some vm') : Plain ⟨.counterRun, args⟩ vm vm' := by
  unfold Exec.execCounterRun at h
  split at h
  · rename_i i op1 op2 op3 op4 rest
    have hgrown : Plain ⟨.counterRun, .immediate (.u32 i) :: op1 :: op2 :: op3 :: op4 :: rest⟩ vm
        { vm with counters := Vm.grow vm.counters i.toNat (Vm.freshCounter .ctu) } :=
      ⟨⟨rfl, fun _ _ => rfl, fun j _ => counterAt_grow vm _ j⟩, rfl, rfl⟩
    split at h
    · simp only [Option.bind_eq_bind, Option.bind_eq_some_iff, Option.some.injEq] at h
      obtain ⟨cu, _, cd, _, c, _, c', _, rfl⟩ := h
      refine ⟨⟨rfl, fun _ _ => rfl, ?_⟩, rfl, rfl⟩
      intro j hj
      have hne : i.toNat ≠ j.toNat := by
        intro heq
        rw [UInt32.toNat_inj] at heq
        exact hj ⟨rfl, by rw [heq]; rfl⟩
      rw [← hgrown.counters j hj, Vm.counterAt, Vm.counterAt, List.getElem?_set_ne hne]
    · cases h
      exact hgrown
  · cases h
    exact (SameBlocks.refl vm).plain _

theorem plain_readCounter (h : Exec.execReadCounter vm args = some vm') : Plain ⟨.readCounter, args⟩ vm vm' := by
  unfold Exec.execReadCounter at h
  split at h
  · rename_i i op1 op2 rest
    have hgrown : Plain ⟨.readCounter, .immediate (.u32 i) :: op1 :: op2 :: rest⟩ vm
        { vm with counters := Vm.grow vm.counters i.toNat (Vm.freshCounter .ctu) } :=
      ⟨⟨rfl, fun _ _ => rfl, fun j _ => counterAt_grow vm _ j⟩, rfl, rfl⟩
    split at h
    · simp [Option.bind_eq_some_iff] at h
      obtain ⟨c, _, vm₁, hq, hcv⟩ := h
      exact hgrown.then ((SameBlocks.writeRegister hq).trans (.writeRegister hcv))
    · cases h
      exact hgrown
  · cases h
    exact (SameBlocks.refl vm).plain _

theorem sameBlocks_srRun (h : Exec.execSrRun vm args = some vm') : SameBlocks vm vm' := by
  unfold Exec.execSrRun at h
  split at h
  · simp only [Option.bind_eq_bind, Option.bind_eq_some_iff, Option.some.injEq] at h
    obtain ⟨s1, _, r, _, s, _, rfl⟩ := h
    exact ⟨rfl, rfl, rfl, rfl, rfl⟩
  · cases h
    exact .refl vm

theorem sameBlocks_readSr (h : Exec.execReadSr vm args = some vm') : SameBlocks vm vm' := by
  unfold Exec.execReadSr at h
  split at h
  · rename_i i op1 op2 rest
    have hgrown : SameBlocks vm { vm with srs := Vm.grow vm.srs i.toNat (Vm.freshSr .sr) } :=
      ⟨rfl, rfl, rfl, rfl, rfl⟩
    split at h
    · simp [Option.bind_eq_some_iff] at h
      obtain ⟨s, _, vm₁, h₁, h₂⟩ := h
      exact (hgrown.trans (.writeRegister h₁)).trans (.writeRegister h₂)
    · cases h
      exact hgrown
  · cases h
    exact .refl vm

theorem sameBlocks_edgeRun (h : Exec.execEdgeRun vm args = some vm') : SameBlocks vm vm' := by
  unfold Exec.execEdgeRun at h
  split at h
  · simp only [Option.bind_eq_bind, Option.bind_eq_some_iff, Option.some.injEq] at h
    obtain ⟨clk, _, e, _, rfl⟩ := h
    exact ⟨rfl, rfl, rfl, rfl, rfl⟩
  · cases h
    exact .refl vm

theorem sameBlocks_readEdge (h : Exec.execReadEdge vm args = some vm') : SameBlocks vm vm' := by
  unfold Exec.execReadEdge at h
  split at h
  · rename_i i op1 rest
    have hgrown : SameBlocks vm { vm with edges := Vm.grow vm.edges i.toNat Vm.freshEdge } :=
      ⟨rfl, rfl, rfl, rfl, rfl⟩
    split at h
    · simp [Option.bind_eq_some_iff] at h
      obtain ⟨e, _, h⟩ := h
      exact hgrown.trans (.writeRegister h)
    · cases h
      exact hgrown
  · cases h
    exact .refl vm

/-- **Plain instructions.** -/
theorem plain_of_execPlain {inst : Instruction} (h : Exec.execPlain vm inst = some vm') : Plain inst vm vm' := by
  obtain ⟨op, args⟩ := inst
  cases op with
  | load => exact (sameBlocks_load h).plain _
  | store => exact (sameBlocks_store h).plain _
  | loadIndex => exact (sameBlocks_loadIndex h).plain _
  | storeIndex => exact (sameBlocks_storeIndex h).plain _
  | add | sub | mul | div | mod | and | or | xor => exact (sameBlocks_arith h).plain _
  | neg | not => exact (sameBlocks_unary h).plain _
  | eq | neq | gt | lt | gte | lte => exact (sameBlocks_compare h).plain _
  | timerRun => exact plain_timerRun h
  | readTimer => exact plain_readTimer h
  | counterRun => exact plain_counterRun h
  | readCounter => exact plain_readCounter h
  | srRun => exact (sameBlocks_srRun h).plain _
  | readSr => exact (sameBlocks_readSr h).plain _
  | edgeRun => exact (sameBlocks_edgeRun h).plain _
  | readEdge => exact (sameBlocks_readEdge h).plain _
  | nop | jump | jumpIf | call | ret | halt =>
    cases h
    exact (SameBlocks.refl vm).plain _

end

/-- The state in which the engine starts a scan. -/
def scanStart (vm : Vm) (signals : String → Option HalValue) : Vm := { vm.reset with signals := signals }

/-! ## The effect of a step -/

/-- Where the instruction pointer goes. `Ret` sets it to the return address, and then `step` advances it. -/
def succIp (vm : Vm) (inst : Instruction) : Nat :=
  match inst.opcode, inst.operands with
  | .jump, .immediate (.u32 target) :: _ => target.toNat
  | .jump, _ => vm.ip
  | .jumpIf, .immediate (.u32 target) :: _ => if vm.flagsZero then target.toNat else vm.ip + 1
  | .call, args => (Exec.readU32Operand args.head?).toNat
  | .ret, _ => vm.callStack.headD vm.ip + 1
  | _, _ => vm.ip + 1

def stackAfter (vm : Vm) (inst : Instruction) : List Nat :=
  match inst.opcode with
  | .call => (vm.ip + 1) :: vm.callStack
  | .ret => vm.callStack.tail
  | _ => vm.callStack

/-- The instruction ends the run: a `Halt`, or a `Ret` on an empty call stack. -/
def Ends (vm : Vm) (inst : Instruction) : Prop :=
  inst.opcode = .halt ∨ (inst.opcode = .ret ∧ vm.callStack = [])

/-- What a step does, for every instruction. -/
structure Effect (inst : Instruction) (vm vm' : Vm) (result : ExecutorResult) : Prop extends Kept inst vm vm' where
  ip : vm'.ip = succIp vm inst
  callStack : vm'.callStack = stackAfter vm inst
  ends : result = .halted ↔ Ends vm inst

section
variable {vm vm' : Vm} {inst : Instruction} {result : ExecutorResult}

theorem Plain.effect (h : Plain inst vm vm') (hop : inst.opcode.isPlain) : Effect inst vm vm'.advanceIp .cont := by
  obtain ⟨op, args⟩ := inst
  have hplain : op.isPlain = true := hop
  refine ⟨⟨h.cycleTimeMs, h.timers, h.counters⟩, ?_, ?_, ?_⟩
  · rw [Vm.advanceIp_ip, h.ip]
    cases op <;> first | rfl | cases hplain
  · rw [Vm.advanceIp_callStack, h.callStack]
    cases op <;> first | rfl | cases hplain
  · have hhalt : op ≠ .halt := by
      rintro rfl
      cases hplain
    have hret : op ≠ .ret := by
      rintro rfl
      cases hplain
    simp [Ends, hhalt, hret]

/-- Registers and the instruction pointer are all that a jump or a return writes besides the call stack. -/
theorem SameBlocks.kept_setIp (h : SameBlocks vm vm') (inst : Instruction) (n : Nat) :
    Kept inst vm (vm'.setIp n) :=
  ⟨(h.plain inst).cycleTimeMs, (h.plain inst).timers, (h.plain inst).counters⟩

theorem effect_jump (args : List Operand) :
    Effect ⟨.jump, args⟩ vm (Exec.execJump vm args) .cont := by
  unfold Exec.execJump
  split
  · exact ⟨(SameBlocks.refl vm).kept_setIp _ _, rfl, rfl, by simp [Ends]⟩
  · rename_i hno
    refine ⟨((SameBlocks.refl vm).plain _).toKept, ?_, rfl, by simp [Ends]⟩
    unfold succIp
    split <;> first | rfl | simp_all

theorem effect_jumpIf (args : List Operand) :
    Effect ⟨.jumpIf, args⟩ vm (Exec.execJumpIf vm args) .cont := by
  unfold Exec.execJumpIf
  split
  · rename_i target rest hflag
    refine ⟨(SameBlocks.refl vm).kept_setIp _ _, ?_, rfl, by simp [Ends]⟩
    show target.toNat = if vm.flagsZero then target.toNat else vm.ip + 1
    rw [hflag, if_pos rfl]
  · rename_i hno
    refine ⟨(SameBlocks.refl vm).kept_setIp _ _, ?_, rfl, by simp [Ends]⟩
    unfold succIp
    split <;> first | rfl | simp_all

theorem effect_call (args : List Operand) :
    Effect ⟨.call, args⟩ vm (Exec.execCall vm args) .cont := by
  refine ⟨⟨rfl, fun _ _ => rfl, fun _ _ => rfl⟩, rfl, rfl, by simp [Ends]⟩

theorem effect_ret {args : List Operand} (h : Exec.execRet vm args = some (vm', result)) :
    Effect ⟨.ret, args⟩ vm vm'.advanceIp result := by
  unfold Exec.execRet at h
  split at h
  · rename_i returnIp rest hstack
    -- the result register is copied to `r0` on the popped state
    have hcopy : ∃ u, SameBlocks { vm with callStack := rest } u ∧ vm' = u.setIp returnIp ∧ result = .cont := by
      simp only [Option.bind_eq_bind] at h
      split at h
      · simp [Option.bind_eq_some_iff] at h
        obtain ⟨v, _, u, hu, rfl, rfl⟩ := h
        exact ⟨u, .writeRegister hu, rfl, rfl⟩
      · cases h
        exact ⟨_, .refl _, rfl, rfl⟩
    obtain ⟨u, hu, rfl, rfl⟩ := hcopy
    have hkept := hu.kept_setIp ⟨.ret, args⟩ returnIp
    refine ⟨⟨hkept.cycleTimeMs, hkept.timers, hkept.counters⟩, ?_, ?_, ?_⟩
    · show returnIp + 1 = vm.callStack.headD vm.ip + 1
      rw [hstack]
      rfl
    · show u.callStack = vm.callStack.tail
      rw [hu.callStack, hstack]
      rfl
    · simp [Ends, hstack]
  · rename_i hstack
    cases h
    refine ⟨⟨rfl, fun _ _ => rfl, fun _ _ => rfl⟩, ?_, ?_, ?_⟩
    · show vm.ip + 1 = vm.callStack.headD vm.ip + 1
      rw [hstack]
      rfl
    · show vm.callStack = vm.callStack.tail
      rw [hstack]
      rfl
    · simp [Ends, hstack]

theorem effect_halt (args : List Operand) : Effect ⟨.halt, args⟩ vm vm.advanceIp .halted :=
  ⟨⟨rfl, fun _ _ => rfl, fun _ _ => rfl⟩, rfl, rfl, by simp [Ends]⟩

/-- **Inversion of a step.** -/
theorem step_effect {code : List Instruction} (h : vm.step code = some (vm', result)) :
    ∃ inst, code[vm.ip]? = some inst ∧ Effect inst vm vm' result := by
  have hstep := h
  simp only [Vm.step, Option.bind_eq_bind, Option.bind_eq_some_iff] at hstep
  obtain ⟨inst, hinst, ⟨u, res⟩, hexec, hres⟩ := hstep
  refine ⟨inst, hinst, ?_⟩
  by_cases hop : inst.opcode.isPlain
  · rw [step_plain hinst hop, Option.map_eq_some_iff] at h
    obtain ⟨w, hw, heq⟩ := h
    cases heq
    exact (plain_of_execPlain hw).effect hop
  · obtain ⟨op, args⟩ := inst
    cases op with
    | jump => cases hexec; cases hres; exact effect_jump args
    | jumpIf => cases hexec; cases hres; exact effect_jumpIf args
    | call => cases hexec; cases hres; exact effect_call args
    | ret =>
      cases hres
      exact effect_ret hexec
    | halt => cases hexec; cases hres; exact effect_halt args
    | _ => exact absurd rfl hop

theorem next_effect {code : List Instruction} (hinst : code[vm.ip]? = some inst) (h : next code vm = some vm') :
    Effect inst vm vm' .cont := by
  obtain ⟨inst', hinst', heffect⟩ := step_effect (step_of_next h)
  rw [hinst] at hinst'
  cases hinst'
  exact heffect

end

end Audesys.Hal
