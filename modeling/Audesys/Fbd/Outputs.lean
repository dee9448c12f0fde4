import Audesys.Fbd.Compiler
import Audesys.Il.Control

/-!
# `Fbd.Outputs` — which outputs a diagram produces

The label of a `CAL` is the name of a block, which no statement defines, so every `CAL` goes to the `Halt`: a run
stores to the input pins of the first block and ends at its `CAL`. The `ST` of an output is behind it.
`outputs_iff` says which outputs are stored to all the same.
-/

namespace Audesys.Fbd

open Audesys.Hal Audesys.Il Audesys.Lib

variable {name : String}

/-! ## What a source asks for -/

/-- The target of an output wiring, `target := expr` with a target that is no pin. -/
def outputTarget? (line : List Char) : Option String :=
  match stripPrefix "BLOCK ".toList (trimEnd line) with
  | some _ => none
  | none =>
    match parseAssignment (trimEnd line) with
    | some (lhs, _) => if (splitDot lhs).isNone then some (String.ofList lhs) else none
    | none => none

def outputTargets (source : List Char) : List String := (tokenize source).filterMap outputTarget?

variable [Target]

/-- A run of the code executes a store to the signal. -/
def StoresTo (code : List Instruction) (vm : Vm) (name : String) : Prop :=
  ∃ n u args, RunN (next code) n vm u ∧ code[u.ip]? = some ⟨.store, .signalName name :: args⟩

/-- From every table of signals, every output of the source is stored to. -/
def Produces (source : List Char) (code : List Instruction) : Prop :=
  ∀ (vm : Vm) (table : String → Option HalValue), ∀ name ∈ outputTargets source, StoresTo code (started vm table) name

/-! ## Code without labels -/

/-- The signals that are stored to up to the first `CAL`. -/
def storedBeforeCall : List Instruction → List String
  | [] => []
  | inst :: rest => if inst.opcode = .call then [] else (storedSignal inst).toList ++ storedBeforeCall rest

theorem storedSignal_eq {inst : Instruction} (h : storedSignal inst = some name) :
    ∃ args, inst = ⟨.store, .signalName name :: args⟩ := by
  obtain ⟨op, args⟩ := inst
  unfold storedSignal at h
  split at h
  · rename_i hop hargs
    cases h
    exact ⟨_, by rw [← hop, ← hargs]⟩
  · cases h

theorem mem_storedBeforeCall {code : List Instruction} : name ∈ storedBeforeCall code ↔
      ∃ (k : Nat) (args : List Operand), code[k]? = some ⟨.store, .signalName name :: args⟩ ∧
        ∀ j < k, ∀ inst, code[j]? = some inst → inst.opcode ≠ .call := by
  induction code with
  | nil =>
    constructor
    · intro h
      cases h
    · rintro ⟨k, args, h, _⟩
      cases h
  | cons inst rest ih =>
    unfold storedBeforeCall
    constructor
    · intro h
      by_cases hcall : inst.opcode = .call
      · rw [if_pos hcall] at h
        cases h
      · rw [if_neg hcall] at h
        rcases List.mem_append.1 h with h | h
        · obtain ⟨args, rfl⟩ := storedSignal_eq (Option.mem_toList.1 h)
          exact ⟨0, args, rfl, fun j hj => absurd hj (Nat.not_lt_zero j)⟩
        · obtain ⟨k, args, hk, hfree⟩ := ih.1 h
          refine ⟨k + 1, args, hk, ?_⟩
          intro j hj inst' hinst'
          cases j with
          | zero =>
            cases hinst'
            exact hcall
          | succ j => exact hfree j (Nat.lt_of_succ_lt_succ hj) inst' hinst'
    · rintro ⟨k, args, hk, hfree⟩
      cases k with
      | zero =>
        cases hk
        exact List.mem_append_left _ (Option.mem_toList.2 rfl)
      | succ k =>
        rw [if_neg (hfree 0 (Nat.succ_pos k) inst rfl)]
        refine List.mem_append_right _ (ih.2 ⟨k, args, hk, ?_⟩)
        intro j hj inst' hinst'
        exact hfree (j + 1) (Nat.succ_lt_succ hj) inst' hinst'

/-- An instruction that goes on to the next one from every state. -/
structure Advances (inst : Instruction) : Prop where
  not_call : inst.opcode ≠ .call
  next : ∀ (code : List Instruction) (vm : Vm), code[vm.ip]? = some inst →
    ∃ vm', Hal.next code vm = some vm' ∧ vm'.ip = vm.ip + 1

/-- Instructions that advance, and calls of the `Halt` behind them all. -/
structure Wired (code : List Instruction) : Prop where
  halt : code[code.length - 1]? = some .halt
  inst : ∀ k, k + 1 < code.length →
    ∃ inst, code[k]? = some inst ∧ (Advances inst ∨ inst = .call (.ofNat (code.length - 1)))
  call : ∃ k : Nat, code[k]? = some (.call (.ofNat (code.length - 1)))

/-- Where a call goes: the target has 32 bits. -/
def callTarget (code : List Instruction) : Nat := (UInt32.ofNat (code.length - 1)).toNat

theorem next_call {code : List Instruction} {vm : Vm} {target : UInt32} (h : code[vm.ip]? = some (.call target)) :
    next code vm = some ((vm.pushCallIp (vm.ip + 1)).setIp target.toNat) := by
  unfold next Vm.step
  rw [h]
  rfl

namespace Wired

variable {code : List Instruction} {vm : Vm}

/-- No call between `b` and `ip`. -/
def Clear (code : List Instruction) (b ip : Nat) : Prop :=
  b ≤ ip ∧ ∀ k, b ≤ k → k < ip → ∀ inst, code[k]? = some inst → inst.opcode ≠ .call

theorem step_clear (h : Wired code) {vm' : Vm} (hnext : next code vm = some vm')
    (hat : Clear code 0 vm.ip ∨ Clear code (callTarget code) vm.ip) :
    Clear code 0 vm'.ip ∨ Clear code (callTarget code) vm'.ip := by
  have hlt : vm.ip < code.length := by
    by_contra hge
    have hnone : vm.step code = none := by
      unfold Vm.step
      rw [List.getElem?_eq_none (Nat.le_of_not_lt hge)]
      rfl
    unfold next at hnext
    rw [hnone] at hnext
    cases hnext
  by_cases hlast : vm.ip + 1 < code.length
  · obtain ⟨inst, hinst, hkind⟩ := h.inst vm.ip hlast
    rcases hkind with hadv | rfl
    · obtain ⟨u, hu, hip⟩ := hadv.next code vm hinst
      rw [hnext] at hu
      cases hu
      have hextend : ∀ b, Clear code b vm.ip → Clear code b vm'.ip := by
        rintro b ⟨hle, hfree⟩
        rw [hip]
        refine ⟨Nat.le_succ_of_le hle, ?_⟩
        intro k hbk hk inst' hinst'
        by_cases heq : k = vm.ip
        · rw [heq, hinst] at hinst'
          cases hinst'
          exact hadv.not_call
        · exact hfree k hbk (by omega) inst' hinst'
      exact hat.imp (hextend 0) (hextend _)
    · rw [next_call hinst] at hnext
      cases hnext
      refine .inr ⟨Nat.le_refl _, ?_⟩
      intro k hbk hk
      exact absurd (Nat.lt_of_le_of_lt hbk hk) (Nat.lt_irrefl _)
  · have hip : vm.ip = code.length - 1 := by omega
    rw [next_halt (hip ▸ h.halt)] at hnext
    cases hnext

theorem run_clear (h : Wired code) (hip : vm.ip = 0) {n : Nat} {u : Vm} (hrun : RunN (next code) n vm u) :
    Clear code 0 u.ip ∨ Clear code (callTarget code) u.ip := by
  have hfirst : Clear code 0 vm.ip := by
    rw [hip]
    exact ⟨Nat.le_refl 0, fun k _ hk => absurd hk (Nat.not_lt_zero k)⟩
  exact hrun.invariant (fun _ _ hnext hat => h.step_clear hnext hat) (.inl hfirst)

/-- Up to the first call a run gets to every instruction. -/
theorem reaches (h : Wired code) {k : Nat} (hk : vm.ip + k < code.length) (hfree : Clear code vm.ip (vm.ip + k)) :
    ∃ u, RunN (next code) k vm u ∧ u.ip = vm.ip + k := by
  induction k with
  | zero => exact ⟨vm, .refl vm, rfl⟩
  | succ k ih =>
    obtain ⟨u, hrun, hip⟩ := ih (by omega) ⟨by omega, fun j hbj hj => hfree.2 j hbj (by omega)⟩
    obtain ⟨inst, hinst, hkind⟩ := h.inst (vm.ip + k) (by omega)
    rcases hkind with hadv | rfl
    · obtain ⟨u', hu', hip'⟩ := hadv.next code u (hip ▸ hinst)
      exact ⟨u', hrun.snoc hu', by omega⟩
    · exact absurd rfl (hfree.2 (vm.ip + k) (by omega) (by omega) _ hinst)

/-- What is stored to up to the first call, from where the machine is. -/
theorem stores_from (h : Wired code) (hin : name ∈ storedBeforeCall (code.drop vm.ip)) :
    StoresTo code vm name := by
  obtain ⟨k, args, hk, hfree⟩ := mem_storedBeforeCall.1 hin
  rw [List.getElem?_drop] at hk
  have hlt := (List.getElem?_eq_some_iff.1 hk).1
  obtain ⟨u, hrun, hip⟩ := h.reaches hlt ⟨Nat.le_add_right _ _, by
    intro j hbj hj inst hinst
    refine hfree (j - vm.ip) (by omega) inst ?_
    rw [List.getElem?_drop, Nat.add_sub_cancel' hbj]
    exact hinst⟩
  exact ⟨k, u, args, hrun, hip ▸ hk⟩

theorem mem_of_clear {b ip : Nat} {args : List Operand} (hclear : Clear code b ip)
    (hinst : code[ip]? = some ⟨.store, .signalName name :: args⟩) : name ∈ storedBeforeCall (code.drop b) := by
  refine mem_storedBeforeCall.2 ⟨ip - b, args, ?_, ?_⟩
  · rw [List.getElem?_drop, Nat.add_sub_cancel' hclear.1]
    exact hinst
  · intro j hj inst hj'
    rw [List.getElem?_drop] at hj'
    exact hclear.2 (b + j) (Nat.le_add_right _ _) (by have := hclear.1; omega) inst hj'

/-- The first call is reached, and what comes next is where it goes. -/
theorem run_to_call (h : Wired code) (hip : vm.ip = 0) :
    ∃ n u, RunN (next code) n vm u ∧ u.ip = callTarget code := by
  -- a run without a call would pass the call
  obtain ⟨k, hk⟩ := h.call
  have hlt := (List.getElem?_eq_some_iff.1 hk).1
  induction k using Nat.strong_induction_on with
  | _ k ih =>
    by_cases hfree : Clear code 0 k
    · obtain ⟨u, hrun, hu⟩ := @reaches _ _ vm h k (by omega) (by rw [hip, Nat.zero_add]; exact hfree)
      rw [hip, Nat.zero_add] at hu
      exact ⟨k + 1, _, hrun.snoc (next_call (hu ▸ hk)), rfl⟩
    · -- there is an earlier one
      have hearlier : ∃ j < k, ∃ inst, code[j]? = some inst ∧ inst.opcode = .call := by
        by_contra hno
        refine hfree ⟨Nat.zero_le k, ?_⟩
        intro j _ hj inst hinst hcall
        exact hno ⟨j, hj, inst, hinst, hcall⟩
      obtain ⟨j, hj, inst, hinst, hcall⟩ := hearlier
      obtain ⟨inst', hinst', hkind⟩ := h.inst j (by omega)
      rw [hinst] at hinst'
      cases hinst'
      rcases hkind with hadv | rfl
      · exact absurd hcall hadv.not_call
      · exact ih j hj hinst (by omega)

/-- **The stores of a run**: those in front of the first call, and those between its target and the next call. -/
theorem storesTo_iff (h : Wired code) (hip : vm.ip = 0) : StoresTo code vm name ↔
      name ∈ storedBeforeCall code ∨ name ∈ storedBeforeCall (code.drop (callTarget code)) := by
  constructor
  · rintro ⟨n, u, args, hrun, hinst⟩
    rcases h.run_clear hip hrun with hclear | hclear
    · exact .inl (mem_of_clear hclear hinst)
    · exact .inr (mem_of_clear hclear hinst)
  · rintro (hin | hin)
    · refine h.stores_from ?_
      rw [hip]
      exact hin
    · obtain ⟨n, u, hrun, hu⟩ := h.run_to_call hip
      rw [← hu] at hin
      obtain ⟨m, w, args, hrun', hinst⟩ := h.stores_from hin
      exact ⟨n + m, w, args, hrun.trans hrun', hinst⟩

/-- With an index of 32 bits, the target is the `Halt`. -/
theorem stored_behind_call (h : Wired code) (hlen : code.length - 1 < 2 ^ 32) :
    storedBeforeCall (code.drop (callTarget code)) = [] := by
  have htarget : callTarget code = code.length - 1 := UInt32.toNat_ofNat_of_lt' hlen
  have hlt := (List.getElem?_eq_some_iff.1 h.halt)
  obtain ⟨hbound, hhalt⟩ := hlt
  rw [htarget, List.drop_eq_getElem_cons hbound, hhalt, List.drop_of_length_le (by omega)]
  rfl

end Wired

/-! ## The code of transfers and calls -/

/-- `LD` and `ST`. -/
def IsTransfer : ILStatement → Prop
  | .load _ | .store _ => True
  | _ => False

/-- `LD`, `ST` and `CAL`. -/
def IsWire : ILStatement → Prop
  | .load _ | .store _ | .call _ => True
  | _ => False

def storedVar? : ILStatement → Option String
  | .store x => some x
  | _ => none

theorem advances_loadSignal {r : UInt8} (hr : r.toNat < registerCount) (name : String) :
    Advances ⟨.load, [.register r, .signalName name]⟩ where
  not_call h := by cases h
  next code vm h := ⟨_, next_loadSignal h hr, by rw [Vm.advanceIp_ip, Vm.set_ip]⟩

theorem advances_loadReg {a b : UInt8} (ha : a.toNat < registerCount) (hb : b.toNat < registerCount) :
    Advances ⟨.load, [.register a, .register b]⟩ where
  not_call h := by cases h
  next code vm h := ⟨_, next_loadReg h ha hb, by rw [Vm.advanceIp_ip, Vm.set_ip]⟩

theorem advances_loadImm {r : UInt8} (hr : r.toNat < registerCount) (v : HalValue) : Advances (.loadImm r v) where
  not_call h := by cases h
  next code vm h := ⟨_, next_loadImm h hr, by rw [Vm.advanceIp_ip, Vm.set_ip]⟩

theorem advances_store {r : UInt8} (hr : r.toNat < registerCount) (name : String) :
    Advances ⟨.store, [.signalName name, .register r]⟩ where
  not_call h := by cases h
  next code vm h := ⟨_, next_store h hr, rfl⟩

section
variable {regs : String → UInt8} {stmts : List ILStatement}

omit [Target] in
/-- A program without labels: every call goes to the `Halt`. -/
theorem labelTarget_wire (h : ∀ s ∈ stmts, IsWire s) (name : String) :
    labelTarget stmts name = start stmts stmts.length := by
  have hnone : labelIndex name stmts = none := by
    induction stmts with
    | nil => rfl
    | cons s rest ih =>
      have hs : s ≠ .label name := by
        intro heq
        have hwire := h s List.mem_cons_self
        rw [heq] at hwire
        exact hwire
      unfold labelIndex
      rw [ih fun s' hs' => h s' (List.mem_cons_of_mem _ hs')]
      exact if_neg hs
  unfold labelTarget
  rw [hnone]
  rfl

/-- The instructions of transfers and calls. -/
theorem mem_layout_wire {target : String → Option Nat} {halt ip : Nat} (htarget : ∀ name, target name = some halt)
    (hstmts : ∀ s ∈ stmts, IsWire s ∧ ∀ x, s.regVar? = some x → (regs x).toNat < registerCount) {inst : Instruction}
    (hin : inst ∈ (layout regs ip stmts).map (Slot.resolve retarget target)) :
    Advances inst ∨ inst = .call (.ofNat halt) := by
  induction stmts generalizing ip with
  | nil => cases hin
  | cons s rest ih =>
    have hlayout : layout regs ip (s :: rest) = slots (operandReg regs s) ip s ++ layout regs (ip + s.size) rest := rfl
    rw [hlayout, List.map_append] at hin
    rcases List.mem_append.1 hin with hin | hin
    · obtain ⟨hwire, hreg⟩ := hstmts s List.mem_cons_self
      cases s with
      | load x =>
        have hx := hreg x rfl
        simp [slots, Slot.resolve] at hin
        rcases hin with rfl | rfl
        · exact .inl (advances_loadSignal hx x)
        · exact .inl (advances_loadReg (by decide) hx)
      | store x =>
        simp [slots, Slot.resolve] at hin
        rw [hin]
        exact .inl (advances_store (by decide) x)
      | call fb =>
        simp [slots, Slot.resolve, htarget] at hin
        rw [hin]
        exact .inr rfl
      | _ => exact hwire.elim
    · exact ih (fun s' hs' => hstmts s' (List.mem_cons_of_mem _ hs')) hin

/-- **Transfers and calls** are wired. -/
theorem wired_linked (hregs : Assigned regs stmts) (h : ∀ s ∈ stmts, IsWire s) (hcall : ∃ fb, .call fb ∈ stmts) :
    Wired (linked regs stmts) := by
  have hlen := length_linked regs stmts
  have hlast : (linked regs stmts).length - 1 = start stmts stmts.length := by omega
  have hall : ∀ s ∈ stmts, IsWire s ∧ ∀ x, s.regVar? = some x → (regs x).toNat < registerCount :=
    fun s hs => ⟨h s hs, fun x hx => hregs.lt hs hx⟩
  refine ⟨?_, ?_, ?_⟩
  · rw [hlast]
    exact halt_at regs stmts
  · intro k hk
    refine ⟨_, List.getElem?_eq_getElem (by omega), ?_⟩
    obtain ⟨hfirst, hcode⟩ := program_codeAt regs stmts
    cases k with
    | zero =>
      rw [List.getElem?_eq_getElem (by omega), Option.some.injEq] at hfirst
      rw [hfirst]
      exact .inl (advances_loadImm (by decide) _)
    | succ k =>
      rw [hlast]
      have hk' : k < ((layout regs 1 stmts).map
          (Slot.resolve retarget fun name => some (labelTarget stmts name))).length := by
        have hstart : start stmts stmts.length = 1 + totalSize stmts := by
          unfold start
          rw [List.take_length]
        rw [List.length_map, length_layout]
        omega
      have hget := hcode.left.get hk'
      rw [Nat.add_comm, List.getElem?_eq_getElem (by omega), Option.some.injEq] at hget
      rw [hget]
      exact mem_layout_wire (fun name => congrArg some (labelTarget_wire h name)) hall (List.getElem_mem hk')
  · obtain ⟨fb, hin⟩ := hcall
    obtain ⟨i, hi⟩ := List.getElem?_of_mem hin
    have hcode : (linked regs stmts)[start stmts i]? = some (.call (.ofNat (labelTarget stmts fb))) :=
      (stmt_codeAt regs hi).head
    rw [labelTarget_wire h, ← hlast] at hcode
    exact ⟨_, hcode⟩

/-- The stores of transfers in front of other code. -/
theorem storedBeforeCall_layout {target : String → Option Nat} {ip : Nat} (h : ∀ s ∈ stmts, IsTransfer s)
    (tail : List Instruction) :
    storedBeforeCall ((layout regs ip stmts).map (Slot.resolve retarget target) ++ tail) =
      stmts.filterMap storedVar? ++ storedBeforeCall tail := by
  induction stmts generalizing ip with
  | nil => rfl
  | cons s rest ih =>
    have hrest := @ih (ip + s.size) fun s' hs' => h s' (List.mem_cons_of_mem _ hs')
    have hs := h s List.mem_cons_self
    cases s with
    | load x => exact hrest
    | store x => exact congrArg (x :: ·) hrest
    | _ => exact hs.elim

end

/-! ## Outputs -/

/-- The signals of the input pins of a block, as the text of Instruction List names them. -/
def FbBlock.inputNames (b : FbBlock) : List String := b.inputs.map fun q => readOperand (b.name ++ '.' :: q.1)

/-- The signals of the input pins of the first block. -/
def storedInputs (source : List Char) : List String :=
  match parseBlocks (tokenize source) with
  | .ok (b :: _) => b.inputNames
  | _ => []

omit [Target] in
theorem filterMap_inputStatements (b : FbBlock) :
    (b.inputs.flatMap b.inputStatements).filterMap storedVar? = b.inputNames := by
  unfold FbBlock.inputNames
  induction b.inputs with
  | nil => rfl
  | cons q rest ih => exact congrArg (_ :: ·) ih

section
variable {b : FbBlock} {rest : List FbBlock}

omit [Target] in
theorem isWire_blocks (blocks : List FbBlock) :
    ∀ s ∈ blocks.flatMap FbBlock.callStatements ++ blocks.flatMap fun b => b.outputs.flatMap b.outputStatements,
      IsWire s := by
  have hpair : ∀ x y, ∀ s ∈ [ILStatement.load x, .store y], IsWire s := by
    intro x y s hs
    simp only [List.mem_cons, List.not_mem_nil, or_false] at hs
    rcases hs with rfl | rfl <;> exact trivial
  intro s hs
  rcases List.mem_append.1 hs with hs | hs
  · obtain ⟨b, _, hs⟩ := List.mem_flatMap.1 hs
    rcases List.mem_append.1 hs with hs | hs
    · obtain ⟨q, _, hs⟩ := List.mem_flatMap.1 hs
      exact hpair _ _ s hs
    · rw [List.mem_singleton.1 hs]
      exact trivial
  · obtain ⟨b, _, hs⟩ := List.mem_flatMap.1 hs
    obtain ⟨q, _, hs⟩ := List.mem_flatMap.1 hs
    exact hpair _ _ s hs

/-- The stores in front of the call of the first block. -/
theorem storedBeforeCall_linked (regs : String → UInt8) (tail : List ILStatement) :
    storedBeforeCall (linked regs (b.inputs.flatMap b.inputStatements ++ .call (readOperand b.name) :: tail)) =
      b.inputNames := by
  have htransfer : ∀ s ∈ b.inputs.flatMap b.inputStatements, IsTransfer s := by
    intro s hs
    obtain ⟨q, _, hs⟩ := List.mem_flatMap.1 hs
    simp [FbBlock.inputStatements] at hs
    rcases hs with rfl | rfl <;> exact trivial
  unfold linked program
  rw [List.map_cons, List.map_append, layout_append, List.map_append, List.append_assoc]
  show storedBeforeCall (_ ++ _) = _
  rw [storedBeforeCall_layout htransfer, filterMap_inputStatements]
  exact List.append_nil _

end

/-- **The stores of a run** of an accepted source whose text compiles: to what the input pins of the first block are
called, or, where the index of the `Halt` has more than 32 bits, to what is stored to between where the calls go and
the next one. -/
theorem storesTo_program [CaseMap] {source il : List Char} (hfbd : fbdCompile source = .ok il) {program : HalProgram}
    (hil : ilCompile (String.ofList il) = some program) (vm : Vm) (table : String → Option HalValue) (name : String) :
    StoresTo program.instructions (started vm table) name ↔
      name ∈ storedInputs source ∨
        2 ^ 32 < program.instructions.length ∧
          name ∈ storedBeforeCall (program.instructions.drop (callTarget program.instructions)) := by
  obtain ⟨blocks, hparse, hne, hone, rfl⟩ := fbdCompile_ok hfbd
  obtain ⟨b, rest, rfl⟩ := List.exists_cons_of_ne_nil hne
  obtain ⟨regs, hregs, hcode⟩ := ilCompile_some hil
  have hstored : storedInputs source = b.inputNames := by
    unfold storedInputs
    rw [hparse]
  have hread : statements (generateIl (b :: rest)) =
      b.inputs.flatMap b.inputStatements ++ .call (readOperand b.name) ::
        (rest.flatMap FbBlock.callStatements ++ (b :: rest).flatMap fun b => b.outputs.flatMap b.outputStatements) := by
    rw [statements_generateIl hone, List.flatMap_cons]
    unfold FbBlock.callStatements
    rw [List.append_assoc, List.append_assoc]
    rfl
  have hwired : Wired program.instructions := by
    rw [hcode]
    refine wired_linked hregs ?_ ⟨readOperand b.name, ?_⟩
    · rw [statements_generateIl hone]
      exact isWire_blocks _
    · rw [hread]
      exact List.mem_append_right _ List.mem_cons_self
  have hfirst : storedBeforeCall program.instructions = b.inputNames := by
    rw [hcode, hread, storedBeforeCall_linked]
  rw [hwired.storesTo_iff rfl, hfirst, hstored]
  refine or_congr_right ⟨?_, fun h => h.2⟩
  intro hin
  refine ⟨?_, hin⟩
  by_contra hlen
  rw [hwired.stored_behind_call (by omega)] at hin
  cases hin

/-- **Outputs** are produced, in an accepted source whose text compiles, exactly if each target is stored to in front
of the first `CAL` (or where a `CAL` goes instead of the `Halt`, in code of more than 32 bits). -/
theorem outputs_iff [CaseMap] {source il : List Char} (hfbd : fbdCompile source = .ok il) {program : HalProgram}
    (hil : ilCompile (String.ofList il) = some program) :
    Produces source program.instructions ↔
      ∀ name ∈ outputTargets source, name ∈ storedInputs source ∨
        2 ^ 32 < program.instructions.length ∧
          name ∈ storedBeforeCall (program.instructions.drop (callTarget program.instructions)) := by
  constructor
  · intro h name hname
    exact (storesTo_program hfbd hil Vm.new (fun _ => none) name).1 (h Vm.new (fun _ => none) name hname)
  · intro h vm table name hname
    exact (storesTo_program hfbd hil vm table name).2 (h name hname)

end Audesys.Fbd

/-! ## Two diagrams -/

namespace Audesys.Fbd

open Audesys.Hal Audesys.Il Audesys.Lib

local instance releaseFbd : Target := host false

local instance asciiFbd : CaseMap := .ascii

/-- A timer whose output is wired to a variable. -/
def timerSource : List Char := "BLOCK ton1 TON\n\nton1.IN := x\nton1.PT := 500\n\nresult := ton1.Q".toList

/-- The variable is not stored to. -/
theorem timerSource_unproduced : ∃ il program, fbdCompile timerSource = .ok il ∧
    ilCompile (String.ofList il) = some program ∧ ¬ Produces timerSource program.instructions := by
  obtain ⟨il, hfbd, hlen⟩ : ∃ il, fbdCompile timerSource = .ok il ∧
      (ilCompile (String.ofList il)).map (fun p => p.instructions.length) = some 12 := ⟨_, rfl, by decide⟩
  obtain ⟨program, hil, hcount⟩ := Option.map_eq_some_iff.1 hlen
  refine ⟨il, program, hfbd, hil, ?_⟩
  intro h
  have hstored := h Vm.new (fun _ => none) "result" (by decide)
  rw [storesTo_program hfbd hil] at hstored
  rcases hstored with hin | ⟨hlong, _⟩
  · exact absurd hin (by decide)
  · rw [hcount] at hlong
    exact absurd hlong (by decide)

/-- The name of the block starts a comment, so that its input pin is read as `y`. -/
def commentSource : List Char := "BLOCK y(* TON\ny(*.IN := x\ny := x".toList

theorem commentSource_produces : ∃ il program, fbdCompile commentSource = .ok il ∧
    ilCompile (String.ofList il) = some program ∧ Produces commentSource program.instructions := by
  obtain ⟨il, hfbd, hsome⟩ : ∃ il, fbdCompile commentSource = .ok il ∧ (ilCompile (String.ofList il)).isSome = true :=
    ⟨_, rfl, by decide⟩
  obtain ⟨program, hil⟩ := Option.isSome_iff_exists.1 hsome
  refine ⟨il, program, hfbd, hil, (outputs_iff hfbd hil).2 ?_⟩
  have htargets : outputTargets commentSource = ["y"] := by decide
  rw [htargets]
  intro name hname
  rw [List.mem_singleton.1 hname]
  exact .inl (by decide)

end Audesys.Fbd
