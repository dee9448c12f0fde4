import Mathlib.Data.List.Induction
import Audesys.Hal.Steps

/-!
# `Hal.Symbolic` — straight-line code, executed once for every state

Code without jumps is run on what is known of the registers: a constant, the signal that was loaded, a sum or a
product of such (`Sym`), or nothing. The stores are collected as they come. One theorem ties such a run to the
machine (`Agrees.run`), so the effect of a block of generated code is computed and not proved.

A `JumpIf` whose first operand is no address goes on with the next instruction whatever the flag says; `blind` takes it
for a `Nop`, and the machine cannot tell the two apart (`step_blind`).
-/

open List

namespace Audesys.Hal

open Audesys.Lib

variable [Target]

abbrev SignalTable := String → Option HalValue

namespace SignalTable

def write (σ : SignalTable) (name : String) (v : HalValue) : SignalTable :=
  fun n => if n = name then some v else σ n

/-- What a `Load` reads. -/
def read (σ : SignalTable) (name : String) : HalValue := (σ name).getD (.bool false)

@[simp] theorem write_self (σ : SignalTable) (name : String) (v : HalValue) : σ.write name v name = some v :=
  if_pos rfl

theorem write_ne (σ : SignalTable) {name n : String} (v : HalValue) (h : n ≠ name) : σ.write name v n = σ n := if_neg h

theorem read_of_eq {σ : SignalTable} {name : String} {v : HalValue} (h : σ name = some v) : σ.read name = v := by
  unfold read
  rw [h]
  rfl

end SignalTable

/-! ## Branches that never jump -/

/-- The address a `JumpIf` goes to. -/
def jumpIfTarget : List Operand → Option UInt32
  | .immediate (.u32 target) :: _ => some target
  | _ => none

theorem execJumpIf_eq (vm : Vm) (args : List Operand) :
    Exec.execJumpIf vm args =
      match jumpIfTarget args with
      | some target => if vm.flagsZero then vm.setIp target.toNat else vm.advanceIp
      | none => vm.advanceIp := by
  unfold jumpIfTarget
  split
  · rename_i target rest heq
    split at heq
    · cases heq
      unfold Exec.execJumpIf
      cases vm.flagsZero <;> rfl
    · cases heq
  · rename_i heq
    split at heq
    · cases heq
    · rename_i hne
      unfold Exec.execJumpIf
      split
      · exact absurd rfl (hne _ _)
      · rfl

/-- A `JumpIf` without an address in front is a `Nop`. -/
def Instruction.blind (inst : Instruction) : Instruction :=
  if inst.opcode = .jumpIf then
    match jumpIfTarget inst.operands with
    | some target => .jumpIf target
    | none => ⟨.nop, []⟩
  else inst

theorem blind_of_ne {inst : Instruction} (h : inst.opcode ≠ .jumpIf) : inst.blind = inst := if_neg h

@[simp] theorem blind_loadImm (r : UInt8) (v : HalValue) : (Instruction.loadImm r v).blind = .loadImm r v := rfl
@[simp] theorem blind_jump (target : UInt32) : (Instruction.jump target).blind = .jump target := rfl

theorem step_blind (code : List Instruction) (vm : Vm) : vm.step (code.map Instruction.blind) = vm.step code := by
  unfold Vm.step
  rw [getElem?_map]
  cases code[vm.ip]? with
  | none => rfl
  | some inst =>
    obtain ⟨op, args⟩ := inst
    by_cases hop : op = .jumpIf
    · subst hop
      have hexec : Exec.executeInstruction vm ⟨.jumpIf, args⟩ = some (Exec.execJumpIf vm args, .cont) := rfl
      simp [Instruction.blind, hexec, execJumpIf_eq]
      cases jumpIfTarget args with
      | none => rfl
      | some target =>
        cases hflag : vm.flagsZero <;>
          simp [Exec.executeInstruction, Exec.execJumpIf, Instruction.jumpIf, hflag] <;> rfl
    · rw [Option.map_some, blind_of_ne hop]

theorem next_blind (code : List Instruction) : next (code.map Instruction.blind) = next code := by
  funext vm
  unfold next
  rw [step_blind]

theorem haltsAt_blind (code : List Instruction) (vm vm' : Vm) :
    HaltsAt (code.map Instruction.blind) vm vm' ↔ HaltsAt code vm vm' := by
  unfold HaltsAt
  simp only [next_blind, step_blind]

/-! ## Symbolic values -/

inductive Sym where
  | value (v : HalValue)
  | signal (name : String)
  | add (a b : Sym)
  | mul (a b : Sym)

namespace Sym

def eval (σ : SignalTable) : Sym → HalValue
  | value v => v
  | signal name => σ.read name
  | add a b => ((a.eval σ).add (b.eval σ)).getD (.s32 0)
  | mul a b => ((a.eval σ).mul (b.eval σ)).getD (.s32 0)

/-- Certainly a double, so that no operation on it panics. -/
def isF64 : Sym → Bool
  | value (.f64 _) => true
  | value _ => false
  | signal _ => false
  | add a b => a.isF64 && b.isF64
  | mul a b => a.isF64 && b.isF64

theorem eval_of_isF64 {s : Sym} (h : s.isF64 = true) (σ : SignalTable) : ∃ x, s.eval σ = .f64 x := by
  induction s with
  | value v =>
    cases v with
    | f64 x => exact ⟨x, rfl⟩
    | _ => cases h
  | signal name => cases h
  | add a b iha ihb =>
    rw [isF64, Bool.and_eq_true] at h
    obtain ⟨x, hx⟩ := iha h.1
    obtain ⟨y, hy⟩ := ihb h.2
    refine ⟨FloatFormat.add x y, ?_⟩
    rw [eval, hx, hy]
    rfl
  | mul a b iha ihb =>
    rw [isF64, Bool.and_eq_true] at h
    obtain ⟨x, hx⟩ := iha h.1
    obtain ⟨y, hy⟩ := ihb h.2
    refine ⟨FloatFormat.mul x y, ?_⟩
    rw [eval, hx, hy]
    rfl

end Sym

section
variable {opI : {α : Type} → [MachineInt α] → α → α → Option α} {opF : {F : Type} → [FloatFormat F] → F → F → F}

theorem binop_f64_left (x : Target.F64) (v : HalValue) : ∃ w, HalValue.binop opI opF (.f64 x) v = some w := by
  cases v <;> exact ⟨_, rfl⟩

theorem binop_f64_right (v : HalValue) (x : Target.F64) : ∃ w, HalValue.binop opI opF v (.f64 x) = some w := by
  cases v <;> exact ⟨_, rfl⟩

end

/-! ## Symbolic states -/

structure SymState where
  regs : UInt8 → Option Sym
  stores : List (String × Sym)

namespace SymState

def set (st : SymState) (r : UInt8) (s : Option Sym) : SymState :=
  { st with regs := fun r' => if r' = r then s else st.regs r' }

def known (st : SymState) (r : UInt8) : Bool :=
  match st.regs r with
  | some s => s.isF64
  | none => false

/-- An arithmetic instruction that cannot panic, since one operand is a double. -/
def arith (op : Sym → Sym → Sym) (st : SymState) (a b out : UInt8) : Option SymState :=
  if a.toNat < registerCount ∧ b.toNat < registerCount ∧ out.toNat < registerCount ∧ (st.known a || st.known b) then
    some (st.set out (match st.regs a, st.regs b with | some s, some t => some (op s t) | _, _ => none))
  else none

/-- One instruction; `none` where it is not followed. -/
def step (st : SymState) (inst : Instruction) : Option SymState :=
  match inst.opcode, inst.operands with
  | .nop, _ => some st
  | .load, [.register r, .immediate v] =>
    if r.toNat < registerCount then some (st.set r (some (.value v))) else none
  | .load, [.register r, .signalName name] =>
    -- a signal read behind a store is not followed
    if r.toNat < registerCount then some (st.set r (if st.stores.isEmpty then some (.signal name) else none)) else none
  | .add, [.register a, .register b, .register out] => st.arith .add a b out
  | .mul, [.register a, .register b, .register out] => st.arith .mul a b out
  | .eq, [.register a, .register b] | .neq, [.register a, .register b] | .gt, [.register a, .register b]
  | .lt, [.register a, .register b] =>
    if a.toNat < registerCount ∧ b.toNat < registerCount then some st else none
  | .store, [.signalName name, .register r] =>
    if r.toNat < registerCount then (st.regs r).map fun s => { st with stores := st.stores ++ [(name, s)] } else none
  | _, _ => none

def run (st : SymState) : List Instruction → Option SymState
  | [] => some st
  | inst :: rest => (st.step inst).bind fun st' => st'.run rest

theorem step_plain {st st' : SymState} {inst : Instruction} (h : st.step inst = some st') :
    inst.opcode.isPlain = true := by
  obtain ⟨op, args⟩ := inst
  cases op with
  | jump | jumpIf | call | ret | halt => cases h
  | _ => rfl

/-- Only plain instructions are followed. -/
theorem run_plain {st st' : SymState} {l : List Instruction} (h : st.run l = some st') :
    ∀ inst ∈ l, inst.opcode.isPlain = true := by
  induction l generalizing st with
  | nil =>
    intro inst hmem
    cases hmem
  | cons inst rest ih =>
    rw [run, Option.bind_eq_some_iff] at h
    obtain ⟨st₁, hstep, hrest⟩ := h
    intro inst' hmem
    rcases mem_cons.1 hmem with rfl | hmem
    · exact step_plain hstep
    · exact ih hrest inst' hmem

/-- The registers that hold constants, and no more. -/
def ofConsts (consts : List (UInt8 × HalValue)) : SymState := ⟨fun r => (consts.lookup r).map .value, []⟩

end SymState

/-- The signal table behind the stores, on values as they were at the start. -/
def applyStores (σ : SignalTable) (stores : List (String × Sym)) : SignalTable :=
  stores.foldl (fun τ p => τ.write p.1 (p.2.eval σ)) σ

theorem applyStores_snoc (σ : SignalTable) (stores : List (String × Sym)) (name : String) (s : Sym) :
    applyStores σ (stores ++ [(name, s)]) = (applyStores σ stores).write name (s.eval σ) := by
  unfold applyStores
  rw [foldl_append]
  rfl

/-- A signal that no store is to keeps its value. -/
theorem applyStores_of_ne {σ : SignalTable} {stores : List (String × Sym)} {name : String}
    (h : ∀ p ∈ stores, name ≠ p.1) : applyStores σ stores name = σ name := by
  induction stores using List.reverseRecOn with
  | nil => rfl
  | append_singleton stores p ih =>
    obtain ⟨n, s⟩ := p
    rw [applyStores_snoc, SignalTable.write_ne]
    · exact ih fun p hp => h p (mem_append_left _ hp)
    · exact h (n, s) (mem_append_right _ (mem_singleton_self _))

/-- The last store to a signal counts. -/
theorem applyStores_last {σ : SignalTable} {pre post : List (String × Sym)} {name : String} {s : Sym}
    (h : ∀ p ∈ post, name ≠ p.1) : applyStores σ (pre ++ (name, s) :: post) name = some (s.eval σ) := by
  induction post using List.reverseRecOn with
  | nil => rw [applyStores_snoc, SignalTable.write_self]
  | append_singleton post p ih =>
    obtain ⟨n, t⟩ := p
    rw [← cons_append, ← List.append_assoc, applyStores_snoc, SignalTable.write_ne]
    · exact ih fun p hp => h p (mem_append_left _ hp)
    · exact h (n, t) (mem_append_right _ (mem_singleton_self _))

omit [Target] in
/-- What one element of a list establishes and no element destroys holds behind the list. -/
theorem foldl_establishes {α β : Type} {P : β → Prop} {f : β → α → β} {as : List α} {a : α} (ha : a ∈ as)
    (hself : ∀ b, P (f b a)) (hkeep : ∀ b, P b → ∀ a' ∈ as, P (f b a')) (b : β) : P (as.foldl f b) := by
  obtain ⟨l₁, l₂, rfl⟩ := append_of_mem ha
  rw [foldl_append, foldl_cons]
  apply List.foldlRecOn
  · exact hself _
  · intro c hc a' ha'
    exact hkeep c hc a' (mem_append_right _ (mem_cons_of_mem _ ha'))

/-! ## Soundness -/

/-- `vm` is a state that `st` describes, on the signal table of the start. -/
structure Agrees (σ : SignalTable) (st : SymState) (vm : Vm) : Prop where
  regs : ∀ r s, st.regs r = some s → vm.get r = s.eval σ
  signals : vm.signals = applyStores σ st.stores

namespace Agrees

variable {σ : SignalTable} {st st' : SymState} {vm : Vm} {code : List Instruction}

theorem advanceIp (h : Agrees σ st vm) : Agrees σ st vm.advanceIp := ⟨h.regs, h.signals⟩

theorem setIp (h : Agrees σ st vm) (n : Nat) : Agrees σ st (vm.setIp n) := ⟨h.regs, h.signals⟩

/-- A register is written. -/
theorem set (h : Agrees σ st vm) {r : UInt8} {s : Option Sym} {v : HalValue} (hr : r.toNat < registerCount)
    (hv : ∀ t, s = some t → v = t.eval σ) : Agrees σ (st.set r s) (vm.set r v) := by
  refine ⟨?_, ?_⟩
  · intro r' t ht
    by_cases hrr : r' = r
    · subst hrr
      rw [Vm.get_set_self _ _ _ hr]
      exact hv t (by simpa only [SymState.set, if_true] using ht)
    · rw [Vm.get_set_ne _ _ hrr]
      exact h.regs r' t (by simpa only [SymState.set, if_neg hrr] using ht)
  · rw [Vm.set_signals]
    exact h.signals

theorem known (h : Agrees σ st vm) {r : UInt8} (hr : st.known r = true) : ∃ x, vm.get r = .f64 x := by
  unfold SymState.known at hr
  split at hr
  · rename_i s hs
    obtain ⟨x, hx⟩ := Sym.eval_of_isF64 hr σ
    exact ⟨x, by rw [h.regs r s hs, hx]⟩
  · cases hr

/-- An arithmetic instruction. -/
theorem arith (h : Agrees σ st vm) {op : Opcode} {a b out : UInt8} {mk : Sym → Sym → Sym}
    (opI : {α : Type} → [MachineInt α] → α → α → Option α) (opF : {F : Type} → [FloatFormat F] → F → F → F)
    (hinst : code[vm.ip]? = some (.arith op a b out)) (hop : op.isPlain)
    (hf : ∀ vm args, Exec.execPlain vm ⟨op, args⟩ = Exec.execArithBinop (HalValue.binop opI opF) vm args)
    (hmk : ∀ s t, (mk s t).eval σ = (HalValue.binop opI opF (s.eval σ) (t.eval σ)).getD (.s32 0))
    (hstep : st.arith mk a b out = some st') :
    ∃ vm', next code vm = some vm' ∧ vm'.ip = vm.ip + 1 ∧ Agrees σ st' vm' := by
  unfold SymState.arith at hstep
  split at hstep
  · rename_i hok
    obtain ⟨ha, hb, ho, hknown⟩ := hok
    have hsome : ∃ w, HalValue.binop opI opF (vm.get a) (vm.get b) = some w := by
      rcases Bool.or_eq_true _ _ ▸ hknown with hx | hx
      · obtain ⟨x, hx⟩ := h.known hx
        rw [hx]
        exact binop_f64_left x _
      · obtain ⟨x, hx⟩ := h.known hx
        rw [hx]
        exact binop_f64_right _ x
    obtain ⟨w, hw⟩ := hsome
    cases hstep
    refine ⟨_, next_arith hinst hop hf ha hb ho hw, by rw [Vm.advanceIp_ip, Vm.set_ip], (h.set ho ?_).advanceIp⟩
    intro t ht
    split at ht
    · rename_i s s' hs hs'
      cases ht
      rw [hmk, ← h.regs a s hs, ← h.regs b s' hs', hw]
      rfl
    · cases ht
  · cases hstep

/-- A comparison. -/
theorem cmp (h : Agrees σ st vm) {op : Opcode} {a b : UInt8} {f : HalValue → HalValue → Bool}
    (hinst : code[vm.ip]? = some (.cmp op a b)) (hop : op.isPlain)
    (hf : ∀ vm args, Exec.execPlain vm ⟨op, args⟩ = Exec.execCompare f vm args)
    (hstep : (if a.toNat < registerCount ∧ b.toNat < registerCount then some st else none) = some st') :
    ∃ vm', next code vm = some vm' ∧ vm'.ip = vm.ip + 1 ∧ Agrees σ st' vm' := by
  split at hstep
  · rename_i hok
    cases hstep
    refine ⟨_, next_cmp hinst hop hf hok.1 hok.2, rfl, ?_⟩
    exact ⟨h.regs, h.signals⟩
  · cases hstep

/-- **One instruction.** The machine follows the symbolic step. -/
theorem step (h : Agrees σ st vm) {inst : Instruction} (hinst : code[vm.ip]? = some inst)
    (hstep : st.step inst = some st') : ∃ vm', next code vm = some vm' ∧ vm'.ip = vm.ip + 1 ∧ Agrees σ st' vm' := by
  obtain ⟨op, args⟩ := inst
  unfold SymState.step at hstep
  -- one case for each instruction of the symbolic machine, which stops at the others
  split at hstep
  · rename_i hop
    obtain rfl : op = .nop := hop
    cases hstep
    exact ⟨vm.advanceIp, next_plain hinst rfl, rfl, h.advanceIp⟩
  · rename_i r v hop hargs
    obtain rfl : op = .load := hop
    obtain rfl : args = [.register r, .immediate v] := hargs
    split at hstep
    · rename_i hr
      cases hstep
      refine ⟨_, next_loadImm hinst hr, by rw [Vm.advanceIp_ip, Vm.set_ip], (h.set hr ?_).advanceIp⟩
      intro t ht
      cases ht
      rfl
    · cases hstep
  · rename_i r name hop hargs
    obtain rfl : op = .load := hop
    obtain rfl : args = [.register r, .signalName name] := hargs
    split at hstep
    · rename_i hr
      cases hstep
      refine ⟨_, next_loadSignal hinst hr, by rw [Vm.advanceIp_ip, Vm.set_ip], (h.set hr ?_).advanceIp⟩
      -- a load is known as long as nothing is stored in front of it
      intro t ht
      split at ht
      · rename_i hempty
        cases ht
        rw [h.signals, isEmpty_iff.1 hempty]
        rfl
      · cases ht
    · cases hstep
  · rename_i a b out hop hargs
    obtain rfl : op = .add := hop
    obtain rfl : args = [.register a, .register b, .register out] := hargs
    exact h.arith MachineInt.add FloatFormat.add hinst rfl (fun _ _ => rfl) (fun _ _ => rfl) hstep
  · rename_i a b out hop hargs
    obtain rfl : op = .mul := hop
    obtain rfl : args = [.register a, .register b, .register out] := hargs
    exact h.arith MachineInt.mul FloatFormat.mul hinst rfl (fun _ _ => rfl) (fun _ _ => rfl) hstep
  · rename_i a b hop hargs
    obtain rfl : op = .eq := hop
    obtain rfl : args = [.register a, .register b] := hargs
    exact h.cmp hinst rfl (fun _ _ => rfl) hstep
  · rename_i a b hop hargs
    obtain rfl : op = .neq := hop
    obtain rfl : args = [.register a, .register b] := hargs
    exact h.cmp hinst rfl (fun _ _ => rfl) hstep
  · rename_i a b hop hargs
    obtain rfl : op = .gt := hop
    obtain rfl : args = [.register a, .register b] := hargs
    exact h.cmp hinst rfl (fun _ _ => rfl) hstep
  · rename_i a b hop hargs
    obtain rfl : op = .lt := hop
    obtain rfl : args = [.register a, .register b] := hargs
    exact h.cmp hinst rfl (fun _ _ => rfl) hstep
  · rename_i name r hop hargs
    obtain rfl : op = .store := hop
    obtain rfl : args = [.signalName name, .register r] := hargs
    split at hstep
    · rename_i hr
      rw [Option.map_eq_some_iff] at hstep
      obtain ⟨s, hs, rfl⟩ := hstep
      refine ⟨_, next_store hinst hr, rfl, ?_⟩
      refine ⟨h.regs, ?_⟩
      rw [Vm.advanceIp_signals, applyStores_snoc, ← h.regs r s hs, Vm.writeSignal_signals, h.signals]
      rfl
    · cases hstep
  · cases hstep

/-- **A block.** The machine follows the symbolic run to the end of the block. -/
theorem run (h : Agrees σ st vm) {l : List Instruction} (hcode : CodeAt code vm.ip l) (hrun : st.run l = some st') :
    ∃ vm', RunN (next code) l.length vm vm' ∧ vm'.ip = vm.ip + l.length ∧ Agrees σ st' vm' := by
  induction l generalizing st vm with
  | nil =>
    cases hrun
    exact ⟨vm, .refl vm, rfl, h⟩
  | cons inst rest ih =>
    rw [SymState.run, Option.bind_eq_some_iff] at hrun
    obtain ⟨st₁, hstep, hrun⟩ := hrun
    obtain ⟨vm₁, hnext, hip, h₁⟩ := h.step hcode.head hstep
    obtain ⟨vm', hrest, hip', h'⟩ := ih h₁ (by rw [hip]; exact hcode.tail) hrun
    refine ⟨vm', .step hnext hrest, ?_, h'⟩
    rw [hip', hip, length_cons]
    omega

end Agrees

/-! ## Segments -/

/-- The registers hold these constants. -/
def Holds (consts : List (UInt8 × HalValue)) (vm : Vm) : Prop := ∀ r v, consts.lookup r = some v → vm.get r = v

theorem Agrees.ofConsts {consts : List (UInt8 × HalValue)} {vm : Vm} (h : Holds consts vm) :
    Agrees vm.signals (.ofConsts consts) vm := by
  refine ⟨?_, rfl⟩
  intro r s hs
  obtain ⟨v, hv, rfl⟩ := Option.map_eq_some_iff.1 hs
  exact h r v hv

/-- Constants that the symbolic run has at its end. -/
theorem Agrees.holds {σ : SignalTable} {st : SymState} {vm : Vm} (h : Agrees σ st vm) {consts : List (UInt8 × HalValue)}
    (hc : ∀ p ∈ consts, st.regs p.1 = some (.value p.2)) : Holds consts vm := by
  intro r v hv
  have hmem : (r, v) ∈ consts := by
    obtain ⟨l₁, l₂, rfl, _⟩ := lookup_eq_some_iff.1 hv
    exact mem_append_right _ (mem_cons_self ..)
  exact h.regs r (.value v) (hc _ hmem)

/-- From `b` to `e`, from states with `pre` to states with `post`, and what becomes of the signal table. -/
def Segment (code : List Instruction) (b e : Nat) (pre post : Vm → Prop) (f : SignalTable → SignalTable) : Prop :=
  ∀ vm, vm.ip = b → pre vm →
    ∃ n vm', RunN (next code) n vm vm' ∧ vm'.ip = e ∧ post vm' ∧ vm'.signals = f vm.signals

namespace Segment

variable {code : List Instruction} {b m e : Nat} {pre mid post : Vm → Prop} {f g : SignalTable → SignalTable}

theorem trans (h₁ : Segment code b m pre mid f) (h₂ : Segment code m e mid post g) :
    Segment code b e pre post (fun σ => g (f σ)) := by
  intro vm hip hpre
  obtain ⟨n₁, vm₁, hr₁, hip₁, hmid, hs₁⟩ := h₁ vm hip hpre
  obtain ⟨n₂, vm₂, hr₂, hip₂, hpost, hs₂⟩ := h₂ vm₁ hip₁ hmid
  refine ⟨n₁ + n₂, vm₂, hr₁.trans hr₂, hip₂, hpost, ?_⟩
  rw [hs₂, hs₁]

theorem weaken {post' : Vm → Prop} (h : Segment code b e pre post f) (hpost : ∀ vm, post vm → post' vm) :
    Segment code b e pre post' f := by
  intro vm hip hpre
  obtain ⟨n, vm', hr, hip', hp, hs⟩ := h vm hip hpre
  exact ⟨n, vm', hr, hip', hpost vm' hp, hs⟩

theorem refl : Segment code b b pre pre (fun σ => σ) := by
  intro vm hip hpre
  exact ⟨0, vm, .refl vm, hip, hpre, rfl⟩

end Segment

/-- Code that goes from instruction to instruction, and does so wherever it stands. -/
structure Straight (l : List Instruction) (pre post : Vm → Prop) (f : SignalTable → SignalTable) : Prop where
  plain : ∀ inst ∈ l, inst.opcode.isPlain = true
  segment : ∀ code b, CodeAt code b l → Segment code b (b + l.length) pre post f

namespace Straight

variable {l l₁ l₂ : List Instruction} {pre mid post : Vm → Prop} {f g : SignalTable → SignalTable}

theorem nil : Straight [] pre pre (fun σ => σ) where
  plain := by
    intro inst hmem
    cases hmem
  segment _ _ _ := .refl

theorem append (h₁ : Straight l₁ pre mid f) (h₂ : Straight l₂ mid post g) :
    Straight (l₁ ++ l₂) pre post (fun σ => g (f σ)) where
  plain := by
    intro inst hmem
    rcases mem_append.1 hmem with hmem | hmem
    · exact h₁.plain inst hmem
    · exact h₂.plain inst hmem
  segment := by
    intro code b hcode
    rw [length_append, ← Nat.add_assoc]
    exact (h₁.segment code b hcode.left).trans (h₂.segment code _ hcode.right)

/-- A block, by a symbolic run from the constants it relies on. -/
theorem ofRun {consts consts' : List (UInt8 × HalValue)} (st : SymState)
    (hrun : (SymState.ofConsts consts).run l = some st) (hc : ∀ p ∈ consts', st.regs p.1 = some (.value p.2)) :
    Straight l (Holds consts) (Holds consts') (fun σ => applyStores σ st.stores) where
  plain := SymState.run_plain hrun
  segment := by
    intro code b hcode vm hip hpre
    subst hip
    obtain ⟨vm', hr, hip', h'⟩ := (Agrees.ofConsts hpre).run hcode hrun
    exact ⟨_, vm', hr, hip', h'.holds hc, h'.signals⟩

/-- A block for each element of a list, one after the other. -/
theorem flatMap {α : Type} {as : List α} {block : α → List Instruction} {effect : α → SignalTable → SignalTable}
    (h : ∀ a ∈ as, Straight (block a) pre pre (effect a)) :
    Straight (as.flatMap block) pre pre (fun σ => as.foldl (fun τ a => effect a τ) σ) := by
  induction as with
  | nil => exact nil
  | cons a as ih =>
    rw [flatMap_cons]
    have hrest := ih fun a' ha' => h a' (mem_cons_of_mem _ ha')
    exact (h a (mem_cons_self ..)).append hrest

end Straight

theorem holds_nil (vm : Vm) : Holds [] vm := by
  intro r v hv
  cases hv

theorem Straight.forget {l : List Instruction} {pre post : Vm → Prop} {f : SignalTable → SignalTable}
    (h : Straight l pre post f) : Straight l pre (Holds []) f :=
  ⟨h.plain, fun code b hcode => (h.segment code b hcode).weaken fun vm _ => holds_nil vm⟩

/-! ## Scans -/

/-- A scan of the program on the table `σ` ends, with the table `σ'`. -/
def Scans (hp : HalProgram) (σ σ' : SignalTable) : Prop :=
  ∀ vm, ∃ vm', HaltsAt hp.instructions (scanStart vm σ) vm' ∧ vm'.signals = σ'

/-- The signal tables at the start and at the end of a scan. -/
structure ScanRecord where
  before : SignalTable
  after : SignalTable

theorem Scans.det {hp : HalProgram} {σ σ₁ σ₂ : SignalTable} (h₁ : Scans hp σ σ₁) (h₂ : Scans hp σ σ₂) : σ₁ = σ₂ := by
  obtain ⟨vm₁, hh₁, rfl⟩ := h₁ .new
  obtain ⟨vm₂, hh₂, rfl⟩ := h₂ .new
  rw [hh₁.det hh₂]

/-- A program that runs through to a `Halt`. -/
theorem Segment.scans {hp : HalProgram} {e : Nat} {post : Vm → Prop} {f : SignalTable → SignalTable}
    (h : Segment (hp.instructions.map Instruction.blind) 0 e (Holds []) post f)
    (hhalt : (hp.instructions.map Instruction.blind)[e]? = some .halt) (σ : SignalTable) : Scans hp σ (f σ) := by
  intro vm
  obtain ⟨n, last, hr, hip, _, hs⟩ := h (scanStart vm σ) rfl (holds_nil _)
  refine ⟨last.advanceIp, (haltsAt_blind _ _ _).1 ⟨n, last, hr, ?_⟩, hs⟩
  exact step_halt (by rw [hip]; exact hhalt)

/-- A straight program. -/
theorem Straight.scans {hp : HalProgram} {l : List Instruction} {post : Vm → Prop} {f : SignalTable → SignalTable}
    (h : Straight l (Holds []) post f) (hcode : hp.instructions.map Instruction.blind = l ++ [.halt]) (σ : SignalTable) :
    Scans hp σ (f σ) := by
  have hat : CodeAt (hp.instructions.map Instruction.blind) 0 (l ++ [.halt]) := by
    rw [hcode]
    exact .whole _
  exact (h.segment _ 0 hat.left).scans hat.right.head σ

/-! ## Loops without a way out -/

/-- The instruction at `i` leads on, to an index up to `last`. -/
def StaysBelow (code : List Instruction) (last i : Nat) : Prop :=
  ∃ inst, code[i]? = some inst ∧
    (inst.opcode.isPlain = true ∧ i < last ∨ ∃ target : UInt32, inst = .jump target ∧ target.toNat ≤ last)

/-- **A trap.** Where every instruction up to `last` leads to one up to `last`, no run ends. -/
theorem not_haltsAt_of_staysBelow {code : List Instruction} (last : Nat) (h : ∀ i ≤ last, StaysBelow code last i)
    {vm vm' : Vm} (hip : vm.ip ≤ last) : ¬ HaltsAt code vm vm' := by
  have hstep : ∀ v w, next code v = some w → v.ip ≤ last → w.ip ≤ last := by
    intro v w hnext hv
    obtain ⟨inst, hinst, ⟨hplain, hlt⟩ | ⟨target, rfl, htarget⟩⟩ := h v.ip hv
    · rw [next_plain hinst hplain, Option.map_eq_some_iff] at hnext
      obtain ⟨u, hexec, rfl⟩ := hnext
      rw [Vm.advanceIp_ip, (plain_of_execPlain hexec).ip]
      exact hlt
    · rw [next_jump hinst] at hnext
      cases hnext
      exact htarget
  rintro ⟨n, u, hrun, hhalt⟩
  have hu : u.ip ≤ last := hrun.invariant hstep hip
  obtain ⟨inst, hinst, ⟨hplain, _⟩ | ⟨target, rfl, _⟩⟩ := h u.ip hu
  · rw [step_plain hinst hplain, Option.map_eq_some_iff] at hhalt
    obtain ⟨w, _, heq⟩ := hhalt
    cases heq
  · have hcont := step_of_next (next_jump hinst)
    rw [hhalt] at hcont
    cases hcont

end Audesys.Hal
