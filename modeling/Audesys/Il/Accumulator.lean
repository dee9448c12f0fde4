import Audesys.Hal.Host
import Audesys.Il.Layout

/-!
# `Il.Accumulator` — straight-line programs and the accumulator machine

The reference machine of Instruction List has an accumulator and a table of signals, and every operand is the
current value of its signal. The compiled code keeps a copy of each operand in a register. `LD`, `LDN`, `AND`
and `ANDN` renew the copy first; the other operators do not, so they see the value of the last of these
statements, or `S32(0)` before the first. Where that is the current value, code and reference machine agree
(`straight_line_agrees`).
-/

namespace Audesys.Il

open Audesys.Hal Audesys.Lib

variable [Target]
variable {target : String → Option Nat} {s : ILStatement} {x : String}

/-! ## The reference machine -/

structure Accumulator where
  cr : HalValue
  signals : String → Option HalValue

namespace Accumulator

def init (table : String → Option HalValue) : Accumulator := ⟨.s32 0, table⟩

/-- The current value of a signal; an unset one is false. -/
def operand (σ : Accumulator) (x : String) : HalValue := (σ.signals x).getD (.bool false)

def combine (σ : Accumulator) (f : HalValue → HalValue → Option HalValue) (x : String) : Option Accumulator :=
  (f σ.cr (σ.operand x)).map fun v => { σ with cr := v }

/-- One statement; `none` where the arithmetic has no result, or the statement is not straight-line. -/
def step (σ : Accumulator) : ILStatement → Option Accumulator
  | .load x => some { σ with cr := σ.operand x }
  | .loadNot x => some { σ with cr := (σ.operand x).not }
  | .store x => some { σ with signals := fun y => if y = x then some σ.cr else σ.signals y }
  | .and x => σ.combine (fun a b => some (a.bitand b)) x
  | .andNot x => σ.combine (fun a b => some (a.bitand b.not)) x
  | .or x => σ.combine (fun a b => some (a.bitor b)) x
  | .orNot x => σ.combine (fun a b => some (a.bitor b.not)) x
  | .xor x => σ.combine (fun a b => some (a.bitxor b)) x
  | .add x => σ.combine HalValue.add x
  | .sub x => σ.combine HalValue.sub x
  | .mul x => σ.combine HalValue.mul x
  | .div x => σ.combine Exec.divOp x
  | .mod x => σ.combine Exec.modOp x
  | .not => some { σ with cr := σ.cr.not }
  | _ => none

def run (σ : Accumulator) : List ILStatement → Option Accumulator
  | [] => some σ
  | s :: rest => (σ.step s).bind fun σ' => σ'.run rest

end Accumulator

/-! ## The copies of the operands -/

namespace ILStatement

/-- `LD`, `LDN`, `ST`, the logic and the arithmetic. -/
def IsStraight : ILStatement → Prop
  | load _ | loadNot _ | store _ | and _ | andNot _ | or _ | orNot _ | xor _ | not | add _ | sub _ | mul _ | div _
  | mod _ => True
  | _ => False

/-- The operand that is loaded again. -/
def renews? : ILStatement → Option String
  | load x | loadNot x | and x | andNot x => some x
  | _ => none

/-- The operand that is not. -/
def reuses? : ILStatement → Option String
  | or x | orNot x | xor x | add x | sub x | mul x | div x | mod x => some x
  | _ => none

end ILStatement

/-- The copies after a statement. -/
def copiesAfter (copies : String → HalValue) (σ : Accumulator) (s : ILStatement) : String → HalValue :=
  match s.renews? with
  | some x => Function.update copies x (σ.operand x)
  | none => copies

/-- One statement that takes the operands it does not renew from the copies. -/
def Accumulator.stepStale (σ : Accumulator) (copies : String → HalValue) (s : ILStatement) : Option Accumulator :=
  match s.reuses? with
  | some _ => ((Accumulator.mk σ.cr fun x => some (copies x)).step s).map fun τ => { σ with cr := τ.cr }
  | none => σ.step s

/-- Where the copies are up to date, that is the statement on the signals. -/
theorem Accumulator.stepStale_eq {σ : Accumulator} {copies : String → HalValue}
    (h : ∀ x, s.reuses? = some x → copies x = σ.operand x) : σ.stepStale copies s = σ.step s := by
  cases s with
  | or x | orNot x | xor x | add x | sub x | mul x | div x | mod x =>
    have hcopy := h x rfl
    unfold Accumulator.stepStale
    simp only [ILStatement.reuses?, Accumulator.step, Accumulator.combine, Option.map_map]
    rw [← hcopy]
    rfl
  | _ => rfl

/-- Wherever a copy is used, it is the current value of the signal. -/
def UpToDate (copies : String → HalValue) (σ : Accumulator) : List ILStatement → Prop
  | [] => True
  | s :: rest =>
    (∀ x, s.reuses? = some x → copies x = σ.operand x) ∧
      ∀ σ', σ.step s = some σ' → UpToDate (copiesAfter copies σ s) σ' rest

/-- What the registers and signals of the machine hold. -/
structure Holds (regs : String → UInt8) (stmts : List ILStatement) (copies : String → HalValue) (σ : Accumulator)
    (vm : Vm) : Prop where
  cr : vm.get crReg = σ.cr
  signals : vm.signals = σ.signals
  copies : ∀ s ∈ stmts, ∀ x, s.regVar? = some x → vm.get (regs x) = copies x

section
variable {regs : String → UInt8} {stmts : List ILStatement} (hregs : Assigned regs stmts) {copies : String → HalValue}
  {σ : Accumulator} {vm : Vm}

omit [Target] in
theorem Assigned.lt (hregs : Assigned regs stmts) (hs : s ∈ stmts)
    (hx : s.regVar? = some x) : (regs x).toNat < registerCount := by
  have := hregs.le s hs x hx
  show _ < 16
  omega

omit [Target] in
/-- The registers of variables are none of the others. -/
theorem Assigned.ne (hregs : Assigned regs stmts) (hs : s ∈ stmts)
    (hx : s.regVar? = some x) {r : UInt8} (hr : 9 < r.toNat) : regs x ≠ r := by
  intro heq
  have := hregs.le s hs x hx
  rw [heq] at this
  omega

/-- Writing a copy. -/
theorem Holds.setCopy (hregs : Assigned regs stmts) (h : Holds regs stmts copies σ vm) (hs : s ∈ stmts)
    (hx : s.regVar? = some x) (v : HalValue) :
    Holds regs stmts (Function.update copies x v) σ (vm.set (regs x) v).advanceIp where
  cr := by
    rw [Vm.advanceIp_get, Vm.get_set_ne _ _ (hregs.ne hs hx (by decide)).symm]
    exact h.cr
  signals := by
    rw [Vm.advanceIp_signals, Vm.set_signals]
    exact h.signals
  copies s' hs' y hy := by
    rw [Vm.advanceIp_get]
    by_cases hxy : y = x
    · subst hxy
      rw [Function.update_self, Vm.get_set_self _ _ _ (hregs.lt hs hx)]
    · rw [Function.update_of_ne hxy, Vm.get_set_ne]
      · exact h.copies s' hs' y hy
      · intro heq
        exact hxy (hregs.inj s' hs' s hs y x hy hx heq)

/-- Writing another register. -/
theorem Holds.scratch (hregs : Assigned regs stmts) (h : Holds regs stmts copies σ vm) {r : UInt8} (hr : 9 < r.toNat)
    (hne : r ≠ crReg) (v : HalValue) : Holds regs stmts copies σ (vm.set r v).advanceIp where
  cr := by
    rw [Vm.advanceIp_get, Vm.get_set_ne _ _ hne.symm]
    exact h.cr
  signals := by
    rw [Vm.advanceIp_signals, Vm.set_signals]
    exact h.signals
  copies s hs x hx := by
    rw [Vm.advanceIp_get, Vm.get_set_ne _ _ (hregs.ne hs hx hr)]
    exact h.copies s hs x hx

/-- Writing the accumulator. -/
theorem Holds.setCr (hregs : Assigned regs stmts) (h : Holds regs stmts copies σ vm) (v : HalValue) :
    Holds regs stmts copies { σ with cr := v } (vm.set crReg v).advanceIp where
  cr := by
    rw [Vm.advanceIp_get, Vm.get_set_self _ _ _ (by decide)]
  signals := by
    rw [Vm.advanceIp_signals, Vm.set_signals]
    exact h.signals
  copies s hs x hx := by
    rw [Vm.advanceIp_get, Vm.get_set_ne _ _ (hregs.ne hs hx (by decide))]
    exact h.copies s hs x hx

end

/-! ## One statement -/

/-- The machine gets to `ip` and holds the result, or panics where there is none. -/
def Reaches (code : List Instruction) (regs : String → UInt8) (stmts : List ILStatement) (copies : String → HalValue)
    (vm : Vm) (ip : Nat) : Option Accumulator → Prop
  | some σ => ∃ n vm', RunN (next code) n vm vm' ∧ vm'.ip = ip ∧ Holds regs stmts copies σ vm'
  | none => ∃ n vm', RunN (next code) n vm vm' ∧ vm'.step code = none

section
variable {code : List Instruction} {regs : String → UInt8} {stmts : List ILStatement} {copies : String → HalValue}
  {σ : Accumulator} {vm vm₁ : Vm} {ip : Nat}

theorem Reaches.here (h : Holds regs stmts copies σ vm) (hip : vm.ip = ip) :
    Reaches code regs stmts copies vm ip (some σ) := ⟨0, vm, .refl vm, hip, h⟩

theorem Reaches.prepend {o : Option Accumulator} (hstep : next code vm = some vm₁)
    (h : Reaches code regs stmts copies vm₁ ip o) : Reaches code regs stmts copies vm ip o := by
  cases o with
  | some σ =>
    obtain ⟨n, vm', hrun, hrest⟩ := h
    exact ⟨n + 1, vm', .step hstep hrun, hrest⟩
  | none =>
    obtain ⟨n, vm', hrun, hrest⟩ := h
    exact ⟨n + 1, vm', .step hstep hrun, hrest⟩

/-- One run behind another. -/
theorem Reaches.bind {mid : Nat} {o : Option Accumulator} {k : Accumulator → Option Accumulator}
    (h : Reaches code regs stmts copies vm mid o)
    (hk : ∀ σ vm', o = some σ → vm'.ip = mid → Holds regs stmts copies σ vm' →
      ∃ copies', Reaches code regs stmts copies' vm' ip (k σ)) :
    ∃ copies', Reaches code regs stmts copies' vm ip (o.bind k) := by
  cases o with
  | none => exact ⟨copies, h⟩
  | some σ =>
    obtain ⟨n, vm', hn, hip, hholds⟩ := h
    obtain ⟨copies', hrest⟩ := hk σ vm' rfl hip hholds
    refine ⟨copies', ?_⟩
    rw [Option.bind_some]
    cases hresult : k σ with
    | none =>
      rw [hresult] at hrest
      obtain ⟨m, vm'', hm, hstuck⟩ := hrest
      exact ⟨n + m, vm'', hn.trans hm, hstuck⟩
    | some σ' =>
      rw [hresult] at hrest
      obtain ⟨m, vm'', hm, hend⟩ := hrest
      exact ⟨n + m, vm'', hn.trans hm, hend⟩

/-- An operator on the accumulator and a register with the value `v`. -/
theorem combine_run (hregs : Assigned regs stmts) (h : Holds regs stmts copies σ vm)
    {f : HalValue → HalValue → Option HalValue} {o : Opcode} {r : UInt8} {v : HalValue}
    (hcode : code[vm.ip]? = some (.arith o crReg r crReg)) (hop : o.isPlain)
    (hf : ∀ vm args, Exec.execPlain vm ⟨o, args⟩ = Exec.execArithBinop f vm args) (hr : r.toNat < registerCount)
    (hv : vm.get r = v) (hip : vm.ip + 1 = ip) :
    Reaches code regs stmts copies vm ip ((f σ.cr v).map fun v => { σ with cr := v }) := by
  rw [← hv, ← h.cr]
  cases hresult : f (vm.get crReg) (vm.get r) with
  | none => exact ⟨0, vm, .refl vm, step_arith_none hcode hop hf (by decide) hr hresult⟩
  | some w =>
    refine .prepend (next_arith hcode hop hf (by decide) hr (by decide) hresult) ?_
    refine .here (h.setCr hregs w) ?_
    show (vm.set crReg w).ip + 1 = ip
    rw [Vm.set_ip]
    exact hip

/-- The negated register of a variable, through the scratch register. -/
theorem negated_run (hregs : Assigned regs stmts) (h : Holds regs stmts copies σ vm) (hs : s ∈ stmts)
    (hx : s.regVar? = some x) {f : HalValue → HalValue → HalValue} {o : Opcode}
    (hcode : CodeAt code vm.ip [⟨.load, [.register temp1Reg, .register (regs x)]⟩,
      ⟨.not, [.register temp1Reg, .register temp1Reg]⟩, .arith o crReg temp1Reg crReg]) (hop : o.isPlain)
    (hf : ∀ vm args, Exec.execPlain vm ⟨o, args⟩ = Exec.execArithBinop (fun a b => some (f a b)) vm args)
    (hip : vm.ip + 3 = ip) :
    Reaches code regs stmts copies vm ip (some { σ with cr := f σ.cr (copies x).not }) := by
  have hcopy := h.copies s hs x hx
  refine .prepend (next_loadReg hcode.head (by decide) (hregs.lt hs hx)) ?_
  have h₁ := h.scratch hregs (r := temp1Reg) (by decide) (by decide) (vm.get (regs x))
  obtain ⟨vm₁, hvm₁⟩ : ∃ vm₁, vm₁ = (vm.set temp1Reg (vm.get (regs x))).advanceIp := ⟨_, rfl⟩
  rw [← hvm₁] at h₁ ⊢
  have hip₁ : vm₁.ip = vm.ip + 1 := by
    rw [hvm₁, Vm.advanceIp_ip, Vm.set_ip]
  have hget₁ : vm₁.get temp1Reg = copies x := by
    rw [hvm₁, Vm.advanceIp_get, Vm.get_set_self _ _ _ (by decide), hcopy]
  refine .prepend (next_notReg (hip₁ ▸ hcode.tail.head) (by decide) (by decide)) ?_
  have h₂ := h₁.scratch hregs (r := temp1Reg) (by decide) (by decide) (vm₁.get temp1Reg).not
  obtain ⟨vm₂, hvm₂⟩ : ∃ vm₂, vm₂ = (vm₁.set temp1Reg (vm₁.get temp1Reg).not).advanceIp := ⟨_, rfl⟩
  rw [← hvm₂] at h₂ ⊢
  have hip₂ : vm₂.ip = vm.ip + 2 := by
    rw [hvm₂, Vm.advanceIp_ip, Vm.set_ip, hip₁]
  have hget₂ : vm₂.get temp1Reg = (copies x).not := by
    rw [hvm₂, Vm.advanceIp_get, Vm.get_set_self _ _ _ (by decide), hget₁]
  exact combine_run hregs h₂ (hip₂ ▸ hcode.tail.tail.head) hop hf (by decide) hget₂ (by omega)

/-- Loading the signal of a variable renews its copy. -/
theorem renew_run (hregs : Assigned regs stmts) (h : Holds regs stmts copies σ vm) (hs : s ∈ stmts)
    (hx : s.regVar? = some x) (hcode : code[vm.ip]? = some ⟨.load, [.register (regs x), .signalName x]⟩) :
    ∃ vm', next code vm = some vm' ∧ vm'.ip = vm.ip + 1 ∧
      Holds regs stmts (Function.update copies x (σ.operand x)) σ vm' := by
  refine ⟨_, next_loadSignal hcode (hregs.lt hs hx), ?_, ?_⟩
  · rw [Vm.advanceIp_ip, Vm.set_ip]
  · rw [h.signals]
    exact h.setCopy hregs hs hx _

/-- **One statement** takes the operand that it does not renew from its copy. -/
theorem stmt_stale_run (hregs : Assigned regs stmts) (h : Holds regs stmts copies σ vm) (hs : s ∈ stmts)
    (hstraight : s.IsStraight)
    (hcode : CodeAt code vm.ip ((slots (operandReg regs s) vm.ip s).map (Slot.resolve retarget target))) :
    Reaches code regs stmts (copiesAfter copies σ s) vm (vm.ip + s.size) (σ.stepStale copies s) := by
  cases s with
  | load x =>
    obtain ⟨vm₁, hnext, hip₁, h₁⟩ := renew_run hregs h hs rfl hcode.head
    refine .prepend hnext (.prepend (next_loadReg (hip₁ ▸ hcode.tail.head) (by decide) (hregs.lt hs rfl)) ?_)
    rw [h₁.copies _ hs x rfl, Function.update_self]
    refine .here (h₁.setCr hregs _) ?_
    rw [Vm.advanceIp_ip, Vm.set_ip, hip₁]
    rfl
  | loadNot x =>
    obtain ⟨vm₁, hnext, hip₁, h₁⟩ := renew_run hregs h hs rfl hcode.head
    refine .prepend hnext (.prepend (next_loadReg (hip₁ ▸ hcode.tail.head) (by decide) (hregs.lt hs rfl)) ?_)
    rw [h₁.copies _ hs x rfl, Function.update_self]
    have h₂ := h₁.setCr hregs (σ.operand x)
    obtain ⟨vm₂, hvm₂⟩ : ∃ vm₂, vm₂ = (vm₁.set crReg (σ.operand x)).advanceIp := ⟨_, rfl⟩
    rw [← hvm₂] at h₂ ⊢
    have hip₂ : vm₂.ip = vm.ip + 2 := by
      rw [hvm₂, Vm.advanceIp_ip, Vm.set_ip, hip₁]
    refine .prepend (next_notReg (hip₂ ▸ hcode.tail.tail.head) (by decide) (by decide)) ?_
    rw [h₂.cr]
    refine .here (h₂.setCr hregs _) ?_
    rw [Vm.advanceIp_ip, Vm.set_ip, hip₂]
    rfl
  | store x =>
    refine .prepend (next_store hcode.head (by decide)) ?_
    refine .here ⟨h.cr, ?_, h.copies⟩ rfl
    rw [Vm.advanceIp_signals, Vm.writeSignal_signals, h.cr, h.signals]
  | and x =>
    obtain ⟨vm₁, hnext, hip₁, h₁⟩ := renew_run hregs h hs rfl hcode.head
    refine .prepend hnext ?_
    have hget : vm₁.get (regs x) = σ.operand x := by
      rw [h₁.copies _ hs x rfl, Function.update_self]
    refine combine_run hregs h₁ (o := .and) (hip₁ ▸ hcode.tail.head) rfl (fun _ _ => rfl) (hregs.lt hs rfl) hget ?_
    rw [hip₁]
    rfl
  | andNot x =>
    obtain ⟨vm₁, hnext, hip₁, h₁⟩ := renew_run hregs h hs rfl hcode.head
    refine .prepend hnext ?_
    have hrun := negated_run hregs h₁ hs rfl (hip₁ ▸ hcode.tail) (o := .and) rfl (fun _ _ => rfl)
      (show vm₁.ip + 3 = vm.ip + 4 by rw [hip₁])
    rw [Function.update_self] at hrun
    exact hrun
  | orNot x => exact negated_run hregs h hs rfl hcode (o := .or) rfl (fun _ _ => rfl) rfl
  -- `AND` alone reloads its operand: the other seven take the register as the last use left it.
  | or x | xor x | add x | sub x | mul x | div x | mod x =>
    have hrun := combine_run hregs h hcode.head rfl (fun _ _ => rfl) (hregs.lt hs rfl) (h.copies _ hs x rfl)
      (show vm.ip + 1 = vm.ip + 1 from rfl)
    unfold Accumulator.stepStale
    simp only [ILStatement.reuses?, Accumulator.step, Accumulator.combine, Option.map_map]
    exact hrun
  | not =>
    refine .prepend (next_notReg hcode.head (by decide) (by decide)) ?_
    rw [h.cr]
    refine .here (h.setCr hregs _) ?_
    rw [Vm.advanceIp_ip, Vm.set_ip]
    rfl
  | _ => exact hstraight.elim

/-- **One statement**, its operand up to date, does what the reference machine does. -/
theorem stmt_run (hregs : Assigned regs stmts) (h : Holds regs stmts copies σ vm) (hs : s ∈ stmts)
    (hstraight : s.IsStraight) (hcopy : ∀ x, s.reuses? = some x → copies x = σ.operand x)
    (hcode : CodeAt code vm.ip ((slots (operandReg regs s) vm.ip s).map (Slot.resolve retarget target))) :
    Reaches code regs stmts (copiesAfter copies σ s) vm (vm.ip + s.size) (σ.step s) := by
  rw [← Accumulator.stepStale_eq hcopy]
  exact stmt_stale_run hregs h hs hstraight hcode

/-- The code of the first statement, and of those behind it. -/
theorem layout_cons {rest : List ILStatement}
    (hcode : CodeAt code vm.ip ((layout regs vm.ip (s :: rest)).map (Slot.resolve retarget target))) :
    CodeAt code vm.ip ((slots (operandReg regs s) vm.ip s).map (Slot.resolve retarget target)) ∧
      CodeAt code (vm.ip + s.size) ((layout regs (vm.ip + s.size) rest).map (Slot.resolve retarget target)) := by
  have hlayout : layout regs vm.ip (s :: rest) = slots (operandReg regs s) vm.ip s ++
    layout regs (vm.ip + s.size) rest := rfl
  rw [hlayout, List.map_append] at hcode
  refine ⟨hcode.left, ?_⟩
  have hright := hcode.right
  rw [List.length_map, length_slots] at hright
  exact hright

omit [Target] in
theorem totalSize_cons (s : ILStatement) (rest : List ILStatement) : totalSize (s :: rest) = s.size + totalSize rest := rfl

/-- **All statements.** -/
theorem stmts_run (hregs : Assigned regs stmts) (rest : List ILStatement)
    (hrest : ∀ s ∈ rest, s ∈ stmts ∧ s.IsStraight) (h : Holds regs stmts copies σ vm) (hup : UpToDate copies σ rest)
    (hcode : CodeAt code vm.ip ((layout regs vm.ip rest).map (Slot.resolve retarget target))) :
    ∃ copies', Reaches code regs stmts copies' vm (vm.ip + totalSize rest) (σ.run rest) := by
  induction rest generalizing copies σ vm with
  | nil => exact ⟨copies, .here h rfl⟩
  | cons s rest ih =>
    obtain ⟨hhead, htail⟩ := layout_cons hcode
    obtain ⟨hs, hstraight⟩ := hrest s List.mem_cons_self
    refine (stmt_run hregs h hs hstraight hup.1 hhead).bind ?_
    intro σ' vm' hstep hip h'
    rw [← hip] at htail
    obtain ⟨copies', hreach⟩ := ih (fun s' hs' => hrest s' (List.mem_cons_of_mem _ hs')) h' (hup.2 σ' hstep) htail
    refine ⟨copies', ?_⟩
    rw [totalSize_cons, ← Nat.add_assoc, ← hip]
    exact hreach

/-! ## Latches -/

omit [Target] in
/-- `S` and `R`. -/
def ILStatement.isLatch : ILStatement → Bool
  | set _ | reset _ => true
  | _ => false

/-- `S` and `R` write the copy of their variable, and nothing else. -/
theorem latch_run (hregs : Assigned regs stmts) (h : Holds regs stmts copies σ vm) (hs : s ∈ stmts)
    (hlatch : s.isLatch = true)
    (hcode : CodeAt code vm.ip ((slots (operandReg regs s) vm.ip s).map (Slot.resolve retarget target))) :
    ∃ copies', Reaches code regs stmts copies' vm (vm.ip + s.size) (some σ) := by
  cases s with
  | set x =>
    refine ⟨_, .prepend (next_loadImm hcode.head (hregs.lt hs rfl)) (.here (h.setCopy hregs hs rfl _) ?_)⟩
    rw [Vm.advanceIp_ip, Vm.set_ip]
    rfl
  | reset x =>
    refine ⟨_, .prepend (next_loadImm hcode.head (hregs.lt hs rfl)) (.here (h.setCopy hregs hs rfl _) ?_)⟩
    rw [Vm.advanceIp_ip, Vm.set_ip]
    rfl
  | _ => cases hlatch

/-- **Statements that renew their operands, and latches**: the code does what the reference machine does without
the latches. -/
theorem latched_run (hregs : Assigned regs stmts) (rest : List ILStatement)
    (hrest : ∀ s ∈ rest, s ∈ stmts ∧ (s.isLatch = true ∨ s.IsStraight ∧ s.reuses? = none))
    (h : Holds regs stmts copies σ vm)
    (hcode : CodeAt code vm.ip ((layout regs vm.ip rest).map (Slot.resolve retarget target))) :
    ∃ copies', Reaches code regs stmts copies' vm (vm.ip + totalSize rest)
      (σ.run (rest.filter fun s => !s.isLatch)) := by
  induction rest generalizing copies σ vm with
  | nil => exact ⟨copies, .here h rfl⟩
  | cons s rest ih =>
    obtain ⟨hhead, htail⟩ := layout_cons hcode
    obtain ⟨hs, hkind⟩ := hrest s List.mem_cons_self
    have hrest' := fun s' hs' => hrest s' (List.mem_cons_of_mem _ hs')
    have hbehind : ∀ σ' vm' copies₁, vm'.ip = vm.ip + s.size → Holds regs stmts copies₁ σ' vm' →
        ∃ copies', Reaches code regs stmts copies' vm' (vm.ip + totalSize (s :: rest))
          (σ'.run (rest.filter fun s => !s.isLatch)) := by
      intro σ' vm' copies₁ hip h'
      rw [totalSize_cons, ← Nat.add_assoc, ← hip]
      rw [← hip] at htail
      exact ih hrest' h' htail
    rcases hkind with hlatch | ⟨hstraight, hrenews⟩
    · rw [List.filter_cons, hlatch]
      obtain ⟨copies₁, hreach⟩ := latch_run hregs h hs hlatch hhead
      exact hreach.bind (k := fun σ' => σ'.run (rest.filter fun s => !s.isLatch))
        fun σ' vm' _ hip h' => hbehind σ' vm' copies₁ hip h'
    · have hnot : s.isLatch = false := by
        cases s <;> first | rfl | exact hstraight.elim
      rw [List.filter_cons, hnot]
      refine (stmt_run hregs h hs hstraight ?_ hhead).bind fun σ' vm' _ hip h' => hbehind σ' vm' _ hip h'
      intro x hx
      rw [hrenews] at hx
      cases hx

end

/-! ## Programs -/

/-- A machine that is reset, with a table of signals. -/
def started (vm : Vm) (table : String → Option HalValue) : Vm := { vm.reset with signals := table }

/-- The executor, started on `vm`, runs to a halt in `vm'`. -/
def RunsTo (hp : HalProgram) (vm vm' : Vm) : Prop :=
  ∃ fuel steps, (Executor.at hp vm).runToHalt fuel 0 = some (Executor.at hp vm', steps)

theorem program_codeAt (regs : String → UInt8) (stmts : List ILStatement) :
    (linked regs stmts)[0]? = some (.loadImm trueReg (.bool true)) ∧
      CodeAt (linked regs stmts) 1 ((layout regs 1 stmts).map
        (Slot.resolve retarget fun name => some (labelTarget stmts name)) ++ [.halt]) := by
  refine ⟨rfl, [.loadImm trueReg (.bool true)], [], ?_, rfl⟩
  show _ :: List.map _ (layout regs 1 stmts ++ [_]) = _ :: (_ ++ [])
  rw [List.map_append, List.append_nil]
  rfl

/-- The first instruction leaves the copies `S32(0)` and the accumulator as the reference machine has it. -/
theorem first_run {regs : String → UInt8} {stmts : List ILStatement} (hregs : Assigned regs stmts) (vm : Vm)
    (table : String → Option HalValue) :
    ∃ vm₁, next (linked regs stmts) (started vm table) = some vm₁ ∧ vm₁.ip = 1 ∧
      Holds regs stmts (fun _ => .s32 0) (.init table) vm₁ ∧ vm₁.get trueReg = .bool true := by
  have hzero : ∀ r, (started vm table).get r = .s32 0 := fun r => vm.reset_get r
  refine ⟨_, next_loadImm (program_codeAt regs stmts).1 (by decide), ?_, ⟨?_, ?_, ?_⟩, ?_⟩
  · rw [Vm.advanceIp_ip, Vm.set_ip]
    rfl
  · rw [Vm.advanceIp_get, Vm.get_set_ne _ _ (by decide), hzero]
    rfl
  · rw [Vm.advanceIp_signals, Vm.set_signals]
    rfl
  · intro s hs x hx
    rw [Vm.advanceIp_get, Vm.get_set_ne _ _ (hregs.ne hs hx (by decide)), hzero]
  · rw [Vm.advanceIp_get, Vm.get_set_self _ _ _ (by decide)]

/-- A run through all statements ends at the `Halt`. -/
theorem halts_of_reaches {regs : String → UInt8} {stmts : List ILStatement} {copies : String → HalValue} {vm vm₁ : Vm}
    (hnext : next (linked regs stmts) vm = some vm₁) (hip : vm₁.ip = 1) {σ : Accumulator}
    (h : Reaches (linked regs stmts) regs stmts copies vm₁ (vm₁.ip + totalSize stmts) (some σ)) :
    ∃ vm', HaltsAt (linked regs stmts) vm vm' ∧ vm'.signals = σ.signals := by
  obtain ⟨n, last, hn, hlast, hend⟩ := h
  have hat : (linked regs stmts)[last.ip]? = some .halt := by
    have hhalt := (program_codeAt regs stmts).2.right.head
    rw [List.length_map, length_layout] at hhalt
    rw [hlast, hip]
    exact hhalt
  exact ⟨last.advanceIp, ⟨n + 1, last, .step hnext hn, step_halt hat⟩, hend.signals⟩

/-- From the table, the compiled code runs to a halt with exactly the signals of the reference machine, and not to a
halt where that has no result. -/
def Agrees (stmts : List ILStatement) (table : String → Option HalValue) : Prop :=
  ∃ code, compileAst stmts = some code ∧ ∀ (name : String) (vm : Vm) (table' : String → Option HalValue),
    (∃ vm', RunsTo (.new name code) (started vm table) vm' ∧ vm'.signals = table') ↔
      ∃ σ, (Accumulator.init table).run stmts = some σ ∧ σ.signals = table'

/-- **Straight-line programs** over at most ten variables agree with the reference machine if every copy that is
used is up to date. -/
theorem straight_line_agrees {stmts : List ILStatement} (hvars : AtMostTen stmts) (hstraight : ∀ s ∈ stmts, s.IsStraight)
    {table : String → Option HalValue} (hup : UpToDate (fun _ => .s32 0) (.init table) stmts) : Agrees stmts table := by
  obtain ⟨regs, hregs, hcompile⟩ := compileAst_eq hvars
  refine ⟨linked regs stmts, hcompile, ?_⟩
  intro name vm table'
  obtain ⟨hfirst, hcode⟩ := program_codeAt regs stmts
  obtain ⟨vm₁, hnext, hip₁, hholds, _⟩ := first_run hregs vm table
  obtain ⟨copies, hrun⟩ := stmts_run hregs stmts (fun s hs => ⟨hs, hstraight s hs⟩) hholds hup
    (hip₁.symm ▸ hcode.left)
  have hhalts : ∀ vm', RunsTo (.new name (linked regs stmts)) (started vm table) vm' ↔
      HaltsAt (linked regs stmts) (started vm table) vm' := fun vm' => runToHalt_iff _ _ _
  simp only [hhalts]
  cases hresult : (Accumulator.init table).run stmts with
  | none =>
    rw [hresult] at hrun
    obtain ⟨n, last, hn, hstuck⟩ := hrun
    constructor
    · rintro ⟨vm', hhalt, _⟩
      exact absurd hhalt (not_haltsAt (.step hnext hn) hstuck)
    · rintro ⟨σ, hσ, _⟩
      cases hσ
  | some σ =>
    rw [hresult] at hrun
    obtain ⟨last, hhalt, hsignals⟩ := halts_of_reaches hnext hip₁ hrun
    constructor
    · rintro ⟨vm', hhalt', rfl⟩
      rw [hhalt'.det hhalt]
      exact ⟨σ, rfl, hsignals.symm⟩
    · rintro ⟨σ', hσ', rfl⟩
      cases hσ'
      exact ⟨last, hhalt, hsignals⟩

end Audesys.Il

/-! ## Two programs -/

namespace Audesys.Il

open Audesys.Hal Audesys.Lib

local instance releaseAccumulator : Target := host false

/-- `X1 = 1`, `X2 = 2`. -/
def oneTwo : String → Option HalValue := fun x =>
  if x = "X1" then some (.s32 1) else if x = "X2" then some (.s32 2) else none

/-- `LD X1`, `ADD X2`, `ST Y1`. -/
def addProgram : List ILStatement := [.load "X1", .add "X2", .store "Y1"]

theorem addProgram_disagrees : ¬ Agrees addProgram oneTwo := by
  rintro ⟨code, hcompile, hagree⟩
  cases hcompile
  obtain ⟨σ, hσ, hsignals⟩ := (hagree "add" Vm.new _).1 ⟨_, ⟨6, _, rfl⟩, rfl⟩
  cases hσ
  have hy := congrFun hsignals "Y1"
  exact absurd hy (by decide)

/-- `LD X2` in front renews the copy. -/
def renewedProgram : List ILStatement := [.load "X2", .load "X1", .add "X2", .store "Y1"]

theorem renewedProgram_agrees : Agrees renewedProgram oneTwo := by
  refine straight_line_agrees ⟨["X1", "X2", "Y1"], by decide, ?_⟩ ?_ ?_
  · simp [renewedProgram, ILStatement.var?]
  · simp [renewedProgram, ILStatement.IsStraight]
  · refine ⟨?_, ?_⟩
    · intro x hx
      cases hx
    · rintro _ ⟨⟩
      refine ⟨?_, ?_⟩
      · intro x hx
        cases hx
      · rintro _ ⟨⟩
        refine ⟨?_, ?_⟩
        · rintro x ⟨⟩
          rfl
        · rintro _ ⟨⟩
          refine ⟨?_, fun _ _ => trivial⟩
          intro x hx
          cases hx

end Audesys.Il
