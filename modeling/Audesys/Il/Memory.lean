import Audesys.Il.Control

/-!
# `Il.Memory` — blocks of statements, with stale copies and false comparisons

What the code of a statement does to the accumulator, the signals and the copies of the operands (`Memory.step`), with
nothing assumed about them. A copy may be stale; and a comparison that is false jumps one instruction too far, which
skips the statement behind it. `block_run` puts the statements of a block together, in which a comparison only stands in
front of an `ST`.
-/

namespace Audesys.Il

open Audesys.Hal Audesys.Lib

variable [Target]
variable {l : List ILStatement} {s : ILStatement}
variable {op : CompareOp} {name : String}

/-! ## The reference machine with copies -/

structure Memory where
  acc : Accumulator
  copies : String → HalValue

namespace Memory

def init (table : String → Option HalValue) : Memory := ⟨.init table, fun _ => .s32 0⟩

/-- The comparison of the accumulator with the copy of the operand. -/
def compare (m : Memory) (op : CompareOp) (x : String) : Bool := op.holds m.acc.cr (m.copies x)

/-- One statement, and whether the one behind it is skipped. -/
def step (m : Memory) : ILStatement → Option (Memory × Bool)
  | .cmp op x => some ({ m with acc := { m.acc with cr := .bool (m.compare op x) } }, !m.compare op x)
  | s => (m.acc.stepStale m.copies s).map fun σ => (⟨σ, copiesAfter m.copies m.acc s⟩, false)

theorem step_cmp {m : Memory} {x : String} {b : Bool} (hb : m.compare op x = b) :
    m.step (.cmp op x) = some ({ m with acc := { m.acc with cr := .bool b } }, !b) := by
  subst hb
  rfl

theorem step_straight {m : Memory} (hs : s.IsStraight) :
    m.step s = (m.acc.stepStale m.copies s).map fun σ => (⟨σ, copiesAfter m.copies m.acc s⟩, false) := by
  cases s <;> first | rfl | exact hs.elim

/-- Statements, the first of them skipped or not; `none` where the arithmetic has no result. -/
def run : Bool → Memory → List ILStatement → Option Memory
  | _, m, [] => some m
  | true, m, _ :: rest => run false m rest
  | false, m, s :: rest => (m.step s).bind fun p => run p.2 p.1 rest

end Memory

/-! ## The register of `TRUE` -/

/-- An instruction that leaves `TRUE` in its register. -/
def KeepsTrue (inst : Instruction) : Prop :=
  ∀ (code : List Instruction) (vm vm' : Vm), code[vm.ip]? = some inst → next code vm = some vm' →
    vm.get trueReg = .bool true → vm'.get trueReg = .bool true

theorem Quiet.keepsTrue {inst : Instruction} (h : Quiet inst) : KeepsTrue inst := by
  intro code vm vm' hinst hnext htrue
  rw [(h.step hinst hnext).2, htrue]

theorem keepsTrue_cmp (op : CompareOp) {r : UInt8} (hr : r.toNat < registerCount) :
    KeepsTrue (.cmp op.opcode crReg r) := by
  intro code vm vm' hinst hnext htrue
  rw [op.next_cmp hinst (by decide) hr, Option.some.injEq] at hnext
  rw [← hnext]
  exact htrue

theorem keepsTrue_jump (target : UInt32) : KeepsTrue (.jump target) := by
  intro code vm vm' hinst hnext htrue
  rw [next_jump hinst, Option.some.injEq] at hnext
  rw [← hnext]
  exact htrue

theorem keepsTrue_jumpIf (target : UInt32) : KeepsTrue (.jumpIf target) := by
  intro code vm vm' hinst hnext htrue
  rw [next_jumpIf hinst, Option.some.injEq] at hnext
  rw [← hnext]
  split
  · exact htrue
  · exact htrue

theorem slots_keepTrue (hret : s ≠ .ret) (hcall : ∀ fb, s ≠ .call fb) {r : UInt8} (hr : r.toNat ≤ 9)
    (ip : Nat) (target : String → Nat) :
    ∀ inst ∈ (slots r ip s).map (Slot.resolve retarget fun name => some (target name)), KeepsTrue inst := by
  have hr' : r.toNat < 15 := by omega
  have hcr : crReg.toNat < 15 := by decide
  cases s with
  | cmp op x =>
    simpa [slots, Slot.resolve] using
      ⟨keepsTrue_cmp op (lt_registerCount hr'), keepsTrue_jumpIf _, (Quiet.loadImm hcr).keepsTrue, keepsTrue_jump _,
        (Quiet.loadImm hcr).keepsTrue⟩
  | jump label =>
    intro inst hinst
    rw [List.mem_singleton.1 hinst]
    exact keepsTrue_jump _
  | jumpIf label =>
    simpa [slots, Slot.resolve] using
      ⟨keepsTrue_cmp .eq (by decide), keepsTrue_jumpIf (UInt32.ofNat (target label))⟩
  | jumpIfNot label =>
    simpa [slots, Slot.resolve] using
      ⟨keepsTrue_cmp .ne (by decide), keepsTrue_jumpIf (UInt32.ofNat (target label))⟩
  | ret => exact absurd rfl hret
  | call fb => exact absurd rfl (hcall fb)
  | _ =>
    intro inst hinst
    refine (slots_quiet ?_ hr ip _ inst hinst).keepsTrue
    exact trivial

theorem mem_layout {regs : String → UInt8} {ip : Nat} {target : String → Option Nat}
    {inst : Instruction} (h : inst ∈ (layout regs ip l).map (Slot.resolve retarget target)) :
    ∃ s ∈ l, ∃ ip', inst ∈ (slots (operandReg regs s) ip' s).map (Slot.resolve retarget target) := by
  induction l generalizing ip with
  | nil => cases h
  | cons s rest ih =>
    have hlayout : layout regs ip (s :: rest) = slots (operandReg regs s) ip s ++ layout regs (ip + s.size) rest := rfl
    rw [hlayout, List.map_append] at h
    rcases List.mem_append.1 h with hhead | htail
    · exact ⟨s, List.mem_cons_self, ip, hhead⟩
    · obtain ⟨s', hs', hrest⟩ := ih htail
      exact ⟨s', List.mem_cons_of_mem _ hs', hrest⟩

/-- Once it is there, `TRUE` stays in its register. -/
theorem next_true {regs : String → UInt8} {stmts : List ILStatement} (hregs : Assigned regs stmts) (hcalls : NoCalls stmts)
    {vm vm' : Vm} (hnext : next (linked regs stmts) vm = some vm') (htrue : vm.get trueReg = .bool true) :
    vm'.get trueReg = .bool true := by
  cases hinst : (linked regs stmts)[vm.ip]? with
  | none =>
    unfold next Vm.step at hnext
    rw [hinst] at hnext
    cases hnext
  | some inst =>
    have hmem : inst ∈ .loadImm trueReg (.bool true) :: ((layout regs 1 stmts).map
        (Slot.resolve retarget fun name => some (labelTarget stmts name)) ++ [.halt]) := by
      have hin := List.mem_of_getElem? hinst
      unfold linked program at hin
      rw [List.map_cons, List.map_append] at hin
      exact hin
    rcases List.mem_cons.1 hmem with rfl | hmem
    · rw [next_loadImm hinst (by decide), Option.some.injEq] at hnext
      rw [← hnext, Vm.advanceIp_get, Vm.get_set_self _ _ _ (by decide)]
    · rcases List.mem_append.1 hmem with hbody | hhalt
      · obtain ⟨s, hs, ip, hslot⟩ := mem_layout hbody
        obtain ⟨i, hi⟩ := List.getElem?_of_mem hs
        exact slots_keepTrue (hcalls s hs).1 (hcalls s hs).2 (operandReg_le hregs hi) ip _ inst hslot _ vm vm' hinst
          hnext htrue
      · rw [List.mem_singleton.1 hhalt] at hinst
        rw [next_halt hinst] at hnext
        cases hnext

/-! ## One statement -/

/-- In front of statement `i`; or one instruction further, behind a comparison that was false. -/
structure InFront (regs : String → UInt8) (stmts : List ILStatement) (i : Nat) (skip : Bool) (m : Memory) (vm : Vm) :
    Prop where
  holds : Holds regs stmts m.copies m.acc vm
  true_ : vm.get trueReg = .bool true
  ip : vm.ip = start stmts i + skip.toNat
  skipped : skip = true → vm.flagsZero = false ∧ m.acc.cr = .bool false

/-- The machine gets in front of statement `i`, or panics where there is no result. -/
def Comes (regs : String → UInt8) (stmts : List ILStatement) (vm : Vm) (i : Nat) : Option (Memory × Bool) → Prop
  | some (m, skip) => ∃ n vm', RunN (next (linked regs stmts)) n vm vm' ∧ InFront regs stmts i skip m vm'
  | none => ∃ n vm', RunN (next (linked regs stmts)) n vm vm' ∧ vm'.step (linked regs stmts) = none

section
variable {regs : String → UInt8} {stmts : List ILStatement} {vm vm' : Vm} {i : Nat} {m : Memory}

theorem Holds.congr {copies : String → HalValue} {σ : Accumulator} (h : Holds regs stmts copies σ vm)
    (hget : ∀ r, vm'.get r = vm.get r) (hsignals : vm'.signals = vm.signals) : Holds regs stmts copies σ vm' :=
  ⟨(hget _).trans h.cr, hsignals.trans h.signals, fun s hs x hx => (hget _).trans (h.copies s hs x hx)⟩

theorem Comes.prepend {n : Nat} {o : Option (Memory × Bool)} (hrun : RunN (next (linked regs stmts)) n vm vm')
    (h : Comes regs stmts vm' i o) : Comes regs stmts vm i o := by
  cases o with
  | none =>
    obtain ⟨k, last, hk, hstuck⟩ := h
    exact ⟨n + k, last, hrun.trans hk, hstuck⟩
  | some p =>
    obtain ⟨k, last, hk, hend⟩ := h
    exact ⟨n + k, last, hrun.trans hk, hend⟩

/-- One run behind another. -/
theorem Comes.bind {j : Nat} {o : Option (Memory × Bool)} {k : Memory × Bool → Option (Memory × Bool)}
    (h : Comes regs stmts vm i o)
    (hk : ∀ p vm', o = some p → InFront regs stmts i p.2 p.1 vm' → Comes regs stmts vm' j (k p)) :
    Comes regs stmts vm j (o.bind k) := by
  cases o with
  | none => exact h
  | some p =>
    obtain ⟨n, vm', hrun, hfront⟩ := h
    exact (hk p vm' rfl hfront).prepend hrun

/-- A statement that is straight-line. -/
theorem straight_run (hregs : Assigned regs stmts) (hcalls : NoCalls stmts) (hs : stmts[i]? = some s)
    (hstraight : s.IsStraight) (h : InFront regs stmts i false m vm) : Comes regs stmts vm (i + 1) (m.step s) := by
  have hip : vm.ip = start stmts i := h.ip
  have hrun := stmt_stale_run hregs h.holds (List.mem_of_getElem? hs) hstraight (hip.symm ▸ stmt_codeAt regs hs)
  rw [Memory.step_straight hstraight]
  rw [hip, ← start_succ hs] at hrun
  cases hσ : m.acc.stepStale m.copies s with
  | none =>
    rw [hσ] at hrun
    exact hrun
  | some σ =>
    rw [hσ] at hrun
    obtain ⟨n, vm', hn, hip', hholds⟩ := hrun
    have htrue : vm'.get trueReg = .bool true :=
      hn.invariant (fun _ _ hnext htrue => next_true hregs hcalls hnext htrue) h.true_
    exact ⟨n, vm', hn, hholds, htrue, hip', fun hskip => by cases hskip⟩

/-- The first instruction of a comparison. -/
theorem flag_run (hregs : Assigned regs stmts) (hcalls : NoCalls stmts) {x : String}
    (hs : stmts[i]? = some (.cmp op x)) (h : InFront regs stmts i false m vm) :
    ∃ u, next (linked regs stmts) vm = some u ∧ u.ip = start stmts i + 1 ∧ u.flagsZero = m.compare op x ∧
      Holds regs stmts m.copies m.acc u ∧ u.get trueReg = .bool true := by
  have hreg : (operandReg regs (.cmp op x)).toNat < registerCount :=
    lt_registerCount (Nat.lt_of_le_of_lt (operandReg_le hregs hs) (by decide : 9 < 15))
  have hip : vm.ip = start stmts i := h.ip
  have hinst : (linked regs stmts)[vm.ip]? = some (.cmp op.opcode crReg (operandReg regs (.cmp op x))) := by
    rw [hip]
    exact (stmt_codeAt regs hs).head
  have hcopy : vm.get (operandReg regs (.cmp op x)) = m.copies x :=
    h.holds.copies _ (List.mem_of_getElem? hs) x rfl
  have hnext := op.next_cmp hinst (by decide) hreg
  rw [h.holds.cr, hcopy] at hnext
  refine ⟨_, hnext, ?_, rfl, h.holds.congr (fun _ => rfl) rfl, next_true hregs hcalls hnext h.true_⟩
  rw [← hip]
  rfl

/-- **A comparison** leaves its result in the accumulator; if that is false, it jumps one instruction too far. -/
theorem compare_run (hregs : Assigned regs stmts) (hcalls : NoCalls stmts) {x : String}
    (hs : stmts[i]? = some (.cmp op x)) (hbound : start stmts (i + 1) + 1 < 2 ^ 32)
    (h : InFront regs stmts i false m vm) : Comes regs stmts vm (i + 1) (m.step (.cmp op x)) := by
  have hcode := stmt_codeAt regs hs
  have hsucc : start stmts (i + 1) = start stmts i + 5 := start_succ hs
  obtain ⟨u₁, hnext₀, hip₁, hflag₁, hholds₁, htrue₁⟩ := flag_run hregs hcalls hs h
  have hinst₁ : (linked regs stmts)[u₁.ip]? = some (.jumpIf (UInt32.ofNat (start stmts i + 4))) := by
    rw [hip₁]
    exact hcode.tail.head
  cases hb : m.compare op x with
  | true =>
    rw [Memory.step_cmp hb]
    have hnext₁ := next_jumpIf_taken hinst₁ (hflag₁.trans hb)
    obtain ⟨u₂, hu₂⟩ : ∃ u₂, u₂ = u₁.setIp (UInt32.ofNat (start stmts i + 4)).toNat := ⟨_, rfl⟩
    rw [← hu₂] at hnext₁
    have hip₂ : u₂.ip = start stmts i + 4 := by
      rw [hu₂]
      exact UInt32.toNat_ofNat_of_lt' (show start stmts i + 4 < 2 ^ 32 by omega)
    have hholds₂ : Holds regs stmts m.copies m.acc u₂ := by
      rw [hu₂]
      exact hholds₁.congr (fun _ => rfl) rfl
    have htrue₂ := next_true hregs hcalls hnext₁ htrue₁
    have hinst₂ : (linked regs stmts)[u₂.ip]? = some (.loadImm crReg (.bool true)) := by
      rw [hip₂]
      exact hcode.tail.tail.tail.tail.head
    have hnext₂ := next_loadImm hinst₂ (by decide)
    refine ⟨3, _, .step hnext₀ (.step hnext₁ (.single hnext₂)), hholds₂.setCr hregs _,
      next_true hregs hcalls hnext₂ htrue₂, ?_, fun hskip => by cases hskip⟩
    rw [Vm.advanceIp_ip, Vm.set_ip, hip₂, hsucc]
    rfl
  | false =>
    rw [Memory.step_cmp hb]
    have hnext₁ := next_jumpIf_through hinst₁ (hflag₁.trans hb)
    have hip₂ : u₁.advanceIp.ip = start stmts i + 2 := by
      rw [Vm.advanceIp_ip, hip₁]
    have hholds₂ : Holds regs stmts m.copies m.acc u₁.advanceIp := hholds₁.congr (fun _ => rfl) rfl
    have htrue₂ := next_true hregs hcalls hnext₁ htrue₁
    have hinst₂ : (linked regs stmts)[u₁.advanceIp.ip]? = some (.loadImm crReg (.bool false)) := by
      rw [hip₂]
      exact hcode.tail.tail.head
    have hnext₂ := next_loadImm hinst₂ (by decide)
    obtain ⟨u₃, hu₃⟩ : ∃ u₃, u₃ = (u₁.advanceIp.set crReg (.bool false)).advanceIp := ⟨_, rfl⟩
    have hholds₃ := hholds₂.setCr hregs (.bool false)
    rw [← hu₃] at hnext₂ hholds₃
    have hip₃ : u₃.ip = start stmts i + 3 := by
      rw [hu₃, Vm.advanceIp_ip, Vm.set_ip, hip₂]
    have hflag₃ : u₃.flagsZero = false := by
      rw [hu₃]
      exact hflag₁.trans hb
    have htrue₃ := next_true hregs hcalls hnext₂ htrue₂
    -- past the other load, and past the first instruction of the next statement
    have hinst₃ : (linked regs stmts)[u₃.ip]? = some (.jump (UInt32.ofNat (start stmts i + 6))) := by
      rw [hip₃]
      exact hcode.tail.tail.tail.head
    have hnext₃ := next_jump hinst₃
    refine ⟨4, _, .step hnext₀ (.step hnext₁ (.step hnext₂ (.single hnext₃))), hholds₃.congr (fun _ => rfl) rfl,
      next_true hregs hcalls hnext₃ htrue₃, ?_, fun _ => ⟨hflag₃, rfl⟩⟩
    rw [Vm.setIp_ip, UInt32.toNat_ofNat_of_lt' (show start stmts i + 6 < 2 ^ 32 by omega), hsucc]
    rfl

/-- A statement of one instruction is skipped. -/
theorem InFront.skip (hs : stmts[i]? = some s) (hsize : s.size = 1) (h : InFront regs stmts i true m vm) :
    InFront regs stmts (i + 1) false m vm := by
  refine ⟨h.holds, h.true_, ?_, fun hskip => by cases hskip⟩
  rw [h.ip, start_succ hs, hsize]
  rfl

/-! ## Blocks -/

/-- Straight-line statements, and comparisons in front of an `ST`. -/
inductive Block : List ILStatement → Prop
  | nil : Block []
  | straight {s : ILStatement} {rest : List ILStatement} : s.IsStraight → Block rest → Block (s :: rest)
  | compare {op : CompareOp} {x y : String} {rest : List ILStatement} : Block rest → Block (.cmp op x :: .store y :: rest)

section
omit [Target]

theorem Block.append {l l' : List ILStatement} (h : Block l) (h' : Block l') : Block (l ++ l') := by
  induction h with
  | nil => exact h'
  | straight hs _ ih => exact .straight hs ih
  | compare _ ih => exact .compare ih

theorem Block.flatMap {α : Type} {f : α → List ILStatement} {l : List α} (h : ∀ a ∈ l, Block (f a)) :
    Block (l.flatMap f) := by
  induction l with
  | nil => exact .nil
  | cons a l ih =>
    rw [List.flatMap_cons]
    exact (h a List.mem_cons_self).append (ih fun b hb => h b (List.mem_cons_of_mem _ hb))

/-- The statements of a block have no label and no jump. -/
theorem Block.mem (h : Block l) : ∀ s ∈ l, s.IsStraight ∨ ∃ op x, s = .cmp op x := by
  induction h with
  | nil => exact fun s hs => absurd hs List.not_mem_nil
  | straight hs _ ih =>
    intro s hmem
    rcases List.mem_cons.1 hmem with rfl | hmem
    · exact .inl hs
    · exact ih s hmem
  | compare _ ih =>
    intro s hmem
    rcases List.mem_cons.1 hmem with rfl | hmem
    · exact .inr ⟨_, _, rfl⟩
    · rcases List.mem_cons.1 hmem with rfl | hmem
      · exact .inl trivial
      · exact ih s hmem

end

/-- Nothing behind a block is skipped. -/
theorem Block.run_append (h : Block l) (m : Memory) (l' : List ILStatement) :
    m.run false (l ++ l') = (m.run false l).bind fun m' => m'.run false l' := by
  induction h generalizing m with
  | nil => rfl
  | @straight s rest hs _ ih =>
    show (m.step s).bind _ = ((m.step s).bind _).bind _
    rw [Memory.step_straight hs]
    cases m.acc.stepStale m.copies s with
    | none => rfl
    | some σ => exact ih _
  | @compare op x y rest _ ih =>
    cases hb : m.compare op x with
    | true =>
      show (m.step _).bind _ = ((m.step _).bind _).bind _
      rw [Memory.step_cmp hb]
      exact ih _
    | false =>
      show (m.step _).bind _ = ((m.step _).bind _).bind _
      rw [Memory.step_cmp hb]
      exact ih _

/-- A block, or a block and a comparison: what stands in front of a conditional jump. -/
inductive Condition : List ILStatement → Prop
  | block {l : List ILStatement} : Block l → Condition l
  | compare {l : List ILStatement} {op : CompareOp} {x : String} : Block l → Condition (l ++ [.cmp op x])

omit [Target] in
theorem Condition.mem (h : Condition l) : ∀ s ∈ l, s.IsStraight ∨ ∃ op x, s = .cmp op x := by
  cases h with
  | block h => exact h.mem
  | compare h =>
    intro s hs
    rcases List.mem_append.1 hs with hs | hs
    · exact h.mem s hs
    · exact .inr ⟨_, _, List.mem_singleton.1 hs⟩

/-- Positions are below the length of the code. -/
theorem start_lt_length (regs : String → UInt8) (stmts : List ILStatement) {j : Nat} (hj : j ≤ stmts.length) :
    start stmts j < (linked regs stmts).length := by
  have := start_mono stmts hj
  rw [length_linked]
  omega

/-- **A block** does what its statements do. -/
theorem block_run (hregs : Assigned regs stmts) (hcalls : NoCalls stmts) (hsmall : (linked regs stmts).length < 2 ^ 32)
    (hl : Block l) (hplace : CodeAt stmts i l) (h : InFront regs stmts i false m vm) :
    Comes regs stmts vm (i + l.length) ((m.run false l).map fun m' => (m', false)) := by
  induction hl generalizing i m vm with
  | nil => exact ⟨0, vm, .refl vm, h⟩
  | @straight s rest hs _ ih =>
    show Comes regs stmts vm _ (((m.step s).bind fun p => Memory.run p.2 p.1 rest).map _)
    rw [Option.map_bind, List.length_cons, Nat.add_comm rest.length 1, ← Nat.add_assoc]
    refine (straight_run hregs hcalls hplace.head hs h).bind ?_
    intro p vm' hp hfront
    rw [Memory.step_straight hs] at hp
    obtain ⟨σ, _, rfl⟩ := Option.map_eq_some_iff.1 hp
    exact ih hplace.tail hfront
  | @compare op x y rest _ ih =>
    have hlt : i + 2 ≤ stmts.length := by
      have := hplace.bound
      simp only [List.length_cons] at this
      omega
    have hbound : start stmts (i + 1) + 1 < 2 ^ 32 := by
      have := start_lt_length regs stmts hlt
      rw [start_succ hplace.tail.head] at this
      have hsize : (ILStatement.store y).size = 1 := rfl
      omega
    show Comes regs stmts vm _ (((m.step (.cmp op x)).bind fun p => Memory.run p.2 p.1 (.store y :: rest)).map _)
    rw [Option.map_bind]
    refine (compare_run hregs hcalls hplace.head hbound h).bind ?_
    intro p vm' hp hfront
    have hlen : i + (ILStatement.cmp op x :: .store y :: rest).length = i + 1 + 1 + rest.length := by
      simp only [List.length_cons]
      omega
    rw [hlen]
    obtain ⟨m', skip⟩ := p
    cases skip with
    | true => exact ih hplace.tail.tail (hfront.skip hplace.tail.head rfl)
    | false =>
      show Comes regs stmts vm' _ (((m'.step (.store y)).bind fun p => Memory.run p.2 p.1 rest).map _)
      rw [Option.map_bind]
      refine (straight_run hregs hcalls hplace.tail.head trivial hfront).bind ?_
      rintro p vm'' ⟨⟩ hfront'
      exact ih hplace.tail.tail hfront'

/-! ## Jumps -/

section
omit [Target]

/-- The statement that a jump to the label leads to, or the end. -/
def labelPlace (stmts : List ILStatement) (name : String) : Nat := (labelIndex name stmts).getD stmts.length

/-- The last definition of a label counts. -/
theorem labelIndex_append (name : String) (l l' : List ILStatement) : labelIndex name (l ++ l') =
      match labelIndex name l' with | some j => some (l.length + j) | none => labelIndex name l := by
  induction l with
  | nil =>
    rw [List.nil_append]
    cases labelIndex name l' with
    | none => rfl
    | some j =>
      show some j = some (0 + j)
      rw [Nat.zero_add]
  | cons s l ih =>
    rw [List.cons_append]
    simp only [labelIndex]
    rw [ih]
    cases labelIndex name l' with
    | none => rfl
    | some j =>
      show some (l.length + j + 1) = some (l.length + 1 + j)
      rw [Nat.add_right_comm]

theorem labelIndex_none (h : ILStatement.label name ∉ l) : labelIndex name l = none := by
  induction l with
  | nil => rfl
  | cons s l ih =>
    have hs : s ≠ .label name := fun heq => h (heq ▸ List.mem_cons_self)
    have hl : ILStatement.label name ∉ l := fun hin => h (List.mem_cons_of_mem _ hin)
    simp only [labelIndex]
    rw [ih hl, if_neg hs]

end

theorem labelTarget_lt (hsmall : (linked regs stmts).length < 2 ^ 32) (name : String) :
    start stmts (labelPlace stmts name) < 2 ^ 32 := by
  have hle : labelPlace stmts name ≤ stmts.length := by
    unfold labelPlace
    cases hname : labelIndex name stmts with
    | none => exact Nat.le_refl _
    | some j => exact Nat.le_of_lt (labelIndex_lt hname)
  exact Nat.lt_trans (start_lt_length regs stmts hle) hsmall

theorem Holds.jumped (hholds : Holds regs stmts m.copies m.acc vm) (htrue : vm.get trueReg = .bool true)
    (hsmall : (linked regs stmts).length < 2 ^ 32) (name : String) :
    InFront regs stmts (labelPlace stmts name) false m (vm.setIp (UInt32.ofNat (labelTarget stmts name)).toNat) := by
  refine ⟨hholds.congr (fun _ => rfl) rfl, htrue, ?_, fun hskip => by cases hskip⟩
  exact UInt32.toNat_ofNat_of_lt' (labelTarget_lt hsmall name)

theorem jump_run (hsmall : (linked regs stmts).length < 2 ^ 32) (hs : stmts[i]? = some (.jump name))
    (h : InFront regs stmts i false m vm) :
    ∃ vm', next (linked regs stmts) vm = some vm' ∧ InFront regs stmts (labelPlace stmts name) false m vm' := by
  have hinst : (linked regs stmts)[vm.ip]? = some (.jump (UInt32.ofNat (labelTarget stmts name))) := by
    rw [show vm.ip = start stmts i from h.ip]
    exact (stmt_codeAt regs hs).head
  exact ⟨_, next_jump hinst, h.holds.jumped h.true_ hsmall name⟩

/-- **A conditional jump**, reached from in front or from a comparison that was false. -/
theorem jumpIf_run (hsmall : (linked regs stmts).length < 2 ^ 32) (hs : stmts[i]? = some (.jumpIf name))
    {skip : Bool} (h : InFront regs stmts i skip m vm) :
    ∃ n vm', RunN (next (linked regs stmts)) (n + 1) vm vm' ∧
      InFront regs stmts (if m.acc.cr = .bool true then labelPlace stmts name else i + 1) false m vm' := by
  have hb : Branch regs stmts i (.jumpIf name) name fun cr => decide (cr = .bool true) := branch_jumpIf hs
  have hsucc : start stmts (i + 1) = start stmts i + 2 := start_succ hs
  -- from the second instruction on
  have hrest : ∀ u : Vm, u.ip = start stmts i + 1 → u.flagsZero = decide (m.acc.cr = .bool true) →
      Holds regs stmts m.copies m.acc u → u.get trueReg = .bool true → ∃ vm', next (linked regs stmts) u = some vm' ∧
        InFront regs stmts (if m.acc.cr = .bool true then labelPlace stmts name else i + 1) false m vm' := by
    intro u hip hflag hholds htrue
    have hinst := hb.jump
    rw [← hip] at hinst
    by_cases hcr : m.acc.cr = .bool true
    · rw [if_pos hcr]
      rw [decide_eq_true hcr] at hflag
      exact ⟨_, next_jumpIf_taken hinst hflag, hholds.jumped htrue hsmall name⟩
    · rw [if_neg hcr]
      rw [decide_eq_false hcr] at hflag
      refine ⟨_, next_jumpIf_through hinst hflag, hholds.congr (fun _ => rfl) rfl, htrue, ?_, fun hskip => by cases hskip⟩
      rw [Vm.advanceIp_ip, hip, hsucc]
      rfl
  cases skip with
  | true =>
    obtain ⟨hflag, hcr⟩ := h.skipped rfl
    obtain ⟨vm', hnext, hfront⟩ := hrest vm h.ip (by rw [hflag, hcr]; rfl) h.holds h.true_
    exact ⟨0, vm', .single hnext, hfront⟩
  | false =>
    have hip : vm.ip = start stmts i := h.ip
    have hnext := hb.compare vm hip h.true_
    rw [h.holds.cr] at hnext
    obtain ⟨vm', hnext', hfront⟩ := hrest (vm.setFlagsZero (decide (m.acc.cr = .bool true))).advanceIp
      (congrArg (· + 1) hip) rfl (h.holds.congr (fun _ => rfl) rfl) h.true_
    exact ⟨1, vm', .step hnext (.single hnext'), hfront⟩

/-- The machine gets in front of the statement behind one of two labels, or panics where there is no result. -/
def Chooses (regs : String → UInt8) (stmts : List ILStatement) (vm : Vm) (yes no : String) : Option Memory → Prop
  | some m => ∃ n vm', RunN (next (linked regs stmts)) (n + 1) vm vm' ∧
      InFront regs stmts (labelPlace stmts (if m.acc.cr = .bool true then yes else no)) false m vm'
  | none => ∃ n vm', RunN (next (linked regs stmts)) n vm vm' ∧ vm'.step (linked regs stmts) = none

/-- **A condition and two jumps**: control goes to the first label if the accumulator is `TRUE`, else to the second. -/
theorem condition_run (hregs : Assigned regs stmts) (hcalls : NoCalls stmts)
    (hsmall : (linked regs stmts).length < 2 ^ 32) (hl : Condition l) {yes no : String}
    (hplace : CodeAt stmts i (l ++ [.jumpIf yes, .jump no])) (h : InFront regs stmts i false m vm) :
    Chooses regs stmts vm yes no (m.run false l) := by
  -- behind the condition
  have hjumps : ∀ m' vm' skip, InFront regs stmts (i + l.length) skip m' vm' →
      ∃ n vm'', RunN (next (linked regs stmts)) (n + 1) vm' vm'' ∧
        InFront regs stmts (labelPlace stmts (if m'.acc.cr = .bool true then yes else no)) false m' vm'' := by
    intro m' vm' skip hfront
    obtain ⟨n, u, hrun, hu⟩ := jumpIf_run hsmall hplace.right.head hfront
    by_cases hcr : m'.acc.cr = .bool true
    · rw [if_pos hcr] at hu ⊢
      exact ⟨n, u, hrun, hu⟩
    · rw [if_neg hcr] at hu ⊢
      obtain ⟨w, hnext, hw⟩ := jump_run hsmall hplace.right.tail.head hu
      exact ⟨n + 1, w, hrun.snoc hnext, hw⟩
  cases hl with
  | block hl =>
    have hrun := block_run hregs hcalls hsmall hl hplace.left h
    cases hm : m.run false l with
    | none =>
      rw [hm] at hrun
      exact hrun
    | some m' =>
      rw [hm] at hrun
      obtain ⟨k, u, hk, hu⟩ := hrun
      obtain ⟨n, w, hn, hw⟩ := hjumps m' u false hu
      exact ⟨k + n, w, hk.trans hn, hw⟩
  | @compare body op x hbody =>
    rw [hbody.run_append m [.cmp op x]]
    have hrun := block_run hregs hcalls hsmall hbody hplace.left.left h
    cases hm : m.run false body with
    | none =>
      rw [hm] at hrun
      exact hrun
    | some m₁ =>
      rw [hm] at hrun
      obtain ⟨k, u, hk, hu⟩ := hrun
      have hlen : i + (body ++ [ILStatement.cmp op x]).length = i + body.length + 1 := by
        rw [List.length_append, List.length_singleton, Nat.add_assoc]
      have hjump := hplace.right.head
      rw [hlen] at hjumps hjump
      have hbound : start stmts (i + body.length + 1) + 1 < 2 ^ 32 := by
        have hlt := start_lt_length regs stmts (List.getElem?_eq_some_iff.1 hjump).1
        have hsize : (ILStatement.jumpIf yes).size = 2 := rfl
        rw [start_succ hjump] at hlt
        omega
      obtain ⟨j, v, hj, hv⟩ := compare_run hregs hcalls hplace.left.right.head hbound hu
      obtain ⟨n, w, hn, hw⟩ := hjumps _ v _ hv
      exact ⟨k + (j + n), w, hk.trans (hj.trans hn), hw⟩

end

end Audesys.Il
