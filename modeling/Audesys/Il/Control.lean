import Audesys.Il.Accumulator

/-!
# `Il.Control` — where control goes

A step of the compiled code stays in the code of its statement or goes where the statement sends it (`Follows`):
to the next one, or to the one behind a label. Two things break this. The comparison code jumps one instruction
too far when it compares false, past the first instruction of the next statement; and jump targets are cut off
at 32 bits. `control_iff` says that nothing else does.
-/

namespace Audesys.Il

open Audesys.Hal Audesys.Lib

variable {stmts : List ILStatement} {name : String} {s : ILStatement}
variable {i : Nat} {r : UInt8}

/-! ## Positions -/

theorem start_succ (h : stmts[i]? = some s) : start stmts (i + 1) = start stmts i + s.size := by
  unfold start totalSize
  rw [List.take_add_one, h, List.map_append, List.sum_append]
  show 1 + (_ + (s.size + 0)) = _
  omega

theorem start_le_succ (stmts : List ILStatement) (i : Nat) : start stmts i ≤ start stmts (i + 1) := by
  unfold start totalSize
  rw [List.take_add_one, List.map_append, List.sum_append]
  omega

theorem start_mono (stmts : List ILStatement) {i j : Nat} (h : i ≤ j) : start stmts i ≤ start stmts j := by
  induction h with
  | refl => exact Nat.le_refl _
  | step _ ih => exact Nat.le_trans ih (start_le_succ stmts _)

theorem start_pos (stmts : List ILStatement) (i : Nat) : 0 < start stmts i := by
  unfold start
  omega

/-- An index belongs to one statement at most. -/
theorem statement_unique {i j ip : Nat} {s t : ILStatement} (hs : stmts[i]? = some s)
    (ht : stmts[j]? = some t) (hi : start stmts i ≤ ip) (hi' : ip < start stmts i + s.size) (hj : start stmts j ≤ ip)
    (hj' : ip < start stmts j + t.size) : i = j := by
  rw [← start_succ hs] at hi'
  rw [← start_succ ht] at hj'
  rcases Nat.lt_trichotomy i j with hlt | heq | hgt
  · have := start_mono stmts (show i + 1 ≤ j from hlt)
    omega
  · exact heq
  · have := start_mono stmts (show j + 1 ≤ i from hgt)
    omega

/-- A label is the position of some statement, or of the `Halt`. -/
theorem labelIndex_lt (h : labelIndex name stmts = some i) : i < stmts.length := by
  induction stmts generalizing i with
  | nil => cases h
  | cons s rest ih =>
    simp only [labelIndex] at h
    split at h
    · rename_i j hj
      cases h
      exact Nat.succ_lt_succ (ih hj)
    · split at h
      · cases h
        exact Nat.succ_pos _
      · cases h

theorem labelTarget_start (stmts : List ILStatement) (name : String) :
    ∃ i, i ≤ stmts.length ∧ labelTarget stmts name = start stmts i := by
  unfold labelTarget
  cases h : labelIndex name stmts with
  | none => exact ⟨stmts.length, Nat.le_refl _, rfl⟩
  | some i => exact ⟨i, Nat.le_of_lt (labelIndex_lt h), rfl⟩

variable [Target]

theorem layout_append (regs : String → UInt8) (ip : Nat) (l₁ l₂ : List ILStatement) :
    layout regs ip (l₁ ++ l₂) = layout regs ip l₁ ++ layout regs (ip + totalSize l₁) l₂ := by
  induction l₁ generalizing ip with
  | nil => rfl
  | cons s l₁ ih =>
    show slots _ ip s ++ layout regs (ip + s.size) (l₁ ++ l₂) = (slots _ ip s ++ _) ++ layout regs (ip + (s.size + _)) l₂
    rw [ih, List.append_assoc, Nat.add_assoc]
    rfl

/-- The code of a statement, in place. -/
theorem stmt_codeAt (regs : String → UInt8) (h : stmts[i]? = some s) :
    CodeAt (linked regs stmts) (start stmts i) ((slots (operandReg regs s) (start stmts i) s).map
      (Slot.resolve retarget fun name => some (labelTarget stmts name))) := by
  have hcode := (program_codeAt regs stmts).2.left
  obtain ⟨hlt, hget⟩ := List.getElem?_eq_some_iff.1 h
  have hsplit : stmts = stmts.take i ++ s :: stmts.drop (i + 1) := by
    rw [← hget, List.getElem_cons_drop, List.take_append_drop]
  have hlayout : layout regs 1 stmts = layout regs 1 (stmts.take i) ++
      (slots (operandReg regs s) (start stmts i) s ++ layout regs (start stmts i + s.size) (stmts.drop (i + 1))) := by
    rw [show layout regs 1 stmts = layout regs 1 (stmts.take i ++ s :: stmts.drop (i + 1)) by rw [← hsplit],
      layout_append]
    rfl
  rw [hlayout, List.map_append, List.map_append] at hcode
  have hright := hcode.right.left
  rw [List.length_map, length_layout] at hright
  exact hright

theorem halt_at (regs : String → UInt8) (stmts : List ILStatement) :
    (linked regs stmts)[start stmts stmts.length]? = some .halt := by
  have hhalt := (program_codeAt regs stmts).2.right.head
  rw [List.length_map, length_layout] at hhalt
  unfold start
  rw [List.take_length]
  exact hhalt

theorem length_linked (regs : String → UInt8) (stmts : List ILStatement) :
    (linked regs stmts).length = start stmts stmts.length + 1 := by
  unfold linked program start
  rw [List.length_map, List.length_cons, List.length_append, length_layout, List.length_singleton, List.take_length]
  omega

/-! ## What is promised -/

def CompareOp.holds (op : CompareOp) (a b : HalValue) : Bool :=
  match op with
  | eq => a.beq b
  | ne => !a.beq b
  | gt => a.gt b
  | ge => a.ge b
  | lt => a.lt b
  | le => a.le b

/-- Where statement `i` sends control, `cr` being the accumulator. -/
def destination (stmts : List ILStatement) (i : Nat) (cr : HalValue) : ILStatement → Nat
  | .jump label => labelTarget stmts label
  | .jumpIf label => if cr = .bool true then labelTarget stmts label else start stmts (i + 1)
  | .jumpIfNot label => if cr = .bool true then start stmts (i + 1) else labelTarget stmts label
  | _ => start stmts (i + 1)

/-- A step that follows the source: from the first instruction to the first statement; in the code of a statement
forward, or to the destination of the statement. -/
def Follows (stmts : List ILStatement) (vm vm' : Vm) : Prop :=
  (vm.ip = 0 ∧ vm'.ip = start stmts 0) ∨
    ∃ i s, stmts[i]? = some s ∧ start stmts i ≤ vm.ip ∧ vm.ip < start stmts i + s.size ∧
      ((vm.ip < vm'.ip ∧ vm'.ip < start stmts i + s.size) ∨ vm'.ip = destination stmts i (vm.get crReg) s)

/-- No statement is `CAL` or `RET`. -/
def NoCalls (stmts : List ILStatement) : Prop := ∀ s ∈ stmts, s ≠ .ret ∧ ∀ fb, s ≠ .call fb

/-- At the start of a comparison it compares true; and jumps that are taken have a target of 32 bits. -/
def Favourable (regs : String → UInt8) (stmts : List ILStatement) (vm : Vm) : Prop :=
  ∀ i s, stmts[i]? = some s → vm.ip = start stmts i →
    match s with
    | .cmp op x => op.holds (vm.get crReg) (vm.get (regs x)) = true ∧ start stmts i + 4 < 2 ^ 32
    | .jump label => labelTarget stmts label < 2 ^ 32
    | .jumpIf label => vm.get crReg = .bool true → labelTarget stmts label < 2 ^ 32
    | .jumpIfNot label => vm.get crReg ≠ .bool true → labelTarget stmts label < 2 ^ 32
    | _ => True

/-! ## Instructions without jumps -/

/-- The instructions that go on to the next one and leave `r15` alone. -/
inductive Quiet : Instruction → Prop
  | loadSignal {r : UInt8} {name : String} : r.toNat < 15 → Quiet ⟨.load, [.register r, .signalName name]⟩
  | loadReg {a b : UInt8} : a.toNat < 15 → b.toNat < 15 → Quiet ⟨.load, [.register a, .register b]⟩
  | loadImm {r : UInt8} {v : HalValue} : r.toNat < 15 → Quiet (.loadImm r v)
  | notReg {a b : UInt8} : a.toNat < 15 → b.toNat < 15 → Quiet ⟨.not, [.register a, .register b]⟩
  | arith {o : Opcode} {f : HalValue → HalValue → Option HalValue} {a b c : UInt8} : o.isPlain →
      (∀ vm args, Exec.execPlain vm ⟨o, args⟩ = Exec.execArithBinop f vm args) → a.toNat < 15 → b.toNat < 15 →
      c.toNat < 15 → Quiet (.arith o a b c)
  | store {name : String} {r : UInt8} : r.toNat < 15 → Quiet ⟨.store, [.signalName name, .register r]⟩
  | block {o : Opcode} {r : UInt8} : o.isPlain → (∀ vm, Exec.execPlain vm ⟨o, [.register r]⟩ = some vm) →
      Quiet ⟨o, [.register r]⟩

omit [Target] in
theorem lt_registerCount (h : r.toNat < 15) : r.toNat < registerCount := Nat.lt_succ_of_lt h

omit [Target] in
theorem ne_trueReg (h : r.toNat < 15) : trueReg ≠ r := by
  rintro rfl
  exact absurd h (by decide)

/-- Writing a register below `r15`. -/
theorem get_trueReg_set (vm : Vm) (h : r.toNat < 15) (v : HalValue) :
    (vm.set r v).advanceIp.get trueReg = vm.get trueReg := by
  rw [Vm.advanceIp_get, Vm.get_set_ne _ _ (ne_trueReg h)]

theorem Quiet.step {code : List Instruction} {inst : Instruction} (h : Quiet inst) {vm vm' : Vm}
    (hcode : code[vm.ip]? = some inst) (hnext : next code vm = some vm') :
    vm'.ip = vm.ip + 1 ∧ vm'.get trueReg = vm.get trueReg := by
  have hset : ∀ {r : UInt8} {v : HalValue}, r.toNat < 15 → vm' = (vm.set r v).advanceIp →
      vm'.ip = vm.ip + 1 ∧ vm'.get trueReg = vm.get trueReg := by
    rintro r v hr rfl
    exact ⟨by rw [Vm.advanceIp_ip, Vm.set_ip], get_trueReg_set vm hr v⟩
  cases h with
  | loadSignal hr =>
    rw [next_loadSignal hcode (lt_registerCount hr), Option.some.injEq] at hnext
    exact hset hr hnext.symm
  | loadReg ha hb =>
    rw [next_loadReg hcode (lt_registerCount ha) (lt_registerCount hb), Option.some.injEq] at hnext
    exact hset ha hnext.symm
  | loadImm hr =>
    rw [next_loadImm hcode (lt_registerCount hr), Option.some.injEq] at hnext
    exact hset hr hnext.symm
  | notReg ha hb =>
    rw [next_notReg hcode (lt_registerCount ha) (lt_registerCount hb), Option.some.injEq] at hnext
    exact hset hb hnext.symm
  | @arith o f a b c hop hf ha hb hc =>
    cases hv : f (vm.get a) (vm.get b) with
    | none =>
      have hstuck := step_arith_none hcode hop hf (lt_registerCount ha) (lt_registerCount hb) hv
      unfold next at hnext
      rw [hstuck] at hnext
      cases hnext
    | some v =>
      rw [next_arith hcode hop hf (lt_registerCount ha) (lt_registerCount hb) (lt_registerCount hc) hv,
        Option.some.injEq] at hnext
      exact hset hc hnext.symm
  | store hr =>
    rw [next_store hcode (lt_registerCount hr), Option.some.injEq] at hnext
    rw [← hnext]
    exact ⟨rfl, rfl⟩
  | block hop hf =>
    rw [next_plain hcode hop, hf, Option.map_some, Option.some.injEq] at hnext
    rw [← hnext]
    exact ⟨rfl, rfl⟩

/-- The statements whose code has no jump and no comparison. -/
def ILStatement.IsPlain : ILStatement → Prop
  | cmp _ _ | jump _ | jumpIf _ | jumpIfNot _ | call _ | ret => False
  | _ => True

theorem slots_quiet (h : s.IsPlain) (hr : r.toNat ≤ 9) (ip : Nat)
    (target : String → Option Nat) : ∀ inst ∈ (slots r ip s).map (Slot.resolve retarget target), Quiet inst := by
  have hr' : r.toNat < 15 := by omega
  have hcr : crReg.toNat < 15 := by decide
  have htemp : temp1Reg.toNat < 15 := by decide
  cases s with
  | load x => simpa [slots, Slot.resolve] using ⟨.loadSignal hr', .loadReg hcr hr'⟩
  | loadNot x => simpa [slots, Slot.resolve] using ⟨.loadSignal hr', .loadReg hcr hr', .notReg hcr hcr⟩
  | store x => simpa [slots, Slot.resolve] using .store hcr
  | and x => simpa [slots, Slot.resolve] using ⟨.loadSignal hr', .arith rfl (fun _ _ => rfl) hcr hr' hcr⟩
  | andNot x =>
    simpa [slots, Slot.resolve] using
      ⟨.loadSignal hr', .loadReg htemp hr', .notReg htemp htemp, .arith rfl (fun _ _ => rfl) hcr htemp hcr⟩
  | orNot x =>
    simpa [slots, Slot.resolve] using
      ⟨.loadReg htemp hr', .notReg htemp htemp, .arith rfl (fun _ _ => rfl) hcr htemp hcr⟩
  | or x => simpa [slots, Slot.resolve] using .arith rfl (fun _ _ => rfl) hcr hr' hcr
  | xor x => simpa [slots, Slot.resolve] using .arith rfl (fun _ _ => rfl) hcr hr' hcr
  | add x => simpa [slots, Slot.resolve] using .arith rfl (fun _ _ => rfl) hcr hr' hcr
  | sub x => simpa [slots, Slot.resolve] using .arith rfl (fun _ _ => rfl) hcr hr' hcr
  | mul x => simpa [slots, Slot.resolve] using .arith rfl (fun _ _ => rfl) hcr hr' hcr
  | div x => simpa [slots, Slot.resolve] using .arith rfl (fun _ _ => rfl) hcr hr' hcr
  | mod x => simpa [slots, Slot.resolve] using .arith rfl (fun _ _ => rfl) hcr hr' hcr
  | set x => simpa [slots, Slot.resolve] using .loadImm hr'
  | reset x => simpa [slots, Slot.resolve] using .loadImm hr'
  | not => simpa [slots, Slot.resolve] using .notReg hcr hcr
  | ton x | tof x | tp x => simpa [slots, Slot.resolve] using .block rfl fun _ => rfl
  | ctu x | ctd x => simpa [slots, Slot.resolve] using .block rfl fun _ => rfl
  | rTrig x | fTrig x => simpa [slots, Slot.resolve] using .block rfl fun _ => rfl
  | sr x | rs x => simpa [slots, Slot.resolve] using .block rfl fun _ => rfl
  | label name => simp [slots]
  | _ => exact h.elim

/-! ## Where a run is -/

/-- What is known in front of instruction `k` of statement `i`. -/
def Midway (stmts : List ILStatement) (i : Nat) (s : ILStatement) (k : Nat) (vm : Vm) : Prop :=
  match s, k with
  | .cmp _ _, 1 => vm.flagsZero = true ∧ start stmts i + 4 < 2 ^ 32
  | .cmp _ _, 2 | .cmp _ _, 3 => False
  | .jumpIf label, 1 =>
    vm.flagsZero = decide (vm.get crReg = .bool true) ∧ (vm.get crReg = .bool true → labelTarget stmts label < 2 ^ 32)
  | .jumpIfNot label, 1 =>
    vm.flagsZero = !decide (vm.get crReg = .bool true) ∧ (vm.get crReg ≠ .bool true → labelTarget stmts label < 2 ^ 32)
  | _, _ => True

theorem midway_zero (stmts : List ILStatement) (i : Nat) (s : ILStatement) (vm : Vm) : Midway stmts i s 0 vm := by
  cases s <;> exact trivial

/-- In front of the first instruction, in the code of a statement, or in front of the `Halt`. -/
inductive Located (stmts : List ILStatement) (vm : Vm) : Prop
  | first : vm.ip = 0 → Located stmts vm
  | inside (i : Nat) (s : ILStatement) (k : Nat) : stmts[i]? = some s → vm.ip = start stmts i + k → k < s.size →
      vm.get trueReg = .bool true → Midway stmts i s k vm → Located stmts vm
  | halt : vm.ip = start stmts stmts.length → Located stmts vm

/-- The position of a statement is in the code of the next one that has any, or in front of the `Halt`. -/
theorem located_start {vm : Vm} (htrue : vm.get trueReg = .bool true)
    (hi : i ≤ stmts.length) (hip : vm.ip = start stmts i) : Located stmts vm := by
  induction hlen : stmts.length - i generalizing i with
  | zero =>
    have heq : i = stmts.length := by omega
    exact .halt (heq ▸ hip)
  | succ m ih =>
    have hlt : i < stmts.length := by omega
    have hs : stmts[i]? = some stmts[i] := List.getElem?_eq_getElem hlt
    rcases Nat.eq_zero_or_pos (stmts[i]).size with hzero | hpos
    · refine @ih (i + 1) hlt ?_ (by omega)
      rw [start_succ hs, hzero]
      exact hip
    · exact .inside i _ 0 hs hip hpos htrue (midway_zero stmts i _ vm)

omit [Target] in
theorem operandReg_le {regs : String → UInt8} (hregs : Assigned regs stmts)
    (hs : stmts[i]? = some s) : (operandReg regs s).toNat ≤ 9 := by
  unfold operandReg
  cases hvar : s.regVar? with
  | none => exact Nat.zero_le _
  | some x => exact hregs.le s (List.mem_of_getElem? hs) x hvar

section
variable {regs : String → UInt8} {k : Nat} {vm vm' : Vm}

/-- To the next instruction, or to the next statement. -/
theorem advances (hs : stmts[i]? = some s) (hip : vm.ip = start stmts i + k) (hk : k < s.size)
    (hnext : vm'.ip = vm.ip + 1) (htrue : vm'.get trueReg = .bool true)
    (hmid : k + 1 < s.size → Midway stmts i s (k + 1) vm')
    (hdest : k + 1 = s.size → destination stmts i (vm.get crReg) s = start stmts (i + 1)) :
    Located stmts vm' ∧ Follows stmts vm vm' := by
  have hlt : i < stmts.length := (List.getElem?_eq_some_iff.1 hs).1
  rcases Nat.lt_or_ge (k + 1) s.size with hmore | hlast
  · refine ⟨.inside i s (k + 1) hs (by omega) hmore htrue (hmid hmore), .inr ⟨i, s, hs, by omega, by omega, .inl ?_⟩⟩
    omega
  · have hend : vm'.ip = start stmts (i + 1) := by
      rw [start_succ hs]
      omega
    refine ⟨located_start htrue hlt hend, .inr ⟨i, s, hs, by omega, by omega, .inr ?_⟩⟩
    rw [hdest (by omega)]
    exact hend

/-- To a label. -/
theorem jumps (hs : stmts[i]? = some s) (hip : vm.ip = start stmts i + k) (hk : k < s.size)
    (hnext : vm'.ip = (UInt32.ofNat (labelTarget stmts name)).toNat) (hbound : labelTarget stmts name < 2 ^ 32)
    (htrue : vm'.get trueReg = .bool true) (hdest : destination stmts i (vm.get crReg) s = labelTarget stmts name) :
    Located stmts vm' ∧ Follows stmts vm vm' := by
  rw [UInt32.toNat_ofNat_of_lt' hbound] at hnext
  obtain ⟨j, hj, heq⟩ := labelTarget_start stmts name
  refine ⟨located_start htrue hj (hnext.trans heq), .inr ⟨i, s, hs, by omega, by omega, .inr ?_⟩⟩
  rw [hdest]
  exact hnext

theorem plain_located (hregs : Assigned regs stmts) (hplain : s.IsPlain) (hs : stmts[i]? = some s)
    (hip : vm.ip = start stmts i + k) (hk : k < s.size) (htrue : vm.get trueReg = .bool true)
    (hnext : next (linked regs stmts) vm = some vm') : Located stmts vm' ∧ Follows stmts vm vm' := by
  have hcode := stmt_codeAt regs hs
  have hlen : k < ((slots (operandReg regs s) (start stmts i) s).map
      (Slot.resolve retarget fun name => some (labelTarget stmts name))).length := by
    rw [List.length_map, length_slots]
    exact hk
  have hquiet := slots_quiet hplain (operandReg_le hregs hs) (start stmts i) _ _ (List.getElem_mem hlen)
  obtain ⟨hip', htrue'⟩ := hquiet.step (hip ▸ hcode.get hlen) hnext
  refine advances hs hip hk hip' (htrue'.trans htrue) ?_ ?_
  · intro _
    cases s <;> first | exact trivial | exact hplain.elim
  · intro _
    cases s <;> first | rfl | exact hplain.elim

theorem CompareOp.next_cmp {code : List Instruction} (op : CompareOp) {a b : UInt8}
    (h : code[vm.ip]? = some (.cmp op.opcode a b)) (ha : a.toNat < registerCount) (hb : b.toNat < registerCount) :
    next code vm = some (vm.setFlagsZero (op.holds (vm.get a) (vm.get b))).advanceIp := by
  cases op with
  | eq => exact Hal.next_cmp h rfl (fun _ _ => rfl) ha hb
  | ne => exact Hal.next_cmp (f := fun a b => !a.beq b) h rfl (fun _ _ => rfl) ha hb
  | gt => exact Hal.next_cmp h rfl (fun _ _ => rfl) ha hb
  | ge => exact Hal.next_cmp h rfl (fun _ _ => rfl) ha hb
  | lt => exact Hal.next_cmp h rfl (fun _ _ => rfl) ha hb
  | le => exact Hal.next_cmp h rfl (fun _ _ => rfl) ha hb

/-- The comparison in front of a jump. -/
theorem beq_true (v : HalValue) : v.beq (.bool true) = decide (v = .bool true) := by
  cases v <;> rfl

/-- A comparison that is favourable. -/
theorem cmp_located (hregs : Assigned regs stmts) {op : CompareOp} {x : String} (hs : stmts[i]? = some (.cmp op x))
    (hip : vm.ip = start stmts i + k) (hk : k < 5) (htrue : vm.get trueReg = .bool true)
    (hmid : Midway stmts i (.cmp op x) k vm) (hfav : Favourable regs stmts vm)
    (hnext : next (linked regs stmts) vm = some vm') : Located stmts vm' ∧ Follows stmts vm vm' := by
  have hcode := stmt_codeAt regs hs
  have hsize : (ILStatement.cmp op x).size = 5 := rfl
  have hreg : (operandReg regs (.cmp op x)).toNat < registerCount :=
    lt_registerCount (Nat.lt_of_le_of_lt (operandReg_le hregs hs) (by decide : 9 < 15))
  match k, hk with
  | 0, _ =>
    have hinst : (linked regs stmts)[vm.ip]? = some (.cmp op.opcode crReg (operandReg regs (.cmp op x))) := by
      rw [hip]
      exact hcode.head
    rw [op.next_cmp hinst (by decide) hreg, Option.some.injEq] at hnext
    obtain ⟨hholds, hbound⟩ := hfav i _ hs hip
    rw [← hnext]
    exact advances hs hip (by omega) rfl htrue (fun _ => ⟨hholds, hbound⟩) (fun h => absurd h (by omega))
  | 1, _ =>
    obtain ⟨hflag, hbound⟩ := hmid
    have hinst : (linked regs stmts)[vm.ip]? = some (.jumpIf (UInt32.ofNat (start stmts i + 4))) := by
      rw [hip]
      exact hcode.tail.head
    rw [next_jumpIf_taken hinst hflag, Option.some.injEq] at hnext
    have hip' : vm'.ip = start stmts i + 4 := by
      rw [← hnext]
      exact UInt32.toNat_ofNat_of_lt' hbound
    have htrue' : vm'.get trueReg = .bool true := by
      rw [← hnext]
      exact htrue
    exact ⟨.inside i _ 4 hs hip' (by omega) htrue' trivial, .inr ⟨i, _, hs, by omega, by omega, .inl (by omega)⟩⟩
  | 2, _ => exact hmid.elim
  | 3, _ => exact hmid.elim
  | 4, _ =>
    have hinst : (linked regs stmts)[vm.ip]? = some (.loadImm crReg (.bool true)) := by
      rw [hip]
      exact hcode.tail.tail.tail.tail.head
    rw [next_loadImm hinst (by decide), Option.some.injEq] at hnext
    have hip' : vm'.ip = vm.ip + 1 := by
      rw [← hnext, Vm.advanceIp_ip, Vm.set_ip]
    have htrue' : vm'.get trueReg = .bool true := by
      rw [← hnext, get_trueReg_set vm (by decide), htrue]
    exact advances hs hip (by omega) hip' htrue' (fun h => absurd h (by omega)) fun _ => rfl

/-- What the two conditional jumps share: the comparison leaves `taken` in the flag. -/
structure Branch (regs : String → UInt8) (stmts : List ILStatement) (i : Nat) (s : ILStatement) (name : String)
    (taken : HalValue → Bool) : Prop where
  size : s.size = 2
  compare : ∀ vm : Vm, vm.ip = start stmts i → vm.get trueReg = .bool true →
    next (linked regs stmts) vm = some (vm.setFlagsZero (taken (vm.get crReg))).advanceIp
  jump : (linked regs stmts)[start stmts i + 1]? = some (.jumpIf (UInt32.ofNat (labelTarget stmts name)))
  midway : ∀ vm : Vm, Midway stmts i s 1 vm ↔
    vm.flagsZero = taken (vm.get crReg) ∧ (taken (vm.get crReg) = true → labelTarget stmts name < 2 ^ 32)
  dest : ∀ cr, destination stmts i cr s = if taken cr then labelTarget stmts name else start stmts (i + 1)

theorem branch_jumpIf (hs : stmts[i]? = some (.jumpIf name)) :
    Branch regs stmts i (.jumpIf name) name fun cr => decide (cr = .bool true) where
  size := rfl
  compare vm hip htrue := by
    have hinst : (linked regs stmts)[vm.ip]? = some (.cmp .eq crReg trueReg) := by
      rw [hip]
      exact (stmt_codeAt regs hs).head
    rw [Hal.next_cmp hinst rfl (fun _ _ => rfl) (by decide) (by decide), htrue, beq_true]
  jump := (stmt_codeAt regs hs).tail.head
  midway vm := by
    show _ ∧ _ ↔ _
    rw [decide_eq_true_eq]
  dest cr := by
    show (if cr = .bool true then _ else _) = _
    simp only [decide_eq_true_eq]

theorem branch_jumpIfNot (hs : stmts[i]? = some (.jumpIfNot name)) :
    Branch regs stmts i (.jumpIfNot name) name fun cr => !decide (cr = .bool true) where
  size := rfl
  compare vm hip htrue := by
    have hinst : (linked regs stmts)[vm.ip]? = some (.cmp .neq crReg trueReg) := by
      rw [hip]
      exact (stmt_codeAt regs hs).head
    rw [Hal.next_cmp (f := fun a b => !a.beq b) hinst rfl (fun _ _ => rfl) (by decide) (by decide), htrue, beq_true]
  jump := (stmt_codeAt regs hs).tail.head
  midway vm := by
    show _ ∧ _ ↔ _
    rw [Bool.not_eq_true', decide_eq_false_iff_not]
  dest cr := by
    show (if cr = .bool true then _ else _) = _
    by_cases hcr : cr = .bool true
    · rw [if_pos hcr, decide_eq_true hcr]
      rfl
    · rw [if_neg hcr, decide_eq_false hcr]
      rfl

/-- A conditional jump. -/
theorem branch_located {taken : HalValue → Bool} (hb : Branch regs stmts i s name taken)
    (hs : stmts[i]? = some s) (hip : vm.ip = start stmts i + k) (hk : k < s.size) (htrue : vm.get trueReg = .bool true)
    (hmid : Midway stmts i s k vm)
    (hfav : vm.ip = start stmts i → taken (vm.get crReg) = true → labelTarget stmts name < 2 ^ 32)
    (hnext : next (linked regs stmts) vm = some vm') : Located stmts vm' ∧ Follows stmts vm vm' := by
  have hsize := hb.size
  match k, (show k < 2 by omega) with
  | 0, _ =>
    rw [hb.compare vm hip htrue, Option.some.injEq] at hnext
    subst hnext
    exact advances hs hip hk rfl htrue (fun _ => (hb.midway _).2 ⟨rfl, hfav hip⟩) (fun h => absurd h (by omega))
  | 1, _ =>
    obtain ⟨hflag, hbound⟩ := (hb.midway vm).1 hmid
    have hinst := hb.jump
    rw [← hip] at hinst
    cases htaken : taken (vm.get crReg) with
    | true =>
      rw [next_jumpIf_taken hinst (hflag.trans htaken), Option.some.injEq] at hnext
      subst hnext
      refine jumps hs hip hk rfl (hbound htaken) htrue ?_
      rw [hb.dest, htaken]
      rfl
    | false =>
      rw [next_jumpIf_through hinst (hflag.trans htaken), Option.some.injEq] at hnext
      subst hnext
      refine advances hs hip hk rfl htrue (fun h => absurd h (by omega)) ?_
      intro _
      rw [hb.dest, htaken]
      rfl

/-- **One step** of a run that is favourable so far. -/
theorem located_step (hregs : Assigned regs stmts) (hcalls : NoCalls stmts) (h : Located stmts vm)
    (hfav : Favourable regs stmts vm) (hnext : next (linked regs stmts) vm = some vm') :
    Located stmts vm' ∧ Follows stmts vm vm' := by
  cases h with
  -- in front of the first statement there is the load of the true register
  | first hip =>
    have hinst : (linked regs stmts)[vm.ip]? = some (.loadImm trueReg (.bool true)) := by
      rw [hip]
      rfl
    rw [next_loadImm hinst (by decide), Option.some.injEq] at hnext
    have hip' : vm'.ip = start stmts 0 := by
      rw [← hnext, Vm.advanceIp_ip, Vm.set_ip, hip]
      rfl
    have htrue : vm'.get trueReg = .bool true := by
      rw [← hnext, Vm.advanceIp_get, Vm.get_set_self _ _ _ (by decide)]
    exact ⟨located_start htrue (Nat.zero_le _) hip', .inl ⟨hip, hip'⟩⟩
  | halt hip =>
    rw [next_halt (hip ▸ halt_at regs stmts)] at hnext
    cases hnext
  -- within a statement: only comparisons and jumps can leave it for another one than the next
  | inside i s k hs hip hk htrue hmid =>
    have hmem := List.mem_of_getElem? hs
    cases s with
    | cmp op x => exact cmp_located hregs hs hip hk htrue hmid hfav hnext
    | jump label =>
      have hzero : k = 0 := Nat.lt_one_iff.1 hk
      subst hzero
      have hinst : (linked regs stmts)[vm.ip]? = some (.jump (UInt32.ofNat (labelTarget stmts label))) := by
        rw [hip]
        exact (stmt_codeAt regs hs).head
      rw [next_jump hinst, Option.some.injEq] at hnext
      subst hnext
      exact jumps hs hip hk rfl (hfav i _ hs hip) htrue rfl
    | jumpIf label =>
      refine branch_located (branch_jumpIf hs) hs hip hk htrue hmid ?_ hnext
      intro hstart htaken
      exact hfav i _ hs hstart (of_decide_eq_true htaken)
    | jumpIfNot label =>
      refine branch_located (branch_jumpIfNot hs) hs hip hk htrue hmid ?_ hnext
      intro hstart htaken
      rw [Bool.not_eq_true', decide_eq_false_iff_not] at htaken
      exact hfav i _ hs hstart htaken
    | call fb => exact absurd rfl ((hcalls _ hmem).2 fb)
    | ret => exact absurd rfl (hcalls _ hmem).1
    | _ =>
      refine plain_located hregs ?_ hs hip hk htrue hnext
      exact trivial

/-! ## What breaks it -/

/-- A step in the code of statement `i` that follows the source. -/
theorem Follows.inside (h : Follows stmts vm vm') (hs : stmts[i]? = some s) (hlo : start stmts i ≤ vm.ip)
    (hhi : vm.ip < start stmts i + s.size) :
    (vm.ip < vm'.ip ∧ vm'.ip < start stmts i + s.size) ∨ vm'.ip = destination stmts i (vm.get crReg) s := by
  rcases h with ⟨hzero, _⟩ | ⟨j, t, ht, hlo', hhi', hgoes⟩
  · have := start_pos stmts i
    omega
  · have hij := statement_unique hs ht hlo hhi hlo' hhi'
    subst hij
    rw [hs, Option.some.injEq] at ht
    subst ht
    exact hgoes

/-- A comparison where all steps follow the source is favourable. -/
theorem cmp_favourable (hregs : Assigned regs stmts) {op : CompareOp} {x : String} (hs : stmts[i]? = some (.cmp op x))
    (hip : vm.ip = start stmts i)
    (hfollows : ∀ n u u', RunN (next (linked regs stmts)) n vm u → next (linked regs stmts) u = some u' →
      Follows stmts u u') :
    op.holds (vm.get crReg) (vm.get (operandReg regs (.cmp op x))) = true ∧ start stmts i + 4 < 2 ^ 32 := by
  have hcode := stmt_codeAt regs hs
  have hsize : (ILStatement.cmp op x).size = 5 := rfl
  have hdest : ∀ cr, destination stmts i cr (.cmp op x) = start stmts i + 5 := fun _ => start_succ hs
  have hreg : (operandReg regs (.cmp op x)).toNat < registerCount :=
    lt_registerCount (Nat.lt_of_le_of_lt (operandReg_le hregs hs) (by decide : 9 < 15))
  have hinst₀ : (linked regs stmts)[vm.ip]? = some (.cmp op.opcode crReg (operandReg regs (.cmp op x))) := by
    rw [hip]
    exact hcode.head
  have hnext₀ := op.next_cmp hinst₀ (by decide) hreg
  obtain ⟨b, hb⟩ : ∃ b, b = op.holds (vm.get crReg) (vm.get (operandReg regs (.cmp op x))) := ⟨_, rfl⟩
  obtain ⟨u₁, hu₁⟩ : ∃ u₁, u₁ = (vm.setFlagsZero b).advanceIp := ⟨_, rfl⟩
  rw [← hb, ← hu₁] at hnext₀
  have hip₁ : u₁.ip = start stmts i + 1 := by
    rw [hu₁, ← hip]
    rfl
  have hflag₁ : u₁.flagsZero = b := by
    rw [hu₁]
    rfl
  have hinst₁ : (linked regs stmts)[u₁.ip]? = some (.jumpIf (UInt32.ofNat (start stmts i + 4))) := by
    rw [hip₁]
    exact hcode.tail.head
  rw [← hb]
  cases b with
  | true =>
    refine ⟨rfl, ?_⟩
    have hnext₁ := next_jumpIf_taken hinst₁ hflag₁
    have hgoes := (hfollows 1 u₁ _ (.single hnext₀) hnext₁).inside hs (by omega) (by omega)
    rw [hdest] at hgoes
    simp at hgoes
    omega
  | false =>
    exfalso
    have hnext₁ := next_jumpIf_through hinst₁ hflag₁
    have hip₂ : u₁.advanceIp.ip = start stmts i + 2 := by
      rw [Vm.advanceIp_ip, hip₁]
    have hinst₂ : (linked regs stmts)[u₁.advanceIp.ip]? = some (.loadImm crReg (.bool false)) := by
      rw [hip₂]
      exact hcode.tail.tail.head
    have hnext₂ := next_loadImm hinst₂ (by decide)
    obtain ⟨u₃, hu₃⟩ : ∃ u₃, u₃ = (u₁.advanceIp.set crReg (.bool false)).advanceIp := ⟨_, rfl⟩
    rw [← hu₃] at hnext₂
    have hip₃ : u₃.ip = start stmts i + 3 := by
      rw [hu₃, Vm.advanceIp_ip, Vm.set_ip, hip₂]
    -- the jump past the other load goes one too far
    have hinst₃ : (linked regs stmts)[u₃.ip]? = some (.jump (UInt32.ofNat (start stmts i + 6))) := by
      rw [hip₃]
      exact hcode.tail.tail.tail.head
    have hrun : RunN (next (linked regs stmts)) 3 vm u₃ := .step hnext₀ (.step hnext₁ (.single hnext₂))
    have hgoes := (hfollows 3 u₃ _ hrun (next_jump hinst₃)).inside hs (by omega) (by omega)
    rw [hdest] at hgoes
    simp at hgoes
    omega

/-- A conditional jump where all steps follow the source has a target of 32 bits, if it is taken. -/
theorem branch_favourable {taken : HalValue → Bool} (hb : Branch regs stmts i s name taken)
    (hs : stmts[i]? = some s) (hip : vm.ip = start stmts i) (htrue : vm.get trueReg = .bool true)
    (hfollows : ∀ n u u', RunN (next (linked regs stmts)) n vm u → next (linked regs stmts) u = some u' →
      Follows stmts u u') (htaken : taken (vm.get crReg) = true) : labelTarget stmts name < 2 ^ 32 := by
  have hsize := hb.size
  have hnext₀ := hb.compare vm hip htrue
  obtain ⟨u₁, hu₁⟩ : ∃ u₁, u₁ = (vm.setFlagsZero (taken (vm.get crReg))).advanceIp := ⟨_, rfl⟩
  rw [← hu₁] at hnext₀
  have hip₁ : u₁.ip = start stmts i + 1 := by
    rw [hu₁, ← hip]
    rfl
  have hcr₁ : u₁.get crReg = vm.get crReg := by
    rw [hu₁]
    rfl
  have hflag₁ : u₁.flagsZero = true := by
    rw [hu₁]
    exact htaken
  have hinst₁ := hb.jump
  rw [← hip₁] at hinst₁
  have hgoes := (hfollows 1 u₁ _ (.single hnext₀) (next_jumpIf_taken hinst₁ hflag₁)).inside hs (by omega) (by omega)
  rw [hb.dest, hcr₁, htaken, if_pos rfl] at hgoes
  simp at hgoes
  omega

theorem favourable_of_follows (hregs : Assigned regs stmts) (h : Located stmts vm)
    (hfollows : ∀ n u u', RunN (next (linked regs stmts)) n vm u → next (linked regs stmts) u = some u' →
      Follows stmts u u') : Favourable regs stmts vm := by
  intro i s hs hip
  have htrue : 0 < s.size → vm.get trueReg = .bool true := by
    intro hpos
    cases h with
    | first hzero =>
      have := start_pos stmts i
      omega
    | inside _ _ _ _ _ _ htrue _ => exact htrue
    | halt hend =>
      have hlt : i < stmts.length := (List.getElem?_eq_some_iff.1 hs).1
      have hle := start_mono stmts (show i + 1 ≤ stmts.length from hlt)
      rw [start_succ hs] at hle
      omega
  cases s with
  | cmp op x => exact cmp_favourable hregs hs hip hfollows
  | jump label =>
    have hinst : (linked regs stmts)[vm.ip]? = some (.jump (UInt32.ofNat (labelTarget stmts label))) := by
      rw [hip]
      exact (stmt_codeAt regs hs).head
    have hsize : (ILStatement.jump label).size = 1 := rfl
    have hgoes := (hfollows 0 vm _ (.refl vm) (next_jump hinst)).inside hs (by omega) (by omega)
    have hdest : destination stmts i (vm.get crReg) (.jump label) = labelTarget stmts label := rfl
    rw [hdest] at hgoes
    simp at hgoes
    show labelTarget stmts label < 2 ^ 32
    omega
  | jumpIf label =>
    intro hcr
    exact branch_favourable (branch_jumpIf hs) hs hip (htrue Nat.two_pos) hfollows (decide_eq_true hcr)
  | jumpIfNot label =>
    intro hcr
    refine branch_favourable (branch_jumpIfNot hs) hs hip (htrue Nat.two_pos) hfollows ?_
    rw [decide_eq_false hcr]
    rfl
  | _ => exact trivial

theorem Located.lt (h : Located stmts vm) : vm.ip < (linked regs stmts).length := by
  rw [length_linked]
  have hpos := start_pos stmts stmts.length
  cases h with
  | first hip => omega
  | inside i s k hs hip hk _ _ =>
    have hlt : i < stmts.length := (List.getElem?_eq_some_iff.1 hs).1
    have hle := start_mono stmts (show i + 1 ≤ stmts.length from hlt)
    rw [start_succ hs] at hle
    omega
  | halt hip => omega

end

/-! ## Runs -/

/-- A run whose states are favourable never gets lost. -/
theorem located_run {regs : String → UInt8} (hregs : Assigned regs stmts)
    (hcalls : NoCalls stmts) {vm₀ : Vm} (hfirst : Located stmts vm₀)
    (hfav : ∀ n u, RunN (next (linked regs stmts)) n vm₀ u → Located stmts u → Favourable regs stmts u) :
    ∀ n u, RunN (next (linked regs stmts)) n vm₀ u → Located stmts u := by
  intro n
  induction n with
  | zero =>
    intro u hrun
    rw [← hrun.zero_inv]
    exact hfirst
  | succ n ih =>
    intro u hrun
    obtain ⟨t, ht, hnext⟩ := hrun.last
    exact (located_step hregs hcalls (ih t ht) (hfav n t ht (ih t ht)) hnext).1

/-- Control stays inside the code and follows the source, in every state of every run. -/
def ControlFollows (stmts : List ILStatement) (code : List Instruction) (vm₀ : Vm) : Prop :=
  ∀ n vm, RunN (next code) n vm₀ vm → vm.ip < code.length ∧ ∀ vm', next code vm = some vm' → Follows stmts vm vm'

/-- **Control flow** of a program without calls over at most ten variables, from any table of signals: it follows the
source exactly if every state of the run is favourable. -/
theorem control_iff {stmts : List ILStatement} (hvars : AtMostTen stmts) (hcalls : NoCalls stmts) :
    ∃ regs, Assigned regs stmts ∧ compileAst stmts = some (linked regs stmts) ∧
      ∀ (vm : Vm) (table : String → Option HalValue),
        ControlFollows stmts (linked regs stmts) (started vm table) ↔
          ∀ n u, RunN (next (linked regs stmts)) n (started vm table) u → Favourable regs stmts u := by
  obtain ⟨regs, hregs, hcompile⟩ := compileAst_eq hvars
  refine ⟨regs, hregs, hcompile, ?_⟩
  intro vm table
  have hfirst : Located stmts (started vm table) := .first rfl
  constructor
  · intro hcontrol
    have hfavourable : ∀ n u, RunN (next (linked regs stmts)) n (started vm table) u → Located stmts u →
        Favourable regs stmts u := by
      intro n u hrun hlocated
      refine favourable_of_follows hregs hlocated ?_
      intro m w w' hm hnext
      exact (hcontrol (n + m) w (hrun.trans hm)).2 w' hnext
    have hlocated := located_run hregs hcalls hfirst hfavourable
    intro n u hrun
    exact hfavourable n u hrun (hlocated n u hrun)
  · intro hfavourable
    have hlocated := located_run hregs hcalls hfirst fun n u hrun _ => hfavourable n u hrun
    intro n u hrun
    have hu := hlocated n u hrun
    refine ⟨hu.lt, ?_⟩
    intro u' hnext
    exact (located_step hregs hcalls hu (hfavourable n u hrun) hnext).2

end Audesys.Il

/-! ## A comparison that is false -/

namespace Audesys.Il

open Audesys.Hal Audesys.Lib

local instance releaseControl : Target := host false

/-- `LD X1`, `GT X2`, `ST Y1`; with unset signals the comparison is false. -/
def gtProgram : List ILStatement := [.load "X1", .cmp .gt "X2", .store "Y1"]

/-- The `ST` is skipped. -/
theorem gtProgram_lost : ∃ code, compileAst gtProgram = some code ∧
    ¬ ControlFollows gtProgram code (started Vm.new fun _ => none) := by
  refine ⟨_, rfl, ?_⟩
  intro hcontrol
  have hrun := (hcontrol 6 _ (.step rfl (.step rfl (.step rfl (.step rfl (.step rfl (.single rfl))))))).2 _ rfl
  have hgoes := hrun.inside (i := 1) (s := .cmp .gt "X2") rfl (by decide) (by decide)
  exact absurd hgoes (by decide)

/-- `JMP end`, `LD X1`, `end:`, `ST Y1`. -/
def jumpProgram : List ILStatement := [.jump "end", .load "X1", .label "end", .store "Y1"]

theorem jumpProgram_follows : ∃ regs, compileAst jumpProgram = some (linked regs jumpProgram) ∧
    ∀ (vm : Vm) (table : String → Option HalValue),
      ControlFollows jumpProgram (linked regs jumpProgram) (started vm table) := by
  have hvars : AtMostTen jumpProgram := ⟨["X1", "Y1"], by decide, by simp [jumpProgram, ILStatement.var?]⟩
  obtain ⟨regs, _, hcompile, hiff⟩ := control_iff hvars (by simp [NoCalls, jumpProgram])
  refine ⟨regs, hcompile, ?_⟩
  intro vm table
  refine (hiff vm table).2 ?_
  intro n u _ i s hs _
  have hmem := List.mem_of_getElem? hs
  simp only [jumpProgram, List.mem_cons, List.not_mem_nil, or_false] at hmem
  rcases hmem with rfl | rfl | rfl | rfl
  · show labelTarget jumpProgram "end" < 2 ^ 32
    decide
  · exact trivial
  · exact trivial
  · exact trivial

end Audesys.Il
