import Audesys.Hal.Machine
import Audesys.St.Interp
import Audesys.St.Layout

/-!
# `St.ExprRun` — running the code of integer expressions and comparisons

On variables that are all `DINT`, the code of an integer expression leaves its value in the destination
register and touches nothing else but the scratch registers that were free (`expr_run`); a comparison sets
the flag (`cmp_run`). The left operand is computed in the destination itself, so the destination may be the
register of a variable only if that variable is not read again further right.
-/

namespace Audesys.St

open Audesys.Hal Audesys.Lib

variable {op : BinOp}

/-! ## Scratch registers -/

/-- The register is a free scratch register. -/
def Scratch.has (sc : Scratch) (r : UInt8) : Bool :=
  (sc.s0 && r == scratch0) || (sc.s1 && r == scratch1) || (sc.s2 && r == scratch2)

/-- What an allocation takes. -/
structure Taken (sc : Scratch) (r : UInt8) (sc' : Scratch) : Prop where
  isFree : sc.has r
  taken : sc'.has r = false
  subset : ∀ r', sc'.has r' → sc.has r'
  valid : r.toNat < registerCount

theorem Scratch.alloc_taken {sc sc' : Scratch} {r : UInt8} (h : sc.alloc = some (r, sc')) : Taken sc r sc' := by
  obtain ⟨a, b, c⟩ := sc
  cases a <;> cases b <;> cases c <;> simp only [Scratch.alloc, Bool.false_eq_true, if_false, if_true] at h <;>
    cases h <;>
    exact ⟨by decide, by decide, by grind [Scratch.has], by decide⟩

theorem Scratch.has_ge {sc : Scratch} {r : UInt8} (h : sc.has r) : maxVarRegs ≤ r.toNat := by
  simp [Scratch.has] at h
  rcases h with (⟨_, rfl⟩ | ⟨_, rfl⟩) | ⟨_, rfl⟩ <;> decide

/-! ## Arithmetic on `S32` -/

variable [Target]

theorem exact_some {r : Int} {v : Int32} (h : exact r = some v) :
    (MachineInt.checked r : Option Int32) = some v := by
  unfold exact at h
  split at h
  · rename_i hr
    cases h
    exact MachineInt.checked_of_inRange hr
  · cases h

omit [Target] in
theorem exact_toInt (a : Int32) : exact a.toInt = some a := by
  have hlo := a.le_toInt
  have hhi := a.toInt_lt
  rw [exact, if_pos, Int32.ofInt_toInt]
  exact ⟨hlo, Int.le_sub_one_of_lt hhi⟩

omit [Target] in
/-- A literal that fits keeps its value in the cast to `i32`. -/
theorem exact_literal {n : Int64} {v : Int32} (h : exact n.toInt = some v) : v = n.toInt32 := by
  unfold exact at h
  split at h
  · cases h
    rw [← Int64.toInt32_ofInt, Int64.ofInt_toInt]
  · cases h

/-- The function of an operator's instruction. -/
def BinOp.halOp : BinOp → HalValue → HalValue → Option HalValue
  | .add => HalValue.add
  | .sub => HalValue.sub
  | .mul => HalValue.mul
  | .div => Exec.divOp
  | .mod => Exec.modOp
  | .and => fun a b => some (a.bitand b)
  | .or => fun a b => some (a.bitor b)
  | .xor => fun a b => some (a.bitxor b)
  | _ => fun _ _ => none

theorem BinOp.exec_opcode (h : op.isCmp = false) (vm : Vm) (args : List Operand) :
    Exec.execPlain vm ⟨op.opcode, args⟩ = Exec.execArithBinop op.halOp vm args := by
  cases op <;> first | rfl | exact absurd h (by decide)

omit [Target] in
theorem BinOp.opcode_isPlain (op : BinOp) : op.opcode.isPlain := by cases op <;> rfl

theorem isZeroDivisor_s32 (b : Int32) : (HalValue.s32 b).isZeroDivisor = decide (b = 0) := by
  simp [HalValue.isZeroDivisor, HalValue.beq]

/-- An operator as the machine computes it: an overflow wraps or panics, as the build says. -/
def runOp : BinOp → Int32 → Int32 → Option Int32
  | .add, a, b => MachineInt.add a b
  | .sub, a, b => MachineInt.sub a b
  | .mul, a, b => MachineInt.mul a b
  | .div, a, b => if b = 0 then some 0 else MachineInt.div a b
  | .mod, a, b => if b = 0 then some 0 else MachineInt.rem a b
  | .and, a, b => some (a &&& b)
  | .or, a, b => some (a ||| b)
  | .xor, a, b => some (a ^^^ b)
  | _, _, _ => none

/-- The value of an integer expression in the machine's arithmetic. -/
def runExpr (ρ : String → Int32) : Expr → Option Int32
  | .intLiteral n => some n.toInt32
  | .var name => some (ρ name)
  | .binary left op right => do
    let a ← runExpr ρ left
    let b ← runExpr ρ right
    runOp op a b
  | .unary .neg inner => do
    let a ← runExpr ρ inner
    MachineInt.sub 0 a
  | .unary .not inner => (runExpr ρ inner).map fun a => ~~~a
  | _ => none

omit [Target] in
theorem exact_inRange {r : Int} {v : Int32} (h : exact r = some v) :
    MachineInt.InRange Int32 r ∧ v = Int32.ofInt r := by
  unfold exact at h
  split at h
  · rename_i hr
    cases h
    exact ⟨hr, rfl⟩
  · cases h

/-- Where nothing overflows, the machine's arithmetic is exact. -/
theorem runOp_of_evalOp {a b v : Int32} (h : evalOp op a b = some v) : runOp op a b = some v := by
  have hne : ∀ {x : Int32}, x ≠ 0 → x.toInt ≠ 0 := fun hx h0 => hx (Int32.toInt_inj.1 h0)
  cases op with
  | add => exact exact_some h
  | sub => exact exact_some h
  | mul => exact exact_some h
  | div =>
    simp only [evalOp, runOp] at h ⊢
    split at h
    · rename_i hb
      rw [if_pos hb, h]
    · rename_i hb
      obtain ⟨hr, rfl⟩ := exact_inRange h
      rw [if_neg hb]
      exact (if_neg (hne hb)).trans (if_pos hr)
  | mod =>
    simp only [evalOp, runOp] at h ⊢
    split at h
    · rename_i hb
      rw [if_pos hb, h]
    · rename_i hb
      obtain ⟨q, hq, rfl⟩ := Option.map_eq_some_iff.1 h
      rw [if_neg hb]
      exact (if_neg (hne hb)).trans (if_pos (exact_inRange hq).1)
  | _ => exact h

theorem runExpr_of_evalExpr {ρ : String → Int32} (e : Expr) {v : Int32} (h : evalExpr ρ e = some v) :
    runExpr ρ e = some v := by
  induction e generalizing v with
  | intLiteral n => rw [exact_literal h]; rfl
  | var name => exact h
  | binary left op right hl hr =>
    simp only [evalExpr, bind_some] at h
    obtain ⟨a, ha, b, hb, h⟩ := h
    simp [runExpr, hl ha, hr hb, runOp_of_evalOp h]
  | unary op inner ih =>
    cases op with
    | neg =>
      simp only [evalExpr, bind_some] at h
      obtain ⟨a, ha, h⟩ := h
      simp [runExpr, ih ha]
      have hsub : evalOp .sub 0 a = some v := by simpa [evalOp] using h
      exact runOp_of_evalOp hsub
    | not =>
      simp [evalExpr] at h
      obtain ⟨a, ha, rfl⟩ := h
      simp only [runExpr, ih ha, Option.map_some]
  | _ => cases h

/-- **The VM computes** the machine's arithmetic on `S32` values. -/
theorem halOp_s32_eq (op : BinOp) (a b : Int32) : op.halOp (.s32 a) (.s32 b) = (runOp op a b).map .s32 := by
  cases op with
  | div =>
    simp [BinOp.halOp, Exec.divOp, isZeroDivisor_s32, runOp]
    by_cases hb : b = 0
    · rw [if_pos hb, if_pos hb, Option.map_some]
    · rw [if_neg hb, if_neg hb]
      rfl
  | mod =>
    simp [BinOp.halOp, Exec.modOp, isZeroDivisor_s32, runOp]
    by_cases hb : b = 0
    · rw [if_pos hb, if_pos hb, Option.map_some]
    · rw [if_neg hb, if_neg hb]
      rfl
  | _ => rfl

theorem halOp_s32 {a b v : Int32} (h : runOp op a b = some v) : op.halOp (.s32 a) (.s32 b) = some (.s32 v) := by
  rw [halOp_s32_eq, h, Option.map_some]

/-- The function of a comparison's instruction. -/
def BinOp.halCmp : BinOp → HalValue → HalValue → Bool
  | .eq => HalValue.beq
  | .neq => fun a b => !a.beq b
  | .gt => HalValue.gt
  | .lt => HalValue.lt
  | .gte => HalValue.ge
  | .lte => HalValue.le
  | _ => fun _ _ => false

theorem BinOp.exec_cmp (h : op.isCmp) (vm : Vm) (args : List Operand) :
    Exec.execPlain vm ⟨op.opcode, args⟩ = Exec.execCompare op.halCmp vm args := by
  cases op <;> first | rfl | exact absurd h (by decide)

theorem halCmp_s32 (h : op.isCmp) (a b : Int32) : op.halCmp (.s32 a) (.s32 b) = evalCmp op a b := by
  have hinj : a.toInt = b.toInt ↔ a = b := Int32.toInt_inj
  have hcmp : compare a.toInt b.toInt = if a.toInt < b.toInt then Ordering.lt
      else if a.toInt = b.toInt then .eq else .gt := rfl
  cases op <;> simp [BinOp.isCmp] at h
  · simp [BinOp.halCmp, HalValue.beq, evalCmp, hinj]
  · simp [BinOp.halCmp, HalValue.beq, evalCmp, hinj]
  all_goals
    simp [BinOp.halCmp, HalValue.gt, HalValue.lt, HalValue.ge, HalValue.le, HalValue.partialCmp, hcmp, evalCmp]
    split
    · simp; omega
    · split <;> simp <;> omega

/-! ## Expressions -/

/-- The variables have registers of their own, below the scratch ones. -/
structure VarDecls (d : Decls) : Prop where
  below : ∀ {x r}, d.registers x = some r → r.toNat < maxVarRegs
  inj : ∀ {x y r}, d.registers x = some r → d.registers y = some r → x = y

/-- The variables `xs` are `DINT`. -/
def Dints (d : Decls) (xs : List String) : Prop :=
  ∀ x ∈ xs, ∀ r, d.registers x = some r → d.varTypes x = some .dint

/-- The registers hold the values of the variables `xs`. -/
def Holds (d : Decls) (ρ : String → Int32) (xs : List String) (vm : Vm) : Prop :=
  ∀ x ∈ xs, ∀ r, d.registers x = some r → vm.get r = .s32 (ρ x)

/-- All but `P` is unchanged. -/
structure Frame (P : UInt8 → Prop) (vm vm' : Vm) : Prop where
  regs : ∀ r, ¬ P r → vm'.get r = vm.get r
  signals : vm'.signals = vm.signals

namespace Frame

variable {P Q : UInt8 → Prop} {vm vm' vm'' : Vm}

theorem refl (P : UInt8 → Prop) (vm : Vm) : Frame P vm vm := ⟨fun _ _ => rfl, rfl⟩

theorem trans (h₁ : Frame P vm vm') (h₂ : Frame P vm' vm'') : Frame P vm vm'' :=
  ⟨fun r hr => (h₂.regs r hr).trans (h₁.regs r hr), h₂.signals.trans h₁.signals⟩

theorem mono (h : Frame P vm vm') (hPQ : ∀ r, P r → Q r) : Frame Q vm vm' :=
  ⟨fun r hr => h.regs r fun hp => hr (hPQ r hp), h.signals⟩

/-- A write to a register in `P`. -/
theorem set {r : UInt8} (h : P r) (v : HalValue) : Frame P vm (vm.set r v).advanceIp := by
  refine ⟨fun r' hr' => ?_, by simp⟩
  have hne : r' ≠ r := fun heq => hr' (heq ▸ h)
  rw [Vm.advanceIp_get, Vm.get_set_ne _ _ hne]

end Frame

section
variable {d : Decls} {code : List Instruction} {ρ : String → Int32}

theorem Holds.frame {xs : List String} {P : UInt8 → Prop} {vm vm' : Vm} (h : Holds d ρ xs vm)
    (hf : Frame P vm vm') (hP : ∀ x ∈ xs, ∀ r, d.registers x = some r → ¬ P r) : Holds d ρ xs vm' := by
  intro x hx r hr
  rw [hf.regs r (hP x hx r hr), h x hx r hr]

omit [Target] in
/-- A scratch register is no variable's. -/
theorem VarDecls.not_has (hd : VarDecls d) {sc : Scratch} {x : String} {r : UInt8} (h : d.registers x = some r) :
    ¬ sc.has r := fun hs => absurd (Scratch.has_ge hs) (Nat.not_le.2 (hd.below h))

omit [Target] in
theorem VarDecls.valid (hd : VarDecls d) {x : String} {r : UInt8} (h : d.registers x = some r) :
    r.toNat < registerCount := Nat.lt_trans (hd.below h) (by decide)

/-- What a finished computation of `v` into `dest` leaves. -/
structure Computed (dest : UInt8) (sc : Scratch) (v : Int32) (stop : Nat) (vm vm' : Vm) : Prop where
  value : vm'.get dest = .s32 v
  ip : vm'.ip = stop
  frame : Frame (fun r => r = dest ∨ sc.has r) vm vm'

/-- **Expressions run to their value.** -/
theorem expr_run (hd : VarDecls d) (e : Expr) {sc : Scratch} {base : Nat} {dest : UInt8}
    {c : List Instruction} {vm : Vm} {v : Int32} (hc : genExpr d e sc base dest = some c) (hint : e.isInt)
    (hat : CodeAt code vm.ip c) (hdest : dest.toNat < registerCount) (hfree : sc.has dest = false)
    (hclear : ∀ x ∈ e.rightVars, d.registers x ≠ some dest) (hdint : Dints d e.vars)
    (hvars : Holds d ρ e.vars vm) (hv : runExpr ρ e = some v) :
    ∃ n vm', RunN (advance code) n vm vm' ∧ Computed dest sc v (vm.ip + c.length) vm vm' := by
  induction e generalizing sc base dest c vm v with
  | realLiteral x => exact absurd hint (by simp [Expr.isInt])
  | boolLiteral b => exact absurd hint (by simp [Expr.isInt])
  | arrayAccess name index ih => exact absurd hint (by simp [Expr.isInt])
  | fieldAccess name field => exact absurd hint (by simp [Expr.isInt])
  | intLiteral k =>
    cases hc
    cases hv
    have h₁ : next code vm = some (vm.set dest (.s32 k.toInt32)).advanceIp := next_loadImm hat.head hdest
    refine ⟨1, _, .single (advance_eq.2 ⟨h₁, by simp⟩), ⟨?_, by simp, .set (.inl rfl) _⟩⟩
    rw [Vm.advanceIp_get, Vm.get_set_self _ _ _ hdest]
  | var name =>
    simp only [genExpr, bind_some] at hc
    obtain ⟨src, hsrc, hc⟩ := hc
    cases hv
    have hval : vm.get src = .s32 (ρ name) := hvars name (by simp [Expr.vars]) src hsrc
    split at hc
    · rename_i heq
      cases hc
      exact ⟨0, vm, .refl vm, heq ▸ hval, by simp, .refl _ vm⟩
    · rename_i hne
      cases hc
      -- the copy adds the zero of the declared type
      have hzero : d.zeroForVar name = .s32 0 := by
        rw [Decls.zeroForVar, hdint name (by simp [Expr.vars]) src hsrc]
        rfl
      have h₁ : next code vm = some (vm.set dest (.s32 0)).advanceIp := next_loadImm (hzero ▸ hat.head) hdest
      have h₂ : next code (vm.set dest (.s32 0)).advanceIp =
          some ((vm.set dest (.s32 0)).advanceIp.set dest (.s32 (ρ name))).advanceIp := by
        refine next_arith (f := HalValue.add) (by simpa using hat.tail.head) rfl (fun _ _ => rfl)
          (hd.valid hsrc) hdest hdest ?_
        rw [Vm.advanceIp_get, Vm.advanceIp_get, Vm.get_set_ne _ _ hne, Vm.get_set_self _ _ _ hdest, hval]
        have hadd : evalOp .add (ρ name) 0 = some (ρ name) := by simpa [evalOp] using exact_toInt (ρ name)
        exact halOp_s32 (runOp_of_evalOp hadd)
      refine ⟨2, _, (RunN.single (advance_eq.2 ⟨h₁, by simp⟩)).snoc (advance_eq.2 ⟨h₂, by simp⟩),
        ⟨?_, by simp, ?_⟩⟩
      · rw [Vm.advanceIp_get, Vm.get_set_self _ _ _ hdest]
      · exact (Frame.set (.inl rfl) _).trans (.set (.inl rfl) _)
  | binary left op right hl hr =>
    simp [Expr.isInt] at hint
    obtain ⟨⟨hop, hintl⟩, hintr⟩ := hint
    simp [Expr.rightVars] at hclear
    simp only [runExpr, bind_some] at hv
    obtain ⟨a, ha, b, hb, hv⟩ := hv
    -- both arms put the right operand in a fresh scratch register; they differ in when it is allocated
    have key : ∀ (scl sc₁ : Scratch) (s : UInt8) (cl cr : List Instruction), sc.alloc = some (s, sc₁) →
        (∀ r, scl.has r → sc.has r) → genExpr d left scl base dest = some cl →
        genExpr d right sc₁ (base + cl.length) s = some cr →
        CodeAt code vm.ip (cl ++ cr ++ [Instruction.arith op.opcode dest s dest]) →
        ∃ n vm', RunN (advance code) n vm vm' ∧
          Computed dest sc v (vm.ip + (cl ++ cr ++ [Instruction.arith op.opcode dest s dest]).length) vm vm' := by
      intro scl sc₁ s cl cr halloc hsub hcl hcr hat
      have htaken := Scratch.alloc_taken halloc
      have hne : dest ≠ s := by
        rintro rfl
        exact absurd htaken.isFree (by simp [hfree])
      obtain ⟨n₁, vm₁, hrun₁, hval₁, hip₁, hframe₁⟩ := hl hcl hintl hat.left.left hdest
        (Bool.eq_false_iff.2 fun h => by simp [hsub dest h] at hfree)
        (fun x hx => hclear x (.inl hx)) (fun x hx => hdint x (by simp [Expr.vars, hx]))
        (fun x hx => hvars x (by simp [Expr.vars, hx])) ha
      have hvars₁ : Holds d ρ right.vars vm₁ := by
        refine Holds.frame (fun x hx => hvars x (by simp [Expr.vars, hx])) hframe₁ ?_
        rintro x hx r hr (rfl | hs)
        · exact hclear x (.inr hx) hr
        · exact hd.not_has hr hs
      obtain ⟨n₂, vm₂, hrun₂, hval₂, hip₂, hframe₂⟩ := hr hcr hintr
        (by rw [hip₁]; exact hat.left.right) htaken.valid htaken.taken
        (fun x _ hx => hd.not_has hx htaken.isFree) (fun x hx => hdint x (by simp [Expr.vars, hx])) hvars₁ hb
      have hdest₂ : vm₂.get dest = .s32 a := by
        rw [hframe₂.regs dest, hval₁]
        rintro (h | h)
        · exact hne h
        · exact absurd (htaken.subset dest h) (by simp [hfree])
      have h₃ : next code vm₂ = some (vm₂.set dest (.s32 v)).advanceIp := by
        refine next_arith (f := op.halOp) ?_ op.opcode_isPlain (BinOp.exec_opcode hop) hdest htaken.valid
          hdest ?_
        · have hlast := hat.right.head
          rwa [List.length_append, ← Nat.add_assoc, ← hip₁, ← hip₂] at hlast
        · rw [hdest₂, hval₂]
          exact halOp_s32 hv
      refine ⟨_, _, (hrun₁.trans hrun₂).snoc (advance_eq.2 ⟨h₃, by simp⟩), ⟨?_, ?_, ?_⟩⟩
      · rw [Vm.advanceIp_get, Vm.get_set_self _ _ _ hdest]
      · simp [hip₂, hip₁]
        omega
      · have hf₁ := hframe₁.mono (Q := fun r => r = dest ∨ sc.has r) fun r => Or.imp_right (hsub r)
        have hf₂ := hframe₂.mono (Q := fun r => r = dest ∨ sc.has r) fun r h =>
          .inr (h.elim (fun heq => heq ▸ htaken.isFree) (htaken.subset r))
        exact (hf₁.trans hf₂).trans (.set (.inl rfl) _)
    by_cases harith : op.isArith
    · simp only [genExpr, if_pos harith, bind_some, Prod.exists, Option.some.injEq] at hc
      obtain ⟨cl, hcl, s, sc₁, halloc, cr, hcr, rfl⟩ := hc
      exact key sc sc₁ s cl cr halloc (fun _ h => h) hcl hcr hat
    · simp only [genExpr, if_neg harith, hop, Bool.false_eq_true, if_false, bind_some, Prod.exists, Option.some.injEq] at hc
      obtain ⟨s, sc₁, halloc, cl, hcl, cr, hcr, rfl⟩ := hc
      exact key sc₁ sc₁ s cl cr halloc (Scratch.alloc_taken halloc).subset hcl hcr hat
  | unary op inner ih =>
    cases op with
    | neg =>
      simp only [genExpr, bind_some, Prod.exists, Option.some.injEq] at hc
      obtain ⟨c₀, hc₀, zero, sc₁, halloc, rfl⟩ := hc
      simp only [runExpr, bind_some] at hv
      obtain ⟨a, ha, hv⟩ := hv
      have htaken := Scratch.alloc_taken halloc
      have hne : dest ≠ zero := by
        rintro rfl
        exact absurd htaken.isFree (by simp [hfree])
      obtain ⟨n₁, vm₁, hrun₁, hval₁, hip₁, hframe₁⟩ := ih hc₀ hint hat.left hdest hfree hclear hdint hvars ha
      have hat₁ : CodeAt code vm₁.ip [.loadImm zero (.s32 0), .arith .sub zero dest dest] := by
        rw [hip₁]
        exact hat.right
      have h₂ : next code vm₁ = some (vm₁.set zero (.s32 0)).advanceIp := next_loadImm hat₁.head htaken.valid
      have h₃ : next code (vm₁.set zero (.s32 0)).advanceIp =
          some ((vm₁.set zero (.s32 0)).advanceIp.set dest (.s32 v)).advanceIp := by
        refine next_arith (f := HalValue.sub) (by simpa using hat₁.tail.head) rfl (fun _ _ => rfl)
          htaken.valid hdest hdest ?_
        rw [Vm.advanceIp_get, Vm.advanceIp_get, Vm.get_set_self _ _ _ htaken.valid, Vm.get_set_ne _ _ hne,
          hval₁]
        have hsub : runOp .sub 0 a = some v := hv
        exact halOp_s32 hsub
      refine ⟨_, _, (hrun₁.snoc (advance_eq.2 ⟨h₂, by simp⟩)).snoc (advance_eq.2 ⟨h₃, by simp⟩), ⟨?_, ?_, ?_⟩⟩
      · rw [Vm.advanceIp_get, Vm.get_set_self _ _ _ hdest]
      · simp [hip₁, Nat.add_assoc]
      · exact (hframe₁.trans (.set (.inr htaken.isFree) _)).trans (.set (.inl rfl) _)
    | not =>
      simp only [genExpr, bind_some, Option.some.injEq] at hc
      obtain ⟨c₀, hc₀, rfl⟩ := hc
      simp [runExpr] at hv
      obtain ⟨a, ha, rfl⟩ := hv
      obtain ⟨n₁, vm₁, hrun₁, hval₁, hip₁, hframe₁⟩ := ih hc₀ hint hat.left hdest hfree hclear hdint hvars ha
      have h₂ : next code vm₁ = some (vm₁.set dest (.s32 (~~~a))).advanceIp := by
        refine (next_not (hip₁ ▸ hat.right.head) hdest).trans ?_
        rw [hval₁]
        rfl
      refine ⟨_, _, hrun₁.snoc (advance_eq.2 ⟨h₂, by simp⟩), ⟨?_, ?_, ?_⟩⟩
      · rw [Vm.advanceIp_get, Vm.get_set_self _ _ _ hdest]
      · simp [hip₁, Nat.add_assoc]
      · exact hframe₁.trans (.set (.inl rfl) _)

/-- **Comparisons run to their flag.** -/
theorem cmp_run (hd : VarDecls d) {left right : Expr} {sc : Scratch} {base : Nat}
    {c : List Instruction} {vm : Vm} {a b : Int32}
    (hc : genCmp (genExpr d left) (genExpr d right) op sc base = some c) (hop : op.isCmp)
    (hintl : left.isInt) (hintr : right.isInt) (hat : CodeAt code vm.ip c)
    (hdl : Dints d left.vars) (hdr : Dints d right.vars)
    (hl : Holds d ρ left.vars vm) (hr : Holds d ρ right.vars vm)
    (ha : runExpr ρ left = some a) (hb : runExpr ρ right = some b) :
    ∃ n vm', RunN (advance code) n vm vm' ∧ vm'.flagsZero = evalCmp op a b ∧ vm'.ip = vm.ip + c.length ∧
      Frame (sc.has ·) vm vm' := by
  simp only [genCmp, bind_some, Prod.exists, Option.some.injEq] at hc
  obtain ⟨rs, sc₁, halloc₁, cr, hcr, ls, sc₂, halloc₂, cl, hcl, rfl⟩ := hc
  have ht₁ := Scratch.alloc_taken halloc₁
  have ht₂ := Scratch.alloc_taken halloc₂
  obtain ⟨n₁, vm₁, hrun₁, hval₁, hip₁, hframe₁⟩ := expr_run hd right hcr hintr hat.left.left ht₁.valid ht₁.taken
    (fun x _ hx => hd.not_has hx ht₁.isFree) hdr hr hb
  have hsub₁ : ∀ r, (r = rs ∨ sc₁.has r) → sc.has r := fun r h =>
    h.elim (fun heq => heq ▸ ht₁.isFree) (ht₁.subset r)
  obtain ⟨n₂, vm₂, hrun₂, hval₂, hip₂, hframe₂⟩ := expr_run hd left hcl hintl
    (by rw [hip₁]; exact hat.left.right) ht₂.valid ht₂.taken (fun x _ hx => hd.not_has hx ht₂.isFree) hdl
    (hl.frame hframe₁ fun x _ r hr h => hd.not_has hr (hsub₁ r h)) ha
  have hsub₂ : ∀ r, (r = ls ∨ sc₂.has r) → sc₁.has r := fun r h =>
    h.elim (fun heq => heq ▸ ht₂.isFree) (ht₂.subset r)
  have hright : vm₂.get rs = .s32 b := by
    rw [hframe₂.regs rs, hval₁]
    intro h
    exact absurd (hsub₂ rs h) (by simp [ht₁.taken])
  have hlast : code[vm₂.ip]? = some (.cmp op.opcode ls rs) := by
    have hlast := hat.right.head
    rwa [List.length_append, ← Nat.add_assoc, ← hip₁, ← hip₂] at hlast
  have h₃ := next_cmp (f := op.halCmp) hlast op.opcode_isPlain (BinOp.exec_cmp hop) ht₂.valid ht₁.valid
  rw [hval₂, hright, halCmp_s32 hop] at h₃
  refine ⟨_, _, (hrun₁.trans hrun₂).snoc (advance_eq.2 ⟨h₃, by simp⟩), by simp, ?_, ?_⟩
  · simp [hip₂, hip₁]
    omega
  · have hf := (hframe₁.mono hsub₁).trans (hframe₂.mono fun r h => ht₁.subset r (hsub₂ r h))
    exact ⟨fun r hr => by simpa using hf.regs r hr, by simpa using hf.signals⟩

end

end Audesys.St
