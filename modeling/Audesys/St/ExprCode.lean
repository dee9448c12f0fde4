import Audesys.Lib.Segment
import Audesys.St.Correctness
import Audesys.St.Sites

/-!
# `St.ExprCode` — what the code of an expression computes

`expr_run` is about integer expressions whose code keeps clear of the variables it still reads. Here is what
the code of any expression of variables, literals and operators computes, into any register, from any
registers (`codeValue`, `code_ends`): a variable is copied by adding the zero of its type, a comparison leaves
`FALSE` when it holds, and where the destination is a variable's own register, right operands read in it what
the left operand has left there.
-/

namespace Audesys.St

open Audesys.Hal Audesys.Lib

variable [Target]

/-- The destination `own`, if it is a variable's register, holds `v`. -/
def overwrite (own : Option UInt8) (v : HalValue) (regs : UInt8 → HalValue) : UInt8 → HalValue := fun r =>
  if own = some r then v else regs r

/-- The value that the code of an expression leaves in its destination, which is the register `own` of a
    variable or a scratch register; `none` is a panic. -/
def codeValue (d : Decls) : Option UInt8 → Expr → (UInt8 → HalValue) → Option HalValue
  | _, .intLiteral n, _ => some (.s32 n.toInt32)
  | _, .realLiteral x, _ => some (.f32 (Target.narrow x))
  | _, .boolLiteral b, _ => some (.bool b)
  | own, .var name, regs =>
    (d.registers name).bind fun src =>
      if own = some src then some (regs src) else (regs src).add (d.zeroForVar name)
  | own, .binary left op right, regs =>
    if op.isCmp then
      (codeValue d none right regs).bind fun b =>
        (codeValue d none left regs).bind fun a => some (.bool (!op.halCmp a b))
    else
      (codeValue d own left regs).bind fun a =>
        (codeValue d none right (overwrite own a regs)).bind fun b => op.halOp a b
  | own, .unary .neg inner, regs => (codeValue d own inner regs).bind fun a => HalValue.sub (.s32 0) a
  | own, .unary .not inner, regs => (codeValue d own inner regs).bind fun a => some a.not
  -- array elements and fields are not covered
  | _, .arrayAccess _ _, _ | _, .fieldAccess _ _, _ => none

/-- Expressions of variables, literals and operators. -/
def Expr.isPlain : Expr → Bool
  | .binary left _ right => left.isPlain && right.isPlain
  | .unary _ inner => inner.isPlain
  | .arrayAccess _ _ | .fieldAccess _ _ => false
  | _ => true

/-- The registers of the variables `xs` hold `regs`. -/
def Reads (d : Decls) (xs : List String) (regs : UInt8 → HalValue) (vm : Vm) : Prop :=
  ∀ x ∈ xs, ∀ r, d.registers x = some r → vm.get r = regs r

/-- `own` says which variable's register the destination is. -/
def Owns (d : Decls) (own : Option UInt8) (dest : UInt8) : Prop :=
  ∀ x r, d.registers x = some r → (own = some r ↔ r = dest)

/-- The value is in the destination, and only that and free scratch registers have changed. -/
structure Delivers (dest : UInt8) (sc : Scratch) (vm : Vm) (v : HalValue) (vm' : Vm) : Prop where
  value : vm'.get dest = v
  frame : Frame (fun r => r = dest ∨ sc.has r) vm vm'

section
variable {d : Decls} {code : List Instruction} {sc : Scratch} {regs : UInt8 → HalValue} {vm : Vm}

omit [Target] in
/-- A scratch register is nobody's own. -/
theorem owns_scratch (hd : VarDecls d) {s : UInt8} (h : sc.has s) : Owns d none s := by
  intro x r hr
  constructor
  · intro hnone
    cases hnone
  · rintro rfl
    exact absurd h (hd.not_has hr)

/-- Right operands read what the left operand has left. -/
theorem Reads.overwrite {own : Option UInt8} {dest : UInt8} {xs : List String} {v : HalValue} {vm' : Vm}
    (h : Reads d xs regs vm) (hown : Owns d own dest) (hd : VarDecls d) (hl : Delivers dest sc vm v vm') :
    Reads d xs (overwrite own v regs) vm' := by
  intro x hx r hr
  by_cases hdest : own = some r
  · rw [St.overwrite, if_pos hdest, (hown x r hr).1 hdest]
    exact hl.value
  · rw [St.overwrite, if_neg hdest, ← h x hx r hr]
    apply hl.frame.regs
    rintro (heq | hs)
    · exact hdest ((hown x r hr).2 heq)
    · exact hd.not_has hr hs

theorem Reads.frame {xs : List String} {P : UInt8 → Prop} {vm' : Vm} (h : Reads d xs regs vm)
    (hf : Frame P vm vm') (hP : ∀ x ∈ xs, ∀ r, d.registers x = some r → ¬ P r) : Reads d xs regs vm' := by
  intro x hx r hr
  rw [hf.regs r (hP x hx r hr), h x hx r hr]

/-- One instruction that writes the destination. -/
theorem ends_write {dest : UInt8} {v : HalValue} {hi : Nat} (hnext : next code vm = some (vm.set dest v).advanceIp)
    (hdest : dest.toNat < registerCount) (hhi : vm.ip + 1 = hi) :
    Ends (next code) Vm.ip vm.ip hi vm (some v) (Delivers dest sc vm) := by
  refine .step (Nat.le_refl _) (by omega) hnext (.done (by simpa using hhi) ⟨?_, .set (.inl rfl) v⟩)
  rw [Vm.advanceIp_get, Vm.get_set_self _ _ _ hdest]

/-- An operator's instruction computes its function. -/
theorem ends_arith {f : HalValue → HalValue → Option HalValue} {op : Opcode} {a b dest : UInt8} {hi : Nat}
    (h : code[vm.ip]? = some (.arith op a b dest)) (hop : op.isPlain)
    (hf : ∀ vm args, Exec.execPlain vm ⟨op, args⟩ = Exec.execArithBinop f vm args)
    (ha : a.toNat < registerCount) (hb : b.toNat < registerCount) (hdest : dest.toNat < registerCount)
    (hhi : vm.ip + 1 = hi) :
    Ends (next code) Vm.ip vm.ip hi vm (f (vm.get a) (vm.get b)) (Delivers dest sc vm) := by
  cases hv : f (vm.get a) (vm.get b) with
  | some v => exact ends_write (next_arith h hop hf ha hb hdest hv) hdest hhi
  | none =>
    refine .stuck (Nat.le_refl _) (by omega) ?_
    unfold next
    rw [step_arith_none h hop hf ha hb hv]

/-- A comparison whose value is wanted: the flag takes the jump over the second load, so that a comparison that
    holds leaves `FALSE`. -/
theorem ends_flag {dest : UInt8} {stop hi : Nat} (hcode : code.length < 2 ^ 32) (hdest : dest.toNat < registerCount)
    (hat : CodeAt code vm.ip [.loadImm dest (.bool false), .jumpIf (label stop), .loadImm dest (.bool true)])
    (hstop : stop = vm.ip + 3) (hhi : vm.ip + 3 = hi) :
    Ends (next code) Vm.ip vm.ip hi vm (some (.bool (!vm.flagsZero))) (Delivers dest sc vm) := by
  have hlabel : (label stop).toNat = stop := label_toNat (by
    have := hat.bound
    simp at this
    omega)
  have h₁ : next code vm = some (vm.set dest (.bool false)).advanceIp := next_loadImm hat.head hdest
  refine .step (Nat.le_refl _) (by omega) h₁ ?_
  have hjump : code[(vm.set dest (.bool false)).advanceIp.ip]? = some (.jumpIf (label stop)) := by
    simpa using hat.tail.head
  cases hflag : vm.flagsZero with
  | true =>
    have h₂ := next_jumpIf_taken hjump (by simpa using hflag)
    refine .step (by simp) (by simp; omega) h₂ (.done (by simp [hlabel]; omega) ⟨?_, ?_⟩)
    · simp [Vm.get_set_self _ _ _ hdest]
    · have hframe : Frame (fun r => r = dest ∨ sc.has r) vm (vm.set dest (.bool false)).advanceIp :=
        .set (.inl rfl) _
      exact ⟨hframe.regs, hframe.signals⟩
  | false =>
    have h₂ := next_jumpIf_through hjump (by simpa using hflag)
    refine .step (by simp) (by simp; omega) h₂ ?_
    have h₃ : next code (vm.set dest (.bool false)).advanceIp.advanceIp =
        some ((vm.set dest (.bool false)).advanceIp.advanceIp.set dest (.bool true)).advanceIp :=
      next_loadImm (by simpa using hat.tail.tail.head) hdest
    refine .step (by simp; omega) (by simp; omega) h₃ (.done (by simp; omega) ⟨?_, ?_⟩)
    · rw [Vm.advanceIp_get, Vm.get_set_self _ _ _ hdest]
      rfl
    · have hframe : Frame (fun r => r = dest ∨ sc.has r) vm (vm.set dest (.bool false)).advanceIp :=
        .set (.inl rfl) _
      exact (show Frame (fun r => r = dest ∨ sc.has r) vm (vm.set dest (.bool false)).advanceIp.advanceIp from
        ⟨hframe.regs, hframe.signals⟩).trans (.set (.inl rfl) _)

/-- A copy adds the zero of the declared type. -/
theorem ends_copy {src dest : UInt8} {zero : HalValue} {hi : Nat} (hne : src ≠ dest)
    (hat : CodeAt code vm.ip [.loadImm dest zero, .arith .add src dest dest]) (hsrc : src.toNat < registerCount)
    (hdest : dest.toNat < registerCount) (hhi : vm.ip + 2 = hi) :
    Ends (next code) Vm.ip vm.ip hi vm ((vm.get src).add zero) (Delivers dest sc vm) := by
  have h₁ : next code vm = some (vm.set dest zero).advanceIp := next_loadImm hat.head hdest
  refine .step (Nat.le_refl _) (by omega) h₁ ?_
  have hadd := @ends_arith _ code sc (vm.set dest zero).advanceIp HalValue.add _ _ _ _ hi
    (by simpa using hat.tail.head) rfl (fun _ _ => rfl) hsrc hdest hdest (by simpa using hhi)
  rw [Vm.advanceIp_get, Vm.advanceIp_get, Vm.get_set_ne _ _ hne, Vm.get_set_self _ _ _ hdest] at hadd
  refine (hadd.widen (by simp)).mono ?_
  intro v vm' _ hv
  exact ⟨hv.value, (Frame.set (.inl rfl) _).trans hv.frame⟩

/-- The negation subtracts from a zero in a scratch register. -/
theorem ends_neg {zero dest : UInt8} {hi : Nat} (hne : dest ≠ zero) (hhas : sc.has zero)
    (hat : CodeAt code vm.ip [.loadImm zero (.s32 0), .arith .sub zero dest dest])
    (hzero : zero.toNat < registerCount) (hdest : dest.toNat < registerCount) (hhi : vm.ip + 2 = hi) :
    Ends (next code) Vm.ip vm.ip hi vm (HalValue.sub (.s32 0) (vm.get dest)) (Delivers dest sc vm) := by
  have h₁ : next code vm = some (vm.set zero (.s32 0)).advanceIp := next_loadImm hat.head hzero
  refine .step (Nat.le_refl _) (by omega) h₁ ?_
  have hsub := @ends_arith _ code sc (vm.set zero (.s32 0)).advanceIp HalValue.sub _ _ _ _ hi
    (by simpa using hat.tail.head) rfl (fun _ _ => rfl) hzero hdest hdest (by simpa using hhi)
  rw [Vm.advanceIp_get, Vm.advanceIp_get, Vm.get_set_self _ _ _ hzero, Vm.get_set_ne _ _ hne] at hsub
  refine (hsub.widen (by simp)).mono ?_
  intro v vm' _ hv
  exact ⟨hv.value, (Frame.set (.inr hhas) _).trans hv.frame⟩

/-- What the code of an expression does, wherever it is placed. -/
def Computes (d : Decls) (code : List Instruction) (e : Expr) : Prop :=
  ∀ {sc : Scratch} {vm : Vm} {own : Option UInt8} {dest : UInt8} {c : List Instruction} {regs : UInt8 → HalValue},
    genExpr d e sc vm.ip dest = some c → e.isPlain → CodeAt code vm.ip c → dest.toNat < registerCount →
      sc.has dest = false → Owns d own dest → Reads d e.vars regs vm →
        Ends (next code) Vm.ip vm.ip (vm.ip + c.length) vm (codeValue d own e regs) (Delivers dest sc vm)

section
variable {left right : Expr} {op : BinOp} {own : Option UInt8} {dest : UInt8}

/-- A comparison: the right operand first, both in scratch registers, and then the flag. -/
theorem cmp_ends (hd : VarDecls d) (hcode : code.length < 2 ^ 32) (hl : Computes d code left)
    (hr : Computes d code right) (hplainl : left.isPlain) (hplainr : right.isPlain) (hcmp : op.isCmp)
    {c : List Instruction} (hc : genExpr d (.binary left op right) sc vm.ip dest = some c) (hat : CodeAt code vm.ip c)
    (hdest : dest.toNat < registerCount) (hrl : Reads d left.vars regs vm) (hrr : Reads d right.vars regs vm) :
    Ends (next code) Vm.ip vm.ip (vm.ip + c.length) vm (codeValue d own (.binary left op right) regs)
      (Delivers dest sc vm) := by
  have harith : ¬ op.isArith := by cases op <;> simp_all [BinOp.isCmp, BinOp.isArith]
  simp only [genExpr, if_neg harith, if_pos hcmp, genCmp, bind_some, Prod.exists, Option.some.injEq] at hc
  obtain ⟨_, ⟨rs, sc₁, halloc₁, cr, hcr, ls, sc₂, halloc₂, cl, hcl, rfl⟩, rfl⟩ := hc
  have ht₁ := Scratch.alloc_taken halloc₁
  have ht₂ := Scratch.alloc_taken halloc₂
  have hlen : vm.ip + (cr ++ cl ++ [Instruction.cmp op.opcode ls rs] ++ [Instruction.loadImm dest (.bool false),
      .jumpIf (label (vm.ip + (cr ++ cl ++ [Instruction.cmp op.opcode ls rs]).length + 3)),
      .loadImm dest (.bool true)]).length = vm.ip + cr.length + cl.length + 1 + 3 := by
    simp
    omega
  rw [codeValue, if_pos hcmp, hlen]
  refine (hr hcr hplainr hat.left.left.left ht₁.valid ht₁.taken (owns_scratch hd ht₁.isFree) hrr).bind
    (Nat.le_add_right _ _) (by omega) ?_
  intro b vm₁ hip₁ hv₁
  -- scratch registers are nobody's own: the left operand still reads the same variables
  have hframe₁ : Frame (sc.has ·) vm vm₁ := hv₁.frame.mono fun r h =>
    h.elim (fun heq => heq ▸ ht₁.isFree) (ht₁.subset r)
  have hrl₁ : Reads d left.vars regs vm₁ := hrl.frame hframe₁ fun x _ r hx => hd.not_has hx
  have hleft := hl (hip₁ ▸ hcl) hplainl (hip₁ ▸ hat.left.left.right) ht₂.valid ht₂.taken
    (owns_scratch hd ht₂.isFree) hrl₁
  rw [hip₁] at hleft
  refine hleft.bind (Nat.le_add_right _ _) (by omega) ?_
  intro a vm₂ hip₂ hv₂
  have hframe₂ : Frame (sc₁.has ·) vm₁ vm₂ := hv₂.frame.mono fun r h =>
    h.elim (fun heq => heq ▸ ht₂.isFree) (ht₂.subset r)
  -- the right operand's register is taken, so the left operand has kept it
  have hright : vm₂.get rs = b := by
    rw [hframe₂.regs rs (by simp [ht₁.taken]), hv₁.value]
  have hlast := hat.left.right.head
  rw [List.length_append, ← Nat.add_assoc, ← hip₂] at hlast
  have hflag := next_cmp (f := op.halCmp) hlast op.opcode_isPlain (BinOp.exec_cmp hcmp) ht₂.valid ht₁.valid
  rw [hv₂.value, hright] at hflag
  have htail := hat.right
  simp [← Nat.add_assoc] at htail
  have hip₃ : (vm₂.setFlagsZero (op.halCmp a b)).advanceIp.ip = vm.ip + cr.length + cl.length + 1 := by
    rw [Vm.advanceIp_ip, Vm.setFlagsZero_ip, hip₂]
  refine .step (Nat.le_of_eq hip₂.symm) (by omega) hflag ?_
  rw [← hip₃] at htail
  have hends := @ends_flag _ code sc _ dest _ _ hcode hdest htail (by rw [hip₃]) (by rw [hip₃])
  simp only [Vm.advanceIp_flagsZero, Vm.setFlagsZero_flagsZero, hip₃] at hends
  refine (hends.widen (Nat.le_succ _)).mono ?_
  intro v vm' _ hv
  have hframe : Frame (fun r => r = dest ∨ sc.has r) vm vm₂ :=
    (hframe₁.trans (hframe₂.mono ht₁.subset)).mono fun r => .inr
  have hframe₃ : Frame (fun r => r = dest ∨ sc.has r) vm (vm₂.setFlagsZero (op.halCmp a b)).advanceIp :=
    ⟨hframe.regs, hframe.signals⟩
  exact ⟨hv.value, hframe₃.trans hv.frame⟩

/-- An operator: the left operand in the destination, the right one in the scratch register `s`. The left operand has
    all scratch registers, or all but `s`. -/
theorem arith_ends (hd : VarDecls d) (hl : Computes d code left) (hr : Computes d code right)
    (hplainl : left.isPlain) (hplainr : right.isPlain) (hcmp : ¬ op.isCmp) {scl sc₁ : Scratch} {s : UInt8}
    {cl cr : List Instruction} (halloc : sc.alloc = some (s, sc₁)) (hsub : ∀ r, scl.has r → sc.has r)
    (hcl : genExpr d left scl vm.ip dest = some cl) (hcr : genExpr d right sc₁ (vm.ip + cl.length) s = some cr)
    (hat : CodeAt code vm.ip (cl ++ cr ++ [Instruction.arith op.opcode dest s dest]))
    (hdest : dest.toNat < registerCount) (hfree : sc.has dest = false) (hown : Owns d own dest)
    (hrl : Reads d left.vars regs vm) (hrr : Reads d right.vars regs vm) :
    Ends (next code) Vm.ip vm.ip (vm.ip + (cl ++ cr ++ [Instruction.arith op.opcode dest s dest]).length) vm
      (codeValue d own (.binary left op right) regs) (Delivers dest sc vm) := by
  have htaken := Scratch.alloc_taken halloc
  have hne : dest ≠ s := by
    rintro rfl
    exact absurd htaken.isFree (by simp [hfree])
  have hfreel : scl.has dest = false := Bool.eq_false_iff.2 fun h => by simp [hsub dest h] at hfree
  rw [codeValue, if_neg hcmp]
  refine (hl hcl hplainl hat.left.left hdest hfreel hown hrl).bind (Nat.le_add_right _ _)
    (by simp) ?_
  intro a vm₁ hip₁ hv₁
  have hright := hr (hip₁ ▸ hcr) hplainr (hip₁ ▸ hat.left.right) htaken.valid htaken.taken
    (owns_scratch hd htaken.isFree) (hrr.overwrite hown hd hv₁)
  rw [hip₁] at hright
  refine hright.bind (Nat.le_add_right _ _) (by simp; omega) ?_
  intro b vm₂ hip₂ hv₂
  -- the right operand changes free registers and `s`, and the destination is neither
  have hdest₂ : vm₂.get dest = a := by
    rw [hv₂.frame.regs dest, hv₁.value]
    rintro (h | h)
    · exact hne h
    · exact absurd (htaken.subset dest h) (by simp [hfree])
  have hlast := hat.right.head
  rw [List.length_append, ← Nat.add_assoc, ← hip₂] at hlast
  have hop := @ends_arith _ code sc vm₂ op.halOp op.opcode dest s dest (vm.ip + (cl ++ cr ++
    [Instruction.arith op.opcode dest s dest]).length) hlast op.opcode_isPlain
    (BinOp.exec_opcode (by simpa using hcmp)) hdest htaken.valid hdest (by simp [hip₂]; omega)
  rw [hdest₂, hv₂.value, hip₂] at hop
  have hf₁ := hv₁.frame.mono (Q := fun r => r = dest ∨ sc.has r) fun r => Or.imp_right (hsub r)
  have hf₂ := hv₂.frame.mono (Q := fun r => r = dest ∨ sc.has r) fun r h =>
    .inr (h.elim (fun heq => heq ▸ htaken.isFree) (htaken.subset r))
  exact hop.mono fun v vm' _ hv => ⟨hv.value, (hf₁.trans hf₂).trans hv.frame⟩

end

/-- **Expressions compute `codeValue`.** -/
theorem code_ends (hd : VarDecls d) (hcode : code.length < 2 ^ 32) (e : Expr) {own : Option UInt8} {dest : UInt8}
    {c : List Instruction} (hc : genExpr d e sc vm.ip dest = some c) (hplain : e.isPlain)
    (hat : CodeAt code vm.ip c) (hdest : dest.toNat < registerCount) (hfree : sc.has dest = false)
    (hown : Owns d own dest) (hregs : Reads d e.vars regs vm) :
    Ends (next code) Vm.ip vm.ip (vm.ip + c.length) vm (codeValue d own e regs) (Delivers dest sc vm) := by
  induction e generalizing sc vm own dest c regs with
  | intLiteral n =>
    cases hc
    exact ends_write (next_loadImm hat.head hdest) hdest rfl
  | realLiteral x =>
    cases hc
    exact ends_write (next_loadImm hat.head hdest) hdest rfl
  | boolLiteral b =>
    cases hc
    exact ends_write (next_loadImm hat.head hdest) hdest rfl
  | var name =>
    simp only [genExpr, bind_some] at hc
    obtain ⟨src, hsrc, hc⟩ := hc
    have hval : vm.get src = regs src := hregs name (by simp [Expr.vars]) src hsrc
    rw [codeValue, hsrc, Option.bind_some]
    by_cases heq : src = dest
    · rw [if_pos heq] at hc
      cases hc
      rw [if_pos ((hown name src hsrc).2 heq), ← hval]
      exact .done (by simp) ⟨by rw [heq], .refl _ vm⟩
    · rw [if_neg heq] at hc
      cases hc
      rw [if_neg fun h => heq ((hown name src hsrc).1 h), ← hval]
      exact ends_copy heq hat (hd.valid hsrc) hdest rfl
  | binary left op right hl hr =>
    simp [Expr.isPlain] at hplain
    have hrl : Reads d left.vars regs vm := fun x hx => hregs x (by simp [Expr.vars, hx])
    have hrr : Reads d right.vars regs vm := fun x hx => hregs x (by simp [Expr.vars, hx])
    by_cases hcmp : op.isCmp
    · exact cmp_ends hd hcode hl hr hplain.1 hplain.2 hcmp hc hat hdest hrl hrr
    · -- the two kinds of operators differ in when the scratch register is allocated
      by_cases harith : op.isArith
      · simp only [genExpr, if_pos harith, bind_some, Prod.exists, Option.some.injEq] at hc
        obtain ⟨cl, hcl, s, sc₁, halloc, cr, hcr, rfl⟩ := hc
        exact arith_ends hd hl hr hplain.1 hplain.2 hcmp halloc (fun _ h => h) hcl hcr hat hdest hfree hown hrl hrr
      · simp only [genExpr, if_neg harith, if_neg hcmp, bind_some, Prod.exists, Option.some.injEq] at hc
        obtain ⟨s, sc₁, halloc, cl, hcl, cr, hcr, rfl⟩ := hc
        have hsub := (Scratch.alloc_taken halloc).subset
        exact arith_ends hd hl hr hplain.1 hplain.2 hcmp halloc hsub hcl hcr hat hdest hfree hown hrl hrr
  | unary op inner ih =>
    cases op with
    | neg =>
      simp only [genExpr, bind_some, Prod.exists, Option.some.injEq] at hc
      obtain ⟨c₀, hc₀, zero, sc₁, halloc, rfl⟩ := hc
      have htaken := Scratch.alloc_taken halloc
      have hne : dest ≠ zero := by
        rintro rfl
        exact absurd htaken.isFree (by simp [hfree])
      rw [codeValue]
      refine (ih hc₀ hplain hat.left hdest hfree hown hregs).bind (Nat.le_add_right _ _) (by simp) ?_
      intro a vm₁ hip₁ hv₁
      have hneg := @ends_neg _ code sc vm₁ zero dest (vm.ip + (c₀ ++ [Instruction.loadImm zero (.s32 0),
        .arith .sub zero dest dest]).length) hne htaken.isFree (hip₁ ▸ hat.right) htaken.valid hdest
        (by simp [hip₁, Nat.add_assoc])
      rw [hv₁.value, hip₁] at hneg
      exact hneg.mono fun v vm' _ hv => ⟨hv.value, hv₁.frame.trans hv.frame⟩
    | not =>
      simp only [genExpr, bind_some, Option.some.injEq] at hc
      obtain ⟨c₀, hc₀, rfl⟩ := hc
      rw [codeValue]
      refine (ih hc₀ hplain hat.left hdest hfree hown hregs).bind (Nat.le_add_right _ _) (by simp) ?_
      intro a vm₁ hip₁ hv₁
      have hnot := next_not (hip₁ ▸ hat.right.head) hdest
      rw [hv₁.value] at hnot
      have hends := @ends_write _ code sc vm₁ dest a.not (vm.ip + (c₀ ++ [notInst dest]).length) hnot hdest
        (by simp [hip₁, Nat.add_assoc])
      rw [hip₁] at hends
      exact hends.mono fun v vm' _ hv => ⟨hv.value, hv₁.frame.trans hv.frame⟩
  | arrayAccess name index ih => exact absurd hplain (by simp [Expr.isPlain])
  | fieldAccess name field => exact absurd hplain (by simp [Expr.isPlain])

/-- The variables of an expression with code are declared. -/
theorem genExpr_declared (e : Expr) {base : Nat} {dest : UInt8} {c : List Instruction}
    (hc : genExpr d e sc base dest = some c) (hplain : e.isPlain) : ∀ x ∈ e.vars, ∃ r, d.registers x = some r := by
  induction e generalizing sc base dest c with
  | var name =>
    simp only [genExpr, bind_some] at hc
    obtain ⟨src, hsrc, _⟩ := hc
    intro x hx
    obtain rfl : x = name := by simpa [Expr.vars] using hx
    exact ⟨src, hsrc⟩
  | binary left op right hl hr =>
    simp [Expr.isPlain] at hplain
    -- whatever the operator is, both sides have code
    have hboth : (∃ sc base dest c, genExpr d left sc base dest = some c) ∧
        ∃ sc base dest c, genExpr d right sc base dest = some c := by
      by_cases harith : op.isArith
      · simp only [genExpr, if_pos harith, bind_some, Prod.exists] at hc
        obtain ⟨cl, hcl, s, sc₁, _, cr, hcr, _⟩ := hc
        exact ⟨⟨_, _, _, cl, hcl⟩, _, _, _, cr, hcr⟩
      · by_cases hcmp : op.isCmp
        · simp only [genExpr, if_neg harith, if_pos hcmp, genCmp, bind_some, Prod.exists] at hc
          obtain ⟨_, ⟨rs, sc₁, _, cr, hcr, ls, sc₂, _, cl, hcl, _⟩, _⟩ := hc
          exact ⟨⟨_, _, _, cl, hcl⟩, _, _, _, cr, hcr⟩
        · simp only [genExpr, if_neg harith, if_neg hcmp, bind_some, Prod.exists] at hc
          obtain ⟨s, sc₁, _, cl, hcl, cr, hcr, _⟩ := hc
          exact ⟨⟨_, _, _, cl, hcl⟩, _, _, _, cr, hcr⟩
    obtain ⟨⟨_, _, _, _, hcl⟩, _, _, _, _, hcr⟩ := hboth
    intro x hx
    rcases List.mem_append.1 hx with hx | hx
    · exact hl hcl hplain.1 x hx
    · exact hr hcr hplain.2 x hx
  | unary op inner ih =>
    cases op with
    | neg =>
      simp only [genExpr, bind_some] at hc
      obtain ⟨c₀, hc₀, _⟩ := hc
      exact ih hc₀ hplain
    | not =>
      simp only [genExpr, bind_some] at hc
      obtain ⟨c₀, hc₀, _⟩ := hc
      exact ih hc₀ hplain
  | arrayAccess name index ih => exact absurd hplain (by simp [Expr.isPlain])
  | _ => simp [Expr.vars]

/-! ## Assignments -/

/-- What an assignment leaves: the value in the variable's register and in its signal, and the registers of the
    other variables as they were. -/
structure Assigned (d : Decls) (name : String) (vm : Vm) (v : HalValue) (vm' : Vm) : Prop where
  register : ∀ r, d.registers name = some r → vm'.get r = v
  signal : vm'.signals name = some v
  others : ∀ x r, x ≠ name → d.registers x = some r → vm'.get r = vm.get r

/-- **Assignments assign `codeValue`.** -/
theorem assign_ends (hd : VarDecls d) (hcode : code.length < 2 ^ 32) {name : String} {value : Expr} {r : UInt8}
    {c : StmtCode} {t : UInt32} (hc : genStmt d sc (.assign name value) vm.ip = some c) (hplain : value.isPlain)
    (hat : CodeAt code vm.ip (c.resolve t)) (hr : d.registers name = some r) (hregs : Reads d value.vars regs vm) :
    Ends (next code) Vm.ip vm.ip (vm.ip + c.length) vm (codeValue d (some r) value regs) (Assigned d name vm) := by
  simp only [genStmt, hr, Option.bind_eq_bind, Option.bind_some, Option.bind_eq_some_iff, Option.some.injEq] at hc
  obtain ⟨cv, hcv, rfl⟩ := hc
  rw [resolve_plain] at hat
  have hown : Owns d (some r) r := by
    intro x r' _
    rw [Option.some.injEq]
    exact eq_comm
  have hvalue := code_ends hd hcode value hcv hplain hat.left (hd.valid hr) (Bool.eq_false_iff.2 (hd.not_has hr))
    hown hregs
  have hbind : (codeValue d (some r) value regs).bind some = codeValue d (some r) value regs := by
    cases codeValue d (some r) value regs <;> rfl
  rw [← hbind]
  refine hvalue.bind (Nat.le_add_right _ _) (by simp) ?_
  intro v vm₁ hip₁ hv₁
  have hstore := next_store (hip₁ ▸ hat.right.head) (hd.valid hr)
  rw [hv₁.value] at hstore
  refine .step (Nat.le_of_eq hip₁.symm) (by rw [hip₁]; simp) hstore (.done (by simp [hip₁, Nat.add_assoc]) ?_)
  refine ⟨?_, by simp, ?_⟩
  · intro r' hr'
    rw [hr] at hr'
    cases hr'
    simpa using hv₁.value
  · intro x r' hne hr'
    rw [Vm.advanceIp_get, Vm.writeSignal_get]
    apply hv₁.frame.regs
    rintro (rfl | hs)
    · exact hne (hd.inj hr' hr)
    · exact hd.not_has hr' hs

end

/-- Running the code of `name := value` at `b` once ends in a state with `P`. -/
def RunsTo (p : Program) (hp : HalProgram) (name : String) (value : Expr) (b : Nat) (vm : Vm) (P : Vm → Prop) : Prop :=
  ∃ c, genStmt (.ofVariables p.vars) .all (.assign name value) b = some c ∧
    ∃ vm', Finishes (next hp.instructions) Vm.ip b (b + c.length) vm vm' ∧ P vm'

/-- **Assignments.** In a compiled program an assignment assigns what `codeValue` says. -/
theorem runsTo_iff {p : Program} {hp : HalProgram} {name : String} {value : Expr} {b : Nat} {vm : Vm} {r : UInt8}
    {P : Vm → Prop} {v : HalValue} (hok : compileAst p = .ok hp) (hlen : hp.instructions.length < 2 ^ 32)
    (hsite : ProgramSite p hp (.assign name value) b) (hplain : value.isPlain) (hip : vm.ip = b)
    (hr : (Decls.ofVariables p.vars).registers name = some r)
    (hP : ∀ w vm', Assigned (.ofVariables p.vars) name vm w vm' → (P vm' ↔ w = v)) :
    RunsTo p hp name value b vm P ↔ codeValue (.ofVariables p.vars) (some r) value vm.get = some v := by
  subst hip
  obtain ⟨c, t, hc, hat⟩ := programSite_placed hok hlen hsite
  obtain ⟨_, _, _, _, _, hcount⟩ := compileAst_eq hok hlen
  have hregs : Reads (.ofVariables p.vars) value.vars vm.get vm := fun _ _ _ _ => rfl
  have hends := assign_ends (varDecls_ofVariables hcount) hlen hc hplain hat hr hregs
  have hiff := hends.finishes_iff (P := P) (V := fun w => w = v) hP
  constructor
  · rintro ⟨c', hc', hfin⟩
    rw [hc] at hc'
    cases hc'
    obtain ⟨w, hw, rfl⟩ := hiff.1 hfin
    exact hw
  · intro h
    exact ⟨c, hc, hiff.2 ⟨v, h, rfl⟩⟩

section
variable {p : Program} {hp : HalProgram} {name : String} {value : Expr} {b : Nat} {vm : Vm} {r : UInt8} {v : HalValue}

/-- The assignment leaves `v` in the variable's register and its signal, and the other variables' registers as they
    were. -/
abbrev AssignsValue (p : Program) (hp : HalProgram) (name : String) (value : Expr) (b : Nat) (vm : Vm)
    (v : HalValue) : Prop := RunsTo p hp name value b vm (Assigned (.ofVariables p.vars) name vm v)

/-- The assignment leaves `v` in the variable's register. -/
abbrev LeavesValue (p : Program) (hp : HalProgram) (name : String) (value : Expr) (b : Nat) (vm : Vm)
    (v : HalValue) : Prop :=
  RunsTo p hp name value b vm fun vm' => ∀ r, (Decls.ofVariables p.vars).registers name = some r → vm'.get r = v

theorem assignsValue_iff (hok : compileAst p = .ok hp) (hlen : hp.instructions.length < 2 ^ 32)
    (hsite : ProgramSite p hp (.assign name value) b) (hplain : value.isPlain) (hip : vm.ip = b)
    (hr : (Decls.ofVariables p.vars).registers name = some r) :
    AssignsValue p hp name value b vm v ↔ codeValue (.ofVariables p.vars) (some r) value vm.get = some v := by
  apply runsTo_iff hok hlen hsite hplain hip hr
  intro w vm' hw
  constructor
  · intro hv
    rw [← hw.register r hr, hv.register r hr]
  · rintro rfl
    exact hw

theorem leavesValue_iff (hok : compileAst p = .ok hp) (hlen : hp.instructions.length < 2 ^ 32)
    (hsite : ProgramSite p hp (.assign name value) b) (hplain : value.isPlain) (hip : vm.ip = b)
    (hr : (Decls.ofVariables p.vars).registers name = some r) :
    LeavesValue p hp name value b vm v ↔ codeValue (.ofVariables p.vars) (some r) value vm.get = some v := by
  apply runsTo_iff hok hlen hsite hplain hip hr
  intro w vm' hw
  constructor
  · intro hv
    rw [← hw.register r hr, hv r hr]
  · rintro rfl
    exact hw.register

end

end Audesys.St
