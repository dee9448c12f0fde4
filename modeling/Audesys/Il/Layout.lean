import Audesys.Il.Codegen
import Audesys.Lib.Patch
import Mathlib.Data.List.Nodup
import Mathlib.Data.List.Perm.Subperm

/-!
# `Il.Layout` — where the code of each statement ends up

The generated code is the first instruction, the code of the statements one behind the other, and the `Halt`
(`compileAst_eq`). The code of a statement (`slots`) depends on the register of its variable and, for a comparison,
on its position; its length (`size`) depends on neither, so the position of every statement is known in
advance (`start`), and with it the target of every label.
-/

open List

namespace Audesys.Il

open Audesys.Hal Audesys.Lib

/-! ## Positions -/

namespace ILStatement

/-- The variable a statement needs a register for. `ST` has none. -/
def regVar? : ILStatement → Option String
  | store _ => none
  | s => s.var?

def size : ILStatement → Nat
  | label _ => 0
  | load _ | and _ | jumpIf _ | jumpIfNot _ => 2
  | loadNot _ | orNot _ => 3
  | andNot _ => 4
  | cmp _ _ => 5
  | store _ | or _ | xor _ | add _ | sub _ | mul _ | div _ | mod _ | jump _ | call _ | ret | set _ | reset _
  | not | ton _ | tof _ | tp _ | ctu _ | ctd _ | rTrig _ | fTrig _ | sr _ | rs _ => 1

end ILStatement

/-- How many instructions the statements take. -/
def totalSize (stmts : List ILStatement) : Nat := (stmts.map ILStatement.size).sum

/-- The index of the first instruction of statement `i`, behind the first instruction of all. -/
def start (stmts : List ILStatement) (i : Nat) : Nat := 1 + totalSize (stmts.take i)

/-- The last statement that defines the label. -/
def labelIndex (name : String) : List ILStatement → Option Nat
  | [] => none
  | s :: rest =>
    match labelIndex name rest with
    | some i => some (i + 1)
    | none => if s = .label name then some 0 else none

/-- Where a jump to the label goes: the statement behind the label, or the `Halt`. -/
def labelTarget (stmts : List ILStatement) (name : String) : Nat :=
  start stmts ((labelIndex name stmts).getD stmts.length)

variable [Target]

/-! ## The code of a statement -/

/-- The code of a statement at index `ip` with its variable in `r`; jumps wait for the target of their label. -/
def slots (r : UInt8) (ip : Nat) : ILStatement → List (Slot String Instruction)
  | .label _ => []
  | .load var => [.done ⟨.load, [.register r, .signalName var]⟩, .done ⟨.load, [.register crReg, .register r]⟩]
  | .loadNot var =>
    [.done ⟨.load, [.register r, .signalName var]⟩, .done ⟨.load, [.register crReg, .register r]⟩,
      .done ⟨.not, [.register crReg, .register crReg]⟩]
  | .store var => [.done ⟨.store, [.signalName var, .register crReg]⟩]
  | .and var => [.done ⟨.load, [.register r, .signalName var]⟩, .done (.arith .and crReg r crReg)]
  | .andNot var =>
    [.done ⟨.load, [.register r, .signalName var]⟩, .done ⟨.load, [.register temp1Reg, .register r]⟩,
      .done ⟨.not, [.register temp1Reg, .register temp1Reg]⟩, .done (.arith .and crReg temp1Reg crReg)]
  | .or _ => [.done (.arith .or crReg r crReg)]
  | .orNot _ =>
    [.done ⟨.load, [.register temp1Reg, .register r]⟩, .done ⟨.not, [.register temp1Reg, .register temp1Reg]⟩,
      .done (.arith .or crReg temp1Reg crReg)]
  | .xor _ => [.done (.arith .xor crReg r crReg)]
  | .add _ => [.done (.arith .add crReg r crReg)]
  | .sub _ => [.done (.arith .sub crReg r crReg)]
  | .mul _ => [.done (.arith .mul crReg r crReg)]
  | .div _ => [.done (.arith .div crReg r crReg)]
  | .mod _ => [.done (.arith .mod crReg r crReg)]
  | .cmp op _ =>
    [.done (.cmp op.opcode crReg r), .done (.jumpIf (UInt32.ofNat (ip + 1 + 3))), .done (.loadImm crReg (.bool false)),
      .done (.jump (UInt32.ofNat (ip + 1 + 5))), .done (.loadImm crReg (.bool true))]
  | .jump label => [.hole label (.jump 0)]
  | .jumpIf label => [.done (.cmp .eq crReg trueReg), .hole label (.jumpIf 0)]
  | .jumpIfNot label => [.done (.cmp .neq crReg trueReg), .hole label (.jumpIf 0)]
  | .call fb => [.hole fb (.call 0)]
  | .ret => [.done (.ret none)]
  | .set _ => [.done (.loadImm r (.bool true))]
  | .reset _ => [.done (.loadImm r (.bool false))]
  | .not => [.done ⟨.not, [.register crReg, .register crReg]⟩]
  | .ton _ | .tof _ | .tp _ => [.done ⟨.timerRun, [.register r]⟩]
  | .ctu _ | .ctd _ => [.done ⟨.counterRun, [.register r]⟩]
  | .rTrig _ | .fTrig _ => [.done ⟨.edgeRun, [.register r]⟩]
  | .sr _ | .rs _ => [.done ⟨.srRun, [.register r]⟩]

@[simp] theorem length_slots (r : UInt8) (ip : Nat) (s : ILStatement) : (slots r ip s).length = s.size := by
  cases s <;> rfl

/-- The register of the variable of a statement. -/
def operandReg (regs : String → UInt8) (s : ILStatement) : UInt8 := (s.regVar?.map regs).getD 0

/-- The code of a list of statements from index `ip` on. -/
def layout (regs : String → UInt8) (ip : Nat) : List ILStatement → List (Slot String Instruction)
  | [] => []
  | s :: rest => slots (operandReg regs s) ip s ++ layout regs (ip + s.size) rest

@[simp] theorem length_layout (regs : String → UInt8) (ip : Nat) (stmts : List ILStatement) :
    (layout regs ip stmts).length = totalSize stmts := by
  induction stmts generalizing ip with
  | nil => rfl
  | cons s rest ih =>
    show (slots _ ip s ++ layout regs (ip + s.size) rest).length = s.size + totalSize rest
    rw [length_append, length_slots, ih]

/-! ## One statement -/

/-- Give the variable of a statement its register. -/
def Codegen.touch (cg : Codegen) (s : ILStatement) : Option Codegen :=
  match s.regVar? with
  | some var => (cg.getVarReg var).map Prod.snd
  | none => some cg

/-- The register of a variable. -/
def Codegen.regs (cg : Codegen) (var : String) : UInt8 := (cg.varMap var).getD 0

/-- The labels once a statement at `ip` is through. -/
def define (labels : String → Option Nat) (ip : Nat) : ILStatement → String → Option Nat
  | .label name => Function.update labels name (some ip)
  | _ => labels

/-- What a statement appends. -/
def Codegen.append (cg : Codegen) (s : ILStatement) : Codegen :=
  let code := slots (operandReg cg.regs s) cg.currentIp s
  { cg with
    instructions := cg.instructions ++ code.map Slot.raw
    labels := define cg.labels cg.currentIp s
    labelRefs := cg.labelRefs ++ (refs code).map fun ref => (cg.currentIp + ref.1, ref.2) }

theorem getVarReg_some {cg cg' : Codegen} {var : String} {r : UInt8} (h : cg.getVarReg var = some (r, cg')) :
    r = cg'.regs var ∧ cg'.currentIp = cg.currentIp := by
  unfold Codegen.getVarReg at h
  unfold Codegen.regs
  split at h
  · rename_i hr
    cases h
    rw [hr]
    exact ⟨rfl, rfl⟩
  · split at h
    · cases h
    · cases h
      exact ⟨by simp, rfl⟩

/-- A branch that asks for the register of its variable first. -/
theorem touched {cg : Codegen} {var : String} {s : ILStatement} (k : UInt8 → Codegen → Codegen)
    (hs : s.regVar? = some var) (hk : ∀ cg' : Codegen, k (cg'.regs var) cg' = cg'.append s) :
    ((cg.getVarReg var).bind fun p => some (k p.1 p.2)) = (cg.touch s).map fun cg' => cg'.append s := by
  unfold Codegen.touch
  rw [hs]
  cases h : cg.getVarReg var with
  | none => simp [h]
  | some p =>
    obtain ⟨r, cg'⟩ := p
    simp [h]
    rw [← hk, (getVarReg_some h).1]

attribute [local simp] Codegen.append Codegen.loadSignal Codegen.emitLoadReg Codegen.emitLoadImm Codegen.emitNot
  Codegen.emitArith Codegen.emitCmp Codegen.emitJump Codegen.emitJumpIf Codegen.emit Codegen.currentIp
  Codegen.addRef Codegen.emitBoolTestAndJump Codegen.materializeCrFromFlags slots define operandReg
  ILStatement.regVar? ILStatement.var?

theorem combine_eq {cg : Codegen} {op : Opcode} {var : String} {s : ILStatement} (hs : s.regVar? = some var)
    (hcode : ∀ r ip, slots r ip s = [.done (.arith op crReg r crReg)]) :
    cg.combine op var = (cg.touch s).map fun cg' => cg'.append s := by
  refine touched (fun r cg => cg.emitArith op crReg r crReg) hs ?_
  intro cg'
  have hdefine : define cg'.labels cg'.instructions.length s = cg'.labels := by
    cases s <;> first | rfl | cases hs
  simp only [Codegen.append, hcode, operandReg, hs, Codegen.currentIp, hdefine]
  simp

theorem runBlock_eq {cg : Codegen} {op : Opcode} {var : String} {s : ILStatement} (hs : s.regVar? = some var)
    (hcode : ∀ r ip, slots r ip s = [.done ⟨op, [.register r]⟩]) :
    cg.runBlock op var = (cg.touch s).map fun cg' => cg'.append s := by
  refine touched (fun r cg => cg.emit ⟨op, [.register r]⟩) hs ?_
  intro cg'
  have hdefine : define cg'.labels cg'.instructions.length s = cg'.labels := by
    cases s <;> first | rfl | cases hs
  simp only [Codegen.append, hcode, operandReg, hs, Codegen.currentIp, hdefine]
  simp

/-- **One statement** gives its variable a register and appends its code. -/
theorem compileStmt_eq (cg : Codegen) (s : ILStatement) :
    cg.compileStmt s = (cg.touch s).map fun cg' => cg'.append s := by
  cases s with
  | load var =>
    refine touched (fun r cg => (cg.loadSignal r var).emitLoadReg crReg r) rfl fun cg' => ?_
    simp
  | loadNot var =>
    refine touched (fun r cg => ((cg.loadSignal r var).emitLoadReg crReg r).emitNot crReg crReg) rfl fun cg' => ?_
    simp
  | and var =>
    refine touched (fun r cg => (cg.loadSignal r var).emitArith .and crReg r crReg) rfl fun cg' => ?_
    simp
  | andNot var =>
    refine touched (fun r cg => (((cg.loadSignal r var).emitLoadReg temp1Reg r).emitNot temp1Reg temp1Reg).emitArith
      .and crReg temp1Reg crReg) rfl fun cg' => ?_
    simp
  | orNot var =>
    refine touched (fun r cg => ((cg.emitLoadReg temp1Reg r).emitNot temp1Reg temp1Reg).emitArith
      .or crReg temp1Reg crReg) rfl fun cg' => ?_
    simp
  | cmp op var =>
    refine touched (fun r cg => (cg.emitCmp op.opcode crReg r).materializeCrFromFlags) rfl fun cg' => ?_
    simp
  | set var =>
    refine touched (fun r cg => cg.emitLoadImm r (.bool true)) rfl fun cg' => ?_
    simp
  | reset var =>
    refine touched (fun r cg => cg.emitLoadImm r (.bool false)) rfl fun cg' => ?_
    simp
  | or var | xor var | add var | sub var | mul var | div var | mod var => exact combine_eq rfl fun _ _ => rfl
  | ton var | tof var | tp var | ctu var | ctd var | rTrig var | fTrig var | sr var | rs var =>
    exact runBlock_eq rfl fun _ _ => rfl
  | label _ | store _ | jump _ | jumpIf _ | jumpIfNot _ | call _ | ret | not =>
    simp [Codegen.compileStmt, Codegen.touch]

/-! ## Registers -/

/-- The variables are among ten. -/
def AtMostTen (stmts : List ILStatement) : Prop :=
  ∃ vars : List String, vars.length ≤ 10 ∧ ∀ s ∈ stmts, ∀ x, s.var? = some x → x ∈ vars

/-- The variables that have a register, from `r0` on without gaps. -/
structure Allocated (cg : Codegen) (used : List String) : Prop where
  nodup : used.Nodup
  length : used.length = cg.nextReg.toNat
  bound : cg.nextReg.toNat ≤ 10
  mem : ∀ x, x ∈ used ↔ ∃ r, cg.varMap x = some r
  lt : ∀ x r, cg.varMap x = some r → r.toNat < cg.nextReg.toNat
  inj : ∀ x y r, cg.varMap x = some r → cg.varMap y = some r → x = y

/-- Registers are never given away again. -/
def Extends (cg cg' : Codegen) : Prop := ∀ x r, cg.varMap x = some r → cg'.varMap x = some r

theorem Allocated.new : Allocated .new [] where
  nodup := nodup_nil
  length := rfl
  bound := Nat.zero_le _
  mem x := by
    constructor
    · intro h
      cases h
    · rintro ⟨r, h⟩
      cases h
  lt x r h := by
    cases h
  inj x y r h := by
    cases h

/-- A variable that has its register: nothing else has changed, and no other variable has been given one. -/
theorem Allocated.getVarReg {cg cg' : Codegen} {used : List String} (h : Allocated cg used) {var : String} {r : UInt8}
    (hget : cg.getVarReg var = some (r, cg')) :
    ∃ used', cg'.varMap var = some r ∧ Allocated cg' used' ∧ used' ⊆ var :: used ∧ Extends cg cg' ∧
      cg'.instructions = cg.instructions ∧ cg'.labels = cg.labels ∧ cg'.labelRefs = cg.labelRefs := by
  unfold Codegen.getVarReg at hget
  cases hr : cg.varMap var with
  | some r' =>
    simp only [hr] at hget
    cases hget
    exact ⟨used, hr, h, subset_cons_self _ _, fun _ _ hx => hx, rfl, rfl, rfl⟩
  | none =>
    by_cases hlt : cg.nextReg > userRegMax
    · simp only [hr, if_pos hlt] at hget
      cases hget
    simp only [hr, if_neg hlt] at hget
    cases hget
    have hnew : var ∉ used := by
      intro hin
      obtain ⟨r, hsome⟩ := (h.mem var).1 hin
      rw [hr] at hsome
      cases hsome
    have hnodup : (var :: used).Nodup := nodup_cons.2 ⟨hnew, h.nodup⟩
    have hroom : used.length + 1 ≤ 10 := by
      have hle : ¬ 9 < cg.nextReg.toNat := hlt
      rw [h.length]
      omega
    have hsucc : (cg.nextReg + 1).toNat = used.length + 1 := by
      rw [UInt8.toNat_add, ← h.length]
      show (used.length + 1) % 256 = used.length + 1
      omega
    have hupdate : ∀ x, Function.update cg.varMap var (some cg.nextReg) x =
        if x = var then some cg.nextReg else cg.varMap x := fun x => Function.update_apply _ _ _ _
    refine ⟨var :: used, Function.update_self _ _ _, ?_, List.Subset.refl _, ?_, rfl, rfl, rfl⟩
    · refine ⟨hnodup, hsucc.symm, hsucc.symm ▸ hroom, ?_, ?_, ?_⟩
      · intro x
        simp only [hupdate, mem_cons]
        by_cases hx : x = var
        · simp [hx]
        · simp only [hx, false_or, if_false]
          exact h.mem x
      · intro x r hx
        simp only [hupdate] at hx
        rw [hsucc]
        split at hx
        · cases hx
          rw [h.length]
          omega
        · have := h.lt x r hx
          rw [← h.length] at this
          omega
      · -- the new register is above all others
        have habove : ∀ x, cg.varMap x ≠ some cg.nextReg := fun x hx => Nat.lt_irrefl _ (h.lt x _ hx)
        intro x y r hx hy
        simp only [hupdate] at hx hy
        split at hx
        · cases hx
          split at hy
          · rename_i hxv hyv
            rw [hxv, hyv]
          · exact absurd hy (habove y)
        · split at hy
          · cases hy
            exact absurd hx (habove x)
          · exact h.inj x y r hx hy
    · intro x r hx
      simp only [hupdate]
      split
      · rename_i hxv
        rw [hxv, hr] at hx
        cases hx
      · exact hx

/-- There is a register for one of ten variables. -/
theorem Allocated.getVarReg_isSome {cg : Codegen} {used vars : List String} (h : Allocated cg used) (hused : used ⊆ vars)
    (hvars : vars.length ≤ 10) {var : String} (hvar : var ∈ vars) : ∃ p, cg.getVarReg var = some p := by
  unfold Codegen.getVarReg
  cases hr : cg.varMap var with
  | some r => exact ⟨_, rfl⟩
  | none =>
    have hnew : var ∉ used := by
      intro hin
      obtain ⟨r, hsome⟩ := (h.mem var).1 hin
      rw [hr] at hsome
      cases hsome
    have hnodup : (var :: used).Nodup := nodup_cons.2 ⟨hnew, h.nodup⟩
    have hsub : var :: used ⊆ vars := cons_subset.2 ⟨hvar, hused⟩
    -- ten variables leave a register for this one
    have hroom : used.length + 1 ≤ 10 := by
      have hlen := (subperm_of_subset hnodup hsub).length_le
      rw [length_cons] at hlen
      omega
    have hlt : ¬ cg.nextReg > userRegMax := by
      show ¬ userRegMax.toNat < cg.nextReg.toNat
      rw [← h.length]
      show ¬ 9 < used.length
      omega
    exact ⟨_, if_neg hlt⟩

/-- The register of the operand of a statement is given away, and nothing else happens. -/
theorem Allocated.touch {cg cg' : Codegen} {used : List String} (h : Allocated cg used) {s : ILStatement}
    (htouch : cg.touch s = some cg') :
    ∃ used', Allocated cg' used' ∧ (∀ x ∈ used', x ∈ used ∨ s.regVar? = some x) ∧ Extends cg cg' ∧
      (∀ x, s.regVar? = some x → ∃ r, cg'.varMap x = some r) ∧ cg'.instructions = cg.instructions ∧
      cg'.labels = cg.labels ∧ cg'.labelRefs = cg.labelRefs := by
  unfold Codegen.touch at htouch
  cases hvar : s.regVar? with
  | none =>
    rw [hvar] at htouch
    cases htouch
    exact ⟨used, h, fun _ hx => .inl hx, fun _ _ hx => hx, (by intro x hx; cases hx), rfl, rfl, rfl⟩
  | some var =>
    rw [hvar] at htouch
    obtain ⟨⟨r, cg₁⟩, hget, heq⟩ := Option.map_eq_some_iff.1 htouch
    cases heq
    obtain ⟨used', hr, hall, hsub, hext, hinst, hlabels, hrefs⟩ := h.getVarReg hget
    refine ⟨used', hall, ?_, hext, ?_, hinst, hlabels, hrefs⟩
    · intro x hx
      rcases mem_cons.1 (hsub hx) with rfl | hx
      · exact .inr rfl
      · exact .inl hx
    · intro x hx
      cases hx
      exact ⟨r, hr⟩

theorem Allocated.append {cg : Codegen} {used : List String} (h : Allocated cg used) (s : ILStatement) :
    Allocated (cg.append s) used := ⟨h.nodup, h.length, h.bound, h.mem, h.lt, h.inj⟩

/-! ## All statements -/

/-- The labels once the statements from `ip` on are through. -/
def defineAll (labels : String → Option Nat) (ip : Nat) : List ILStatement → String → Option Nat
  | [] => labels
  | s :: rest => defineAll (define labels ip s) (ip + s.size) rest

/-- The registers of the variables of the statements: at most `r9`, and never one for two. -/
structure Assigned (regs : String → UInt8) (stmts : List ILStatement) : Prop where
  le : ∀ s ∈ stmts, ∀ x, s.regVar? = some x → (regs x).toNat ≤ 9
  inj : ∀ s ∈ stmts, ∀ s' ∈ stmts, ∀ x y, s.regVar? = some x → s'.regVar? = some y → regs x = regs y → x = y

/-- There are registers for ten variables. -/
theorem compileStmts_isSome {vars : List String} (hvars : vars.length ≤ 10) (stmts : List ILStatement)
    (hstmts : ∀ s ∈ stmts, ∀ x, s.regVar? = some x → x ∈ vars) {cg : Codegen} {used : List String}
    (h : Allocated cg used) (hused : used ⊆ vars) : ∃ cg', stmts.foldlM Codegen.compileStmt cg = some cg' := by
  induction stmts generalizing cg used with
  | nil => exact ⟨cg, rfl⟩
  | cons s rest ih =>
    have hin := hstmts s mem_cons_self
    have htouch : ∃ cg₁, cg.touch s = some cg₁ := by
      unfold Codegen.touch
      cases hvar : s.regVar? with
      | none => exact ⟨cg, rfl⟩
      | some var =>
        obtain ⟨p, hp⟩ := h.getVarReg_isSome hused hvars (hin var hvar)
        exact ⟨p.2, congrArg (Option.map Prod.snd) hp⟩
    obtain ⟨cg₁, htouch⟩ := htouch
    obtain ⟨used₁, hall₁, hused₁, _⟩ := h.touch htouch
    have hsub : used₁ ⊆ vars := by
      intro x hx
      rcases hused₁ x hx with hx | hx
      · exact hused hx
      · exact hin x hx
    rw [foldlM_cons, compileStmt_eq, htouch, Option.bind_eq_bind]
    exact ih (fun s' hs' => hstmts s' (mem_cons_of_mem _ hs')) (hall₁.append s) hsub

theorem compileStmts_eq {stmts : List ILStatement} {cg cg' : Codegen} {used : List String} (h : Allocated cg used)
    (hfold : stmts.foldlM Codegen.compileStmt cg = some cg') :
    ∃ used', Allocated cg' used' ∧ Extends cg cg' ∧
      (∀ s ∈ stmts, ∀ x, s.regVar? = some x → ∃ r, cg'.varMap x = some r) ∧
      cg'.instructions = cg.instructions ++ (layout cg'.regs cg.currentIp stmts).map Slot.raw ∧
      cg'.labels = defineAll cg.labels cg.currentIp stmts ∧
      cg'.labelRefs = cg.labelRefs ++
        (refs (layout cg'.regs cg.currentIp stmts)).map fun ref => (cg.currentIp + ref.1, ref.2) := by
  induction stmts generalizing cg used with
  | nil =>
    cases hfold
    refine ⟨used, h, fun _ _ hx => hx, ?_, ?_, rfl, ?_⟩
    · intro s hs
      cases hs
    · exact (List.append_nil _).symm
    · exact (List.append_nil _).symm
  | cons s rest ih =>
    rw [foldlM_cons, compileStmt_eq, Option.bind_eq_bind] at hfold
    cases htouch : cg.touch s with
    | none =>
      rw [htouch] at hfold
      cases hfold
    | some cg₁ =>
    rw [htouch] at hfold
    obtain ⟨used₁, hall₁, _, hext₁, hreg₁, hinst₁, hlabels₁, hrefs₁⟩ := h.touch htouch
    have hip₁ : cg₁.currentIp = cg.currentIp := by
      unfold Codegen.currentIp
      rw [hinst₁]
    obtain ⟨used', hall', hext', hreg', hinst', hlabels', hrefs'⟩ := ih (hall₁.append s) hfold
    have hip₂ : (cg₁.append s).currentIp = cg.currentIp + s.size := by
      show (cg₁.instructions ++ _).length = _
      rw [length_append, length_map, length_slots]
      exact congrArg (· + s.size) hip₁
    -- the register of the operand is still the same at the end
    have hoperand : operandReg cg₁.regs s = operandReg cg'.regs s := by
      unfold operandReg
      cases hvar : s.regVar? with
      | none => rfl
      | some x =>
        obtain ⟨r, hr⟩ := hreg₁ x hvar
        show cg₁.regs x = cg'.regs x
        unfold Codegen.regs
        rw [hr, hext' x r hr]
    refine ⟨used', hall', fun x r hx => hext' x r (hext₁ x r hx), ?_, ?_, ?_, ?_⟩
    · intro s' hs' x hx
      rcases mem_cons.1 hs' with rfl | hs'
      · obtain ⟨r, hr⟩ := hreg₁ x hx
        exact ⟨r, hext' x r hr⟩
      · exact hreg' s' hs' x hx
    · rw [hinst', hip₂]
      show (cg₁.instructions ++ _) ++ _ = _
      rw [hinst₁, hip₁, hoperand, List.append_assoc, ← map_append]
      rfl
    · rw [hlabels', hip₂]
      show defineAll (define cg₁.labels cg₁.currentIp s) _ rest = _
      rw [hlabels₁, hip₁]
      rfl
    · rw [hrefs', hip₂]
      show (cg₁.labelRefs ++ _) ++ _ = _
      rw [hrefs₁, hip₁, hoperand, List.append_assoc]
      show _ = cg.labelRefs ++ (refs (slots _ _ s ++ layout _ _ rest)).map _
      rw [refs_append, map_append, length_slots, map_map]
      congr 2
      refine map_congr_left fun ref _ => ?_
      show (cg.currentIp + s.size + ref.1, ref.2) = (cg.currentIp + (s.size + ref.1), ref.2)
      rw [Nat.add_assoc]

omit [Target] in
/-- Where a label is, in terms of statements. -/
theorem defineAll_eq (labels : String → Option Nat) (ip : Nat) (stmts : List ILStatement) (name : String) :
    defineAll labels ip stmts name =
      match labelIndex name stmts with
      | some i => some (ip + totalSize (stmts.take i))
      | none => labels name := by
  induction stmts generalizing labels ip with
  | nil => rfl
  | cons s rest ih =>
    show defineAll (define labels ip s) (ip + s.size) rest name = _
    rw [ih]
    simp only [labelIndex]
    cases labelIndex name rest with
    | some i =>
      show some (ip + s.size + totalSize (rest.take i)) = some (ip + (s.size + totalSize (rest.take i)))
      rw [Nat.add_assoc]
    | none =>
      show define labels ip s name = _
      by_cases hs : s = .label name
      · rw [if_pos hs, hs]
        exact Function.update_self _ _ _
      · rw [if_neg hs]
        cases s with
        | label name' => exact Function.update_of_ne (fun heq => hs (by rw [heq])) _ _
        | _ => rfl

/-- The code between the first instruction and the `Halt`, with both. -/
def program (regs : String → UInt8) (stmts : List ILStatement) : List (Slot String Instruction) :=
  Slot.done (.loadImm trueReg (.bool true)) :: (layout regs 1 stmts ++ [Slot.done .halt])

/-- The code with its jumps patched. -/
def linked (regs : String → UInt8) (stmts : List ILStatement) : List Instruction :=
  (program regs stmts).map (Slot.resolve retarget fun name => some (labelTarget stmts name))

theorem allocated_first : Allocated (Codegen.new.emitLoadImm trueReg (.bool true)) [] :=
  ⟨Allocated.new.nodup, Allocated.new.length, Allocated.new.bound, Allocated.new.mem, Allocated.new.lt,
    Allocated.new.inj⟩

/-- **The code** of a list of statements. -/
theorem compileAst_some {stmts : List ILStatement} {code : List Instruction} (hcompile : compileAst stmts = some code) :
    ∃ regs, Assigned regs stmts ∧ code = linked regs stmts := by
  unfold compileAst Codegen.compile at hcompile
  cases hfold : stmts.foldlM Codegen.compileStmt (Codegen.new.emitLoadImm trueReg (.bool true)) with
  | none =>
    rw [hfold] at hcompile
    cases hcompile
  | some cg =>
  rw [hfold, Option.bind_eq_bind, Option.bind_some] at hcompile
  obtain ⟨used, hall, _, hreg, hinst, hlabels, hrefs⟩ := compileStmts_eq allocated_first hfold
  -- each variable of the statements has a register
  have hregs : ∀ s ∈ stmts, ∀ x, s.regVar? = some x → cg.varMap x = some (cg.regs x) := by
    intro s hs x hx
    obtain ⟨r, hr⟩ := hreg s hs x hx
    unfold Codegen.regs
    rw [hr]
    rfl
  refine ⟨cg.regs, ⟨?_, ?_⟩, ?_⟩
  · intro s hs x hx
    have hlt := hall.lt x _ (hregs s hs x hx)
    have hbound := hall.bound
    omega
  · intro s hs s' hs' x y hx hy heq
    refine hall.inj x y (cg.regs x) (hregs s hs x hx) ?_
    rw [heq]
    exact hregs s' hs' y hy
  -- the code and the places of its labels, as they are laid out
  · have hcode : (cg.emit .halt).instructions = (program cg.regs stmts).map Slot.raw := by
      show cg.instructions ++ [_] = Slot.raw _ :: List.map Slot.raw (layout cg.regs 1 stmts ++ [_])
      rw [hinst, map_append]
      rfl
    have hpatched : cg.labelRefs = refs (program cg.regs stmts) := by
      show _ = (refs (layout cg.regs 1 stmts ++ [_])).map _
      rw [refs_append, hrefs]
      show [] ++ _ = List.map _ (_ ++ [])
      rw [List.append_nil, nil_append]
      rfl
    have htarget : ∀ name, (cg.labels name).getD ((cg.emit .halt).instructions.length - 1) =
        labelTarget stmts name := by
      intro name
      have hhalt : (cg.emit .halt).instructions.length - 1 = start stmts stmts.length := by
        unfold start
        rw [hcode, length_map, take_length]
        show (layout cg.regs 1 stmts ++ [_]).length + 1 - 1 = _
        rw [length_append, length_layout, length_singleton]
        omega
      rw [hlabels, defineAll_eq, hhalt]
      unfold labelTarget
      cases labelIndex name stmts with
      | some i => rfl
      | none => rfl
    simp only [htarget] at hcompile
    rw [hcode, hpatched] at hcompile
    cases hcompile
    exact patchRefs_refs retarget (labelTarget stmts) (program cg.regs stmts)

/-- **The code** of a list of statements over at most ten variables. -/
theorem compileAst_eq {stmts : List ILStatement} (hvars : AtMostTen stmts) :
    ∃ regs, Assigned regs stmts ∧ compileAst stmts = some (linked regs stmts) := by
  obtain ⟨vars, hlen, hin⟩ := hvars
  have hin' : ∀ s ∈ stmts, ∀ x, s.regVar? = some x → x ∈ vars := by
    intro s hs x hx
    refine hin s hs x ?_
    cases s <;> first | exact hx | cases hx
  obtain ⟨cg, hfold⟩ := compileStmts_isSome hlen stmts hin' allocated_first (nil_subset vars)
  have hsome : ∃ code, compileAst stmts = some code := by
    unfold compileAst Codegen.compile
    rw [hfold]
    exact ⟨_, rfl⟩
  obtain ⟨code, hcompile⟩ := hsome
  obtain ⟨regs, hregs, rfl⟩ := compileAst_some hcompile
  exact ⟨regs, hregs, hcompile⟩

end Audesys.Il
