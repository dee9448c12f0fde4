import Audesys.Hal.Confined
import Audesys.St.Writes

/-!
# `St.Discipline` — the scratch registers of an expression

The generator takes scratch registers and gives them back by hand. Whatever the destination and whichever registers are
free, an expression leaves the same ones free, and its instructions write the destination and
registers that were free (`compileExpr_keeps`). Its jumps stay inside its code as long as the instructions can be
counted in a `u32` (`compileExpr_jumps`); `longCode_escapes` is a jump that does not.
-/

open List

namespace Audesys.St

open Audesys.Hal Audesys.Lib Codegen

variable [Target]

/-! ## What instructions write -/

/-- The instructions from `base` on write registers in `P` only. -/
def WritesFrom (P : UInt8 → Prop) (base : Nat) (code : List Instruction) : Prop :=
  ∀ i x, base ≤ i → code[i]? = some x → ∀ r ∈ (footprint x).writes, P r

section
variable {P : UInt8 → Prop} {base : Nat} {code : List Instruction} {x : Instruction}

/-- Without its registers an instruction writes none. -/
theorem retarget_writes (target : UInt32) (x : Instruction) : (footprint (retarget target x)).writes = [] := by
  obtain ⟨opcode, operands⟩ := x
  cases opcode <;> rfl

/-- In front of what is emitted. -/
theorem writesFrom_length : WritesFrom P code.length code := by
  intro i x hi hx
  rw [getElem?_eq_none hi] at hx
  cases hx

theorem WritesFrom.push (h : WritesFrom P base code) (hx : ∀ r ∈ (footprint x).writes, P r) :
    WritesFrom P base (code ++ [x]) := by
  intro i y hi hy
  by_cases hlt : i < code.length
  · rw [getElem?_append_left hlt] at hy
    exact h i y hi hy
  · rw [getElem?_append_right (Nat.le_of_not_lt hlt), getElem?_singleton] at hy
    split at hy
    · cases hy
      exact hx
    · cases hy

/-- A patch takes registers away, whichever instruction it hits. -/
theorem WritesFrom.patch (h : WritesFrom P base code) (k : Nat) (target : UInt32) :
    WritesFrom P base (code.modify k (retarget target)) := by
  intro i y hi hy
  rw [getElem?_modify] at hy
  obtain ⟨z, hz, rfl⟩ := Option.map_eq_some_iff.1 hy
  split
  · rw [retarget_writes]
    exact fun r hr => absurd hr not_mem_nil
  · exact h i z hi hz

end

/-- What the generator may emit writes what its handler writes. -/
theorem Writes.written {P : UInt8 → Prop} {x : Instruction} (h : Writes P x) : ∀ r ∈ (footprint x).writes, P r := by
  cases h with
  | loadImm h => exact forall_mem_singleton.2 h
  | arith op h => cases op <;> first | exact forall_mem_singleton.2 h | exact forall_mem_nil _
  | not h => exact forall_mem_singleton.2 h
  | cmp op => cases op <;> exact forall_mem_nil _
  | loadIndex h => exact forall_mem_singleton.2 h
  | storeIndex h => exact forall_mem_singleton.2 h
  | readTimer h₁ h₂ => exact forall_mem_cons.2 ⟨h₁, forall_mem_singleton.2 h₂⟩
  | readSr h₁ h₂ => exact forall_mem_cons.2 ⟨h₁, forall_mem_singleton.2 h₂⟩
  | readEdge h => exact forall_mem_singleton.2 h
  | jump => exact forall_mem_nil _
  | jumpIf => exact forall_mem_nil _

/-! ## Expressions -/

/-- What an emitter keeps: the free scratch registers, and that nothing but registers in `P` is written, if those are
the destination and what is free. -/
structure Kept (dest : UInt8) (cg cg' : Codegen) : Prop where
  scratch : cg'.scratch = cg.scratch
  writes : ∀ {P : UInt8 → Prop} {base : Nat}, P dest → (∀ r, cg.scratch.has r → P r) →
    WritesFrom P base cg.instructions → WritesFrom P base cg'.instructions

def Keeps (em : Emitter) : Prop := ∀ {dest cg cg'}, em dest cg = .ok cg' → Kept dest cg cg'

theorem compileCmp_kept {left right : Emitter} (hl : Keeps left) (hr : Keeps right) {op : BinOp} {dest : UInt8}
    {cg cg' : Codegen} (h : compileCmp left right op cg = .ok cg') : Kept dest cg cg' := by
  simp only [compileCmp, bind_ok, Prod.exists, allocScratch_ok, Except.ok.injEq] at h
  obtain ⟨rs, cg₁, ⟨sc₁, ha₁, rfl⟩, cg₂, h₂, ls, cg₃, ⟨sc₂, ha₂, rfl⟩, cg₄, h₄, rfl⟩ := h
  have hkept := hr h₂
  have hkept' := hl h₄
  have ht₁ := Scratch.alloc_taken ha₁
  have hsc : cg₂.scratch = sc₁ := hkept.scratch
  rw [hsc] at ha₂
  have ht₂ := Scratch.alloc_taken ha₂
  refine ⟨?_, ?_⟩
  · show (cg₄.scratch.free ls).free rs = cg.scratch
    rw [hkept'.scratch, withScratch_scratch, Scratch.free_alloc ha₂, Scratch.free_alloc ha₁]
  · intro P base _ hfree hwrites
    have hwrites' := hkept.writes (hfree rs ht₁.isFree) (fun r hr => hfree r (ht₁.subset r hr)) hwrites
    refine (hkept'.writes (hfree ls (ht₁.subset ls ht₂.isFree)) ?_ hwrites').push (Writes.cmp op).written
    exact fun r hr => hfree r (ht₁.subset r (ht₂.subset r hr))

theorem compileField_kept (name field : String) : Keeps (compileField name field) := by
  intro dest cg cg' h
  simp only [compileField, bind_ok, varReg_ok] at h
  obtain ⟨reg, _, h⟩ := h
  split at h
  · simp only [bind_ok, Prod.exists, allocScratch_ok] at h
    obtain ⟨other, cg₁, ⟨sc₁, ha, rfl⟩, h⟩ := h
    have ht := Scratch.alloc_taken ha
    split at h
    · cases h
      exact ⟨Scratch.free_alloc ha, fun hdest hfree hwrites =>
        hwrites.push (Writes.readSr (hfree other ht.isFree) hdest).written⟩
    · cases h
      exact ⟨Scratch.free_alloc ha, fun hdest hfree hwrites =>
        hwrites.push (Writes.readSr hdest (hfree other ht.isFree)).written⟩
  · split at h
    · cases h
      exact ⟨rfl, fun hdest _ hwrites => hwrites.push (Writes.readEdge hdest).written⟩
    · simp only [bind_ok, Prod.exists, allocScratch_ok, Except.ok.injEq] at h
      obtain ⟨et, cg₁, ⟨sc₁, ha, rfl⟩, rfl⟩ := h
      exact ⟨Scratch.free_alloc ha, fun hdest hfree hwrites =>
        hwrites.push (Writes.readTimer hdest (hfree et (Scratch.alloc_taken ha).isFree)).written⟩

/-- **Expressions keep the discipline.** Every register that is taken is given back behind the code that uses it. -/
theorem compileExpr_keeps (e : Expr) : Keeps (compileExpr e) := by
  induction e with
  | intLiteral | realLiteral | boolLiteral =>
    intro dest cg cg' h
    cases h
    exact ⟨rfl, fun hdest _ hwrites => hwrites.push (Writes.loadImm hdest).written⟩
  | var name =>
    intro dest cg cg' h
    simp only [compileExpr, bind_ok, varReg_ok] at h
    obtain ⟨src, _, h⟩ := h
    split at h
    · cases h
      exact ⟨rfl, fun _ _ hwrites => hwrites⟩
    · cases h
      exact ⟨rfl, fun hdest _ hwrites =>
        (hwrites.push (Writes.loadImm hdest).written).push (Writes.arith .add hdest).written⟩
  | binary left op right hl hr =>
    intro dest cg cg' h
    by_cases harith : op.isArith
    · simp only [compileExpr, if_pos harith, bind_ok, Prod.exists, allocScratch_ok, Except.ok.injEq] at h
      obtain ⟨cg₁, h₁, s, cg₂, ⟨sc₁, ha, rfl⟩, cg₃, h₃, rfl⟩ := h
      have hleft := hl h₁
      have hright := hr h₃
      rw [hleft.scratch] at ha
      have ht := Scratch.alloc_taken ha
      refine ⟨?_, fun hdest hfree hwrites => ?_⟩
      · show cg₃.scratch.free s = _
        rw [hright.scratch, withScratch_scratch, Scratch.free_alloc ha]
      · have hwrites' := hright.writes (hfree s ht.isFree) (fun r hr => hfree r (ht.subset r hr))
          (hleft.writes hdest hfree hwrites)
        exact hwrites'.push (Writes.arith op hdest).written
    · by_cases hcmp : op.isCmp
      · simp only [compileExpr, if_neg harith, if_pos hcmp, compileCmpExpr, bind_ok, Except.ok.injEq] at h
        obtain ⟨cg₁, h₁, rfl⟩ := h
        have hkept : Kept dest cg cg₁ := compileCmp_kept hl hr h₁
        refine ⟨hkept.scratch, fun hdest hfree hwrites => WritesFrom.patch ?_ _ _⟩
        exact (((hkept.writes hdest hfree hwrites).push (Writes.loadImm hdest).written).push
          Writes.jumpIf.written).push (Writes.loadImm hdest).written
      · simp only [compileExpr, if_neg harith, if_neg hcmp, bind_ok, Prod.exists, allocScratch_ok,
          Except.ok.injEq] at h
        obtain ⟨s, cg₁, ⟨sc₁, ha, rfl⟩, cg₂, h₂, cg₃, h₃, rfl⟩ := h
        have hleft := hl h₂
        have hright := hr h₃
        have ht := Scratch.alloc_taken ha
        have hsc : cg₂.scratch = sc₁ := hleft.scratch
        refine ⟨?_, fun hdest hfree hwrites => ?_⟩
        · show cg₃.scratch.free s = _
          rw [hright.scratch, hsc, Scratch.free_alloc ha]
        · have hsub : ∀ r, sc₁.has r → _ := fun r hr => hfree r (ht.subset r hr)
          have hwrites' := hright.writes (hfree s ht.isFree) (hsc ▸ hsub) (hleft.writes hdest hsub hwrites)
          exact hwrites'.push (Writes.arith op hdest).written
  | unary op inner ih =>
    intro dest cg cg' h
    cases op with
    | neg =>
      simp only [compileExpr, bind_ok, Prod.exists, allocScratch_ok, Except.ok.injEq] at h
      obtain ⟨cg₁, h₁, zero, cg₂, ⟨sc₁, ha, rfl⟩, rfl⟩ := h
      have hkept := ih h₁
      rw [hkept.scratch] at ha
      refine ⟨Scratch.free_alloc ha, fun hdest hfree hwrites => ?_⟩
      exact ((hkept.writes hdest hfree hwrites).push
        (Writes.loadImm (hfree zero (Scratch.alloc_taken ha).isFree)).written).push
        (Writes.arith .sub hdest).written
    | not =>
      simp only [compileExpr, bind_ok, Except.ok.injEq] at h
      obtain ⟨cg₁, h₁, rfl⟩ := h
      have hkept := ih h₁
      exact ⟨hkept.scratch, fun hdest hfree hwrites =>
        (hkept.writes hdest hfree hwrites).push (Writes.not hdest).written⟩
  | arrayAccess name index ih =>
    intro dest cg cg' h
    simp only [compileExpr, bind_ok, varReg_ok, Prod.exists, allocScratch_ok, Except.ok.injEq] at h
    obtain ⟨array, _, idx, cg₁, ⟨sc₁, ha, rfl⟩, cg₂, h₂, rfl⟩ := h
    have hkept := ih h₂
    have ht := Scratch.alloc_taken ha
    refine ⟨?_, fun hdest hfree hwrites => ?_⟩
    · show cg₂.scratch.free idx = _
      rw [hkept.scratch, withScratch_scratch, Scratch.free_alloc ha]
    · exact (hkept.writes (hfree idx ht.isFree) (fun r hr => hfree r (ht.subset r hr)) hwrites).push
        (Writes.loadIndex hdest).written
  | fieldAccess name field => exact compileField_kept name field

/-! ## The discipline -/

/-- The instructions that were added write `dest` or a scratch register that was free. -/
def WritesOwn (dest : UInt8) (cg cg' : Codegen) : Prop :=
  WritesFrom (fun r => r = dest ∨ cg.scratch.has r) cg.instructions.length cg'.instructions

/-- The jumps that were added go to one of the added instructions, or right behind them. -/
def JumpsInside (cg cg' : Codegen) : Prop :=
  ∀ i x, cg.instructions.length ≤ i → cg'.instructions[i]? = some x → Exec.isJump x.opcode = true →
    ∃ t, JumpsTo x t ∧ cg.instructions.length ≤ t.toNat ∧ t.toNat ≤ cg'.instructions.length

omit [Target] in
theorem not_isJump_of_isPlain {op : Opcode} (h : op.isPlain = true) : Exec.isJump op = false := by
  cases op <;> first | rfl | cases h

/-- **Jumps stay inside** while an index is its `u32`. -/
theorem compileExpr_jumps {e : Expr} {dest : UInt8} {cg cg' : Codegen} (h : compileExpr e dest cg = .ok cg')
    (hb : cg'.instructions.length < 2 ^ 32) : JumpsInside cg cg' := by
  obtain ⟨code, hcode, rfl⟩ := compileExpr_eq e dest cg cg' h hb
  rw [append_instructions, length_append] at hb
  intro i x hi hx hjump
  rw [append_instructions, getElem?_append_right hi] at hx
  rcases (genExpr_writes e hcode x (mem_of_getElem? hx)).jumps_or_isPlain with ⟨t, ht⟩ | hplain
  · obtain ⟨hlt, hle⟩ := genExpr_ahead e hcode hb _ x hx t ht
    rw [append_instructions, length_append]
    exact ⟨t, ht, by omega, hle⟩
  · rw [not_isJump_of_isPlain hplain] at hjump
    cases hjump

/-- **The discipline.** Below `2 ^ 32` instructions for the jumps. -/
theorem compileExpr_disciplined (e : Expr) (dest : UInt8) (cg cg' : Codegen) (h : compileExpr e dest cg = .ok cg') :
    cg'.scratch = cg.scratch ∧ WritesOwn dest cg cg' ∧
      (cg'.instructions.length < 2 ^ 32 → JumpsInside cg cg') := by
  have hkept := compileExpr_keeps e h
  exact ⟨hkept.scratch, hkept.writes (.inl rfl) (fun r hr => .inr hr) writesFrom_length, compileExpr_jumps h⟩

/-! ## Beyond the range of the targets -/

/-- With `2 ^ 32` instructions in front, the jump of a comparison is not the one that is patched. -/
theorem comparison_escapes {cg : Codegen} (hlen : cg.instructions.length = 2 ^ 32) (hfree : cg.scratch = .all)
    (dest : UInt8) : ∃ cg', compileExpr (.binary (.intLiteral 1) .eq (.intLiteral 2)) dest cg = .ok cg' ∧
      ¬ JumpsInside cg cg' := by
  obtain ⟨decls, code, scratch, loops⟩ := cg
  obtain rfl : scratch = .all := hfree
  let front := code ++ [Instruction.loadImm scratch0 (.s32 2)] ++ [.loadImm scratch1 (.s32 1)] ++
    [.cmp .eq scratch1 scratch0] ++ [.loadImm dest (.bool false)]
  let flag := Instruction.loadImm dest (.bool true)
  refine ⟨patchJump ⟨decls, front ++ [Instruction.jumpIf 0] ++ [flag], .all, loops⟩ (label front.length)
    (label (front ++ [Instruction.jumpIf 0] ++ [flag]).length), rfl, ?_⟩
  intro h
  have hfront : front.length = 2 ^ 32 + 4 := by
    simp only [front, length_append, length_singleton]
    exact congrArg (· + 4) hlen
  -- the index of the jump wraps to 4
  have hwrap : (label front.length).toNat ≠ front.length := by
    have hlt := (label front.length).toNat_lt
    omega
  have hjump : ((front ++ [Instruction.jumpIf 0] ++ [flag]).modify (label front.length).toNat
      (retarget (label (front ++ [Instruction.jumpIf 0] ++ [flag]).length)))[front.length]? = some (.jumpIf 0) := by
    simp only [getElem?_modify, if_neg hwrap]
    rw [List.append_assoc, getElem?_append_right (Nat.le_refl _), Nat.sub_self]
    rfl
  obtain ⟨t, ht, hlow, _⟩ := h front.length (.jumpIf 0) (by rw [hfront]; exact hlen ▸ Nat.le_add_right _ _) hjump rfl
  rw [ht.target (.inr rfl)] at hlow
  replace hlow : code.length ≤ 0 := hlow
  replace hlen : code.length = 2 ^ 32 := hlen
  omega

end Audesys.St

/-! ## Two comparisons -/

namespace Audesys.St

open Audesys.Hal

local instance releaseDiscipline : Target := host false

/-- With `r15` and `r13` free, into `r3`. -/
theorem comparison_disciplined : ∃ cg cg' : Codegen, cg.scratch = ⟨false, true, true⟩ ∧
    cg'.scratch = cg.scratch ∧ WritesOwn 3 cg cg' ∧ (cg'.instructions.length < 2 ^ 32 → JumpsInside cg cg') :=
  ⟨⟨⟨fun _ => none, fun _ => none⟩, [], ⟨false, true, true⟩, []⟩, _, rfl,
    compileExpr_disciplined (.binary (.intLiteral 1) .eq (.intLiteral 2)) 3 _ _ rfl⟩

/-- A comparison behind as many `Halt`s as a target can count. -/
theorem longCode_escapes : ¬ ∀ (e : Expr) (dest : UInt8) (cg cg' : Codegen), compileExpr e dest cg = .ok cg' →
    cg'.scratch = cg.scratch ∧ WritesOwn dest cg cg' ∧ JumpsInside cg cg' := by
  intro h
  let cg : Codegen := ⟨⟨fun _ => none, fun _ => none⟩, List.replicate (2 ^ 32) .halt, .all, []⟩
  obtain ⟨cg', hok, hescapes⟩ := @comparison_escapes _ cg length_replicate rfl 0
  exact hescapes (h _ _ cg cg' hok).2.2

end Audesys.St
