import Audesys.St.Layout

/-!
# `St.Backpatch` — the generator emits the code of `St.Layout`

`compileExpr`, `compileBoolCond` and `compileStmt` append the code of `genExpr`, `genCond` and `genStmt` to
the instructions and leave everything else as it was, apart from the jump indices they hand to their caller:
those are the positions of the holes. The one thing that could go wrong is the cast of an index to `u32`, so
every statement carries the bound on the final length; parts of a compilation are shorter than the whole, so
the proofs go through the parts from the last to the first.
-/

namespace Audesys.St

open Audesys.Hal Audesys.Lib Codegen

theorem Scratch.free_alloc {sc sc' : Scratch} {r : UInt8} (h : sc.alloc = some (r, sc')) : sc'.free r = sc := by
  obtain ⟨a, b, c⟩ := sc
  cases a <;> cases b <;> cases c <;> simp only [Scratch.alloc] at h <;> cases h <;> rfl

theorem Scratch.free_comm (sc : Scratch) (r r' : UInt8) : (sc.free r).free r' = (sc.free r').free r := by
  simp [Scratch.free, Bool.or_assoc, Bool.or_comm (r == _)]

variable [Target]

/-! ## Appending -/

namespace Codegen

def append (cg : Codegen) (code : List Instruction) : Codegen :=
  { cg with instructions := cg.instructions ++ code }

def withScratch (cg : Codegen) (sc : Scratch) : Codegen := { cg with scratch := sc }

def withExits (cg : Codegen) (exits : List (List UInt32)) : Codegen := { cg with loopExits := exits }

variable (cg : Codegen) (code code' : List Instruction) (sc sc' : Scratch) (ls ls' : List (List UInt32))

@[simp] theorem append_decls : (cg.append code).decls = cg.decls := rfl
@[simp] theorem append_scratch : (cg.append code).scratch = cg.scratch := rfl
@[simp] theorem append_loopExits : (cg.append code).loopExits = cg.loopExits := rfl
@[simp] theorem append_instructions : (cg.append code).instructions = cg.instructions ++ code := rfl
@[simp] theorem withScratch_decls : (cg.withScratch sc).decls = cg.decls := rfl
@[simp] theorem withScratch_scratch : (cg.withScratch sc).scratch = sc := rfl
@[simp] theorem withScratch_loopExits : (cg.withScratch sc).loopExits = cg.loopExits := rfl
@[simp] theorem withScratch_instructions : (cg.withScratch sc).instructions = cg.instructions := rfl
@[simp] theorem withScratch_withScratch : (cg.withScratch sc).withScratch sc' = cg.withScratch sc' := rfl
@[simp] theorem withScratch_self : cg.withScratch cg.scratch = cg := rfl
@[simp] theorem append_withScratch_self : (cg.append code).withScratch cg.scratch = cg.append code := rfl
@[simp] theorem append_nil : cg.append [] = cg := by simp [append]
@[simp] theorem append_append : (cg.append code).append code' = cg.append (code ++ code') := by
  simp [append]
@[simp] theorem withScratch_append : (cg.withScratch sc).append code = (cg.append code).withScratch sc := rfl

@[simp] theorem withExits_decls : (cg.withExits ls).decls = cg.decls := rfl
@[simp] theorem withExits_scratch : (cg.withExits ls).scratch = cg.scratch := rfl
@[simp] theorem withExits_loopExits : (cg.withExits ls).loopExits = ls := rfl
@[simp] theorem withExits_instructions : (cg.withExits ls).instructions = cg.instructions := rfl
@[simp] theorem withExits_withExits : (cg.withExits ls).withExits ls' = cg.withExits ls' := rfl
@[simp] theorem withExits_append : (cg.withExits ls).append code = (cg.append code).withExits ls := rfl
@[simp] theorem withExits_self : cg.withExits cg.loopExits = cg := rfl
@[simp] theorem append_withExits_self : (cg.append code).withExits cg.loopExits = cg.append code := rfl
@[simp] theorem withExits_withScratch : (cg.withExits ls).withScratch sc = (cg.withScratch sc).withExits ls := rfl

@[simp] theorem emit_eq (inst : Instruction) : cg.emit inst = cg.append [inst] := rfl
@[simp] theorem freeScratch_eq (r : UInt8) : cg.freeScratch r = cg.withScratch (cg.scratch.free r) := rfl
@[simp] theorem currentIdx_eq : cg.currentIdx = label cg.instructions.length := rfl

theorem allocScratch_ok {cg cg' : Codegen} {r : UInt8} :
    cg.allocScratch = .ok (r, cg') ↔ ∃ sc, cg.scratch.alloc = some (r, sc) ∧ cg' = cg.withScratch sc := by
  unfold allocScratch
  cases h : cg.scratch.alloc with
  | none => simp
  | some p =>
    obtain ⟨r', sc⟩ := p
    constructor
    · intro heq
      cases heq
      exact ⟨sc, rfl, rfl⟩
    · rintro ⟨sc', hp, rfl⟩
      cases hp
      rfl

theorem varReg_ok {cg : Codegen} {name : String} {r : UInt8} :
    cg.varReg name = .ok r ↔ cg.decls.registers name = some r := by
  unfold varReg
  cases h : cg.decls.registers name with
  | none => simp
  | some r' => simp

/-! ## Patching -/

omit cg code code' sc sc' ls ls' in
@[simp] theorem retarget_jump (old target : UInt32) : retarget target (.jump old) = .jump target := rfl

omit cg code code' sc sc' ls ls' in
@[simp] theorem retarget_jumpIf (old target : UInt32) : retarget target (.jumpIf old) = .jumpIf target := rfl

/-- Patch one emitted jump. -/
theorem patchJump_at (i : Instruction) (target : UInt32)
    (h : cg.instructions.length + code.length < 2 ^ 32) :
    (cg.append (code ++ i :: code')).patchJump (label (cg.instructions.length + code.length)) target =
      cg.append (code ++ retarget target i :: code') := by
  have hmod := modify_behind (retarget target) (cg.instructions ++ code) (i :: code') 0
  rw [List.length_append, Nat.add_zero] at hmod
  simp [patchJump, append, label_toNat h, ← List.append_assoc, hmod]

/-- Patch one emitted jump, given its index. -/
theorem patchJump_eq {n : Nat} (i : Instruction) (target : UInt32)
    (hn : n = cg.instructions.length + code.length) (h : n < 2 ^ 32) :
    (cg.append (code ++ i :: code')).patchJump (label n) target =
      cg.append (code ++ retarget target i :: code') := by
  subst hn
  exact patchJump_at _ _ _ _ _ h

theorem patchJumps_eq (jumps : List UInt32) (target : UInt32) :
    cg.patchJumps jumps target =
      { cg with instructions := patchAll (retarget target) cg.instructions (jumps.map (·.toNat)) } := by
  induction jumps generalizing cg with
  | nil => rfl
  | cons j jumps ih =>
    show (cg.patchJump j target).patchJumps jumps target = _
    rw [ih]
    rfl

@[simp] theorem withExits_patchJump (i t : UInt32) :
    (cg.withExits ls).patchJump i t = (cg.patchJump i t).withExits ls := rfl

@[simp] theorem withExits_patchJumps (jumps : List UInt32) (t : UInt32) :
    (cg.withExits ls).patchJumps jumps t = (cg.patchJumps jumps t).withExits ls := by
  simp only [patchJumps_eq]
  rfl

@[simp] theorem patchJump_decls (i t : UInt32) : (cg.patchJump i t).decls = cg.decls := rfl
@[simp] theorem patchJump_scratch (i t : UInt32) : (cg.patchJump i t).scratch = cg.scratch := rfl

@[simp] theorem length_patchJump (i t : UInt32) :
    (cg.patchJump i t).instructions.length = cg.instructions.length := List.length_modify ..

@[simp] theorem length_patchJumps (jumps : List UInt32) (t : UInt32) :
    (cg.patchJumps jumps t).instructions.length = cg.instructions.length := by
  rw [patchJumps_eq]
  exact length_patchAll ..

/-- The indices that the generator records for the holes of a piece of code at `base`. -/
def jumpsAt {κ : Type} [DecidableEq κ] (base : Nat) (k : κ) (c : List (Slot κ Instruction)) : List UInt32 :=
  (holes k c).map fun p => label (base + p)

/-- **Patching the recorded jumps** of a piece of code fills its holes of that kind. -/
theorem patchJumps_holes {κ : Type} [DecidableEq κ] (k : κ) (c : List (Slot κ Instruction)) (target : UInt32)
    (h : cg.instructions.length + c.length ≤ 2 ^ 32) :
    (cg.append (c.map Slot.raw ++ code)).patchJumps (jumpsAt cg.instructions.length k c) target =
      cg.append ((c.map (Slot.fill retarget k target)).map Slot.raw ++ code) := by
  have hidx : (jumpsAt cg.instructions.length k c).map (·.toNat) =
      (holes k c).map (cg.instructions.length + ·) := by
    rw [jumpsAt, List.map_map]
    refine List.map_congr_left fun p hp => ?_
    have hlt : p < c.length := holes_lt k p hp
    exact label_toNat (by omega)
  have hfront := patchAll_front (retarget target) (c.map Slot.raw) code (holes k c)
    (by simpa using holes_lt (l := c) k)
  rw [patchJumps_eq, hidx]
  simp [append, patchAll_shift, hfront, patchAll_holes]

section
variable {κ : Type} [DecidableEq κ] (base : Nat) (k : κ)

omit cg code code' sc sc' ls ls'

@[simp] theorem jumpsAt_nil : jumpsAt base k ([] : List (Slot κ Instruction)) = [] := rfl

theorem jumpsAt_append (c₁ c₂ : List (Slot κ Instruction)) :
    jumpsAt base k (c₁ ++ c₂) = jumpsAt base k c₁ ++ jumpsAt (base + c₁.length) k c₂ := by
  simp [jumpsAt, holes_append, Function.comp_def, Nat.add_assoc]

@[simp] theorem jumpsAt_map_done (l : List Instruction) : jumpsAt base k (l.map Slot.done) = [] := by
  simp [jumpsAt]

@[simp] theorem jumpsAt_done (i : Instruction) (c : List (Slot κ Instruction)) :
    jumpsAt base k (.done i :: c) = jumpsAt (base + 1) k c := by
  simp [jumpsAt, holes, Function.comp_def, Nat.add_assoc]

@[simp] theorem jumpsAt_hole (k' : κ) (i : Instruction) (c : List (Slot κ Instruction)) :
    jumpsAt base k (.hole k' i :: c) =
      if k' = k then label base :: jumpsAt (base + 1) k c else jumpsAt (base + 1) k c := by
  split <;> simp [jumpsAt, holes, Function.comp_def, Nat.add_assoc, *]

end

end Codegen

/-! ## Expressions -/

/-- The emitter appends the code of `g`, for every start short enough. -/
def Generates (em : Emitter) (g : Decls → Scratch → Nat → UInt8 → Option (List Instruction)) : Prop :=
  ∀ dest cg cg', em dest cg = .ok cg' → cg'.instructions.length < 2 ^ 32 →
    ∃ code, g cg.decls cg.scratch cg.instructions.length dest = some code ∧ cg' = cg.append code

theorem compileCmp_eq {left right : Emitter} {gl gr : Decls → Scratch → Nat → UInt8 → Option (List Instruction)}
    {op : BinOp} (hl : Generates left gl) (hr : Generates right gr) {cg cg' : Codegen}
    (h : compileCmp left right op cg = .ok cg') (hb : cg'.instructions.length < 2 ^ 32) :
    ∃ code, genCmp (gl cg.decls) (gr cg.decls) op cg.scratch cg.instructions.length = some code ∧
      cg' = cg.append code := by
  simp only [compileCmp, bind_ok, Prod.exists, allocScratch_ok, Except.ok.injEq] at h
  obtain ⟨rs, cg₁, ⟨sc₁, ha₁, rfl⟩, cg₂, h₂, ls, cg₃, ⟨sc₂, ha₂, rfl⟩, cg₄, h₄, rfl⟩ := h
  simp at hb
  obtain ⟨cl, hcl, rfl⟩ := hl _ _ _ h₄ (by omega)
  simp at hb
  obtain ⟨cr, hcr, rfl⟩ := hr _ _ _ h₂ (by omega)
  simp at hcl hcr ha₂
  refine ⟨cr ++ cl ++ [Instruction.cmp op.opcode ls rs], ?_, ?_⟩
  · simp [genCmp, ha₁, hcr, ha₂, hcl]
  · simp [emit_eq, freeScratch_eq, Scratch.free_alloc ha₂, Scratch.free_alloc ha₁, List.append_assoc]

theorem compileField_eq (name field : String) :
    Generates (compileField name field) (fun d sc _ dest => genField d name field sc dest) := by
  intro dest cg cg' h _
  simp only [compileField, bind_ok, varReg_ok] at h
  obtain ⟨reg, hreg, h⟩ := h
  simp [genField, hreg]
  split at h
  · rename_i hsr
    simp only [bind_ok, Prod.exists, allocScratch_ok] at h
    obtain ⟨other, cg₁, ⟨sc₁, ha, rfl⟩, h⟩ := h
    simp only [hsr, if_true, ha, Option.bind_some]
    split at h
    · rename_i hq
      cases h
      exact ⟨_, by rw [if_pos hq], by simp [emit_eq, freeScratch_eq, Scratch.free_alloc ha]⟩
    · rename_i hq
      cases h
      exact ⟨_, by rw [if_neg hq], by simp [emit_eq, freeScratch_eq, Scratch.free_alloc ha]⟩
  · rename_i hsr
    simp only [hsr, if_false, Bool.false_eq_true]
    split at h
    · rename_i he
      cases h
      exact ⟨_, by rw [if_pos he], rfl⟩
    · rename_i he
      simp only [bind_ok, Prod.exists, allocScratch_ok, Except.ok.injEq] at h
      obtain ⟨et, cg₁, ⟨sc₁, ha, rfl⟩, rfl⟩ := h
      exact ⟨_, by rw [if_neg he, ha, Option.bind_some],
        by simp [emit_eq, freeScratch_eq, Scratch.free_alloc ha]⟩

/-- **Expressions.** -/
theorem compileExpr_eq (e : Expr) : Generates (compileExpr e) (fun d => genExpr d e) := by
  induction e with
  | intLiteral n => intro dest cg cg' h _; cases h; exact ⟨_, rfl, rfl⟩
  | realLiteral x => intro dest cg cg' h _; cases h; exact ⟨_, rfl, rfl⟩
  | boolLiteral b => intro dest cg cg' h _; cases h; exact ⟨_, rfl, rfl⟩
  | var name =>
    intro dest cg cg' h _
    simp only [compileExpr, bind_ok, varReg_ok] at h
    obtain ⟨src, hsrc, h⟩ := h
    simp [genExpr, hsrc]
    split at h
    · rename_i heq
      cases h
      exact ⟨[], by rw [if_pos heq], (append_nil cg).symm⟩
    · rename_i hne
      cases h
      exact ⟨_, by rw [if_neg hne], by simp [emit_eq]⟩
  | binary left op right hl hr =>
    intro dest cg cg' h hb
    by_cases harith : op.isArith
    -- from the last step back: the bound on the whole code is one on each part
    · simp only [compileExpr, if_pos harith, bind_ok, Prod.exists, allocScratch_ok, Except.ok.injEq] at h
      obtain ⟨cg₁, h₁, s, cg₂, ⟨sc₁, ha, rfl⟩, cg₃, h₃, rfl⟩ := h
      simp at hb
      obtain ⟨cr, hcr, rfl⟩ := hr _ _ _ h₃ (by omega)
      simp at hb
      obtain ⟨cl, hcl, rfl⟩ := hl _ _ _ h₁ (by omega)
      simp at hcr ha
      refine ⟨cl ++ cr ++ [Instruction.arith op.opcode dest s dest], ?_, ?_⟩
      · simp [genExpr, if_pos harith, hcl, ha, hcr]
      · simp [emit_eq, freeScratch_eq, Scratch.free_alloc ha, List.append_assoc]
    · by_cases hcmp : op.isCmp
      · simp [compileExpr, if_neg harith, if_pos hcmp, compileCmpExpr, bind_ok] at h
        obtain ⟨cg₁, h₁, rfl⟩ := h
        simp [patchJump] at hb
        obtain ⟨c, hc, rfl⟩ := compileCmp_eq hl hr h₁ (by omega)
        refine ⟨c ++ [Instruction.loadImm dest (.bool false), .jumpIf (label (cg.instructions.length + c.length + 3)),
          .loadImm dest (.bool true)], ?_, ?_⟩
        · simp [genExpr, if_neg harith, if_pos hcmp, hc]
        -- the jump over the last instruction gets its target once that is emitted
        · have hpatch := patchJump_at cg (c ++ [Instruction.loadImm dest (.bool false)])
            [.loadImm dest (.bool true)]
            (.jumpIf 0) (label (cg.instructions.length + c.length + 3))
            (by simp at hb ⊢; omega)
          simpa only [emit_eq, append_append, List.append_assoc, List.cons_append, List.nil_append, currentIdx_eq,
            append_instructions, List.length_append, List.length_cons, List.length_nil, Nat.add_assoc,
            Nat.reduceAdd, retarget_jumpIf] using hpatch
      · simp only [compileExpr, if_neg harith, if_neg hcmp, bind_ok, Prod.exists, allocScratch_ok,
          Except.ok.injEq] at h
        obtain ⟨s, cg₁, ⟨sc₁, ha, rfl⟩, cg₂, h₂, cg₃, h₃, rfl⟩ := h
        simp at hb
        obtain ⟨cr, hcr, rfl⟩ := hr _ _ _ h₃ (by omega)
        simp at hb
        obtain ⟨cl, hcl, rfl⟩ := hl _ _ _ h₂ (by omega)
        simp at hcr hcl
        refine ⟨cl ++ cr ++ [Instruction.arith op.opcode dest s dest], ?_, ?_⟩
        · simp [genExpr, if_neg harith, if_neg hcmp, hcl, ha, hcr]
        · simp [emit_eq, freeScratch_eq, Scratch.free_alloc ha, List.append_assoc]
  | unary op inner ih =>
    intro dest cg cg' h hb
    cases op with
    | neg =>
      simp only [compileExpr, bind_ok, Prod.exists, allocScratch_ok, Except.ok.injEq] at h
      obtain ⟨cg₁, h₁, zero, cg₂, ⟨sc₁, ha, rfl⟩, rfl⟩ := h
      simp at hb
      obtain ⟨c, hc, rfl⟩ := ih _ _ _ h₁ (by omega)
      refine ⟨c ++ [Instruction.loadImm zero (.s32 0), .arith .sub zero dest dest], ?_, ?_⟩
      · simp only [append_scratch] at ha
        simp [genExpr, hc, ha]
      · simp [emit_eq, freeScratch_eq, Scratch.free_alloc ha, List.append_assoc]
    | not =>
      simp only [compileExpr, bind_ok, Except.ok.injEq] at h
      obtain ⟨cg₁, h₁, rfl⟩ := h
      simp at hb
      obtain ⟨c, hc, rfl⟩ := ih _ _ _ h₁ (by omega)
      exact ⟨c ++ [notInst dest], by simp [genExpr, hc],
        by simp [emit_eq]⟩
  | arrayAccess name index ih =>
    intro dest cg cg' h hb
    simp only [compileExpr, bind_ok, varReg_ok, Prod.exists, allocScratch_ok, Except.ok.injEq] at h
    obtain ⟨array, harr, idx, cg₁, ⟨sc₁, ha, rfl⟩, cg₂, h₂, rfl⟩ := h
    simp at hb
    obtain ⟨c, hc, rfl⟩ := ih _ _ _ h₂ (by omega)
    simp at hc
    exact ⟨c ++ [Instruction.loadIndex dest array idx],
      by simp [genExpr, harr, ha, hc],
      by simp [emit_eq, freeScratch_eq, Scratch.free_alloc ha]⟩
  | fieldAccess name field => exact compileField_eq name field

/-! ## Conditions -/

/-- What `compile_bool_cond` does: it appends the condition's code and the indices of its open jumps. -/
def CondGenerates (e : Expr) : Prop :=
  ∀ js js' cg cg', compileBoolCond e js cg = .ok (js', cg') → cg'.instructions.length < 2 ^ 32 →
    ∃ c, genCond cg.decls e cg.scratch cg.instructions.length = some c ∧ cg' = cg.append (c.map Slot.raw) ∧
      js' = ⟨js.elseJumps ++ jumpsAt cg.instructions.length .onTrue c,
        js.endJumps ++ jumpsAt cg.instructions.length .onEnd c⟩

theorem compileTruth_eq {value : Emitter} {g : Decls → Scratch → Nat → UInt8 → Option (List Instruction)}
    (hv : Generates value g) {js js' : Jumps} {cg cg' : Codegen}
    (h : compileBoolCond.compileTruth value js cg = .ok (js', cg')) (hb : cg'.instructions.length < 2 ^ 32) :
    ∃ c, genTruth (g cg.decls) cg.scratch cg.instructions.length = some c ∧ cg' = cg.append (c.map Slot.raw) ∧
      js' = ⟨js.elseJumps ++ jumpsAt cg.instructions.length .onTrue c,
        js.endJumps ++ jumpsAt cg.instructions.length .onEnd c⟩ := by
  simp only [compileBoolCond.compileTruth, bind_ok, Prod.exists, allocScratch_ok, Except.ok.injEq,
    Prod.mk.injEq] at h
  obtain ⟨s, cg₁, ⟨sc₁, ha₁, rfl⟩, cg₂, h₂, t, cg₃, ⟨sc₂, ha₂, rfl⟩, rfl, rfl⟩ := h
  simp at hb
  obtain ⟨c, hc, rfl⟩ := hv _ _ _ h₂ (by omega)
  simp at hc ha₂
  refine ⟨_, by simp [genTruth, ha₁, hc, ha₂]; rfl, ?_, ?_⟩
  · simp [emit_eq, freeScratch_eq, Scratch.free_comm _ s t, Scratch.free_alloc ha₂, Scratch.free_alloc ha₁,
      List.append_assoc]
  · simp [emit_eq, freeScratch_eq, currentIdx_eq, jumpsAt_append, Nat.add_assoc]

/-- **Conditions.** -/
theorem compileBoolCond_eq (e : Expr) : CondGenerates e := by
  induction e with
  | intLiteral n => intro js js' cg cg' h hb; exact compileTruth_eq (compileExpr_eq (.intLiteral n)) h hb
  | realLiteral x => intro js js' cg cg' h hb; exact compileTruth_eq (compileExpr_eq (.realLiteral x)) h hb
  | boolLiteral b => intro js js' cg cg' h hb; exact compileTruth_eq (compileExpr_eq (.boolLiteral b)) h hb
  | var name => intro js js' cg cg' h hb; exact compileTruth_eq (compileExpr_eq (.var name)) h hb
  | arrayAccess name index _ =>
    intro js js' cg cg' h hb
    exact compileTruth_eq (compileExpr_eq (.arrayAccess name index)) h hb
  | fieldAccess name field =>
    intro js js' cg cg' h hb
    exact compileTruth_eq (compileExpr_eq (.fieldAccess name field)) h hb
  | unary op inner ih =>
    intro js js' cg cg' h hb
    cases op with
    | neg => exact compileTruth_eq (compileExpr_eq (.unary .neg inner)) h hb
    | not =>
      simp only [compileBoolCond, bind_ok, Prod.exists, Except.ok.injEq, Prod.mk.injEq] at h
      obtain ⟨ins, cg₁, h₁, rfl, rfl⟩ := h
      obtain ⟨c, hc, rfl, rfl⟩ := ih _ _ _ _ h₁ hb
      -- negation takes the jumps to the body for those to the end, and the other way round
      have hswap : ∀ k : CondHole, jumpsAt cg.instructions.length k.swap (c.map (Slot.relabel CondHole.swap)) =
          jumpsAt cg.instructions.length k c := by
        intro k
        rw [jumpsAt, holes_map_relabel k (fun a b => by cases a <;> cases b <;> simp [CondHole.swap]), jumpsAt]
      refine ⟨c.map (Slot.relabel CondHole.swap), ?_, ?_, ?_⟩
      · simp [genCond, hc]
      · simp [Function.comp_def]
      · have hTrue := hswap .onEnd
        have hEnd := hswap .onTrue
        simp only [CondHole.swap] at hTrue hEnd
        simp only [hTrue, hEnd, List.nil_append]
  | binary left op right hl hr =>
    intro js js' cg cg' h hb
    by_cases hcmp : op.isCmp
    · simp [compileBoolCond, if_pos hcmp, bind_ok] at h
      obtain ⟨cg₁, h₁, rfl, rfl⟩ := h
      simp at hb
      obtain ⟨c, hc, rfl⟩ := compileCmp_eq (compileExpr_eq left) (compileExpr_eq right) h₁ (by omega)
      refine ⟨c.map Slot.done ++ [Slot.hole CondHole.onTrue (Instruction.jumpIf 0)], ?_, ?_, ?_⟩
      · simp [genCond, if_pos hcmp, hc]
      · simp
      · simp [jumpsAt_append]
    · by_cases hand : op = .and
      · subst hand
        simp [compileBoolCond, if_neg hcmp, bind_ok] at h
        obtain ⟨js₁, cg₁, h₁, h₂⟩ := h
        obtain ⟨cr, hcr, rfl, rfl⟩ := hr _ _ _ _ h₂ hb
        simp at hb
        obtain ⟨cl, hcl, rfl, rfl⟩ := hl _ _ _ _ h₁ (by omega)
        simp at hcr
        refine ⟨cl ++ cr, ?_, ?_, ?_⟩
        · simp [genCond, if_neg hcmp, hcl, hcr]
        · simp
        · simp [jumpsAt_append]
      · by_cases hor : op = .or
        · subst hor
          simp [compileBoolCond, if_neg hcmp, bind_ok] at h
          obtain ⟨js₁, cg₁, h₁, h₂⟩ := h
          obtain ⟨cr, hcr, rfl, rfl⟩ := hr _ _ _ _ h₂ hb
          have hlen : cg₁.instructions.length + 1 + cr.length < 2 ^ 32 := by
            simpa [emit_eq, patchJumps_eq, length_patchAll] using hb
          obtain ⟨cl, hcl, rfl, rfl⟩ := hl _ _ _ _ h₁ (by omega)
          -- the jumps of the left side are patched to the start of the right one
          have hpatch := patchJumps_holes cg [.jump 0] .onTrue cl
            (label (cg.instructions.length + cl.length + 1)) (by simp at hlen; omega)
          simp only [append_append, append_instructions, List.length_append,
            List.length_map, List.length_singleton, List.nil_append, ← Nat.add_assoc, hpatch] at hcr ⊢
          simp only [append_decls, append_scratch] at hcr
          refine ⟨cl.map (Slot.fill retarget .onTrue (label (cg.instructions.length + cl.length + 1))) ++
            .hole .onEnd (.jump 0) :: cr, ?_, ?_, ?_⟩
          · simp [genCond, if_neg hcmp, hcl, hcr]
          · simp
          · have hTrue : jumpsAt cg.instructions.length .onTrue
                (cl.map (Slot.fill retarget .onTrue (label (cg.instructions.length + cl.length + 1)))) = [] := by
              simp [jumpsAt]
            have hEnd : jumpsAt cg.instructions.length .onEnd
                (cl.map (Slot.fill retarget .onTrue (label (cg.instructions.length + cl.length + 1)))) =
                jumpsAt cg.instructions.length .onEnd cl := by
              rw [jumpsAt, holes_map_fill_ne _ _ _ (by decide), jumpsAt]
            simp only [jumpsAt_append, hTrue, hEnd]
            simp [Nat.add_assoc]
        -- the other operators are truth values that an expression computes
        · have hgen : genCond cg.decls (.binary left op right) cg.scratch cg.instructions.length =
              genTruth (genExpr cg.decls (.binary left op right)) cg.scratch cg.instructions.length := by
            simp [genCond, if_neg hcmp, if_neg hand, if_neg hor]
          simp [compileBoolCond, if_neg hcmp, if_neg hand, if_neg hor] at h
          rw [hgen]
          exact compileTruth_eq (compileExpr_eq (.binary left op right)) h hb

/-! ## Function-block calls -/

theorem compileInput_eq (arg : Expr) : Generates (compileInput arg) (fun d => genInput d arg) := by
  intro dest cg cg' h hb
  cases arg with
  | var name =>
    simp only [compileInput, bind_ok, varReg_ok, Except.ok.injEq] at h
    obtain ⟨r, hr, rfl⟩ := h
    exact ⟨[loadReg dest r], by simp [genInput, hr], rfl⟩
  | intLiteral n => exact compileExpr_eq _ _ _ _ h hb
  | realLiteral x => exact compileExpr_eq _ _ _ _ h hb
  | boolLiteral b => exact compileExpr_eq _ _ _ _ h hb
  | binary left op right => exact compileExpr_eq _ _ _ _ h hb
  | unary op inner => exact compileExpr_eq _ _ _ _ h hb
  | arrayAccess name index => exact compileExpr_eq _ _ _ _ h hb
  | fieldAccess name field => exact compileExpr_eq _ _ _ _ h hb

theorem compileArg_eq (i : Nat) (arg : Expr) {cg cg' : Codegen} (h : compileArg i arg cg = .ok cg')
    (hb : cg'.instructions.length < 2 ^ 32) :
    ∃ code, genArg cg.decls cg.scratch i arg cg.instructions.length = some code ∧ cg' = cg.append code := by
  unfold compileArg at h
  unfold genArg
  split at h
  · rename_i hi
    rw [if_pos hi]
    exact compileExpr_eq arg _ _ _ h hb
  · rename_i hi
    cases h
    exact ⟨[], by rw [if_neg hi], (append_nil _).symm⟩

theorem compileArgs_eq (args : List Expr) {i : Nat} {cg cg' : Codegen} (h : compileArgs i args cg = .ok cg')
    (hb : cg'.instructions.length < 2 ^ 32) :
    ∃ code, genArgs cg.decls cg.scratch i args cg.instructions.length = some code ∧ cg' = cg.append code := by
  induction args generalizing i cg with
  | nil => cases h; exact ⟨[], rfl, (append_nil _).symm⟩
  | cons arg args ih =>
    simp only [compileArgs, bind_ok] at h
    obtain ⟨cg₁, h₁, h₂⟩ := h
    obtain ⟨cs, hcs, rfl⟩ := ih h₂
    simp at hb
    obtain ⟨c, hc, rfl⟩ := compileArg_eq i arg h₁ (by omega)
    simp at hcs
    exact ⟨c ++ cs, by simp [genArgs, hc, hcs], by simp⟩

theorem compileDown_eq (rest : List Expr) : Generates (compileDown rest) (fun d => genDown d rest) := by
  intro dest cg cg' h hb
  cases rest with
  | nil => cases h; exact ⟨_, rfl, rfl⟩
  | cons arg2 rest => exact compileInput_eq arg2 _ _ _ h hb

/-- A call appends the code of `g`. -/
def CallGenerates (em : Codegen → Except Stop Codegen)
    (g : Decls → Scratch → Nat → Option (List Instruction)) : Prop :=
  ∀ cg cg', em cg = .ok cg' → cg'.instructions.length < 2 ^ 32 →
    ∃ code, g cg.decls cg.scratch cg.instructions.length = some code ∧ cg' = cg.append code

theorem compileEdge_eq (name : String) (arg0 : Expr) :
    CallGenerates (compileFunCall.compileEdge name arg0) (fun d => genEdge d name arg0) := by
  intro cg cg' h hb
  simp only [compileFunCall.compileEdge, bind_ok, varReg_ok, Prod.exists, allocScratch_ok, Except.ok.injEq] at h
  obtain ⟨reg, hreg, clk, cg₁, ⟨sc₁, ha, rfl⟩, cg₂, h₂, rfl⟩ := h
  simp at hb
  obtain ⟨c, hc, rfl⟩ := compileInput_eq arg0 _ _ _ h₂ (by omega)
  simp at hc
  exact ⟨c ++ [Instruction.edgeRun reg clk (kindByte (cg.decls.varTypes name))],
    by simp [genEdge, hreg, ha, hc],
    by simp [emit_eq, freeScratch_eq, Scratch.free_alloc ha]⟩

theorem compileGeneric_eq (args : List Expr) :
    CallGenerates (compileFunCall.compileGeneric args) (fun d => genGeneric d args) := by
  intro cg cg' h hb
  simp [compileFunCall.compileGeneric, bind_ok] at h
  obtain ⟨cg₁, h₁, rfl⟩ := h
  simp at hb
  obtain ⟨c, hc, rfl⟩ := compileArgs_eq args h₁ (by omega)
  exact ⟨c ++ [Instruction.call 0], by simp [genGeneric, hc],
    by simp⟩

/-- **Calls.** -/
theorem compileFunCall_eq (name : String) (args : List Expr) :
    CallGenerates (compileFunCall name args) (fun d => genFunCall d name args) := by
  intro cg cg' h hb
  match args, h with
  | [], h => exact compileGeneric_eq [] _ _ h hb
  | [arg0], h =>
    simp only [compileFunCall] at h
    simp only [genFunCall]
    split at h
    · rename_i he
      rw [if_pos he]
      exact compileEdge_eq name arg0 _ _ h hb
    · rename_i he
      rw [if_neg he]
      exact compileGeneric_eq [arg0] _ _ h hb
  | arg0 :: arg1 :: rest, h =>
    simp only [compileFunCall] at h
    simp only [genFunCall]
    -- the type of the instance decides what the arguments are
    by_cases ht : isTimer (cg.decls.varTypes name)
    · simp only [if_pos ht, bind_ok, varReg_ok, Prod.exists, allocScratch_ok, Except.ok.injEq] at h ⊢
      obtain ⟨reg, hreg, inp, cg₁, ⟨sc₁, ha, rfl⟩, cg₂, h₂, rfl⟩ := h
      simp at hb
      obtain ⟨c, hc, rfl⟩ := compileInput_eq arg0 _ _ _ h₂ (by omega)
      simp at hc
      exact ⟨_, by simp [hreg, ha, hc]; rfl,
        by simp [emit_eq, freeScratch_eq, Scratch.free_alloc ha]⟩
    · by_cases hc : isCounter (cg.decls.varTypes name)
      · simp only [if_neg ht, if_pos hc, bind_ok, varReg_ok, Prod.exists, allocScratch_ok, Except.ok.injEq] at h ⊢
        obtain ⟨reg, hreg, cu, cg₁, ⟨sc₁, ha₁, rfl⟩, cg₂, h₂, cd, cg₃, ⟨sc₂, ha₂, rfl⟩, cg₄, h₄, rfl⟩ := h
        simp at hb
        obtain ⟨c₂, hc₂, rfl⟩ := compileDown_eq rest _ _ _ h₄ (by omega)
        simp at hb
        obtain ⟨c₀, hc₀, rfl⟩ := compileInput_eq arg0 _ _ _ h₂ (by omega)
        simp at hc₀ hc₂ ha₂
        exact ⟨_, by simp [hreg, ha₁, hc₀, ha₂, hc₂]; rfl,
          by simp [emit_eq, freeScratch_eq, Scratch.free_alloc ha₂, Scratch.free_alloc ha₁, List.append_assoc]⟩
      · by_cases hs : isSrRs (cg.decls.varTypes name)
        · simp only [if_neg ht, if_neg hc, if_pos hs, bind_ok, varReg_ok, Prod.exists, allocScratch_ok,
            Except.ok.injEq] at h ⊢
          obtain ⟨reg, hreg, s1, cg₁, ⟨sc₁, ha₁, rfl⟩, cg₂, h₂, r, cg₃, ⟨sc₂, ha₂, rfl⟩, cg₄, h₄, rfl⟩ := h
          simp at hb
          obtain ⟨c₁, hc₁, rfl⟩ := compileInput_eq arg1 _ _ _ h₄ (by omega)
          simp at hb
          obtain ⟨c₀, hc₀, rfl⟩ := compileInput_eq arg0 _ _ _ h₂ (by omega)
          simp at hc₀ hc₁ ha₂
          exact ⟨_, by simp [hreg, ha₁, hc₀, ha₂, hc₁]; rfl,
            by simp [emit_eq, freeScratch_eq, Scratch.free_alloc ha₂, Scratch.free_alloc ha₁, List.append_assoc]⟩
        · simp [if_neg ht, if_neg hc, if_neg hs] at h ⊢
          split at h
          · rename_i he
            rw [if_pos he]
            exact compileEdge_eq name arg0 _ _ h hb
          · rename_i he
            rw [if_neg he]
            exact compileGeneric_eq (arg0 :: arg1 :: rest) _ _ h hb

/-! ## Statements -/

/-- The loop stack after the jumps `js` of the innermost loop were recorded; outside a loop there are none. -/
def recordExits : List (List UInt32) → List UInt32 → Option (List (List UInt32))
  | [], [] => some []
  | [], _ :: _ => none
  | top :: outer, js => some ((top ++ js) :: outer)

section
omit [Target]

@[simp] theorem recordExits_nil (ls : List (List UInt32)) : recordExits ls [] = some ls := by
  cases ls <;> simp [recordExits]

theorem recordExits_cons (top : List UInt32) (outer : List (List UInt32)) (js : List UInt32) :
    recordExits (top :: outer) js = some ((top ++ js) :: outer) := rfl

theorem recordExits_append {ls ls₁ ls₂ : List (List UInt32)} {js₁ js₂ : List UInt32}
    (h₁ : recordExits ls js₁ = some ls₁) (h₂ : recordExits ls₁ js₂ = some ls₂) :
    recordExits ls (js₁ ++ js₂) = some ls₂ := by
  cases ls with
  | nil =>
    cases js₁ with
    | nil => cases h₁; exact h₂
    | cons j js₁ => cases h₁
  | cons top outer =>
    cases h₁
    simp only [recordExits, Option.some.injEq] at h₂ ⊢
    rw [← h₂, List.append_assoc]

end

/-- What compiling a statement or a body does: it appends the code of `g` and records the open `EXIT`s. -/
def StmtGenerates (em : Codegen → Except Stop Codegen) (g : Decls → Scratch → Nat → Option StmtCode) : Prop :=
  ∀ cg cg', em cg = .ok cg' → cg'.instructions.length < 2 ^ 32 →
    ∃ c ls, g cg.decls cg.scratch cg.instructions.length = some c ∧
      cg' = (cg.append (c.map Slot.raw)).withExits ls ∧
      recordExits cg.loopExits (jumpsAt cg.instructions.length () c) = some ls

/-- Both kinds of a condition's jumps patched to one label. -/
theorem patch_both (cg : Codegen) (cc : CondCode) (code : List Instruction) (target : UInt32)
    (h : cg.instructions.length + cc.length ≤ 2 ^ 32) :
    ((cg.append (cc.map Slot.raw ++ code)).patchJumps (jumpsAt cg.instructions.length .onTrue cc)
      target).patchJumps (jumpsAt cg.instructions.length .onEnd cc) target =
      cg.append (cc.resolve (fun _ => some target) ++ code) := by
  have hEnd : jumpsAt cg.instructions.length .onEnd cc =
      jumpsAt cg.instructions.length .onEnd (cc.map (Slot.fill retarget .onTrue target)) := by
    rw [jumpsAt, jumpsAt, holes_map_fill_ne _ _ _ (by decide)]
  rw [patchJumps_holes _ _ _ _ _ h, hEnd, patchJumps_holes _ _ _ _ _ (by simpa using h)]
  simp only [CondCode.resolve, List.map_map]
  congr 2
  refine List.map_congr_left fun s _ => ?_
  rcases s with i | ⟨_ | _, i⟩ <;> rfl

/-- Only the jumps for true patched: the others keep target 0. -/
theorem patch_onTrue (cg : Codegen) (cc : CondCode) (code : List Instruction) (target : UInt32)
    (h : cg.instructions.length + cc.length ≤ 2 ^ 32) :
    (cg.append (cc.map Slot.raw ++ code)).patchJumps (jumpsAt cg.instructions.length .onTrue cc) target =
      cg.append (cc.resolve (fun k => if k = .onTrue then some target else none) ++ code) := by
  rw [patchJumps_holes _ _ _ _ _ h]
  simp only [CondCode.resolve, List.map_map]
  congr 2
  refine List.map_congr_left fun s _ => ?_
  rcases s with i | ⟨_ | _, i⟩ <;> rfl

/-- The open `EXIT`s of a loop body patched. -/
theorem patch_exits (cg : Codegen) (pre code : List Instruction) (cb : StmtCode) (target : UInt32) {n : Nat}
    (hn : n = cg.instructions.length + pre.length) (h : n + cb.length ≤ 2 ^ 32) :
    (cg.append (pre ++ (cb.map Slot.raw ++ code))).patchJumps (jumpsAt n () cb) target =
      cg.append (pre ++ (cb.resolve target ++ code)) := by
  subst hn
  have hpatch := patchJumps_holes (cg.append pre) code () cb target (by simpa using h)
  simp at hpatch
  rw [hpatch]
  have hraw : Slot.raw ∘ Slot.fill retarget () target =
      Slot.resolve (ι := Instruction) retarget fun _ => some target :=
    funext fun s => Slot.raw_fill_unit retarget target s
  rw [hraw, StmtCode.resolve]

theorem popLoop_eq (cg : Codegen) (exits : List UInt32) (outer : List (List UInt32)) :
    (cg.withExits (exits :: outer)).popLoop = (cg.patchJumps exits cg.currentIdx).withExits outer := by
  simp only [popLoop, withExits_loopExits]
  exact withExits_patchJumps cg outer exits cg.currentIdx

theorem length_popLoop (cg : Codegen) : cg.popLoop.instructions.length = cg.instructions.length := by
  unfold popLoop
  split
  · rfl
  · exact length_patchJumps ..

@[simp] theorem length_resolve_stmt (c : StmtCode) (target : UInt32) :
    (c.resolve target).length = c.length := List.length_map ..

@[simp] theorem length_resolve (c : CondCode) (f : CondHole → Option UInt32) :
    (c.resolve f).length = c.length := List.length_map ..

theorem compileAssign_eq (name : String) (value : Expr) :
    StmtGenerates (compileStmt (.assign name value)) (fun d sc => genStmt d sc (.assign name value)) := by
  intro cg cg' h hb
  simp only [compileStmt, bind_ok, varReg_ok, Except.ok.injEq] at h
  obtain ⟨_, _, dest, hdest, cg₁, h₁, rfl⟩ := h
  simp at hb
  obtain ⟨c, hc, rfl⟩ := compileExpr_eq value _ _ _ h₁ (by omega)
  refine ⟨plain (c ++ [storeInst name dest]), cg.loopExits, ?_, ?_, ?_⟩
  · simp [hdest, hc]
  · simp [emit_eq]
  · rw [jumpsAt_map_done, recordExits_nil]

theorem compileArrayAssign_eq (name : String) (index value : Expr) :
    StmtGenerates (compileStmt (.arrayAssign name index value))
      (fun d sc => genStmt d sc (.arrayAssign name index value)) := by
  intro cg cg' h hb
  simp only [compileStmt, bind_ok, varReg_ok, Prod.exists, allocScratch_ok, Except.ok.injEq] at h
  obtain ⟨array, harr, idx, cg₁, ⟨sc₁, ha₁, rfl⟩, cg₂, h₂, val, cg₃, ⟨sc₂, ha₂, rfl⟩, cg₄, h₄, rfl⟩ := h
  simp at hb
  obtain ⟨cv, hcv, rfl⟩ := compileExpr_eq value _ _ _ h₄ (by omega)
  simp at hb
  obtain ⟨ci, hci, rfl⟩ := compileExpr_eq index _ _ _ h₂ (by omega)
  simp at hcv hci ha₂
  refine ⟨plain (ci ++ cv ++ [Instruction.storeIndex array idx val, storeInst name array]), cg.loopExits,
    ?_, ?_, ?_⟩
  · simp [genStmt, harr, ha₁, hci, ha₂, hcv]
  · simp [emit_eq, freeScratch_eq, Scratch.free_comm _ idx val, Scratch.free_alloc ha₂, Scratch.free_alloc ha₁,
      List.append_assoc]
  · rw [jumpsAt_map_done, recordExits_nil]

section
variable {condition : Expr} {body thenBody elseBody : List Statement}

theorem compileIf_eq (ht : StmtGenerates (compileBody thenBody) (fun d sc => genBody d sc thenBody))
    (he : StmtGenerates (compileBody elseBody) (fun d sc => genBody d sc elseBody)) :
    StmtGenerates (compileStmt (.ifThen condition thenBody elseBody))
      (fun d sc => genStmt d sc (.ifThen condition thenBody elseBody)) := by
  intro cg cg' h hb
  simp only [compileStmt, compileCondition, bind_ok, Prod.exists, Except.ok.injEq] at h
  obtain ⟨_, _, js, cg₁, h₁, cg₂, h₂, cg₃, h₃, rfl⟩ := h
  simp only [length_patchJump] at hb
  obtain ⟨ce, ls₃, hce, rfl, hls₃⟩ := he _ _ h₃ hb
  simp at hb
  obtain ⟨ct, ls₂, hct, rfl, hls₂⟩ := ht _ _ h₂ (by omega)
  simp at hb
  obtain ⟨cc, hcc, rfl, rfl⟩ := compileBoolCond_eq condition _ _ _ _ h₁ (by omega)
  simp at hb
  have hcond := patch_both cg cc [.jump 0] (label (cg.instructions.length + cc.length + 1)) (by omega)
  simp only [emit_eq, append_append, currentIdx_eq, append_instructions, List.length_append, List.length_map,
    List.length_singleton, List.nil_append, ← Nat.add_assoc, hcond, withExits_append, withExits_instructions,
    withExits_patchJump, length_resolve, withExits_decls,
    withExits_scratch, withExits_loopExits, withExits_withExits, append_decls, append_scratch, append_loopExits,
    patchJump_decls, patchJump_scratch, length_patchJump] at hct hls₂ hce hls₃ ⊢
  have helse := patchJump_eq cg (cc.resolve fun _ => some (label (cg.instructions.length + cc.length + 1)))
    (ct.map Slot.raw ++ [Instruction.jump 0]) (.jump 0)
    (label (cg.instructions.length + cc.length + 1 + ct.length + 1)) (n := cg.instructions.length + cc.length)
    (by simp) (by omega)
  have hend := patchJump_eq cg (cc.resolve (fun _ => some (label (cg.instructions.length + cc.length + 1))) ++
    .jump (label (cg.instructions.length + cc.length + 1 + ct.length + 1)) :: ct.map Slot.raw)
    (ce.map Slot.raw) (.jump 0) (label (cg.instructions.length + cc.length + 1 + ct.length + 1 + ce.length))
    (n := cg.instructions.length + cc.length + 1 + ct.length) (by simp; omega) (by omega)
  simp only [retarget_jump, List.append_assoc, List.cons_append] at helse hend
  simp only [List.append_assoc, List.cons_append, List.nil_append, helse, append_append, hend]
  refine ⟨_, ls₃, by simp [hcc, hct, hce]; rfl, ?_, ?_⟩
  · simp
  · simp [jumpsAt_append]
    exact recordExits_append hls₂ hls₃

theorem compileWhile_eq (hbody : StmtGenerates (compileBody body) (fun d sc => genBody d sc body)) :
    StmtGenerates (compileStmt (.whileDo condition body))
      (fun d sc => genStmt d sc (.whileDo condition body)) := by
  intro cg cg' h hb
  simp only [compileStmt, compileCondition, bind_ok, Prod.exists, Except.ok.injEq] at h
  obtain ⟨_, _, js, cg₁, h₁, cg₂, h₂, rfl⟩ := h
  have hlen : cg₂.instructions.length + 1 < 2 ^ 32 := by
    simpa [length_popLoop, emit_eq] using hb
  obtain ⟨cb, ls₂, hcb, rfl, hls₂⟩ := hbody _ _ h₂ (by omega)
  simp at hlen
  obtain ⟨cc, hcc, rfl, rfl⟩ := compileBoolCond_eq condition _ _ _ _ h₁ (by omega)
  have hpush : cg.pushLoop = cg.withExits ([] :: cg.loopExits) := rfl
  simp [hpush] at hlen
  have hcond := patch_onTrue cg cc [.jump 0] (label (cg.instructions.length + cc.length + 1)) (by omega)
  simp only [hpush, emit_eq, append_append, currentIdx_eq, append_instructions, List.length_append,
    List.length_map, List.length_singleton, List.nil_append, ← Nat.add_assoc, hcond, withExits_append,
    withExits_instructions, withExits_patchJump, withExits_patchJumps, length_resolve, withExits_decls,
    withExits_scratch, withExits_loopExits, withExits_withExits, append_decls, append_scratch,
    recordExits_cons, Option.some.injEq] at hcc hcb hls₂ ⊢
  subst hls₂
  have hexit := patchJump_eq cg (cc.resolve fun k => if k = .onTrue then
      some (label (cg.instructions.length + cc.length + 1)) else none)
    (cb.map Slot.raw ++ [Instruction.jump (label cg.instructions.length)]) (.jump 0)
    (label (cg.instructions.length + cc.length + 1 + cb.length + 1)) (n := cg.instructions.length + cc.length)
    (by simp) (by omega)
  have hexits := patch_exits cg ((cc.resolve fun k => if k = .onTrue then
      some (label (cg.instructions.length + cc.length + 1)) else none) ++
      [Instruction.jump (label (cg.instructions.length + cc.length + 1 + cb.length + 1))])
    [.jump (label cg.instructions.length)] cb (label (cg.instructions.length + cc.length + 1 + cb.length + 1))
    (n := cg.instructions.length + cc.length + 1) (by simp; omega) (by omega)
  simp only [retarget_jump, List.append_assoc, List.cons_append, List.nil_append] at hexit hexits
  simp only [popLoop_eq, currentIdx_eq, length_patchJump, append_instructions, List.length_append,
    List.length_map, length_resolve, List.length_singleton, ← Nat.add_assoc]
  simp only [List.append_assoc, List.cons_append, List.nil_append, hexit, hexits]
  refine ⟨_, cg.loopExits, by simp [hcc, hcb]; rfl, ?_, ?_⟩
  · simp
  · simp [jumpsAt_append]

theorem compileRepeat_eq (hbody : StmtGenerates (compileBody body) (fun d sc => genBody d sc body)) :
    StmtGenerates (compileStmt (.repeatUntil body condition))
      (fun d sc => genStmt d sc (.repeatUntil body condition)) := by
  intro cg cg' h hb
  simp only [compileStmt, compileCondition, bind_ok, Prod.exists, Except.ok.injEq] at h
  obtain ⟨_, _, cg₁, h₁, js, cg₂, h₂, rfl⟩ := h
  have hlen : cg₂.instructions.length + 1 < 2 ^ 32 := by
    simpa [length_popLoop, emit_eq] using hb
  obtain ⟨cc, hcc, rfl, rfl⟩ := compileBoolCond_eq condition _ _ _ _ h₂ (by omega)
  simp at hlen
  obtain ⟨cb, ls₁, hcb, rfl, hls₁⟩ := hbody _ _ h₁ (by omega)
  have hpush : cg.pushLoop = cg.withExits ([] :: cg.loopExits) := rfl
  simp [hpush] at hlen
  have hcond := patch_onTrue (cg.append (cb.map Slot.raw)) cc [.jump 0]
    (label (cg.instructions.length + cb.length + cc.length + 1)) (by simp; omega)
  simp at hcond
  simp only [hpush, emit_eq, append_append, currentIdx_eq, append_instructions, List.length_append,
    List.length_map, List.length_singleton, List.nil_append, ← Nat.add_assoc, withExits_append,
    withExits_instructions, withExits_patchJump, withExits_patchJumps, withExits_decls, withExits_scratch,
    withExits_loopExits, withExits_withExits, append_decls, append_scratch, recordExits_cons,
    Option.some.injEq] at hcc hcb hls₁ ⊢
  subst hls₁
  have hloop := patchJump_eq cg (cb.map Slot.raw ++ cc.resolve fun k => if k = .onTrue then
      some (label (cg.instructions.length + cb.length + cc.length + 1)) else none)
    [] (.jump 0) (label cg.instructions.length) (n := cg.instructions.length + cb.length + cc.length)
    (by simp; omega) (by omega)
  have hexits := patch_exits cg []
    ((cc.resolve fun k => if k = .onTrue then
      some (label (cg.instructions.length + cb.length + cc.length + 1)) else none) ++
      [Instruction.jump (label cg.instructions.length)]) cb
    (label (cg.instructions.length + cb.length + cc.length + 1)) (n := cg.instructions.length)
    (by simp) (by omega)
  simp only [retarget_jump, List.append_assoc, List.nil_append] at hloop hexits
  simp only [List.append_assoc, hcond, hloop]
  simp only [popLoop_eq, currentIdx_eq, append_instructions, List.length_append,
    List.length_map, length_resolve, List.length_singleton, ← Nat.add_assoc, hexits]
  refine ⟨_, cg.loopExits, by simp only [genStmt, Option.bind_eq_bind, hcb, hcc, Option.bind_some]; rfl, ?_, ?_⟩
  · simp
  · simp [jumpsAt_append]

theorem compileStep_eq (step : Option Expr) : Generates (compileStep step) (fun d => genStep d step) := by
  intro dest cg cg' h hb
  cases step with
  | none => cases h; exact ⟨_, rfl, rfl⟩
  | some e => exact compileExpr_eq e _ _ _ h hb

theorem compileFor_eq {variableName : String} {start stop : Expr} {step : Option Expr}
    (hbody : StmtGenerates (compileBody body) (fun d sc => genBody d sc body)) :
    StmtGenerates (compileStmt (.forDo variableName start stop step body))
      (fun d sc => genStmt d sc (.forDo variableName start stop step body)) := by
  intro cg cg' h hb
  simp only [compileStmt, bind_ok] at h
  obtain ⟨vt, _, h⟩ := h
  split at h
  · exact absurd h (by simp [mismatch])
  simp only [bind_ok, varReg_ok, Prod.exists, allocScratch_ok, Except.ok.injEq] at h
  obtain ⟨var, hvar, cg₁, h₁, s, cg₂, ⟨sc₁, ha₁, rfl⟩, cg₃, h₃, cg₄, h₄, st, cg₅, ⟨sc₂, ha₂, rfl⟩, cg₆, h₆, rfl⟩ := h
  have hpush : cg₁.pushLoop = cg₁.withExits ([] :: cg₁.loopExits) := rfl
  have hlen : cg₆.instructions.length + 2 < 2 ^ 32 := by
    simpa [length_popLoop, emit_eq, freeScratch_eq] using hb
  obtain ⟨ct, hct, rfl⟩ := compileStep_eq step _ _ _ h₆ (by omega)
  simp at hlen
  obtain ⟨cb, ls₄, hcb, rfl, hls₄⟩ := hbody _ _ h₄ (by omega)
  simp at hlen
  obtain ⟨ce, hce, rfl⟩ := compileExpr_eq stop _ _ _ h₃ (by omega)
  simp [hpush] at hlen
  obtain ⟨cs, hcs, rfl⟩ := compileExpr_eq start _ _ _ h₁ (by omega)
  simp at hlen
  simp [hpush] at ha₁
  have hfree : sc₁.free s = cg.scratch := Scratch.free_alloc ha₁
  simp only [hpush, emit_eq, freeScratch_eq, append_append, currentIdx_eq, append_instructions,
    List.length_append, List.length_map, List.length_singleton, ← Nat.add_assoc, withExits_append,
    withExits_instructions, withExits_withScratch, withExits_patchJump, withExits_decls, withExits_scratch,
    withExits_loopExits, withExits_withExits, append_decls, append_scratch, append_loopExits, withScratch_append,
    withScratch_instructions, withScratch_scratch, withScratch_decls, withScratch_withScratch, recordExits_cons,
    List.nil_append, Option.some.injEq, hfree, append_withScratch_self] at hce hcb hls₄ ha₂ hct ⊢
  subst hls₄
  -- the step uses the scratch register of the bound again
  obtain ⟨rfl, rfl⟩ : s = st ∧ sc₁ = sc₂ := by
    rw [ha₁] at ha₂
    simpa using ha₂
  simp only [hfree, append_withScratch_self]
  have hexit := patchJump_eq cg (cs ++ (ce ++ [Instruction.cmp .gt var s]))
    (cb.map Slot.raw ++ (ct ++ [Instruction.arith .add var s var, .jump (label (cg.instructions.length + cs.length))]))
    (.jumpIf 0)
    (label (cg.instructions.length + cs.length + ce.length + 1 + 1 + cb.length + ct.length + 1 + 1))
    (n := cg.instructions.length + cs.length + ce.length + 1) (by simp; omega) (by omega)
  have hexits := patch_exits cg (cs ++ (ce ++ [Instruction.cmp .gt var s,
      .jumpIf (label (cg.instructions.length + cs.length + ce.length + 1 + 1 + cb.length + ct.length + 1 + 1))]))
    (ct ++ [Instruction.arith .add var s var, .jump (label (cg.instructions.length + cs.length))]) cb
    (label (cg.instructions.length + cs.length + ce.length + 1 + 1 + cb.length + ct.length + 1 + 1))
    (n := cg.instructions.length + cs.length + ce.length + 1 + 1) (by simp; omega) (by omega)
  simp only [retarget_jumpIf, List.append_assoc, List.cons_append, List.nil_append] at hexit hexits
  simp only [popLoop_eq, currentIdx_eq, length_patchJump, append_instructions, List.length_append,
    List.length_map, List.length_singleton, ← Nat.add_assoc]
  simp only [List.append_assoc, List.cons_append, List.nil_append, hexit, hexits]
  refine ⟨_, cg.loopExits, by
    simp [genStmt, hvar, hcs, ha₁, hce, hcb, hct]; rfl, ?_, ?_⟩
  · simp
  · simp [jumpsAt_append]

end

theorem compileLabels_eq (var : UInt8) (vs : List Int64) {js js' : List UInt32} {cg cg' : Codegen}
    (h : compileLabels var vs js cg = .ok (js', cg')) (hb : cg'.instructions.length < 2 ^ 32) :
    ∃ c, genLabels cg.scratch var vs = some c ∧ cg' = cg.append (c.map Slot.raw) ∧
      js' = js ++ jumpsAt cg.instructions.length () c := by
  induction vs generalizing js cg with
  | nil => cases h; exact ⟨[], rfl, by simp, by simp⟩
  | cons v vs ih =>
    simp only [compileLabels, bind_ok, Prod.exists, allocScratch_ok] at h
    obtain ⟨s, cg₁, ⟨sc₁, ha, rfl⟩, h⟩ := h
    obtain ⟨c, hc, rfl, rfl⟩ := ih h
    simp [Scratch.free_alloc ha] at hc ⊢
    refine ⟨_, by simp [genLabels, ha, hc]; rfl, by simp, ?_⟩
    simp [Nat.add_assoc]

/-- What compiling the branches of a `CASE` does: the jumps to its end are returned, the `EXIT`s recorded. -/
def CasesGenerates (cases : List (List Int64 × List Statement)) : Prop :=
  ∀ var exits exits' cg cg', compileCases var cases exits cg = .ok (exits', cg') →
    cg'.instructions.length < 2 ^ 32 →
    ∃ c ls, genCases cg.decls cg.scratch var cases cg.instructions.length = some c ∧
      cg' = (cg.append (c.map Slot.raw)).withExits ls ∧
      exits' = exits ++ jumpsAt cg.instructions.length none c ∧
      recordExits cg.loopExits (jumpsAt cg.instructions.length (some ()) c) = some ls

theorem compileCases_cons {values : List Int64} {body : List Statement}
    {rest : List (List Int64 × List Statement)}
    (hbody : StmtGenerates (compileBody body) (fun d sc => genBody d sc body)) (hrest : CasesGenerates rest) :
    CasesGenerates ((values, body) :: rest) := by
  intro var exits exits' cg cg' h hb
  simp only [compileCases, bind_ok, Prod.exists] at h
  obtain ⟨toBody, cg₁, h₁, cg₂, h₂, h₃⟩ := h
  obtain ⟨cr, ls₃, hcr, rfl, rfl, hls₃⟩ := hrest _ _ _ _ _ h₃ hb
  simp at hb
  obtain ⟨cb, ls₂, hcb, rfl, hls₂⟩ := hbody _ _ h₂ (by omega)
  simp at hb
  obtain ⟨cl, hcl, rfl, rfl⟩ := compileLabels_eq var values h₁ (by omega)
  simp at hb
  have hlabels := patch_exits cg [] [.jump 0] cl (label (cg.instructions.length + cl.length + 1))
    (n := cg.instructions.length) (by simp) (by omega)
  simp only [List.nil_append] at hlabels
  simp only [emit_eq, append_append, currentIdx_eq, append_instructions, List.length_append, List.length_map,
    List.length_singleton, List.nil_append, ← Nat.add_assoc, hlabels, withExits_append, withExits_instructions,
    withExits_patchJump, length_resolve_stmt, withExits_decls, withExits_scratch, withExits_loopExits,
    withExits_withExits, append_decls, append_scratch, append_loopExits, patchJump_decls, patchJump_scratch,
    length_patchJump] at hcb hls₂ hcr hls₃ ⊢
  have hskip := patchJump_eq cg (StmtCode.resolve cl (label (cg.instructions.length + cl.length + 1)))
    (cb.map Slot.raw ++ [Instruction.jump 0]) (.jump 0)
    (label (cg.instructions.length + cl.length + 1 + cb.length + 1)) (n := cg.instructions.length + cl.length)
    (by simp) (by omega)
  simp only [retarget_jump] at hskip
  simp only [List.append_assoc, List.cons_append, List.nil_append, hskip, append_append]
  refine ⟨_, ls₃, by simp only [genCases, Option.bind_eq_bind, hcl, hcb, hcr, Option.bind_some]; rfl, ?_, ?_, ?_⟩
  · simp
  · have hnone : jumpsAt (cg.instructions.length + cl.length + 1) none (cb.map (Slot.relabel some)) = [] := by
      simp [jumpsAt]
    simp only [jumpsAt_append, jumpsAt_map_done, List.length_append, List.length_map, length_resolve_stmt,
      List.length_singleton, ← Nat.add_assoc, hnone]
    simp
  · have hsome : jumpsAt (cg.instructions.length + cl.length + 1) (some ()) (cb.map (Slot.relabel some)) =
        jumpsAt (cg.instructions.length + cl.length + 1) () cb := by
      rw [jumpsAt, holes_map_relabel () (by simp), jumpsAt]
    simp [jumpsAt_append, hsome]
    simpa using recordExits_append hls₂ hls₃

theorem compileCase_eq {variableName : String} {cases : List (List Int64 × List Statement)}
    {elseBody : List Statement} (hcases : CasesGenerates cases)
    (helse : StmtGenerates (compileBody elseBody) (fun d sc => genBody d sc elseBody)) :
    StmtGenerates (compileStmt (.case variableName cases elseBody))
      (fun d sc => genStmt d sc (.case variableName cases elseBody)) := by
  intro cg cg' h hb
  simp [compileStmt, bind_ok, varReg_ok] at h
  obtain ⟨var, hvar, exits, cg₁, h₁, cg₂, h₂, rfl⟩ := h
  simp only [length_patchJumps] at hb
  obtain ⟨ce, ls₂, hce, rfl, hls₂⟩ := helse _ _ h₂ hb
  simp at hb
  obtain ⟨cc, ls₁, hcc, rfl, rfl, hls₁⟩ := hcases _ _ _ _ _ h₁ (by omega)
  simp at hb
  simp only [append_append, append_instructions, List.length_append, List.length_map,
    List.nil_append, ← Nat.add_assoc, withExits_append, withExits_instructions, withExits_patchJumps,
    withExits_decls, withExits_scratch, withExits_loopExits, withExits_withExits, append_decls,
    append_scratch] at hce hls₂ ⊢
  have hexits := patchJumps_holes cg (ce.map Slot.raw) none cc
    (label (cg.instructions.length + cc.length + ce.length)) (by omega)
  have hfill : (cc.map (Slot.fill retarget none (label (cg.instructions.length + cc.length + ce.length)))).map
      Slot.raw = (cc.map (Slot.fillNone retarget
        (label (cg.instructions.length + cc.length + ce.length)))).map Slot.raw := by
    rw [← patchAll_holes, patchAll_holes_none]
  rw [hexits, hfill]
  refine ⟨_, ls₂, by simp only [genStmt, Option.bind_eq_bind, hvar, hcc, hce, Option.bind_some]; rfl, ?_, ?_⟩
  · simp
  · have hsome : jumpsAt cg.instructions.length () (cc.map (Slot.fillNone retarget
        (label (cg.instructions.length + cc.length + ce.length)))) =
        jumpsAt cg.instructions.length (some ()) cc := by
      rw [jumpsAt, holes_map_fillNone, jumpsAt]
    simp [jumpsAt_append, hsome]
    exact recordExits_append hls₁ hls₂

theorem compileExit_eq : StmtGenerates (compileStmt .exit) (fun d sc => genStmt d sc .exit) := by
  intro cg cg' h _
  simp only [compileStmt, recordExit] at h
  split at h
  · exact absurd h (by simp)
  · rename_i top outer hls
    cases h
    exact ⟨[.hole () (.jump 0)], _, rfl, rfl, by simp [hls, recordExits_cons, currentIdx_eq]⟩

mutual

/-- **Statements.** Backpatching comes to the code of `genStmt`. -/
theorem compileStmt_eq : (s : Statement) → StmtGenerates (compileStmt s) (fun d sc => genStmt d sc s)
  | .assign name value => compileAssign_eq name value
  | .arrayAssign name index value => compileArrayAssign_eq name index value
  | .ifThen _ thenBody elseBody => compileIf_eq (compileBody_eq thenBody) (compileBody_eq elseBody)
  | .whileDo _ body => compileWhile_eq (compileBody_eq body)
  | .forDo _ _ _ _ body => compileFor_eq (compileBody_eq body)
  | .repeatUntil body _ => compileRepeat_eq (compileBody_eq body)
  | .ret => by
    intro cg cg' h _
    cases h
    exact ⟨plain [.halt], cg.loopExits, rfl, rfl, recordExits_nil _⟩
  | .exit => compileExit_eq
  | .case _ cases elseBody => compileCase_eq (compileCases_eq cases) (compileBody_eq elseBody)
  | .funCall name args => by
    intro cg cg' h hb
    obtain ⟨c, hc, rfl⟩ := compileFunCall_eq name args _ _ h hb
    refine ⟨plain c, cg.loopExits, ?_, by simp, by simp⟩
    simp [hc]

theorem compileBody_eq : (body : List Statement) → StmtGenerates (compileBody body) (fun d sc => genBody d sc body)
  | [] => by
    intro cg cg' h _
    cases h
    exact ⟨[], cg.loopExits, rfl, by simp, by simp⟩
  | s :: rest => by
    intro cg cg' h hb
    simp only [compileBody, bind_ok] at h
    obtain ⟨cg₁, h₁, h₂⟩ := h
    obtain ⟨cs, ls₂, hcs, rfl, hls₂⟩ := compileBody_eq rest _ _ h₂ hb
    simp at hb
    obtain ⟨c, ls₁, hc, rfl, hls₁⟩ := compileStmt_eq s _ _ h₁ (by omega)
    simp at hcs hls₂
    refine ⟨c ++ cs, ls₂, ?_, by simp, ?_⟩
    · simp [hc, hcs]
    · rw [jumpsAt_append]
      exact recordExits_append hls₁ hls₂

theorem compileCases_eq : (cases : List (List Int64 × List Statement)) → CasesGenerates cases
  | [] => by
    intro var exits exits' cg cg' h _
    cases h
    exact ⟨[], cg.loopExits, rfl, by simp, by simp, by simp⟩
  | (_, body) :: rest => compileCases_cons (compileBody_eq body) (compileCases_eq rest)

end

/-! ## Programs -/

/-- The functions are appended behind the main body. -/
theorem compileFunctions_ok (fs : List FunctionDef) {table table' : List FunctionEntry} {cg cg' : Codegen}
    (h : compileFunctions fs table cg = .ok (table', cg')) (hb : cg'.instructions.length < 2 ^ 32) :
    ∃ code, cg'.instructions = cg.instructions ++ code ∧ cg'.decls = cg.decls := by
  induction fs generalizing table cg with
  | nil => cases h; exact ⟨[], by simp, rfl⟩
  | cons f fs ih =>
    simp only [compileFunctions, bind_ok] at h
    obtain ⟨cg₁, h₁, h₂⟩ := h
    obtain ⟨code, hcode, hdecls⟩ := ih h₂
    have hb₁ : cg₁.instructions.length < 2 ^ 32 := by
      rw [hcode, emit_eq, append_instructions] at hb
      simp only [List.length_append] at hb
      omega
    obtain ⟨c, ls, _, rfl, _⟩ := compileBody_eq f.body _ _ h₁ hb₁
    refine ⟨c.map Slot.raw ++ [Instruction.ret none] ++ code, ?_, by rw [hdecls]; simp [emit_eq]⟩
    rw [hcode]
    simp [emit_eq]

/-- **The compiled program.** The main body's code stands at index 0, without open `EXIT`s and followed by a
    `Halt`. -/
theorem compileAst_eq {p : Program} {hp : HalProgram} (h : compileAst p = .ok hp)
    (hb : hp.instructions.length < 2 ^ 32) :
    ∃ c post, genBody (.ofVariables p.vars) .all p.body 0 = some c ∧
      (∀ target, hp.instructions = c.resolve target ++ .halt :: post) ∧
      hp.signals = signalBindings (.ofVariables p.vars) [] hp.instructions ∧
      p.vars.length ≤ maxVarRegs := by
  simp only [compileAst, bind_ok, Prod.exists, Except.ok.injEq] at h
  obtain ⟨cg₀, h₀, cg₁, h₁, table, cg₂, h₂, rfl⟩ := h
  obtain ⟨post, hpost, hdecls⟩ := compileFunctions_ok p.functions h₂ hb
  have hb₁ : cg₁.instructions.length < 2 ^ 32 := by
    have : cg₂.instructions.length < 2 ^ 32 := hb
    rw [hpost, emit_eq, append_instructions] at this
    simp only [List.length_append] at this
    omega
  obtain ⟨c, ls, hc, rfl, hls⟩ := compileBody_eq p.body _ _ h₁ hb₁
  unfold Codegen.new at h₀
  split at h₀
  · exact absurd h₀ (by simp)
  · rename_i hvars
    cases h₀
    have hholes : holes () c = [] := by
      cases hj : jumpsAt 0 () c with
      | nil => simpa [jumpsAt] using hj
      | cons j js =>
        simp only [List.length_nil, hj, recordExits] at hls
        exact absurd hls (by simp)
    refine ⟨c, post, hc, fun target => ?_, ?_, by omega⟩
    · have hraw := raw_of_holes_nil retarget () (f := fun _ => some target) (by simp) hholes
      simp [hpost, emit_eq, StmtCode.resolve, hraw]
    · simp [hdecls, emit_eq]

end Audesys.St
