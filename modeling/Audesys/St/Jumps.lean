import Audesys.St.CondRun

/-!
# `St.Jumps` — jumps that go ahead

Every jump of an expression or a call goes ahead, at most to the first instruction behind its code (`Ahead`).
A condition hands jumps back to its statement, in two lists; once they have targets behind the condition, its
jumps go ahead too. Which lists a condition uses at all can be read off its syntax (`Expr.leaves`).
-/

open List

namespace Audesys.St

open Audesys.Hal Audesys.Lib Codegen

variable [Target]

/-! ## Jumps -/

/-- The instruction is a jump to `t`. -/
def JumpsTo (x : Instruction) (t : UInt32) : Prop := x = .jump t ∨ x = .jumpIf t

/-- A jump at `i` goes ahead, at most to `hi`. -/
def Ahead (hi i : Nat) (x : Instruction) : Prop := ∀ t, JumpsTo x t → i < t.toNat ∧ t.toNat ≤ hi

/-- The instruction does not jump. -/
def Straight (x : Instruction) : Prop := ∀ t, ¬ JumpsTo x t

theorem JumpsTo.target {t u : UInt32} {x : Instruction} (h : JumpsTo x t) (hx : x = .jump u ∨ x = .jumpIf u) :
    t = u := by
  rcases h with rfl | rfl <;> rcases hx with hx | hx <;> simp_all [Instruction.jump, Instruction.jumpIf]

section
variable {a b out : UInt8} {op : Opcode}

@[simp] theorem straight_loadImm {v : HalValue} : Straight (.loadImm a v) := by
  simp [Straight, JumpsTo, Instruction.loadImm, Instruction.jump, Instruction.jumpIf]

@[simp] theorem straight_arith : Straight (.arith op a b out) := by
  simp [Straight, JumpsTo, Instruction.arith, Instruction.jump, Instruction.jumpIf]

@[simp] theorem straight_notInst : Straight (notInst a) := straight_arith

@[simp] theorem straight_cmp : Straight (.cmp op a b) := by
  simp [Straight, JumpsTo, Instruction.cmp, Instruction.jump, Instruction.jumpIf]

@[simp] theorem straight_loadIndex : Straight (.loadIndex a b out) := by
  simp [Straight, JumpsTo, Instruction.loadIndex, Instruction.jump, Instruction.jumpIf]

@[simp] theorem straight_storeIndex : Straight (.storeIndex a b out) := by
  simp [Straight, JumpsTo, Instruction.storeIndex, Instruction.jump, Instruction.jumpIf]

@[simp] theorem straight_readTimer : Straight (.readTimer a b out) := by
  simp [Straight, JumpsTo, Instruction.readTimer, Instruction.jump, Instruction.jumpIf]

@[simp] theorem straight_readSr : Straight (.readSr a b out) := by
  simp [Straight, JumpsTo, Instruction.readSr, Instruction.jump, Instruction.jumpIf]

@[simp] theorem straight_readEdge : Straight (.readEdge a b) := by
  simp [Straight, JumpsTo, Instruction.readEdge, Instruction.jump, Instruction.jumpIf]

@[simp] theorem straight_timerRun {pt : UInt32} {kind : UInt8} : Straight (.timerRun a b pt kind) := by
  simp [Straight, JumpsTo, Instruction.timerRun, Instruction.jump, Instruction.jumpIf]

@[simp] theorem straight_counterRun {pv : UInt32} {kind : UInt8} : Straight (.counterRun a b out pv kind) := by
  simp [Straight, JumpsTo, Instruction.counterRun, Instruction.jump, Instruction.jumpIf]

@[simp] theorem straight_srRun {kind : UInt8} : Straight (.srRun a b out kind) := by
  simp [Straight, JumpsTo, Instruction.srRun, Instruction.jump, Instruction.jumpIf]

@[simp] theorem straight_edgeRun {kind : UInt8} : Straight (.edgeRun a b kind) := by
  simp [Straight, JumpsTo, Instruction.edgeRun, Instruction.jump, Instruction.jumpIf]

@[simp] theorem straight_call {t : UInt32} : Straight (.call t) := by
  simp [Straight, JumpsTo, Instruction.call, Instruction.jump, Instruction.jumpIf]

@[simp] theorem straight_loadReg : Straight (loadReg a b) := by
  simp [Straight, JumpsTo, loadReg, Instruction.jump, Instruction.jumpIf]

@[simp] theorem straight_storeInst {name : String} : Straight (storeInst name a) := by
  simp [Straight, JumpsTo, storeInst, Instruction.jump, Instruction.jumpIf]

@[simp] theorem straight_halt : Straight .halt := by
  simp [Straight, JumpsTo, Instruction.halt, Instruction.jump, Instruction.jumpIf]

end

@[simp] theorem Straight.ahead {hi i : Nat} {x : Instruction} (h : Straight x) : Ahead hi i x :=
  fun t ht => absurd ht (h t)

/-- More room ahead. -/
theorem each_ahead_mono {hi hi' b : Nat} {l : List Instruction} (h : Each (Ahead hi) b l) (hle : hi ≤ hi') :
    Each (Ahead hi') b l := by
  refine h.imp ?_
  intro i x _ _ hx t ht
  obtain ⟨hlt, hto⟩ := hx t ht
  exact ⟨hlt, hto.trans hle⟩

/-! ## Expressions and calls -/

/-- The jumps of a generator's code go ahead. -/
def GoesAhead (g : Scratch → Nat → UInt8 → Option (List Instruction)) : Prop :=
  ∀ {sc base dest c}, g sc base dest = some c → base + c.length < 2 ^ 32 →
    Each (Ahead (base + c.length)) base c

section
variable {d : Decls} {sc : Scratch} {base : Nat} {c : List Instruction}

theorem genCmp_ahead {left right : Scratch → Nat → UInt8 → Option (List Instruction)} {op : BinOp}
    (hl : GoesAhead left) (hr : GoesAhead right) (h : genCmp left right op sc base = some c)
    (hb : base + c.length < 2 ^ 32) : Each (Ahead (base + c.length)) base c := by
  simp only [genCmp, bind_some, Option.some.injEq, Prod.exists] at h
  obtain ⟨rs, sc₁, _, cr, hcr, ls, sc₂, _, cl, hcl, rfl⟩ := h
  simp at hb ⊢
  simp [each_append, each_cons, each_nil, Straight.ahead, straight_cmp]
  exact ⟨each_ahead_mono (hr hcr (by omega)) (by omega), each_ahead_mono (hl hcl (by omega)) (by omega)⟩

theorem genField_ahead {name field : String} {dest : UInt8} (h : genField d name field sc dest = some c) :
    Each (Ahead (base + c.length)) base c := by
  simp only [genField, bind_some] at h
  obtain ⟨reg, _, h⟩ := h
  split at h
  · simp only [bind_some, Option.some.injEq, Prod.exists] at h
    obtain ⟨other, _, _, rfl⟩ := h
    split <;> simp
  · split at h
    · cases h
      simp
    · simp only [bind_some, Option.some.injEq, Prod.exists] at h
      obtain ⟨et, _, _, rfl⟩ := h
      simp

/-- **Expressions jump ahead.** The only jumps are those behind comparisons, over one instruction. -/
theorem genExpr_ahead (e : Expr) : GoesAhead (genExpr d e) := by
  induction e with
  | intLiteral n => intro sc base dest c h hb; cases h; simp
  | realLiteral x => intro sc base dest c h hb; cases h; simp
  | boolLiteral b => intro sc base dest c h hb; cases h; simp
  | var name =>
    intro sc base dest c h hb
    simp only [genExpr, bind_some] at h
    obtain ⟨src, _, h⟩ := h
    split at h
    · cases h
      simp
    · cases h
      simp
  | binary left op right hl hr =>
    intro sc base dest c h hb
    by_cases harith : op.isArith
    · simp only [genExpr, if_pos harith, bind_some, Option.some.injEq, Prod.exists] at h
      obtain ⟨cl, hcl, s, sc₁, _, cr, hcr, rfl⟩ := h
      simp at hb ⊢
      simp [each_append, each_cons, each_nil, Straight.ahead, straight_arith]
      exact ⟨each_ahead_mono (hl hcl (by omega)) (by omega), each_ahead_mono (hr hcr (by omega)) (by omega)⟩
    · by_cases hcmp : op.isCmp
      · simp only [genExpr, if_neg harith, if_pos hcmp, bind_some, Option.some.injEq] at h
        obtain ⟨c', hc', rfl⟩ := h
        simp at hb ⊢
        simp [each_append, each_cons, each_nil, Straight.ahead, straight_loadImm]
        refine ⟨each_ahead_mono (genCmp_ahead hl hr hc' (by omega)) (by omega), ?_⟩
        -- the jump of the comparison goes to the end of the code
        intro t ht
        rw [ht.target (.inr rfl), label_toNat (by omega)]
        omega
      · simp only [genExpr, if_neg harith, if_neg hcmp, bind_some, Option.some.injEq, Prod.exists] at h
        obtain ⟨s, sc₁, _, cl, hcl, cr, hcr, rfl⟩ := h
        simp at hb ⊢
        simp [each_append, each_cons, each_nil, Straight.ahead, straight_arith]
        exact ⟨each_ahead_mono (hl hcl (by omega)) (by omega), each_ahead_mono (hr hcr (by omega)) (by omega)⟩
  | unary op inner ih =>
    intro sc base dest c h hb
    cases op with
    | neg =>
      simp only [genExpr, bind_some, Option.some.injEq, Prod.exists] at h
      obtain ⟨c', hc', zero, _, _, rfl⟩ := h
      simp at hb ⊢
      simp [each_append, each_cons, each_nil, Straight.ahead, straight_loadImm, straight_arith]
      exact each_ahead_mono (ih hc' (by omega)) (by omega)
    | not =>
      simp only [genExpr, bind_some, Option.some.injEq] at h
      obtain ⟨c', hc', rfl⟩ := h
      simp at hb ⊢
      simp [each_append, each_cons, each_nil, Straight.ahead, straight_notInst]
      exact each_ahead_mono (ih hc' (by omega)) (by omega)
  | arrayAccess name index ih =>
    intro sc base dest c h hb
    simp only [genExpr, bind_some, Option.some.injEq, Prod.exists] at h
    obtain ⟨array, _, idx, sc₁, _, c', hc', rfl⟩ := h
    simp at hb ⊢
    simp [each_append, each_cons, each_nil, Straight.ahead, straight_loadIndex]
    exact each_ahead_mono (ih hc' (by omega)) (by omega)
  | fieldAccess name field =>
    intro sc base dest c h hb
    exact genField_ahead h

theorem genInput_ahead (arg : Expr) : GoesAhead (genInput d arg) := by
  intro sc base dest c h hb
  cases arg with
  | var name =>
    simp only [genInput, bind_some, Option.some.injEq] at h
    obtain ⟨r, _, rfl⟩ := h
    simp
  | _ => exact genExpr_ahead _ h hb

theorem genDown_ahead (rest : List Expr) : GoesAhead (genDown d rest) := by
  intro sc base dest c h hb
  cases rest with
  | nil => cases h; simp
  | cons arg rest => exact genInput_ahead arg h hb

theorem genArgs_ahead (args : List Expr) {i base : Nat} {c : List Instruction}
    (h : genArgs d sc i args base = some c) (hb : base + c.length < 2 ^ 32) :
    Each (Ahead (base + c.length)) base c := by
  induction args generalizing i base c with
  | nil => cases h; simp
  | cons arg args ih =>
    simp only [genArgs, bind_some, Option.some.injEq] at h
    obtain ⟨c₁, hc₁, c₂, hc₂, rfl⟩ := h
    rw [length_append] at hb ⊢
    rw [each_append]
    refine ⟨?_, each_ahead_mono (ih hc₂ (by omega)) (by omega)⟩
    unfold genArg at hc₁
    split at hc₁
    · exact each_ahead_mono (genExpr_ahead arg hc₁ (by omega)) (by omega)
    · cases hc₁
      simp

theorem genEdge_ahead {name : String} {arg0 : Expr} (h : genEdge d name arg0 sc base = some c)
    (hb : base + c.length < 2 ^ 32) : Each (Ahead (base + c.length)) base c := by
  simp only [genEdge, bind_some, Option.some.injEq, Prod.exists] at h
  obtain ⟨reg, _, clk, sc₁, _, c', hc', rfl⟩ := h
  simp at hb ⊢
  simp [each_append, each_cons, each_nil, Straight.ahead, straight_edgeRun]
  exact each_ahead_mono (genInput_ahead arg0 hc' (by omega)) (by omega)

theorem genGeneric_ahead {args : List Expr} (h : genGeneric d args sc base = some c)
    (hb : base + c.length < 2 ^ 32) : Each (Ahead (base + c.length)) base c := by
  simp only [genGeneric, bind_some, Option.some.injEq] at h
  obtain ⟨c', hc', rfl⟩ := h
  simp at hb ⊢
  simp [each_append, each_cons, each_nil, Straight.ahead, straight_call]
  exact each_ahead_mono (genArgs_ahead args hc' (by omega)) (by omega)

/-- **Calls jump ahead.** -/
theorem genFunCall_ahead {name : String} {args : List Expr} (h : genFunCall d name args sc base = some c)
    (hb : base + c.length < 2 ^ 32) : Each (Ahead (base + c.length)) base c := by
  unfold genFunCall at h
  dsimp only at h
  split at h
  · rename_i arg0 arg1 rest
    split at h
    · simp only [bind_some, Option.some.injEq, Prod.exists] at h
      obtain ⟨reg, _, inp, sc₁, _, c', hc', rfl⟩ := h
      simp at hb ⊢
      simp [each_append, each_cons, each_nil, Straight.ahead, straight_timerRun]
      exact each_ahead_mono (genInput_ahead arg0 hc' (by omega)) (by omega)
    · split at h
      · simp only [bind_some, Option.some.injEq, Prod.exists] at h
        obtain ⟨reg, _, cu, sc₁, _, c₀, hc₀, cd, sc₂, _, c₂, hc₂, rfl⟩ := h
        simp at hb ⊢
        simp [each_append, each_cons, each_nil, Straight.ahead, straight_counterRun]
        exact ⟨each_ahead_mono (genInput_ahead arg0 hc₀ (by omega)) (by omega),
          each_ahead_mono (genDown_ahead rest hc₂ (by omega)) (by omega)⟩
      · split at h
        · simp only [bind_some, Option.some.injEq, Prod.exists] at h
          obtain ⟨reg, _, s1, sc₁, _, c₀, hc₀, r, sc₂, _, c₁, hc₁, rfl⟩ := h
          simp at hb ⊢
          simp [each_append, each_cons, each_nil, Straight.ahead, straight_srRun]
          exact ⟨each_ahead_mono (genInput_ahead arg0 hc₀ (by omega)) (by omega),
            each_ahead_mono (genInput_ahead arg1 hc₁ (by omega)) (by omega)⟩
        · split at h
          · exact genEdge_ahead h hb
          · exact genGeneric_ahead h hb
  · split at h
    · exact genEdge_ahead h hb
    · exact genGeneric_ahead h hb
  · exact genGeneric_ahead h hb

end

/-! ## Conditions -/

/-- The kinds of jumps that a condition leaves open. A test leaves the one it takes when it is true, and an
    `OR` a jump of the second list between its sides. -/
def Expr.leaves : Expr → CondHole → Bool
  | .binary left op right, k =>
    if op.isCmp then k == .onTrue
    else if op = .and then left.leaves k || right.leaves k
    else if op = .or then k == .onEnd || right.leaves k
    else k == .onTrue
  | .unary .not inner, k => inner.leaves k.swap
  | _, k => k == .onTrue

section
variable {d : Decls} {sc : Scratch} {base : Nat} {cc : CondCode}

/-- The targets of the open jumps lie behind the condition's code, and not behind `hi`. -/
def Targets (e : Expr) (f : CondHole → Option UInt32) (stop hi : Nat) : Prop :=
  ∀ k, e.leaves k → ∃ t, f k = some t ∧ stop ≤ t.toNat ∧ t.toNat ≤ hi

theorem genTruth_ahead {value : Scratch → Nat → UInt8 → Option (List Instruction)} {f : CondHole → Option UInt32}
    {hi : Nat} {t : UInt32} (hv : GoesAhead value) (h : genTruth value sc base = some cc)
    (hb : base + cc.length < 2 ^ 32) (hf : f .onTrue = some t) (hstop : base + cc.length ≤ t.toNat)
    (hhi : t.toNat ≤ hi) : Each (Ahead hi) base (cc.resolve f) := by
  simp only [genTruth, bind_some, Option.some.injEq, Prod.exists] at h
  obtain ⟨s, sc₁, _, c, hc, u, _, _, rfl⟩ := h
  simp at hb hstop
  rw [resolve_test]
  simp only [each_append, each_cons, each_nil, and_true, Straight.ahead, straight_loadImm, straight_cmp]
  refine ⟨each_ahead_mono (hv hc (by omega)) (by omega), ?_⟩
  intro t' ht'
  rw [ht'.target (.inr rfl), hf, Option.getD_some]
  simp only [length_append, length_cons, length_nil]
  omega

/-- **Conditions jump ahead**, once the jumps they leave open have targets behind them. -/
theorem genCond_ahead (e : Expr) {f : CondHole → Option UInt32} {hi : Nat} (h : genCond d e sc base = some cc)
    (hb : base + cc.length < 2 ^ 32) (hf : Targets e f (base + cc.length) hi) (hhi : base + cc.length ≤ hi) :
    Each (Ahead hi) base (cc.resolve f) := by
  induction e generalizing base cc f with
  | binary left op right hl hr =>
    by_cases hop : op.isCmp
    · simp only [genCond, if_pos hop, bind_some, Option.some.injEq] at h
      obtain ⟨c, hc, rfl⟩ := h
      obtain ⟨t, ht, hstop, hto⟩ := hf .onTrue (by simp [Expr.leaves, hop])
      simp at hb hstop
      rw [resolve_test]
      simp [each_append]
      refine ⟨each_ahead_mono (genCmp_ahead (genExpr_ahead left) (genExpr_ahead right) hc (by omega)) (by omega), ?_⟩
      intro t' ht'
      rw [ht'.target (.inr rfl), ht, Option.getD_some]
      omega
    · by_cases hand : op = .and
      · simp only [genCond, if_neg hop, if_pos hand, bind_some, Option.some.injEq] at h
        obtain ⟨cl, hcl, cr, hcr, rfl⟩ := h
        rw [length_append] at hb hf hhi
        have hleaves : ∀ k, (Expr.binary left op right).leaves k = (left.leaves k || right.leaves k) := fun k => by
          rw [Expr.leaves, if_neg hop, if_pos hand]
        rw [CondCode.resolve, map_append, each_append, length_map]
        constructor
        · apply hl hcl (by omega) _ (by omega)
          intro k hk
          obtain ⟨t, ht, hstop, hto⟩ := hf k (by simp [hleaves, hk])
          exact ⟨t, ht, by omega, hto⟩
        · apply hr hcr (by omega) _ (by omega)
          intro k hk
          obtain ⟨t, ht, hstop, hto⟩ := hf k (by simp [hleaves, hk])
          exact ⟨t, ht, by omega, hto⟩
      · by_cases hor : op = .or
        · simp only [genCond, if_neg hop, if_neg hand, if_pos hor, bind_some, Option.some.injEq] at h
          obtain ⟨cl, hcl, cr, hcr, rfl⟩ := h
          simp at hb hf hhi
          have hleaves : ∀ k, (Expr.binary left op right).leaves k = (k == .onEnd || right.leaves k) := fun k => by
            rw [Expr.leaves, if_neg hop, if_neg hand, if_pos hor]
          obtain ⟨t, ht, hstop, hto⟩ := hf .onEnd (by simp [hleaves])
          have hlabel : (label (base + cl.length + 1)).toNat = base + cl.length + 1 := label_toNat (by omega)
          rw [resolve_or]
          simp [each_append]
          refine ⟨?_, ?_, ?_⟩
          · -- the left side's jumps on true go to the right side
            apply hl hcl (by omega) _ (by omega)
            intro k _
            cases k with
            | onTrue => exact ⟨_, if_pos rfl, by omega, by omega⟩
            | onEnd => exact ⟨t, ht, by omega, hto⟩
          · intro t' ht'
            rw [ht'.target (.inl rfl), ht, Option.getD_some]
            omega
          · apply hr hcr (by omega) _ (by omega)
            intro k hk
            obtain ⟨t, ht, hstop, hto⟩ := hf k (by simp [hleaves, hk])
            exact ⟨t, ht, by omega, hto⟩
        · simp [genCond, if_neg hop, if_neg hand, if_neg hor] at h
          obtain ⟨t, ht, hstop, hto⟩ := hf .onTrue (by simp [Expr.leaves, hop, hand, hor])
          exact genTruth_ahead (genExpr_ahead _) h hb ht hstop hto
  | unary op inner ih =>
    cases op with
    | neg =>
      obtain ⟨t, ht, hstop, hto⟩ := hf .onTrue (by simp [Expr.leaves])
      exact genTruth_ahead (genExpr_ahead _) h hb ht hstop hto
    | not =>
      simp only [genCond, bind_some, Option.some.injEq] at h
      obtain ⟨c, hc, rfl⟩ := h
      rw [length_map] at hb hf hhi
      rw [resolve_swap]
      refine ih hc hb ?_ hhi
      intro k hk
      refine hf k.swap ?_
      cases k <;> exact hk
  | _ =>
    obtain ⟨t, ht, hstop, hto⟩ := hf .onTrue (by simp [Expr.leaves])
    exact genTruth_ahead (genExpr_ahead _) h hb ht hstop hto

/-- **What a condition leaves open** waits with target 0. -/
theorem genCond_leaves (e : Expr) {k : CondHole} (h : genCond d e sc base = some cc) (hk : e.leaves k) :
    ∃ x, Slot.hole k x ∈ cc ∧ JumpsTo x 0 := by
  -- a truth value ends with the jump to the body
  have htest : ∀ {value : Scratch → Nat → UInt8 → Option (List Instruction)} {base : Nat} {cc : CondCode},
      genTruth value sc base = some cc → ∃ x, Slot.hole .onTrue x ∈ cc ∧ JumpsTo x 0 := by
    intro value base cc h
    simp only [genTruth, bind_some, Option.some.injEq, Prod.exists] at h
    obtain ⟨s, sc₁, _, c, _, u, _, _, rfl⟩ := h
    exact ⟨.jumpIf 0, by simp, .inr rfl⟩
  induction e generalizing base cc k with
  | binary left op right hl hr =>
    by_cases hop : op.isCmp
    · simp only [genCond, if_pos hop, bind_some, Option.some.injEq] at h
      obtain ⟨c, _, rfl⟩ := h
      obtain rfl : k = .onTrue := by simpa [Expr.leaves, hop] using hk
      exact ⟨.jumpIf 0, by simp, .inr rfl⟩
    · by_cases hand : op = .and
      · simp only [genCond, if_neg hop, if_pos hand, bind_some, Option.some.injEq] at h
        obtain ⟨cl, hcl, cr, hcr, rfl⟩ := h
        rw [Expr.leaves, if_neg hop, if_pos hand, Bool.or_eq_true] at hk
        -- what one side leaves open stays open
        rcases hk with hk | hk
        · obtain ⟨x, hx, hzero⟩ := hl hcl hk
          exact ⟨x, mem_append_left _ hx, hzero⟩
        · obtain ⟨x, hx, hzero⟩ := hr hcr hk
          exact ⟨x, mem_append_right _ hx, hzero⟩
      · by_cases hor : op = .or
        · simp only [genCond, if_neg hop, if_neg hand, if_pos hor, bind_some, Option.some.injEq] at h
          obtain ⟨cl, hcl, cr, hcr, rfl⟩ := h
          rw [Expr.leaves, if_neg hop, if_neg hand, if_pos hor, Bool.or_eq_true, beq_iff_eq] at hk
          rcases hk with rfl | hk
          · exact ⟨.jump 0, mem_append_right _ mem_cons_self, .inl rfl⟩
          · obtain ⟨x, hx, hzero⟩ := hr hcr hk
            exact ⟨x, mem_append_right _ (mem_cons_of_mem _ hx), hzero⟩
        · simp [genCond, if_neg hop, if_neg hand, if_neg hor] at h
          obtain rfl : k = .onTrue := by simpa [Expr.leaves, hop, hand, hor] using hk
          exact htest h
  | unary op inner ih =>
    cases op with
    | neg =>
      obtain rfl : k = .onTrue := by simpa [Expr.leaves] using hk
      exact htest h
    | not =>
      simp only [genCond, bind_some, Option.some.injEq] at h
      obtain ⟨c, hc, rfl⟩ := h
      obtain ⟨x, hx, hzero⟩ := ih hc hk
      refine ⟨x, mem_map.2 ⟨_, hx, ?_⟩, hzero⟩
      cases k <;> rfl
  | _ =>
    obtain rfl : k = .onTrue := by simpa [Expr.leaves] using hk
    exact htest h

end

end Audesys.St
