import Audesys.Hal.Steps
import Audesys.St.Jumps

/-!
# `St.Writes` — the registers that code writes

The instructions that the generator emits for expressions and conditions write registers and jump, and do nothing
else. `Writes P x` says that `x` is one of them and that `P` holds of the registers it may write: its destination,
or a scratch register (`genExpr_writes`). A step leaves everything else as it is
(`Writes.frame`) and ends at the next instruction or at the target of a jump (`Writes.ip`).
-/

open List

namespace Audesys.St

open Audesys.Hal Audesys.Lib

variable [Target]

/-! ## Instructions -/

inductive Writes (P : UInt8 → Prop) : Instruction → Prop
  | loadImm {r : UInt8} {v : HalValue} : P r → Writes P (.loadImm r v)
  | arith (op : BinOp) {a b out : UInt8} : P out → Writes P (.arith op.opcode a b out)
  | not {r : UInt8} : P r → Writes P (notInst r)
  | cmp (op : BinOp) {a b : UInt8} : Writes P (.cmp op.opcode a b)
  | loadIndex {dest array idx : UInt8} : P dest → Writes P (.loadIndex dest array idx)
  | storeIndex {array idx value : UInt8} : P array → Writes P (.storeIndex array idx value)
  | readTimer {idx q et : UInt8} : P q → P et → Writes P (.readTimer idx q et)
  | readSr {idx q1 q2 : UInt8} : P q1 → P q2 → Writes P (.readSr idx q1 q2)
  | readEdge {idx q : UInt8} : P q → Writes P (.readEdge idx q)
  | jump {t : UInt32} : Writes P (.jump t)
  | jumpIf {t : UInt32} : Writes P (.jumpIf t)

section
variable {P Q : UInt8 → Prop} {code : List Instruction} {vm vm' : Vm} {x : Instruction}

theorem Writes.mono (h : Writes P x) (hPQ : ∀ r, P r → Q r) : Writes Q x := by
  cases h with
  | loadImm h => exact .loadImm (hPQ _ h)
  | arith op h => exact .arith op (hPQ _ h)
  | not h => exact .not (hPQ _ h)
  | cmp op => exact .cmp op
  | loadIndex h => exact .loadIndex (hPQ _ h)
  | storeIndex h => exact .storeIndex (hPQ _ h)
  | readTimer hq het => exact .readTimer (hPQ _ hq) (hPQ _ het)
  | readSr h₁ h₂ => exact .readSr (hPQ _ h₁) (hPQ _ h₂)
  | readEdge h => exact .readEdge (hPQ _ h)
  | jump => exact .jump
  | jumpIf => exact .jumpIf

theorem Frame.writeRegister {r : UInt8} {v : HalValue} (h : vm.writeRegister r v = some vm') (hr : P r) :
    Frame P vm vm' := by
  have hset : vm.set r v = vm' := by
    unfold Vm.set
    rw [h]
    rfl
  rw [← hset]
  exact ⟨(Frame.set hr v).regs, (Frame.set hr v).signals⟩

theorem frame_arith {f : HalValue → HalValue → Option HalValue} {a b out : UInt8} (hout : P out)
    (h : Exec.execArithBinop f vm [.register a, .register b, .register out] = some vm') : Frame P vm vm' := by
  simp only [Exec.execArithBinop, bind_some] at h
  obtain ⟨_, _, _, _, r, _, h⟩ := h
  exact .writeRegister h hout

theorem frame_compare {f : HalValue → HalValue → Bool} {args : List Operand}
    (h : Exec.execCompare f vm args = some vm') : Frame P vm vm' := by
  unfold Exec.execCompare at h
  split at h
  · simp only [bind_some, Option.some.injEq] at h
    obtain ⟨_, _, _, _, rfl⟩ := h
    exact ⟨fun _ _ => rfl, rfl⟩
  · cases h
    exact .refl P vm

/-- The blocks may grow before they are read. -/
theorem Frame.of_grown {u : Vm} (h : Frame P u vm') (hregs : u.registers = vm.registers)
    (hsignals : u.signals = vm.signals) : Frame P vm vm' := by
  refine ⟨fun r hr => ?_, h.signals.trans hsignals⟩
  rw [h.regs r hr, Vm.get, Vm.get, Vm.readRegister, Vm.readRegister, hregs]

theorem Writes.frame_execPlain (h : Writes P x) (hexec : Exec.execPlain vm x = some vm') : Frame P vm vm' := by
  cases h with
  | loadImm hr => exact .writeRegister hexec hr
  | @arith op a b out hout =>
    by_cases hop : op.isCmp
    · rw [Instruction.arith, BinOp.exec_cmp hop] at hexec
      exact frame_compare hexec
    · rw [Instruction.arith, BinOp.exec_opcode (by simpa using hop)] at hexec
      exact frame_arith hout hexec
  | @not r hr =>
    replace hexec : Exec.execUnary (fun a => some a.not) vm [.register r, .register r, .register r] = some vm' := hexec
    simp only [Exec.execUnary, bind_some] at hexec
    obtain ⟨_, _, _, _, hexec⟩ := hexec
    exact .writeRegister hexec hr
  | @cmp op a b =>
    by_cases hop : op.isCmp
    · rw [Instruction.cmp, BinOp.exec_cmp hop] at hexec
      exact frame_compare hexec
    · rw [Instruction.cmp, BinOp.exec_opcode (by simpa using hop)] at hexec
      cases hexec
      exact .refl P vm
  | @loadIndex dest array idx hdest =>
    replace hexec : Exec.execLoadIndex vm [.register dest, .register array, .register idx] = some vm' := hexec
    simp only [Exec.execLoadIndex, bind_some] at hexec
    obtain ⟨_, _, _, _, _, _, hexec⟩ := hexec
    exact .writeRegister hexec hdest
  | @storeIndex array idx value harray =>
    replace hexec : Exec.execStoreIndex vm [.register array, .register idx, .register value] = some vm' := hexec
    simp only [Exec.execStoreIndex, bind_some] at hexec
    obtain ⟨_, _, _, _, _, _, _, _, hexec⟩ := hexec
    exact .writeRegister hexec harray
  | @readTimer idx q et hq het =>
    replace hexec : Exec.execReadTimer vm [.immediate (.u32 idx.toUInt32), .register q, .register et] = some vm' :=
      hexec
    simp only [Exec.execReadTimer, bind_some] at hexec
    -- two registers one after the other
    obtain ⟨_, _, u, hfirst, hsecond⟩ := hexec
    exact ((Frame.writeRegister hfirst hq).trans (.writeRegister hsecond het)).of_grown rfl rfl
  | @readSr idx q1 q2 h₁ h₂ =>
    replace hexec : Exec.execReadSr vm [.immediate (.u32 idx.toUInt32), .register q1, .register q2] = some vm' :=
      hexec
    simp only [Exec.execReadSr, bind_some] at hexec
    obtain ⟨_, _, u, hfirst, hsecond⟩ := hexec
    exact ((Frame.writeRegister hfirst h₁).trans (.writeRegister hsecond h₂)).of_grown rfl rfl
  | @readEdge idx q hq =>
    replace hexec : Exec.execReadEdge vm [.immediate (.u32 idx.toUInt32), .register q] = some vm' := hexec
    simp only [Exec.execReadEdge, bind_some] at hexec
    obtain ⟨_, _, hexec⟩ := hexec
    exact (Frame.writeRegister hexec hq).of_grown rfl rfl
  | jump =>
    cases hexec
    exact .refl P vm
  | jumpIf =>
    cases hexec
    exact .refl P vm

/-- A jump, or an instruction that `execPlain` runs. -/
theorem Writes.jumps_or_isPlain (h : Writes P x) : (∃ t, JumpsTo x t) ∨ x.opcode.isPlain = true := by
  cases h with
  | jump => exact .inl ⟨_, .inl rfl⟩
  | jumpIf => exact .inl ⟨_, .inr rfl⟩
  | arith => exact .inr (BinOp.opcode_isPlain _)
  | cmp => exact .inr (BinOp.opcode_isPlain _)
  | _ => exact .inr rfl

theorem Writes.not_ends (h : Writes P x) : ¬ Ends vm x := by
  intro hends
  rcases h.jumps_or_isPlain with ⟨t, rfl | rfl⟩ | hplain
  · rcases hends with hop | ⟨hop, _⟩ <;> cases hop
  · rcases hends with hop | ⟨hop, _⟩ <;> cases hop
  · rcases hends with hop | ⟨hop, _⟩
    · rw [hop] at hplain
      cases hplain
    · rw [hop] at hplain
      cases hplain

/-- **What a step changes**: the registers that the instruction writes. -/
theorem Writes.frame (h : Writes P x) (hx : code[vm.ip]? = some x) (hnext : next code vm = some vm') :
    Frame P vm vm' := by
  rcases h.jumps_or_isPlain with ⟨t, rfl | rfl⟩ | hplain
  · rw [next_jump hx, Option.some.injEq] at hnext
    subst hnext
    exact ⟨fun _ _ => rfl, rfl⟩
  · rw [next_jumpIf hx, Option.some.injEq] at hnext
    subst hnext
    split
    · exact ⟨fun _ _ => rfl, rfl⟩
    · exact ⟨fun _ _ => rfl, rfl⟩
  · rw [next_plain hx hplain, Option.map_eq_some_iff] at hnext
    obtain ⟨u, hexec, rfl⟩ := hnext
    have hframe := h.frame_execPlain hexec
    exact ⟨hframe.regs, hframe.signals⟩

/-- **Where a step ends.** -/
theorem Writes.ip (h : Writes P x) (hx : code[vm.ip]? = some x) (hnext : next code vm = some vm') :
    vm'.ip = vm.ip + 1 ∨ ∃ t, JumpsTo x t ∧ vm'.ip = t.toNat := by
  rcases h.jumps_or_isPlain with ⟨t, rfl | rfl⟩ | hplain
  · rw [next_jump hx, Option.some.injEq] at hnext
    subst hnext
    exact .inr ⟨t, .inl rfl, rfl⟩
  · rw [next_jumpIf hx, Option.some.injEq] at hnext
    subst hnext
    split
    · exact .inr ⟨t, .inr rfl, rfl⟩
    · exact .inl rfl
  · rw [next_plain hx hplain, Option.map_eq_some_iff] at hnext
    obtain ⟨u, hexec, rfl⟩ := hnext
    rw [Vm.advanceIp_ip, (plain_of_execPlain hexec).ip]
    exact .inl rfl

end

/-! ## Expressions -/

/-- The destination or a scratch register. -/
def Working (dest r : UInt8) : Prop := r = dest ∨ Scratch.all.has r

omit [Target] in
theorem Scratch.has_all {sc : Scratch} {r : UInt8} (h : sc.has r) : Scratch.all.has r := by
  unfold Scratch.has at h ⊢
  simp at h ⊢
  exact h.imp (Or.imp (fun h => ⟨rfl, h.2⟩) fun h => ⟨rfl, h.2⟩) fun h => ⟨rfl, h.2⟩

omit [Target] in
theorem working_alloc {sc sc' : Scratch} {s : UInt8} (h : sc.alloc = some (s, sc')) (dest : UInt8) :
    Working dest s := .inr (Scratch.has_all (Scratch.alloc_taken h).isFree)

/-- What works on a scratch register may work on one for any destination. -/
theorem Writes.scratch {sc sc' : Scratch} {s dest : UInt8} {x : Instruction} (h : Writes (Working s) x)
    (halloc : sc.alloc = some (s, sc')) : Writes (Working dest) x := by
  refine h.mono fun r hr => ?_
  rcases hr with rfl | hr
  · exact working_alloc halloc dest
  · exact .inr hr

/-- The code of a generator writes its destination and scratch registers. -/
def WritesDest (g : Scratch → Nat → UInt8 → Option (List Instruction)) : Prop :=
  ∀ {sc base dest c}, g sc base dest = some c → ∀ x ∈ c, Writes (Working dest) x

section
variable {d : Decls} {sc : Scratch} {base : Nat} {c : List Instruction}

theorem genCmp_writes {left right : Scratch → Nat → UInt8 → Option (List Instruction)} {op : BinOp} {dest : UInt8}
    (hl : WritesDest left) (hr : WritesDest right) (h : genCmp left right op sc base = some c) :
    ∀ x ∈ c, Writes (Working dest) x := by
  simp only [genCmp, bind_some, Option.some.injEq, Prod.exists] at h
  obtain ⟨rs, sc₁, hrs, cr, hcr, ls, sc₂, hls, cl, hcl, rfl⟩ := h
  simp only [forall_mem_append, forall_mem_singleton]
  exact ⟨⟨fun x hx => (hr hcr x hx).scratch hrs, fun x hx => (hl hcl x hx).scratch hls⟩, .cmp op⟩

theorem genField_writes {name field : String} {dest : UInt8} (h : genField d name field sc dest = some c) :
    ∀ x ∈ c, Writes (Working dest) x := by
  simp only [genField, bind_some] at h
  obtain ⟨reg, _, h⟩ := h
  split at h
  · simp only [bind_some, Option.some.injEq, Prod.exists] at h
    obtain ⟨other, _, hother, rfl⟩ := h
    rw [forall_mem_singleton]
    split
    · exact .readSr (working_alloc hother dest) (.inl rfl)
    · exact .readSr (.inl rfl) (working_alloc hother dest)
  · split at h
    · cases h
      rw [forall_mem_singleton]
      exact .readEdge (.inl rfl)
    · simp only [bind_some, Option.some.injEq, Prod.exists] at h
      obtain ⟨et, _, het, rfl⟩ := h
      rw [forall_mem_singleton]
      exact .readTimer (.inl rfl) (working_alloc het dest)

/-- **Expressions write their destination** and scratch registers. -/
theorem genExpr_writes (e : Expr) : WritesDest (genExpr d e) := by
  induction e with
  | intLiteral | realLiteral | boolLiteral =>
    intro sc base dest c h
    cases h
    rw [forall_mem_singleton]
    exact .loadImm (.inl rfl)
  | var name =>
    intro sc base dest c h
    simp only [genExpr, bind_some] at h
    obtain ⟨src, _, h⟩ := h
    split at h
    · cases h
      exact forall_mem_nil _
    · cases h
      rw [forall_mem_cons, forall_mem_singleton]
      exact ⟨.loadImm (.inl rfl), .arith .add (.inl rfl)⟩
  | binary left op right hl hr =>
    intro sc base dest c h
    by_cases harith : op.isArith
    · simp only [genExpr, if_pos harith, bind_some, Option.some.injEq, Prod.exists] at h
      obtain ⟨cl, hcl, s, sc₁, hs, cr, hcr, rfl⟩ := h
      simp only [forall_mem_append, forall_mem_singleton]
      -- the scratch register is one of those that are free in front of the right side
      exact ⟨⟨hl hcl, fun x hx => (hr hcr x hx).scratch hs⟩, .arith op (.inl rfl)⟩
    · by_cases hcmp : op.isCmp
      · simp only [genExpr, if_neg harith, if_pos hcmp, bind_some, Option.some.injEq] at h
        obtain ⟨c', hc', rfl⟩ := h
        simp only [forall_mem_append, forall_mem_cons]
        exact ⟨genCmp_writes hl hr hc', .loadImm (.inl rfl), .jumpIf, .loadImm (.inl rfl), forall_mem_nil _⟩
      · simp only [genExpr, if_neg harith, if_neg hcmp, bind_some, Option.some.injEq, Prod.exists] at h
        obtain ⟨s, sc₁, hs, cl, hcl, cr, hcr, rfl⟩ := h
        simp only [forall_mem_append, forall_mem_singleton]
        exact ⟨⟨hl hcl, fun x hx => (hr hcr x hx).scratch hs⟩, .arith op (.inl rfl)⟩
  | unary op inner ih =>
    intro sc base dest c h
    cases op with
    | neg =>
      simp only [genExpr, bind_some, Option.some.injEq, Prod.exists] at h
      obtain ⟨c', hc', zero, _, hzero, rfl⟩ := h
      simp only [forall_mem_append, forall_mem_cons]
      exact ⟨ih hc', .loadImm (working_alloc hzero dest), .arith .sub (.inl rfl), forall_mem_nil _⟩
    | not =>
      simp only [genExpr, bind_some, Option.some.injEq] at h
      obtain ⟨c', hc', rfl⟩ := h
      simp only [forall_mem_append, forall_mem_singleton]
      exact ⟨ih hc', .not (.inl rfl)⟩
  | arrayAccess name index ih =>
    intro sc base dest c h
    simp only [genExpr, bind_some, Option.some.injEq, Prod.exists] at h
    obtain ⟨array, _, idx, sc₁, hidx, c', hc', rfl⟩ := h
    simp only [forall_mem_append, forall_mem_singleton]
    exact ⟨fun x hx => (ih hc' x hx).scratch hidx, .loadIndex (.inl rfl)⟩
  | fieldAccess name field =>
    intro sc base dest c h
    exact genField_writes h

end

/-! ## Conditions -/

/-- Jumps go at most to `hi`. -/
def Under (hi : Nat) (x : Instruction) : Prop := ∀ t, JumpsTo x t → t.toNat ≤ hi

/-- The instruction writes scratch registers only, and jumps at most to `hi`. -/
structure Mild (hi : Nat) (x : Instruction) : Prop where
  writes : Writes (fun r => Scratch.all.has r) x
  under : Under hi x

theorem Straight.under {hi : Nat} {x : Instruction} (h : Straight x) : Under hi x := fun t ht => absurd ht (h t)

theorem Ahead.under {hi hi' i : Nat} {x : Instruction} (h : Ahead hi i x) (hle : hi ≤ hi') : Under hi' x :=
  fun t ht => Nat.le_trans (h t ht).2 hle

theorem mild_jump {hi : Nat} {t : UInt32} (h : t.toNat ≤ hi) : Mild hi (.jump t) :=
  ⟨.jump, fun u hu => by rwa [hu.target (.inl rfl)]⟩

theorem mild_jumpIf {hi : Nat} {t : UInt32} (h : t.toNat ≤ hi) : Mild hi (.jumpIf t) :=
  ⟨.jumpIf, fun u hu => by rwa [hu.target (.inr rfl)]⟩

section
variable {d : Decls} {sc : Scratch} {base hi : Nat}

/-- Code for a scratch register. -/
theorem mild_of_scratch {sc' : Scratch} {s : UInt8} {c : List Instruction} (hs : sc'.alloc = some (s, sc))
    (hwrites : ∀ x ∈ c, Writes (Working s) x) (hahead : Each (Ahead (base + c.length)) base c)
    (hhi : base + c.length ≤ hi) : ∀ x ∈ c, Mild hi x := by
  intro x hx
  obtain ⟨k, hk⟩ := mem_iff_getElem?.1 hx
  refine ⟨(hwrites x hx).mono fun r hr => ?_, (hahead k x hk).under hhi⟩
  rcases hr with rfl | hr
  · exact Scratch.has_all (Scratch.alloc_taken hs).isFree
  · exact hr

theorem genCmp_mild {left right : Expr} {op : BinOp} {c : List Instruction}
    (h : genCmp (genExpr d left) (genExpr d right) op sc base = some c) (hhi : base + c.length ≤ hi)
    (hbound : hi < 2 ^ 32) : ∀ x ∈ c, Mild hi x := by
  simp only [genCmp, bind_some, Option.some.injEq, Prod.exists] at h
  obtain ⟨rs, sc₁, hrs, cr, hcr, ls, sc₂, hls, cl, hcl, rfl⟩ := h
  simp only [length_append, length_singleton] at hhi
  simp only [forall_mem_append, forall_mem_singleton]
  refine ⟨⟨?_, ?_⟩, .cmp op, straight_cmp.under⟩
  · exact mild_of_scratch hrs (genExpr_writes right hcr) (genExpr_ahead right hcr (by omega)) (by omega)
  · exact mild_of_scratch hls (genExpr_writes left hcl) (genExpr_ahead left hcl (by omega)) (by omega)

theorem genTruth_mild {e : Expr} {cc : CondCode} {f : CondHole → Option UInt32}
    (h : genTruth (genExpr d e) sc base = some cc) (hhi : base + cc.length ≤ hi) (hbound : hi < 2 ^ 32)
    (hf : ∀ k, ((f k).getD 0).toNat ≤ hi) : ∀ x ∈ cc.resolve f, Mild hi x := by
  simp only [genTruth, bind_some, Option.some.injEq, Prod.exists] at h
  obtain ⟨s, sc₁, hs, c, hc, u, _, hu, rfl⟩ := h
  simp at hhi
  rw [resolve_test]
  simp only [forall_mem_append, forall_mem_cons]
  have hscratch := Scratch.has_all (Scratch.alloc_taken hu).isFree
  refine ⟨⟨?_, ⟨.loadImm hscratch, straight_loadImm.under⟩, ⟨.cmp .eq, straight_cmp.under⟩, forall_mem_nil _⟩,
    mild_jumpIf (hf .onTrue), forall_mem_nil _⟩
  exact mild_of_scratch hs (genExpr_writes e hc) (genExpr_ahead e hc (by omega)) (by omega)

/-- **Conditions write scratch registers**, and jump no farther than their open jumps are sent. -/
theorem genCond_mild (e : Expr) {cc : CondCode} {f : CondHole → Option UInt32}
    (h : genCond d e sc base = some cc) (hhi : base + cc.length ≤ hi) (hbound : hi < 2 ^ 32)
    (hf : ∀ k, ((f k).getD 0).toNat ≤ hi) : ∀ x ∈ cc.resolve f, Mild hi x := by
  induction e generalizing base cc f with
  | binary left op right hl hr =>
    by_cases hop : op.isCmp
    · simp only [genCond, if_pos hop, bind_some, Option.some.injEq] at h
      obtain ⟨c, hc, rfl⟩ := h
      simp at hhi
      rw [resolve_test]
      simp only [forall_mem_append, forall_mem_singleton]
      exact ⟨genCmp_mild hc (by omega) hbound, mild_jumpIf (hf .onTrue)⟩
    · by_cases hand : op = .and
      · simp only [genCond, if_neg hop, if_pos hand, bind_some, Option.some.injEq] at h
        obtain ⟨cl, hcl, cr, hcr, rfl⟩ := h
        rw [length_append] at hhi
        rw [CondCode.resolve, map_append, forall_mem_append]
        exact ⟨hl hcl (by omega) hf, hr hcr (by omega) hf⟩
      · by_cases hor : op = .or
        · simp only [genCond, if_neg hop, if_neg hand, if_pos hor, bind_some, Option.some.injEq] at h
          obtain ⟨cl, hcl, cr, hcr, rfl⟩ := h
          simp at hhi
          rw [resolve_or, forall_mem_append, forall_mem_cons]
          refine ⟨hl hcl (by omega) fun k => ?_, mild_jump (hf .onEnd), hr hcr (by omega) hf⟩
          -- the left side's jumps on true go to the right side
          split
          · show (label (base + cl.length + 1)).toNat ≤ hi
            rw [label_toNat (by omega)]
            omega
          · exact hf k
        · simp [genCond, if_neg hop, if_neg hand, if_neg hor] at h
          exact genTruth_mild h hhi hbound hf
  | unary op inner ih =>
    cases op with
    | neg => exact genTruth_mild h hhi hbound hf
    | not =>
      simp only [genCond, bind_some, Option.some.injEq] at h
      obtain ⟨c, hc, rfl⟩ := h
      rw [length_map] at hhi
      rw [resolve_swap]
      exact ih hc hhi fun k => hf k.swap
  | _ => exact genTruth_mild h hhi hbound hf

end

end Audesys.St
