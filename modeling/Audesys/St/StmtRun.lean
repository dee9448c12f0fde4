import Audesys.St.ExprRun
import Audesys.St.Sites

/-!
# `St.StmtRun` — compiled statements simulate the interpreter

The simulation relation `Sim` ties a machine state to a store: every variable's register holds its value, and
the signal table is what the assignments published. `Meets` says what a run of a statement's code does for
each outcome of the interpreter: it reaches the end of the code, the target of `EXIT`, or a `Halt`, in a
state that simulates the outcome's store; where the interpreter runs out of fuel, the machine makes at least
as many steps. One lemma for each statement (`if_run`, `while_run`, …) takes what is known of its parts, and
`stmt_run` closes the induction over the syntax tree.
-/

open List

namespace Audesys.St

open Audesys.Hal Audesys.Lib

variable [Target]
variable {name : String} {body : List Statement} {target : UInt32} {o : Outcome}

/-- The declarations of the core: every variable is `DINT`. -/
structure IntDecls (d : Decls) : Prop extends VarDecls d where
  dint : ∀ {x r}, d.registers x = some r → d.varTypes x = some .dint

omit [Target] in
theorem IntDecls.dints {d : Decls} (hd : IntDecls d) (xs : List String) : Dints d xs := fun _ _ _ h => hd.dint h

/-- **The simulation relation.** -/
structure Sim (d : Decls) (σ : Store) (vm : Vm) : Prop where
  regs : ∀ x r, d.registers x = some r → vm.get r = .s32 (σ.vals x)
  signals : vm.signals = fun x => (σ.published x).map .s32

/-- The run of a piece of code from `vm`, for each outcome of the interpreter. -/
def Meets (d : Decls) (code : List Instruction) (fuel : Nat) (vm : Vm) (stop exitTo : Nat) : Outcome → Prop
  | .normal σ => ∃ n vm', RunN (next code) n vm vm' ∧ Sim d σ vm' ∧ vm'.ip = stop
  | .exit σ => ∃ n vm', RunN (next code) n vm vm' ∧ Sim d σ vm' ∧ vm'.ip = exitTo
  | .ret σ => ∃ n vm', RunN (next code) n vm vm' ∧ Sim d σ vm' ∧ code[vm'.ip]? = some .halt
  | .overflow => True
  | .timeout => ∃ n vm', fuel ≤ n ∧ RunN (next code) n vm vm'

/-- The run of one iteration: it comes back to `start` after at least one step, or leaves the loop. -/
def IterMeets (d : Decls) (code : List Instruction) (fuel : Nat) (vm : Vm) (start stop exitTo : Nat) :
    Iteration → Prop
  | .inl σ => ∃ n vm', RunN (next code) (n + 1) vm vm' ∧ Sim d σ vm' ∧ vm'.ip = start
  | .inr o => Meets d code fuel vm stop exitTo o

section
variable {d : Decls} {code : List Instruction} {fuel : Nat} {vm vm' : Vm} {σ : Store} {start stop exitTo : Nat}

theorem Sim.holds (h : Sim d σ vm) (xs : List String) : Holds d σ.vals xs vm := fun x _ r hr => h.regs x r hr

/-- A change of scratch registers does not matter. -/
theorem Sim.frame (h : Sim d σ vm) {P : UInt8 → Prop} (hf : Frame P vm vm')
    (hP : ∀ x r, d.registers x = some r → ¬ P r) : Sim d σ vm' :=
  ⟨fun x r hr => by rw [hf.regs r (hP x r hr), h.regs x r hr], by rw [hf.signals, h.signals]⟩

theorem Sim.setIp (h : Sim d σ vm) (n : Nat) : Sim d σ (vm.setIp n) := ⟨h.regs, h.signals⟩

theorem Sim.advanceIp (h : Sim d σ vm) : Sim d σ vm.advanceIp := ⟨h.regs, h.signals⟩

/-- A variable's register takes a new value. -/
theorem Sim.set (hd : IntDecls d) (h : Sim d σ vm) {r : UInt8} {v : Int32} {sc : Scratch}
    (hr : d.registers name = some r) (hv : vm'.get r = .s32 v)
    (hf : Frame (fun r' => r' = r ∨ sc.has r') vm vm') : Sim d (σ.set name v) vm' := by
  refine ⟨fun x rx hx => ?_, by rw [hf.signals, h.signals]; rfl⟩
  by_cases hxn : x = name
  · subst hxn
    rw [hr] at hx
    cases hx
    rw [hv]
    simp [Store.set]
  · have hne : rx ≠ r := fun heq => hxn (hd.inj hx (heq ▸ hr))
    rw [hf.regs rx (fun h' => h'.elim hne (hd.not_has hx)), h.regs x rx hx]
    simp [Store.set, hxn]

/-! ## Composition -/

theorem Meets.after {n k : Nat} (hrun : RunN (next code) n vm vm')
    (h : Meets d code k vm' stop exitTo o) (hk : fuel ≤ n + k) : Meets d code fuel vm stop exitTo o := by
  cases o with
  | normal σ =>
    obtain ⟨m, u, hm, hs, hip⟩ := h
    exact ⟨_, u, hrun.trans hm, hs, hip⟩
  | exit σ =>
    obtain ⟨m, u, hm, hs, hip⟩ := h
    exact ⟨_, u, hrun.trans hm, hs, hip⟩
  | ret σ =>
    obtain ⟨m, u, hm, hs, hip⟩ := h
    exact ⟨_, u, hrun.trans hm, hs, hip⟩
  | overflow => trivial
  | timeout =>
    obtain ⟨m, u, hle, hm⟩ := h
    exact ⟨_, u, by omega, hrun.trans hm⟩

theorem Meets.prepend {n : Nat} (h : Meets d code fuel vm' stop exitTo o)
    (hrun : RunN (next code) n vm vm') : Meets d code fuel vm stop exitTo o := h.after hrun (by omega)

/-- The code behind a piece of code that ends normally. -/
theorem Meets.seq {k : Store → Outcome} {stop' : Nat} (h : Meets d code fuel vm stop exitTo o)
    (hk : ∀ σ vm', o = .normal σ → Sim d σ vm' → vm'.ip = stop → Meets d code fuel vm' stop' exitTo (k σ)) :
    Meets d code fuel vm stop' exitTo (o.seq k) := by
  cases o with
  | normal σ =>
    obtain ⟨m, u, hm, hs, hip⟩ := h
    exact (hk σ u rfl hs hip).prepend hm
  | exit σ => exact h
  | ret σ => exact h
  | overflow => trivial
  | timeout => exact h

/-- A jump behind a piece of code. -/
theorem Meets.jump (h : Meets d code fuel vm stop exitTo o)
    (hj : code[stop]? = some (.jump target)) : Meets d code fuel vm target.toNat exitTo o := by
  cases o with
  | normal σ =>
    obtain ⟨m, u, hm, hs, hip⟩ := h
    exact ⟨_, _, hm.snoc (next_jump (hip ▸ hj)), hs.setIp _, rfl⟩
  | exit σ => exact h
  | ret σ => exact h
  | overflow => trivial
  | timeout => exact h

theorem IterMeets.after {n : Nat} {it : Iteration} (hrun : RunN (next code) n vm vm')
    (h : IterMeets d code fuel vm' start stop exitTo it) : IterMeets d code fuel vm start stop exitTo it := by
  cases it with
  | inl σ =>
    obtain ⟨m, u, hm, hs, hip⟩ := h
    exact ⟨n + m, u, hrun.trans hm, hs, hip⟩
  | inr o => exact Meets.prepend h hrun

/-- The body of a loop: its `EXIT`s go to the end of the loop. -/
theorem IterMeets.afterBody {k : Store → Iteration} {bodyStop : Nat} (h : Meets d code fuel vm bodyStop stop o)
    (hk : ∀ σ vm', Sim d σ vm' → vm'.ip = bodyStop → IterMeets d code fuel vm' start stop exitTo (k σ)) :
    IterMeets d code fuel vm start stop exitTo (afterBody o k) := by
  cases o with
  | normal σ =>
    obtain ⟨m, u, hm, hs, hip⟩ := h
    exact (hk σ u hs hip).after hm
  | exit σ => exact h
  | ret σ => exact h
  | overflow => trivial
  | timeout => exact h

/-- **Loops.** By induction on the iterations left: each one that goes on costs the machine a step. -/
theorem loop_run {iterate : Store → Iteration}
    (hiter : ∀ σ vm, Sim d σ vm → vm.ip = start → IterMeets d code fuel vm start stop exitTo (iterate σ))
    (k : Nat) (hk : k ≤ fuel) (hs : Sim d σ vm) (hip : vm.ip = start) :
    Meets d code k vm stop exitTo (loop iterate k σ) := by
  induction k generalizing σ vm with
  | zero => exact ⟨0, vm, Nat.le_refl 0, .refl vm⟩
  | succ k ih =>
    have h := hiter σ vm hs hip
    unfold loop
    split
    · rename_i σ' heq
      rw [heq] at h
      obtain ⟨n, u, hn, hs', hip'⟩ := h
      exact (ih (by omega) hs' hip').after hn (by omega)
    · rename_i o heq
      rw [heq] at h
      exact Meets.after (.refl vm) h (by omega)

end

/-! ## Conditions -/

section
variable {d : Decls} {sc : Scratch} {code : List Instruction} {σ : Store} {vm : Vm}

/-- A single comparison goes to the label of its true branch, or through to the end of its code. -/
theorem test_run (hd : IntDecls d) {e : Expr} {base : Nat} {cc : CondCode}
    {f : CondHole → Option UInt32} {b : Bool} (hc : genCond d e sc base = some cc)
    (htest : e.isTest) (hf : f .onTrue = some target) (hat : CodeAt code vm.ip (cc.resolve f))
    (hs : Sim d σ vm) (hb : evalTest σ.vals e = some b) : ∃ n vm', RunN (next code) n vm vm' ∧ Sim d σ vm' ∧
      vm'.ip = if b then target.toNat else vm.ip + cc.length := by
  cases e with
  | binary left op right =>
    simp [Expr.isTest] at htest
    obtain ⟨⟨hop, hintl⟩, hintr⟩ := htest
    simp only [genCond, if_pos hop, bind_some, Option.some.injEq] at hc
    obtain ⟨c, hc, rfl⟩ := hc
    simp only [evalTest, bind_some, Option.some.injEq] at hb
    obtain ⟨x, hx, y, hy, rfl⟩ := hb
    have hcode : CondCode.resolve (c.map Slot.done ++ [Slot.hole CondHole.onTrue (Instruction.jumpIf 0)]) f =
        c ++ [Instruction.jumpIf target] := by
      simp [CondCode.resolve, Function.comp_def, Slot.resolve, hf, Codegen.retarget, Instruction.jumpIf]
    rw [hcode] at hat
    obtain ⟨n, vm₁, hrun, hflag, hip, hframe⟩ := cmp_run hd.toVarDecls hc hop hintl hintr hat.left
      (hd.dints _) (hd.dints _) (hs.holds _) (hs.holds _) (runExpr_of_evalExpr left hx) (runExpr_of_evalExpr right hy)
    have hs₁ : Sim d σ vm₁ := hs.frame hframe fun z r hr => hd.not_has hr
    have hstep := next_jumpIf (hip ▸ hat.right.head)
    rw [hflag] at hstep
    refine ⟨n + 1, _, (run_of_advance hrun).snoc hstep, ?_, ?_⟩
    · split
      · exact hs₁.setIp _
      · exact hs₁.advanceIp
    · split
      · rfl
      · simp [hip, Nat.add_assoc]
  | _ => exact absurd htest (by simp [Expr.isTest])

end

/-! ## Statements -/

section
variable {d : Decls} {sc : Scratch} {code : List Instruction} {fuel : Nat}

/-- What is to be shown of a statement or a body: its code, wherever it stands, meets the interpreter. -/
def Runs (d : Decls) (code : List Instruction) (fuel : Nat) (gen : Nat → Option StmtCode)
    (exec : Store → Outcome) : Prop :=
  ∀ base c exitTo vm σ, gen base = some c → CodeAt code base (c.resolve exitTo) → Sim d σ vm → vm.ip = base →
    Meets d code fuel vm (base + c.length) exitTo.toNat (exec σ)

theorem assign_run (hd : IntDecls d) {value : Expr} (hcore : value.isSource name) :
    Runs d code fuel (genStmt d sc (.assign name value)) (execStmt fuel (.assign name value)) := by
  rintro base c exitTo vm σ hc hat hs rfl
  simp only [genStmt, bind_some, Option.some.injEq] at hc
  obtain ⟨dest, hdest, ce, hce, rfl⟩ := hc
  simp [Expr.isSource] at hcore
  obtain ⟨hint, hright⟩ := hcore
  rw [resolve_plain] at hat
  simp only [execStmt]
  cases hv : evalExpr σ.vals value with
  | none => trivial
  | some v =>
    have hclear : ∀ x ∈ value.rightVars, d.registers x ≠ some dest := fun x hx hxd =>
      hright (hd.inj hxd hdest ▸ hx)
    obtain ⟨n, vm₁, hrun, hval, hip₁, hframe⟩ := expr_run hd.toVarDecls value hce hint hat.left
      (hd.valid hdest) (Bool.eq_false_iff.2 (hd.not_has hdest)) hclear (hd.dints _) (hs.holds _)
      (runExpr_of_evalExpr value hv)
    have hs₁ : Sim d (σ.set name v) vm₁ := hs.set hd hdest hval hframe
    have hstore := next_store (r := dest)
      (by rw [hip₁]; exact hat.right.head) (hd.valid hdest)
    rw [hval] at hstore
    refine ⟨n + 1, _, (run_of_advance hrun).snoc hstore, ⟨fun x r hx => ?_, ?_⟩, ?_⟩
    · simpa [Store.assign] using hs₁.regs x r hx
    · have hsig := hs₁.signals
      simp only [Store.set] at hsig
      simp [hsig, Store.assign]
      funext x
      split <;> rfl
    · simp [hip₁, Nat.add_assoc]

variable (hcode : code.length < 2 ^ 32)
include hcode

theorem if_run (hd : IntDecls d) {condition : Expr} {thenBody elseBody : List Statement}
    (htest : condition.isTest) (hthen : Runs d code fuel (genBody d sc thenBody) (execBody fuel thenBody))
    (helse : Runs d code fuel (genBody d sc elseBody) (execBody fuel elseBody)) :
    Runs d code fuel (genStmt d sc (.ifThen condition thenBody elseBody))
      (execStmt fuel (.ifThen condition thenBody elseBody)) := by
  rintro base c exitTo vm σ hc hat hs rfl
  simp only [genStmt, bind_some, Option.some.injEq] at hc
  obtain ⟨cc, hcc, ct, hct, ce, hce, rfl⟩ := hc
  simp only [resolve_append, resolve_plain] at hat
  have hlabel : ∀ n, n ≤ vm.ip + cc.length + 1 + ct.length + 1 + ce.length → (label n).toNat = n := fun n hn =>
    label_bound hcode hat (by simp; omega)
  -- the bodies and the jump between them, each at its place
  have hthenAt := hat.left.left.right
  have hjump := hat.left.right.head
  have helseAt := hat.right
  simp only [length_append, length_resolve, length_resolve_stmt, length_singleton,
    ← Nat.add_assoc] at hthenAt hjump helseAt
  have hstop : vm.ip + (plain (cc.resolve fun _ => some (label (vm.ip + cc.length + 1))) ++
      plain [Instruction.jump (label (vm.ip + cc.length + 1 + ct.length + 1))] ++ ct ++
      plain [Instruction.jump (label (vm.ip + cc.length + 1 + ct.length + 1 + ce.length))] ++ ce).length =
      vm.ip + cc.length + 1 + ct.length + 1 + ce.length := by
    simp only [length_append, length_map, length_resolve, length_singleton, ← Nat.add_assoc]
  rw [hstop]
  simp only [execStmt]
  cases hb : evalTest σ.vals condition with
  | none => trivial
  | some b =>
    obtain ⟨n, vm₁, hrun, hs₁, hip₁⟩ := test_run hd hcc htest rfl hat.left.left.left.left hs hb
    cases b with
    | true =>
      rw [if_pos rfl, hlabel _ (by omega)] at hip₁
      have hbody := (hthen _ ct exitTo vm₁ σ hct hthenAt hs₁ hip₁).jump hjump
      rw [hlabel _ (by omega)] at hbody
      exact hbody.prepend hrun
    | false =>
      rw [if_neg (by simp)] at hip₁
      have hskip := hat.left.left.left.right.head
      rw [length_resolve, ← hip₁] at hskip
      have hgo := next_jump hskip
      rw [hip₁, hlabel _ (by omega)] at hgo
      have hbody := helse _ ce exitTo (vm₁.setIp _) σ hce helseAt (hs₁.setIp _) rfl
      exact hbody.prepend (hrun.snoc hgo)

theorem while_run (hd : IntDecls d) {condition : Expr} (htest : condition.isTest)
    (hbody : Runs d code fuel (genBody d sc body) (execBody fuel body)) :
    Runs d code fuel (genStmt d sc (.whileDo condition body)) (execStmt fuel (.whileDo condition body)) := by
  rintro base c exitTo vm σ hc hat hs hip
  simp only [genStmt, bind_some, Option.some.injEq] at hc
  obtain ⟨cc, hcc, cb, hcb, rfl⟩ := hc
  simp only [resolve_append, resolve_plain] at hat
  have hlabel : ∀ n, n ≤ base + cc.length + 1 + cb.length + 1 → (label n).toNat = n := fun n hn =>
    label_bound hcode hat (by simp; omega)
  have hcondAt := hat.left.left.left
  have hexit := hat.left.left.right.head
  have hbodyAt := hat.left.right
  have hback := hat.right.head
  simp only [length_append, length_resolve, length_resolve_stmt, length_singleton,
    ← Nat.add_assoc] at hexit hbodyAt hback
  simp only [length_append, length_map, length_resolve, length_resolve_stmt,
    length_singleton, ← Nat.add_assoc]
  refine loop_run ?_ fuel (Nat.le_refl _) hs hip
  rintro σ vm hs rfl
  unfold whileIter
  cases hb : evalTest σ.vals condition with
  | none => trivial
  | some b =>
    obtain ⟨n, vm₁, hrun, hs₁, hip₁⟩ := test_run hd hcc htest rfl hcondAt hs hb
    cases b with
    | false =>
      rw [if_neg (by simp)] at hip₁
      rw [← hip₁] at hexit
      have hgo := next_jump hexit
      rw [hip₁, hlabel _ (by omega)] at hgo
      exact ⟨n + 1, _, hrun.snoc hgo, hs₁.setIp _, rfl⟩
    | true =>
      rw [if_pos rfl, hlabel _ (by omega)] at hip₁
      have hmeets := hbody _ cb _ vm₁ σ hcb hbodyAt hs₁ hip₁
      rw [hlabel _ (by omega)] at hmeets
      refine (IterMeets.afterBody hmeets ?_).after hrun
      intro σ' vm₂ hs₂ hip₂
      rw [← hip₂] at hback
      have hgo := next_jump hback
      rw [hlabel _ (by omega)] at hgo
      exact ⟨0, _, .single hgo, hs₂.setIp _, rfl⟩

theorem repeat_run (hd : IntDecls d) {condition : Expr} (htest : condition.isTest)
    (hbody : Runs d code fuel (genBody d sc body) (execBody fuel body)) :
    Runs d code fuel (genStmt d sc (.repeatUntil body condition))
      (execStmt fuel (.repeatUntil body condition)) := by
  rintro base c exitTo vm σ hc hat hs hip
  simp only [genStmt, bind_some, Option.some.injEq] at hc
  obtain ⟨cb, hcb, cc, hcc, rfl⟩ := hc
  simp only [resolve_append, resolve_plain] at hat
  have hlabel : ∀ n, n ≤ base + cb.length + cc.length + 1 → (label n).toNat = n := fun n hn =>
    label_bound hcode hat (by simp; omega)
  have hbodyAt := hat.left.left
  have hcondAt := hat.left.right
  have hback := hat.right.head
  simp [← Nat.add_assoc] at hcondAt hback
  simp [← Nat.add_assoc]
  refine loop_run ?_ fuel (Nat.le_refl _) hs hip
  rintro σ vm hs rfl
  have hmeets := hbody _ cb _ vm σ hcb hbodyAt hs rfl
  rw [hlabel _ (by omega)] at hmeets
  refine IterMeets.afterBody hmeets ?_
  intro σ' vm₁ hs₁ hip₁
  cases hb : evalTest σ'.vals condition with
  | none => trivial
  | some b =>
    obtain ⟨n, vm₂, hrun, hs₂, hip₂⟩ := test_run hd hcc htest rfl (by rw [hip₁]; exact hcondAt) hs₁ hb
    cases b with
    | true =>
      rw [if_pos rfl, hlabel _ (by omega)] at hip₂
      exact ⟨n, vm₂, hrun, hs₂, hip₂⟩
    | false =>
      rw [if_neg (by simp), hip₁] at hip₂
      rw [← hip₂] at hback
      have hgo := next_jump hback
      rw [hlabel _ (by omega)] at hgo
      exact ⟨n, _, hrun.snoc hgo, hs₂.setIp _, rfl⟩

omit hcode in
/-- The bound of a `FOR` is evaluated and compared anew. -/
theorem bound_run (hd : IntDecls d) {stop : Expr} {var s : UInt8} {sc₁ : Scratch} {base : Nat}
    {ce : List Instruction} {vm : Vm} {σ : Store} {u : Int32} (hstop : stop.isInt)
    (hvar : d.registers name = some var) (hs : Taken sc s sc₁) (hce : genExpr d stop sc₁ base s = some ce)
    (hat : CodeAt code vm.ip (ce ++ [Instruction.cmp .gt var s, .jumpIf target])) (hsim : Sim d σ vm)
    (hu : evalExpr σ.vals stop = some u) : ∃ n vm', RunN (next code) n vm vm' ∧ Sim d σ vm' ∧
      vm'.ip = if (σ.vals name).toInt > u.toInt then target.toNat else vm.ip + ce.length + 2 := by
  have hsub : ∀ r, (r = s ∨ sc₁.has r) → sc.has r := fun r h => h.elim (fun heq => heq ▸ hs.isFree) (hs.subset r)
  obtain ⟨n, vm₁, hrun, hval, hip, hframe⟩ := expr_run hd.toVarDecls stop hce hstop hat.left hs.valid
    hs.taken (fun x _ hx => hd.not_has hx hs.isFree) (hd.dints _) (hsim.holds _) (runExpr_of_evalExpr stop hu)
  have hsim₁ : Sim d σ vm₁ := hsim.frame hframe fun x r hr h => hd.not_has hr (hsub r h)
  have hcmpAt : code[vm₁.ip]? = some (.cmp .gt var s) := by
    rw [hip]
    exact hat.right.head
  have hflag := next_cmp (f := HalValue.gt) hcmpAt rfl (fun _ _ => rfl) (hd.valid hvar) hs.valid
  have hgt : BinOp.gt.halCmp (.s32 (σ.vals name)) (.s32 u) = decide ((σ.vals name).toInt > u.toInt) :=
    halCmp_s32 rfl _ _
  rw [hsim₁.regs name var hvar, hval] at hflag
  rw [show HalValue.gt (.s32 (σ.vals name)) (.s32 u) = _ from hgt] at hflag
  have hjumpAt : code[(vm₁.setFlagsZero (decide ((σ.vals name).toInt > u.toInt))).advanceIp.ip]? =
      some (.jumpIf target) := by
    rw [Vm.advanceIp_ip, Vm.setFlagsZero_ip, hip]
    exact hat.right.tail.head
  have hbranch := next_jumpIf hjumpAt
  have hsim₂ : Sim d σ (vm₁.setFlagsZero (decide ((σ.vals name).toInt > u.toInt))).advanceIp :=
    ⟨hsim₁.regs, hsim₁.signals⟩
  refine ⟨_, _, ((run_of_advance hrun).snoc hflag).snoc hbranch, ?_, ?_⟩
  · split
    · exact hsim₂.setIp _
    · exact hsim₂.advanceIp
  · by_cases hdone : (σ.vals name).toInt > u.toInt
    · simp [hdone]
    · simp [hdone, hip]

omit hcode in
/-- The counting of a `FOR`: the step is a literal, so its code is one load. -/
theorem count_run (hd : IntDecls d) {step : Option Expr} {var s : UInt8} {sc₁ : Scratch}
    {base start stop exitTo : Nat} {ct : List Instruction} {vm : Vm} {σ : Store}
    (hstep : Expr.isStep step) (hvar : d.registers name = some var) (hs : Taken sc s sc₁)
    (hct : genStep d step sc₁ base s = some ct)
    (hat : CodeAt code vm.ip (ct ++ [Instruction.arith .add var s var, .jump target])) (htarget : target.toNat = start)
    (hsim : Sim d σ vm) : IterMeets d code fuel vm start stop exitTo (count name step σ) := by
  have hne : var ≠ s := fun heq => hd.not_has hvar (heq ▸ hs.isFree)
  unfold count
  cases hk : evalStep step with
  | none => trivial
  | some k =>
    -- the code of a literal is one load
    have hload : ct = [.loadImm s (.s32 k)] := by
      cases step with
      | none => cases hct; cases hk; rfl
      | some e =>
        cases e with
        | intLiteral n => cases hct; rw [exact_literal hk]
        | _ => exact absurd hstep (by simp [Expr.isStep])
    subst hload
    simp only [Option.bind_some]
    cases hw : exact ((σ.vals name).toInt + k.toInt) with
    | none => trivial
    | some w =>
      have h₁ := next_loadImm hat.head hs.valid
      have hsum : runOp .add (σ.vals name) k = some w := by
        have hadd : evalOp .add (σ.vals name) k = some w := hw
        exact runOp_of_evalOp hadd
      have haddAt : code[(vm.set s (.s32 k)).advanceIp.ip]? = some (.arith .add var s var) := by
        simpa using hat.tail.head
      have h₂ := next_arith (f := HalValue.add) (v := .s32 w) haddAt rfl (fun _ _ => rfl) (hd.valid hvar)
        hs.valid (hd.valid hvar) (by
          rw [Vm.advanceIp_get, Vm.advanceIp_get, Vm.get_set_self _ _ _ hs.valid, Vm.get_set_ne _ _ hne,
            hsim.regs name var hvar]
          exact halOp_s32 hsum)
      have hjumpAt : code[((vm.set s (.s32 k)).advanceIp.set var (.s32 w)).advanceIp.ip]? =
          some (.jump target) := by
        simpa using hat.tail.tail.head
      have h₃ := next_jump hjumpAt
      rw [htarget] at h₃
      have hframe : Frame (fun r => r = var ∨ sc.has r) vm
          ((vm.set s (.s32 k)).advanceIp.set var (.s32 w)).advanceIp :=
        (Frame.set (.inr hs.isFree) _).trans (.set (.inl rfl) _)
      refine ⟨_, _, ((RunN.single h₁).snoc h₂).snoc h₃, (hsim.set hd hvar ?_ hframe).setIp _, rfl⟩
      rw [Vm.advanceIp_get, Vm.get_set_self _ _ _ (hd.valid hvar)]

theorem for_run (hd : IntDecls d) {start stop : Expr} {step : Option Expr}
    (hstart : start.isSource name) (hstop : stop.isInt) (hstep : Expr.isStep step)
    (hbody : Runs d code fuel (genBody d sc body) (execBody fuel body)) :
    Runs d code fuel (genStmt d sc (.forDo name start stop step body))
      (execStmt fuel (.forDo name start stop step body)) := by
  rintro base c exitTo vm σ hc hat hs rfl
  simp only [genStmt, bind_some, Option.some.injEq, Prod.exists] at hc
  obtain ⟨var, hvar, cs, hcs, s, sc₁, halloc, ce, hce, cb, hcb, ct, hct, rfl⟩ := hc
  simp only [resolve_append, resolve_plain] at hat
  have hlabel : ∀ n, n ≤ vm.ip + cs.length + ce.length + 2 + cb.length + ct.length + 2 → (label n).toNat = n :=
    fun n hn => label_bound hcode hat (by simp; omega)
  have htaken := Scratch.alloc_taken halloc
  have hstartAt := hat.left.left.left
  have hstopAt := hat.left.left.right
  have hbodyAt := hat.left.right
  have hstepAt := hat.right
  simp only [length_append, length_resolve_stmt, length_cons, length_nil, Nat.zero_add,
    Nat.reduceAdd, ← Nat.add_assoc] at hstopAt hbodyAt hstepAt
  simp only [length_append, length_map, length_resolve_stmt, length_cons, length_nil,
    Nat.zero_add, Nat.reduceAdd, ← Nat.add_assoc]
  simp only [Expr.isSource, Bool.and_eq_true, Bool.not_eq_true', contains_eq_mem,
    decide_eq_false_iff_not] at hstart
  obtain ⟨hint, hright⟩ := hstart
  simp only [execStmt]
  cases hv : evalExpr σ.vals start with
  | none => trivial
  | some v =>
    obtain ⟨n, vm₁, hrun, hval, hip₁, hframe⟩ := expr_run hd.toVarDecls start hcs hint hstartAt
      (hd.valid hvar) (Bool.eq_false_iff.2 (hd.not_has hvar)) (fun x hx hxd => hright (hd.inj hxd hvar ▸ hx))
      (hd.dints _) (hs.holds _) (runExpr_of_evalExpr start hv)
    refine Meets.prepend (loop_run ?_ fuel (Nat.le_refl _)
      (hs.set hd hvar hval hframe) hip₁) (run_of_advance hrun)
    intro σ₁ vm₂ hs₁ hip₂
    unfold forIter
    cases hu : evalExpr σ₁.vals stop with
    | none => trivial
    | some u =>
      dsimp only
      obtain ⟨m, vm₃, hrun₃, hs₃, hip₃⟩ := bound_run hd hstop hvar htaken hce (by rw [hip₂]; exact hstopAt) hs₁ hu
      split
      · rename_i hdone
        rw [if_pos hdone, hlabel _ (by omega)] at hip₃
        exact ⟨m, vm₃, hrun₃, hs₃, hip₃⟩
      · rename_i hdone
        rw [if_neg hdone, hip₂] at hip₃
        have hmeets := hbody _ cb _ vm₃ σ₁ hcb hbodyAt hs₃ hip₃
        rw [hlabel _ (by omega)] at hmeets
        refine (IterMeets.afterBody hmeets ?_).after hrun₃
        intro σ₂ vm₄ hs₄ hip₄
        exact count_run hd hstep hvar htaken hct (by rw [hip₄]; exact hstepAt) (hlabel _ (by omega)) hs₄

omit hcode in
/-- The compare chain of a branch: it goes to the body when one of the labels is the value. -/
theorem labels_run (hd : IntDecls d) {var : UInt8} {vs : List Int64} {cl : StmtCode}
    {vm : Vm} {σ : Store} {b : Bool} (hvar : d.registers name = some var)
    (hcl : genLabels sc var vs = some cl) (hat : CodeAt code vm.ip (cl.resolve target)) (hs : Sim d σ vm)
    (hb : matchLabels (σ.vals name) vs = some b) : ∃ n vm', RunN (next code) n vm vm' ∧ Sim d σ vm' ∧
      vm'.ip = if b then target.toNat else vm.ip + cl.length := by
  induction vs generalizing cl vm with
  | nil =>
    cases hcl
    cases hb
    exact ⟨0, vm, .refl vm, hs, by simp⟩
  | cons l vs ih =>
    simp only [genLabels, bind_some, Option.some.injEq, Prod.exists] at hcl
    obtain ⟨s, sc₁, halloc, c, hc, rfl⟩ := hcl
    have htaken := Scratch.alloc_taken halloc
    -- the value is not in a free register
    have hne : var ≠ s := fun heq => hd.not_has hvar (heq ▸ htaken.isFree)
    simp only [matchLabels] at hb
    split at hb
    · cases hb
    · rename_i k hk
      have hat' : CodeAt code vm.ip (.loadImm s (.s32 l.toInt32) :: .cmp .eq var s :: .jumpIf target ::
          StmtCode.resolve c target) := hat
      have h₁ := next_loadImm hat'.head htaken.valid
      have hcmpAt : code[(vm.set s (.s32 l.toInt32)).advanceIp.ip]? = some (.cmp .eq var s) := by
        simpa using hat'.tail.head
      have h₂ := next_cmp (f := HalValue.beq) hcmpAt rfl (fun _ _ => rfl) (hd.valid hvar) htaken.valid
      have hflag : HalValue.beq ((vm.set s (.s32 l.toInt32)).advanceIp.get var)
          ((vm.set s (.s32 l.toInt32)).advanceIp.get s) = decide (σ.vals name = k) := by
        rw [Vm.advanceIp_get, Vm.advanceIp_get, Vm.get_set_self _ _ _ htaken.valid, Vm.get_set_ne _ _ hne,
          hs.regs name var hvar, exact_literal hk]
        simp [HalValue.beq]
      rw [hflag] at h₂
      have hbranch : code[((vm.set s (.s32 l.toInt32)).advanceIp.setFlagsZero
          (decide (σ.vals name = k))).advanceIp.ip]? = some (.jumpIf target) := by
        simpa using hat'.tail.tail.head
      have hs₁ : Sim d σ ((vm.set s (.s32 l.toInt32)).advanceIp.setFlagsZero
          (decide (σ.vals name = k))).advanceIp := by
        have hframe : Frame (sc.has ·) vm (vm.set s (.s32 l.toInt32)).advanceIp := .set htaken.isFree _
        have hsim := hs.frame hframe fun x r hr => hd.not_has hr
        exact ⟨hsim.regs, hsim.signals⟩
      -- the label matches, or the chain goes on with the next
      by_cases hv : σ.vals name = k
      · rw [if_pos hv] at hb
        cases hb
        have h₃ := next_jumpIf_taken hbranch (decide_eq_true hv)
        exact ⟨_, _, ((RunN.single h₁).snoc h₂).snoc h₃, hs₁.setIp _, rfl⟩
      · rw [if_neg hv] at hb
        have h₃ := next_jumpIf_through hbranch (decide_eq_false hv)
        obtain ⟨n, vm', hrun', hs', hip'⟩ := ih hc (by simpa using hat'.tail.tail.tail) hs₁.advanceIp hb
        refine ⟨_, vm', (((RunN.single h₁).snoc h₂).snoc h₃).trans hrun', hs', ?_⟩
        rw [hip']
        simp
        split
        · rfl
        · omega

/-- What is to be shown of the branches of a `CASE`, given what happens behind them. -/
def CasesRun (d : Decls) (sc : Scratch) (code : List Instruction) (fuel : Nat)
    (cases : List (List Int64 × List Statement)) : Prop :=
  ∀ base cc var name (stop exitTo : UInt32) vm σ otherwise, genCases d sc var cases base = some cc →
    d.registers name = some var →
    CodeAt code base (StmtCode.resolve (cc.map (Slot.fillNone Codegen.retarget stop)) exitTo) → Sim d σ vm →
    vm.ip = base →
    (∀ vm', Sim d σ vm' → vm'.ip = base + cc.length →
      Meets d code fuel vm' stop.toNat exitTo.toNat (otherwise σ)) →
    Meets d code fuel vm stop.toNat exitTo.toNat (execCases fuel (σ.vals name) cases otherwise σ)

theorem cases_run (hd : IntDecls d) {labels : List Int64} {rest : List (List Int64 × List Statement)}
    (hbody : Runs d code fuel (genBody d sc body) (execBody fuel body)) (hrest : CasesRun d sc code fuel rest) :
    CasesRun d sc code fuel ((labels, body) :: rest) := by
  rintro base cc var name stop exitTo vm σ otherwise hcc hvar hat hs rfl hother
  simp only [genCases, bind_some, Option.some.injEq] at hcc
  obtain ⟨cl, hcl, cb, hcb, cr, hcr, rfl⟩ := hcc
  have hdone : StmtCode.resolve (((StmtCode.resolve cl (label (vm.ip + cl.length + 1))).map
      (Slot.done (κ := Option Unit))).map (Slot.fillNone Codegen.retarget stop)) exitTo =
      StmtCode.resolve cl (label (vm.ip + cl.length + 1)) := by
    simp [StmtCode.resolve, Function.comp_def, Slot.fillNone, Slot.resolve]
  simp only [map_append, resolve_append, resolve_fillNone_relabel, hdone] at hat
  have hlabel : ∀ n, n ≤ vm.ip + cl.length + 1 + cb.length + 1 + cr.length → (label n).toNat = n := fun n hn =>
    label_bound hcode hat (by simp; omega)
  have hlabelsAt := hat.left.left.left.left
  have hskip : code[vm.ip + cl.length]? = some (.jump (label (vm.ip + cl.length + 1 + cb.length + 1))) := by
    have h := hat.left.left.left.right.head
    rwa [length_resolve_stmt] at h
  have hbodyAt := hat.left.left.right
  have hout := hat.left.right.head
  have hrestAt := hat.right
  simp only [length_append, length_resolve_stmt, length_map, length_singleton,
    ← Nat.add_assoc] at hbodyAt hout hrestAt hother
  simp only [execCases]
  cases hm : matchLabels (σ.vals name) labels with
  | none => trivial
  | some b =>
    obtain ⟨n, vm₁, hrun, hs₁, hip₁⟩ := labels_run hd hvar hcl hlabelsAt hs hm
    cases b with
    | true =>
      rw [if_pos rfl, hlabel _ (by omega)] at hip₁
      exact ((hbody _ cb exitTo vm₁ σ hcb hbodyAt hs₁ hip₁).jump hout).prepend hrun
    | false =>
      rw [if_neg (by simp)] at hip₁
      rw [← hip₁] at hskip
      have hgo := next_jump hskip
      rw [hip₁, hlabel _ (by omega)] at hgo
      refine Meets.prepend ?_ (hrun.snoc hgo)
      exact hrest _ cr var name stop exitTo _ σ otherwise hcr hvar hrestAt (hs₁.setIp _) rfl hother

theorem case_run {cases : List (List Int64 × List Statement)}
    {elseBody : List Statement} (hcases : CasesRun d sc code fuel cases)
    (helse : Runs d code fuel (genBody d sc elseBody) (execBody fuel elseBody)) :
    Runs d code fuel (genStmt d sc (.case name cases elseBody)) (execStmt fuel (.case name cases elseBody)) := by
  rintro base c exitTo vm σ hc hat hs hip
  simp only [genStmt, bind_some, Option.some.injEq] at hc
  obtain ⟨var, hvar, cc, hcc, ce, hce, rfl⟩ := hc
  rw [resolve_append] at hat
  have hstop : (label (base + cc.length + ce.length)).toNat = base + cc.length + ce.length :=
    label_bound hcode hat (by simp; omega)
  have helseAt := hat.right
  rw [length_resolve_stmt, length_map] at helseAt
  have hmeets := hcases base cc var name _ exitTo vm σ _ hcc hvar hat.left hs hip fun vm' hs' hip' => by
    rw [hstop]
    exact helse _ ce exitTo vm' σ hce helseAt hs' hip'
  rw [hstop] at hmeets
  simpa [execStmt, Nat.add_assoc] using hmeets

omit hcode in
theorem exit_run : Runs d code fuel (genStmt d sc .exit) (execStmt fuel .exit) := by
  rintro base c exitTo vm σ hc hat hs rfl
  cases hc
  exact ⟨1, _, .single (next_jump hat.head), hs.setIp _, rfl⟩

omit hcode in
theorem ret_run : Runs d code fuel (genStmt d sc .ret) (execStmt fuel .ret) := by
  rintro base c exitTo vm σ hc hat hs rfl
  cases hc
  exact ⟨0, vm, .refl vm, hs, hat.head⟩

end

section
variable {d : Decls} {sc : Scratch} {code : List Instruction} {fuel : Nat}

mutual

/-- **Compiled statements simulate the interpreter.** -/
theorem stmt_run (hcode : code.length < 2 ^ 32) (hd : IntDecls d) : (s : Statement) → (inLoop : Bool) →
    s.isCore inLoop → Runs d code fuel (genStmt d sc s) (execStmt fuel s)
  | .assign _ _, _, h => assign_run hd (by simpa [Statement.isCore] using h)
  | .ifThen _ thenBody elseBody, inLoop, h => by
    simp [Statement.isCore] at h
    exact if_run hcode hd h.1.1 (body_run hcode hd thenBody inLoop h.1.2) (body_run hcode hd elseBody inLoop h.2)
  | .whileDo _ body, _, h => by
    simp [Statement.isCore] at h
    exact while_run hcode hd h.1 (body_run hcode hd body true h.2)
  | .forDo _ _ _ _ body, _, h => by
    simp [Statement.isCore] at h
    exact for_run hcode hd h.1.1.1 h.1.1.2 h.1.2 (body_run hcode hd body true h.2)
  | .repeatUntil body _, _, h => by
    simp [Statement.isCore] at h
    exact repeat_run hcode hd h.2 (body_run hcode hd body true h.1)
  | .ret, _, _ => ret_run
  | .exit, _, _ => exit_run
  | .case _ cases elseBody, inLoop, h => by
    simp [Statement.isCore] at h
    exact case_run hcode (branches_run hcode hd cases inLoop h.1) (body_run hcode hd elseBody inLoop h.2)
  | .funCall _ _, _, h => by simp [Statement.isCore] at h
  | .arrayAssign _ _ _, _, h => by simp [Statement.isCore] at h

theorem body_run (hcode : code.length < 2 ^ 32) (hd : IntDecls d) : (body : List Statement) → (inLoop : Bool) →
    bodyIsCore inLoop body → Runs d code fuel (genBody d sc body) (execBody fuel body)
  | [], _, _ => by
    rintro base c exitTo vm σ hc hat hs rfl
    cases hc
    exact ⟨0, vm, .refl vm, hs, rfl⟩
  | s :: rest, inLoop, h => by
    simp only [bodyIsCore, Bool.and_eq_true] at h
    rintro base c exitTo vm σ hc hat hs hip
    simp only [genBody, bind_some, Option.some.injEq] at hc
    obtain ⟨c₁, hc₁, c₂, hc₂, rfl⟩ := hc
    rw [resolve_append] at hat
    have hfirst := stmt_run hcode hd s inLoop h.1 base c₁ exitTo vm σ hc₁ hat.left hs hip
    have hrestAt := hat.right
    rw [length_resolve_stmt] at hrestAt
    rw [length_append, ← Nat.add_assoc]
    simp only [execBody]
    exact hfirst.seq fun σ' vm' _ hs' hip' => body_run hcode hd rest inLoop h.2 _ c₂ exitTo vm' σ' hc₂ hrestAt hs' hip'

theorem branches_run (hcode : code.length < 2 ^ 32) (hd : IntDecls d) :
    (cases : List (List Int64 × List Statement)) → (inLoop : Bool) → casesAreCore inLoop cases → CasesRun d sc code fuel cases
  | [], _, _ => by
    rintro base cc var name stop exitTo vm σ otherwise hcc hvar hat hs rfl hother
    cases hcc
    exact hother vm hs rfl
  | (_, body) :: rest, inLoop, h => by
    simp [casesAreCore] at h
    exact cases_run hcode hd (body_run hcode hd body inLoop h.1) (branches_run hcode hd rest inLoop h.2)

end

end

end Audesys.St
