import Audesys.Hal.Host
import Audesys.St.Correctness
import Audesys.St.ExprRun
import Audesys.St.Sites

/-!
# `St.CondRun` — where the jumps of a condition go

`compile_bool_cond` threads two lists of open jumps through a condition. Running the condition's code ends in
one of three ways (`Way`): a jump of the first list is taken, a jump of the second, or control falls through.
`condWay` follows the code: `AND` goes on with its right side only when the left fell through, `OR` only when
the left jumped on true, and `NOT` exchanges the lists. This is not what the operators mean; `branch_iff`
states when the three statements that branch on a condition do it right all the same.
-/

namespace Audesys.St

open Audesys.Hal Audesys.Lib Codegen

/-- How the code of a condition ends. -/
inductive Way where
  | taken
  | through
  | ended
  deriving DecidableEq

def Way.swap : Way → Way
  | .taken => .ended
  | .ended => .taken
  | .through => .through

variable [Target]

/-- Conditions built from comparisons of integer expressions with `AND`, `OR` and `NOT`. -/
def Expr.isBool : Expr → Bool
  | .binary left op right =>
    if op.isCmp then left.isInt && right.isInt
    else (op == .and || op == .or) && left.isBool && right.isBool
  | .unary .not inner => inner.isBool
  | _ => false

/-- What a condition means. -/
def evalCond (ρ : String → Int32) : Expr → Option Bool
  | .binary left op right =>
    if op.isCmp then do
      let a ← runExpr ρ left
      let b ← runExpr ρ right
      some (evalCmp op a b)
    else do
      let x ← evalCond ρ left
      let y ← evalCond ρ right
      some (if op = .and then x && y else x || y)
  | .unary .not inner => (evalCond ρ inner).map (!·)
  | _ => none

/-- The way its code ends. -/
def condWay (ρ : String → Int32) : Expr → Option Way
  | .binary left op right =>
    if op.isCmp then do
      let a ← runExpr ρ left
      let b ← runExpr ρ right
      some (if evalCmp op a b then .taken else .through)
    else do
      let w ← condWay ρ left
      if op = .and then
        if w = .through then condWay ρ right else some w
      else
        if w = .taken then condWay ρ right else some .ended
  | .unary .not inner => (condWay ρ inner).map Way.swap
  | _ => none

/-- A condition that has a value has a way. -/
theorem condWay_of_evalCond {ρ : String → Int32} (e : Expr) {v : Bool} (h : evalCond ρ e = some v) :
    ∃ w, condWay ρ e = some w := by
  induction e generalizing v with
  | binary left op right hl hr =>
    by_cases hop : op.isCmp
    · simp only [evalCond, if_pos hop, bind_some] at h
      obtain ⟨a, ha, b, hb, _⟩ := h
      simp only [condWay, if_pos hop, Option.bind_eq_bind, ha, hb, Option.bind_some]
      exact ⟨_, rfl⟩
    · simp only [evalCond, if_neg hop, bind_some] at h
      obtain ⟨x, hx, y, hy, _⟩ := h
      obtain ⟨w, hw⟩ := hl hx
      obtain ⟨w', hw'⟩ := hr hy
      simp [condWay, if_neg hop, hw, hw']
      split
      · split <;> exact ⟨_, rfl⟩
      · split <;> exact ⟨_, rfl⟩
  | unary op inner ih =>
    cases op with
    | neg => cases h
    | not =>
      obtain ⟨x, hx, _⟩ := Option.map_eq_some_iff.1 h
      obtain ⟨w, hw⟩ := ih hx
      exact ⟨w.swap, by simp only [condWay, hw, Option.map_some]⟩
  | _ => cases h

/-! ## Running a condition -/

section
variable {d : Decls} {sc : Scratch} {code : List Instruction} {ρ : String → Int32}

/-- Where control goes; a jump that nothing patched goes to index 0. -/
def landing (f : CondHole → Option UInt32) (behind : Nat) : Way → Nat
  | .taken => ((f .onTrue).getD 0).toNat
  | .ended => ((f .onEnd).getD 0).toNat
  | .through => behind

theorem resolve_hole_jumpIf (f : CondHole → Option UInt32) (k : CondHole) :
    (Slot.hole k (Instruction.jumpIf 0)).resolve retarget f = .jumpIf ((f k).getD 0) := by
  cases h : f k <;> simp [Slot.resolve, h]

theorem resolve_hole_jump (f : CondHole → Option UInt32) (k : CondHole) :
    (Slot.hole k (Instruction.jump 0)).resolve retarget f = .jump ((f k).getD 0) := by
  cases h : f k <;> simp [Slot.resolve, h]

/-- Filling one kind first. -/
theorem resolve_fill (c : CondCode) (f : CondHole → Option UInt32) (t : UInt32) :
    CondCode.resolve (c.map (Slot.fill retarget .onTrue t)) f =
      c.resolve (fun k => if k = .onTrue then some t else f k) := by
  simp only [CondCode.resolve, List.map_map]
  refine List.map_congr_left fun s _ => ?_
  rcases s with i | ⟨_ | _, i⟩ <;> rfl

theorem resolve_swap (c : CondCode) (f : CondHole → Option UInt32) :
    CondCode.resolve (c.map (Slot.relabel CondHole.swap)) f = c.resolve (fun k => f k.swap) := by
  simp only [CondCode.resolve, List.map_map]
  refine List.map_congr_left fun s _ => ?_
  rcases s with i | ⟨_ | _, i⟩ <;> rfl

/-- A test and its jump. -/
theorem resolve_test (c : List Instruction) (f : CondHole → Option UInt32) :
    CondCode.resolve (c.map Slot.done ++ [Slot.hole CondHole.onTrue (Instruction.jumpIf 0)]) f =
      c ++ [Instruction.jumpIf ((f .onTrue).getD 0)] := by
  rw [CondCode.resolve, List.map_append, List.map_map, List.map_singleton, resolve_hole_jumpIf]
  exact congrArg (· ++ [Instruction.jumpIf _]) (List.map_id c)

/-- The code of an `OR`, whose right side starts at `t`. -/
theorem resolve_or (cl cr : CondCode) (t : UInt32) (f : CondHole → Option UInt32) :
    CondCode.resolve (cl.map (Slot.fill retarget .onTrue t) ++ .hole .onEnd (.jump 0) :: cr) f =
      cl.resolve (fun k => if k = .onTrue then some t else f k) ++ .jump ((f .onEnd).getD 0) :: cr.resolve f := by
  rw [CondCode.resolve, List.map_append, List.map_cons, resolve_hole_jump]
  congr 1
  exact resolve_fill cl f _

omit [Target] in
theorem landing_swap (f : CondHole → Option UInt32) (behind : Nat) (w : Way) :
    landing f behind w.swap = landing (fun k => f k.swap) behind w := by
  cases w <;> rfl

/-- A condition has code. -/
theorem genCond_pos (e : Expr) {base : Nat} {cc : CondCode} (hc : genCond d e sc base = some cc)
    (hbool : e.isBool) : 0 < cc.length := by
  induction e generalizing base cc with
  | binary left op right hl hr =>
    by_cases hop : op.isCmp
    · simp only [genCond, if_pos hop, bind_some, Option.some.injEq] at hc
      obtain ⟨c, _, rfl⟩ := hc
      simp
    · simp [Expr.isBool, if_neg hop] at hbool
      obtain ⟨⟨rfl | rfl, hbl⟩, hbr⟩ := hbool
      · simp only [genCond, if_neg hop, if_true, bind_some, Option.some.injEq] at hc
        obtain ⟨cl, hcl, cr, _, rfl⟩ := hc
        have := hl hcl hbl
        rw [List.length_append]
        omega
      · simp only [genCond, if_neg hop, reduceCtorEq, if_false, if_true, bind_some, Option.some.injEq] at hc
        obtain ⟨cl, _, cr, _, rfl⟩ := hc
        rw [List.length_append, List.length_cons]
        omega
  | unary op inner ih =>
    cases op with
    | neg => simp [Expr.isBool] at hbool
    | not =>
      simp only [genCond, bind_some, Option.some.injEq] at hc
      obtain ⟨c, hc, rfl⟩ := hc
      rw [List.length_map]
      exact ih hc hbool
  | _ => simp [Expr.isBool] at hbool

/-- The run of a condition's code, up to and including the step that leaves it. -/
structure CondRun (code : List Instruction) (sc : Scratch) (lo hi : Nat) (vm : Vm) (target : Nat) : Prop where
  run : ∃ n u vm', RunN (stay code lo hi) n vm u ∧ next code u = some vm' ∧ vm'.ip = target ∧
    Frame (sc.has ·) vm vm'

/-- **The code of a condition goes where its way says.** -/
theorem cond_run (hd : VarDecls d) (hcode : code.length < 2 ^ 32) (e : Expr) {cc : CondCode} {vm : Vm}
    {f : CondHole → Option UInt32} {lo hi : Nat} {w : Way} (hc : genCond d e sc vm.ip = some cc)
    (hbool : e.isBool) (hat : CodeAt code vm.ip (cc.resolve f)) (hlo : lo ≤ vm.ip)
    (hhi : vm.ip + cc.length < hi) (hdint : Dints d e.vars) (hvars : Holds d ρ e.vars vm)
    (hw : condWay ρ e = some w) : CondRun code sc lo hi vm (landing f (vm.ip + cc.length) w) := by
  induction e generalizing cc vm f w with
  | binary left op right hl hr =>
    have hdl : Dints d left.vars := fun x hx => hdint x (by simp [Expr.vars, hx])
    have hdr : Dints d right.vars := fun x hx => hdint x (by simp [Expr.vars, hx])
    have hvl : Holds d ρ left.vars vm := fun x hx => hvars x (by simp [Expr.vars, hx])
    have hvr : Holds d ρ right.vars vm := fun x hx => hvars x (by simp [Expr.vars, hx])
    by_cases hop : op.isCmp
    · simp only [genCond, if_pos hop, bind_some, Option.some.injEq] at hc
      obtain ⟨c, hc, rfl⟩ := hc
      simp [Expr.isBool, if_pos hop] at hbool
      simp only [condWay, if_pos hop, bind_some, Option.some.injEq] at hw
      obtain ⟨a, ha, b, hb, rfl⟩ := hw
      rw [resolve_test] at hat
      simp at hhi ⊢
      obtain ⟨n, vm₁, hrun, hflag, hip, hframe⟩ := cmp_run hd hc hop hbool.1 hbool.2 hat.left hdl hdr hvl hvr ha hb
      have hstay : RunN (stay code lo hi) n vm vm₁ := stay_of_advance hrun hlo (by omega)
      have hjump : code[vm₁.ip]? = some (.jumpIf ((f .onTrue).getD 0)) := hip ▸ hat.right.head
      cases hv : evalCmp op a b with
      | true =>
        refine ⟨n, vm₁, _, hstay, next_jumpIf_taken hjump (hflag.trans hv), rfl, ?_⟩
        exact ⟨hframe.regs, hframe.signals⟩
      | false =>
        refine ⟨n, vm₁, _, hstay, next_jumpIf_through hjump (hflag.trans hv), ?_, ?_⟩
        · simp [landing, hip, Nat.add_assoc]
        · exact ⟨hframe.regs, hframe.signals⟩
    · simp [Expr.isBool, if_neg hop] at hbool
      obtain ⟨hop', hbr⟩ := hbool
      simp only [condWay, if_neg hop, bind_some] at hw
      obtain ⟨w₁, hw₁, hw⟩ := hw
      -- the right side runs from a state with the same variables
      have hvr' : ∀ {vm' : Vm}, Frame (sc.has ·) vm vm' → Holds d ρ right.vars vm' := fun hf =>
        hvr.frame hf fun x _ r hr => hd.not_has hr
      obtain ⟨rfl | rfl, hbl⟩ := hop'
      · simp only [genCond, if_neg hop, if_true, bind_some, Option.some.injEq] at hc
        obtain ⟨cl, hcl, cr, hcr, rfl⟩ := hc
        have hpos := genCond_pos left hcl hbl
        rw [CondCode.resolve, List.map_append] at hat
        rw [List.length_append] at hhi ⊢
        obtain ⟨n, u, vm₁, hrun, hnext, hip, hframe⟩ := (hl hcl hbl hat.left hlo (by omega) hdl hvl hw₁).run
        rw [if_pos rfl] at hw
        by_cases hthrough : w₁ = .through
        · rw [if_pos hthrough] at hw
          subst hthrough
          have hip₁ : vm₁.ip = vm.ip + cl.length := hip
          have hstep : stay code lo hi u = some vm₁ := stay_eq.2 ⟨hnext, by omega, by omega⟩
          have hrightAt := hat.right
          rw [List.length_map, ← hip₁] at hrightAt
          obtain ⟨m, u', vm₂, hrun', hnext', hip', hframe'⟩ := (hr (hip₁ ▸ hcr) hbr hrightAt (by omega)
            (by omega) hdr (hvr' hframe) hw).run
          refine ⟨_, u', vm₂, (hrun.snoc hstep).trans hrun', hnext', ?_, hframe.trans hframe'⟩
          rw [hip', hip₁, Nat.add_assoc]
        · rw [if_neg hthrough] at hw
          cases hw
          refine ⟨n, u, vm₁, hrun, hnext, ?_, hframe⟩
          rw [hip]
          cases w <;> first | rfl | exact absurd rfl hthrough
      · simp only [genCond, if_neg hop, reduceCtorEq, if_false, if_true, bind_some, Option.some.injEq] at hc
        obtain ⟨cl, hcl, cr, hcr, rfl⟩ := hc
        have hpos := genCond_pos left hcl hbl
        rw [resolve_or] at hat
        simp at hhi ⊢
        have hlabel : (label (vm.ip + cl.length + 1)).toNat = vm.ip + cl.length + 1 :=
          label_bound hcode hat (by rw [List.length_append, List.length_cons, length_resolve]; omega)
        obtain ⟨n, u, vm₁, hrun, hnext, hip, hframe⟩ := (hl hcl hbl hat.left hlo (by omega) hdl hvl hw₁).run
        rw [if_neg (by decide)] at hw
        cases w₁ with
        | taken =>
          rw [if_pos rfl] at hw
          have hip₁ : vm₁.ip = vm.ip + cl.length + 1 := by
            rw [hip]
            simpa [landing] using hlabel
          have hstep : stay code lo hi u = some vm₁ := stay_eq.2 ⟨hnext, by omega, by omega⟩
          have hrightAt := hat.right.tail
          rw [length_resolve, ← hip₁] at hrightAt
          obtain ⟨m, u', vm₂, hrun', hnext', hip', hframe'⟩ := (hr (hip₁ ▸ hcr) hbr hrightAt (by omega)
            (by omega) hdr (hvr' hframe) hw).run
          refine ⟨_, u', vm₂, (hrun.snoc hstep).trans hrun', hnext', ?_, hframe.trans hframe'⟩
          rw [hip', hip₁]
          congr 1
          omega
        | through =>
          cases hw
          have hip₁ : vm₁.ip = vm.ip + cl.length := hip
          have hstep : stay code lo hi u = some vm₁ := stay_eq.2 ⟨hnext, by omega, by omega⟩
          have hjump := hat.right.head
          rw [length_resolve, ← hip₁] at hjump
          exact ⟨_, vm₁, _, hrun.snoc hstep, next_jump hjump, rfl, hframe.regs, hframe.signals⟩
        | ended =>
          cases hw
          exact ⟨n, u, vm₁, hrun, hnext, hip, hframe⟩
  | unary op inner ih =>
    cases op with
    | neg => simp [Expr.isBool] at hbool
    | not =>
      simp only [genCond, bind_some, Option.some.injEq] at hc
      obtain ⟨c, hc, rfl⟩ := hc
      obtain ⟨w₁, hw₁, rfl⟩ := Option.map_eq_some_iff.1 hw
      rw [resolve_swap] at hat
      rw [List.length_map] at hhi ⊢
      rw [landing_swap]
      exact ih hc hbool hat hlo hhi hdint hvars hw₁
  | _ => simp [Expr.isBool] at hbool

end

/-! ## Statements that branch -/

/-- The branch of a statement: its condition's code and the jump behind it stand from `start` to `stop`, and
    control is to go on at one of two indices. -/
structure Branch where
  condition : Expr
  start : Nat
  stop : Nat
  onTrue : Nat
  onFalse : Nat

/-- The branch of an `IF` goes to the code of one of its bodies, that of a `WHILE` to its body or behind the
    loop, that of a `REPEAT` behind the loop or back to its start. -/
def branchOf (d : Decls) (sc : Scratch) : Statement → Nat → Option Branch
  | .ifThen condition thenBody _, b => do
    let cc ← genCond d condition sc b
    let ct ← genBody d sc thenBody (b + cc.length + 1)
    some ⟨condition, b, b + cc.length + 1, b + cc.length + 1, b + cc.length + 1 + ct.length + 1⟩
  | .whileDo condition body, b => do
    let cc ← genCond d condition sc b
    let cb ← genBody d sc body (b + cc.length + 1)
    some ⟨condition, b, b + cc.length + 1, b + cc.length + 1, b + cc.length + 1 + cb.length + 1⟩
  | .repeatUntil body condition, b => do
    let cb ← genBody d sc body b
    let cc ← genCond d condition sc (b + cb.length)
    some ⟨condition, b + cb.length, b + cb.length + cc.length + 1, b + cb.length + cc.length + 1, b⟩
  | _, _ => none

/-- Control leaves the branch's code for the first time to `target`. -/
def Leaves (code : List Instruction) (br : Branch) (vm : Vm) (target : Nat) : Prop :=
  ∃ n u vm', RunN (stay code br.start br.stop) n vm u ∧ next code u = some vm' ∧ vm'.ip = target ∧
    ¬ (br.start < target ∧ target < br.stop)

theorem Leaves.det {code : List Instruction} {br : Branch} {vm : Vm} {t₁ t₂ : Nat}
    (h₁ : Leaves code br vm t₁) (h₂ : Leaves code br vm t₂) : t₁ = t₂ := by
  obtain ⟨n₁, u₁, vm₁, hr₁, hn₁, rfl, ho₁⟩ := h₁
  obtain ⟨n₂, u₂, vm₂, hr₂, hn₂, rfl, ho₂⟩ := h₂
  have hstop : ∀ {u v : Vm}, next code u = some v → ¬ (br.start < v.ip ∧ v.ip < br.stop) →
      stay code br.start br.stop u = none := by
    intro u v hn ho
    unfold stay
    rw [hn]
    exact if_neg ho
  have hn : n₁ = n₂ := Nat.le_antisymm (hr₁.le_of_stopped hr₂ (hstop hn₂ ho₂))
    (hr₂.le_of_stopped hr₁ (hstop hn₁ ho₁))
  subst hn
  rw [hr₁.det hr₂, hn₂] at hn₁
  cases hn₁
  rfl

/-- Where the statement's patches send each way of its condition. -/
def Branch.target (br : Branch) : Statement → Way → Nat
  | .ifThen _ _ _, .ended => br.onTrue
  | _, .taken => br.onTrue
  | _, .through => br.onFalse
  | _, .ended => 0

section
variable {d : Decls} {sc : Scratch} {code : List Instruction} {ρ : String → Int32} {s : Statement} {b : Nat}
  {br : Branch}

/-- The code of a branch: its condition, with the jumps patched as the statement does, and a jump. -/
structure BranchCode (d : Decls) (sc : Scratch) (code : List Instruction) (s : Statement) (br : Branch) : Prop where
  layout : ∃ cc f, genCond d br.condition sc br.start = some cc ∧ br.stop = br.start + cc.length + 1 ∧
    CodeAt code br.start (cc.resolve f ++ [Instruction.jump (label br.onFalse)]) ∧
    (∀ w, w ≠ .through → landing f (br.start + cc.length) w = br.target s w) ∧
    (label br.onFalse).toNat = br.onFalse
  outside : ∀ w, ¬ (br.start < br.target s w ∧ br.target s w < br.stop)

theorem branchOf_code (hcode : code.length < 2 ^ 32) (hbr : branchOf d sc s b = some br) {c : StmtCode}
    {t : UInt32} (hc : genStmt d sc s b = some c) (hat : CodeAt code b (c.resolve t)) :
    BranchCode d sc code s br := by
  cases s with
  | ifThen condition thenBody elseBody =>
    simp only [branchOf, bind_some, Option.some.injEq] at hbr
    obtain ⟨cc, hcc, ct, hct, rfl⟩ := hbr
    simp only [genStmt, hcc, hct, Option.bind_eq_bind, Option.bind_some, Option.bind_eq_some_iff,
      Option.some.injEq] at hc
    obtain ⟨ce, _, rfl⟩ := hc
    simp only [resolve_append, resolve_plain] at hat
    -- every target is within the code, and fits into a label
    have hlabel : ∀ n, n ≤ b + cc.length + 1 + ct.length + 1 → (label n).toNat = n := fun n hn =>
      label_bound hcode hat (by simp; omega)
    refine ⟨⟨cc, _, hcc, rfl, hat.left.left.left, ?_, hlabel _ (by simp)⟩, ?_⟩
    · intro w hw
      cases w with
      | taken => exact hlabel _ (by omega)
      | ended => exact hlabel _ (by omega)
      | through => exact absurd rfl hw
    · intro w
      cases w <;> simp only [Branch.target] <;> omega
  | whileDo condition body =>
    simp only [branchOf, bind_some, Option.some.injEq] at hbr
    obtain ⟨cc, hcc, cb, hcb, rfl⟩ := hbr
    simp only [genStmt, hcc, hcb, Option.bind_eq_bind, Option.bind_some, Option.some.injEq] at hc
    subst hc
    simp only [resolve_append, resolve_plain] at hat
    have hlabel : ∀ n, n ≤ b + cc.length + 1 + cb.length + 1 → (label n).toNat = n := fun n hn =>
      label_bound hcode hat (by simp; omega)
    refine ⟨⟨cc, _, hcc, rfl, hat.left.left, ?_, hlabel _ (by simp)⟩, ?_⟩
    · intro w hw
      cases w with
      | taken => exact hlabel _ (by omega)
      | ended => rfl
      | through => exact absurd rfl hw
    · intro w
      cases w <;> simp only [Branch.target] <;> omega
  | repeatUntil body condition =>
    simp only [branchOf, bind_some, Option.some.injEq] at hbr
    obtain ⟨cb, hcb, cc, hcc, rfl⟩ := hbr
    simp [hcb, hcc] at hc
    subst hc
    simp at hat
    have hlabel : ∀ n, n ≤ b + cb.length + cc.length + 1 → (label n).toNat = n := fun n hn =>
      label_bound hcode hat (by simp; omega)
    have hcondAt := hat.right
    rw [length_resolve_stmt] at hcondAt
    refine ⟨⟨cc, _, hcc, rfl, hcondAt, ?_, hlabel _ (by simp; omega)⟩, ?_⟩
    · intro w hw
      cases w with
      | taken => exact hlabel _ (by omega)
      | ended => rfl
      | through => exact absurd rfl hw
    · intro w
      cases w <;> simp only [Branch.target] <;> omega
  | _ => cases hbr

/-- **A branch goes where its condition's way sends it.** -/
theorem branch_leaves (hd : VarDecls d) (hcode : code.length < 2 ^ 32) (hbc : BranchCode d sc code s br)
    {vm : Vm} {w : Way} (hip : vm.ip = br.start) (hbool : br.condition.isBool)
    (hdint : Dints d br.condition.vars) (hvars : Holds d ρ br.condition.vars vm)
    (hw : condWay ρ br.condition = some w) : Leaves code br vm (br.target s w) := by
  obtain ⟨cc, f, hcc, hstop, hat, hland, hfalse⟩ := hbc.layout
  rw [← hip] at hcc hat
  have hcond : CondRun code sc br.start br.stop vm (landing f (vm.ip + cc.length) w) :=
    cond_run hd hcode br.condition hcc hbool hat.left (by omega) (by omega) hdint hvars hw
  obtain ⟨n, u, vm₁, hrun, hnext, hip₁, _⟩ := hcond.run
  by_cases hthrough : w = .through
  · subst hthrough
    have hpos := genCond_pos br.condition hcc hbool
    have hip₁' : vm₁.ip = vm.ip + cc.length := hip₁
    have hstep : stay code br.start br.stop u = some vm₁ := stay_eq.2 ⟨hnext, by omega, by omega⟩
    have hjump := hat.right.head
    rw [length_resolve, ← hip₁'] at hjump
    have htarget : br.target s .through = br.onFalse := by cases s <;> rfl
    exact ⟨n + 1, vm₁, _, hrun.snoc hstep, next_jump hjump, by rw [htarget]; exact hfalse, hbc.outside .through⟩
  · refine ⟨n, u, vm₁, hrun, hnext, ?_, hbc.outside w⟩
    rw [hip₁, hip]
    exact hland w hthrough

end

/-! ## When a branch is right -/

/-- The statement takes the right branch on a condition with value `v` whose code ends in way `w`. In a
    `WHILE` or `REPEAT` a jump of the second list goes to instruction 0, which is where a false `UNTIL` is to
    go only if the loop stands there. -/
def Statement.Honours (b : Nat) : Statement → Way → Bool → Prop
  | .ifThen _ _ _, w, v => w = .through ↔ v = false
  | .repeatUntil _ _, w, v => w = (if v then .taken else .through) ∨ (v = false ∧ w = .ended ∧ b = 0)
  | _, w, v => w = if v then .taken else .through

theorem honours_iff {d : Decls} {sc : Scratch} {s : Statement} {b : Nat} {br : Branch} {w : Way} {v : Bool}
    (hbr : branchOf d sc s b = some br) :
    br.target s w = (if v then br.onTrue else br.onFalse) ↔ s.Honours b w v := by
  cases s with
  | ifThen condition thenBody elseBody =>
    simp only [branchOf, bind_some, Option.some.injEq] at hbr
    obtain ⟨cc, hcc, ct, hct, rfl⟩ := hbr
    cases w <;> cases v <;> simp [Branch.target, Statement.Honours] <;> omega
  | whileDo condition body =>
    simp only [branchOf, bind_some, Option.some.injEq] at hbr
    obtain ⟨cc, hcc, cb, hcb, rfl⟩ := hbr
    cases w <;> cases v <;> simp [Branch.target, Statement.Honours] <;> omega
  | repeatUntil body condition =>
    simp only [branchOf, bind_some, Option.some.injEq] at hbr
    obtain ⟨cb, hcb, cc, hcc, rfl⟩ := hbr
    cases w <;> cases v <;> simp [Branch.target, Statement.Honours] <;> omega
  | _ => cases hbr

end Audesys.St

/-! ## Two branches -/

namespace Audesys.St

open Audesys.Hal Audesys.Lib

local instance releaseCondRun : Target := host false

def branchVariables : List Variable := [⟨"x", .dint⟩, ⟨"y", .dint⟩]

/-- `IF c THEN y := 1; ELSE y := 2; END_IF`. -/
def branchProgram (c : Expr) : Program where
  name := "branch"
  vars := branchVariables
  body := [.ifThen c [.assign "y" (.intLiteral 1)] [.assign "y" (.intLiteral 2)]]
  functions := []

def positive (x : String) : Expr := .binary (.var x) .gt (.intLiteral 0)

/-- A machine with `x = 1` and `y = 0`. -/
def oneZero : Vm := Vm.new.set 0 (.s32 1)

def oneZeroVals (x : String) : Int32 := if x = "x" then 1 else 0

theorem branch_decls : IntDecls (.ofVariables branchVariables) :=
  intDecls_ofVariables (by decide) (by decide)

theorem oneZero_holds (xs : List String) : Holds (.ofVariables branchVariables) oneZeroVals xs oneZero := by
  intro x _ r hr
  obtain ⟨v, hget, rfl⟩ := registers_get (show branchVariables.length ≤ maxVarRegs by decide) hr
  obtain h | h : r.toNat = 0 ∨ r.toNat = 1 := by
    have hlt : r.toNat < 2 := (List.getElem?_eq_some_iff.1 hget).1
    omega
  · obtain rfl : r = 0 := UInt8.toNat_inj.1 h
    cases hget
    rfl
  · obtain rfl : r = 1 := UInt8.toNat_inj.1 h
    cases hget
    rfl

def bothPositive : Expr := .binary (positive "x") .and (positive "y")

end Audesys.St
