import Audesys.Hal.Host
import Audesys.St.Obstacles
import Audesys.St.Progress

/-!
# `St.Panics` — the compiler panics where the first obstacle is

Each function of the code generator stops at the obstacles of what it compiles (`StopsAt`), and gives back the
scratch registers and leaves the loops that it took and entered (`SameFrame`). So compilation panics exactly where
an overflow of the scratch registers or a stray `EXIT` comes before every rejection.
-/

namespace Audesys.St

open Audesys.Hal

variable [Target]

/-! ## Expressions -/

/-- The obstacles of an emitter, by the number of scratch registers that are free. -/
def EmitterStops (d : Decls) (o : Nat → List Obstacle) (em : Emitter) : Prop :=
  ∀ dest cg, cg.decls = d → StopsAt (o cg.scratch.count) (em dest cg) (SameFrame cg)

section
variable {d : Decls} {o o' : Nat → List Obstacle} {left right em : Emitter}

theorem stopsAt_cmp (hleft : EmitterStops d o left) (hright : EmitterStops d o' right) (op : BinOp) (cg : Codegen)
    (hd : cg.decls = d) :
    StopsAt (cmpObstacles o o' cg.scratch.count) (compileCmp left right op cg) (SameFrame cg) := by
  refine stopsAt_alloc fun rs cg₁ h₁ => (hright rs cg₁ (h₁.decls.trans hd)).bind fun cg₂ h₂ => ?_
  rw [← h₂.scratch]
  refine stopsAt_alloc fun ls cg₃ h₃ => ?_
  refine (hleft ls cg₃ (h₃.decls.trans (h₂.decls.trans (h₁.decls.trans hd)))).finish fun cg₄ h₄ => ?_
  exact h₁.release (h₂.trans (h₃.release (h₄.emit _)))

theorem stopsAt_cmpExpr (hleft : EmitterStops d o left) (hright : EmitterStops d o' right) (op : BinOp) :
    EmitterStops d (cmpObstacles o o') (compileCmpExpr left right op) := fun _ cg hd =>
  (stopsAt_cmp hleft hright op cg hd).finish fun _ h => (((h.emit _).emit _).emit _).patchJump _ _

theorem stopsAt_field (name field : String) :
    EmitterStops d (Expr.obstacles d (.fieldAccess name field)) (compileField name field) := by
  rintro dest cg rfl
  refine (stopsAt_varReg rfl name).bind fun reg _ => ?_
  dsimp only
  split
  · refine stopsAt_alloc fun other cg₁ h₁ => ?_
    dsimp only
    split
    · exact .ok (h₁.release ((SameFrame.refl _).emit _))
    · exact .ok (h₁.release ((SameFrame.refl _).emit _))
  · split
    · exact .ok ((SameFrame.refl cg).emit _)
    · exact stopsAt_alloc fun et cg₁ h₁ => .ok (h₁.release ((SameFrame.refl _).emit _))

/-- **An expression** stops at its obstacles. -/
theorem stopsAt_expr (e : Expr) : EmitterStops d (e.obstacles d) (compileExpr e) := by
  induction e with
  | intLiteral | realLiteral | boolLiteral => exact fun dest cg _ => .ok ((SameFrame.refl cg).emit _)
  | var name =>
    rintro dest cg rfl
    have hvar : StopsAt (cg.decls.declared name ++ []) (compileExpr (.var name) dest cg) (SameFrame cg) := by
      refine (stopsAt_varReg rfl name).bind fun src _ => ?_
      split
      · exact .ok (SameFrame.refl cg)
      · exact .ok (((SameFrame.refl cg).emit _).emit _)
    rwa [List.append_nil] at hvar
  | binary left op right hleft hright =>
    intro dest cg hd
    unfold Expr.obstacles compileExpr
    split
    · refine (hleft dest cg hd).bind fun cg₁ h₁ => ?_
      rw [← h₁.scratch]
      refine stopsAt_alloc fun s cg₂ h₂ => ?_
      refine (hright s cg₂ (h₂.decls.trans (h₁.decls.trans hd))).finish fun cg₃ h₃ => ?_
      exact h₁.trans (h₂.release (h₃.emit _))
    · split
      · exact stopsAt_cmpExpr hleft hright op dest cg hd
      · refine stopsAt_alloc fun s cg₁ h₁ => (hleft dest cg₁ (h₁.decls.trans hd)).bind fun cg₂ h₂ => ?_
        rw [← h₂.scratch]
        refine (hright s cg₂ (h₂.decls.trans (h₁.decls.trans hd))).finish fun cg₃ h₃ => ?_
        exact h₁.release (h₂.trans (h₃.emit _))
  | unary op inner ih =>
    intro dest cg hd
    cases op with
    | neg =>
      refine (ih dest cg hd).bind fun cg₁ h₁ => ?_
      rw [← h₁.scratch]
      exact stopsAt_alloc fun zero cg₂ h₂ => .ok (h₁.trans (h₂.release (((SameFrame.refl _).emit _).emit _)))
    | not => exact (ih dest cg hd).finish fun cg₁ h₁ => h₁.emit _
  | arrayAccess name index ih =>
    rintro dest cg rfl
    refine (stopsAt_varReg rfl name).bind fun array _ => stopsAt_alloc fun idx cg₁ h₁ => ?_
    exact (ih idx cg₁ h₁.decls).finish fun cg₂ h₂ => h₁.release (h₂.emit _)
  | fieldAccess name field => exact stopsAt_field name field

/-! ## Conditions -/

theorem stopsAt_truth (h : EmitterStops d o em) (js : Jumps) (cg : Codegen) (hd : cg.decls = d) :
    StopsAt (truthObstacles o cg.scratch.count) (compileBoolCond.compileTruth em js cg) (SameFrame cg ·.2) := by
  refine stopsAt_alloc fun s cg₁ h₁ => (h s cg₁ (h₁.decls.trans hd)).bind fun cg₂ h₂ => ?_
  rw [← h₂.scratch]
  refine stopsAt_alloc fun t cg₃ h₃ => .ok ?_
  exact (h₁.release_both h₂ h₃ (((SameFrame.refl _).emit _).emit _)).emit _

theorem stopsAt_cond (e : Expr) (js : Jumps) (cg : Codegen) (hd : cg.decls = d) :
    StopsAt (e.condObstacles d cg.scratch.count) (compileBoolCond e js cg) (SameFrame cg ·.2) := by
  induction e generalizing js cg with
  | binary left op right hleft hright =>
    unfold Expr.condObstacles compileBoolCond
    split
    · exact (stopsAt_cmp (stopsAt_expr left) (stopsAt_expr right) op cg hd).finish fun cg₁ h₁ => h₁.emit _
    · by_cases hand : op = .and
      · rw [if_pos (.inl hand), if_pos hand]
        refine (hleft js cg hd).bind fun r h₁ => ?_
        rw [← h₁.scratch]
        exact (hright r.1 r.2 (h₁.decls.trans hd)).mono fun r' h₂ => h₁.trans h₂
      · rw [if_neg hand]
        by_cases hor : op = .or
        · rw [if_pos (.inr hor), if_pos hor]
          refine (hleft _ cg hd).bind fun r h₁ => ?_
          have h₂ := (h₁.emit (.jump 0)).patchJumps r.1.elseJumps (r.2.emit (.jump 0)).currentIdx
          rw [← h₂.scratch]
          exact (hright _ _ (h₂.decls.trans hd)).mono fun r' h₃ => h₂.trans h₃
        · rw [if_neg (not_or.2 ⟨hand, hor⟩), if_neg hor]
          exact stopsAt_truth (stopsAt_expr _) js cg hd
  | unary op inner ih =>
    cases op with
    | neg => exact stopsAt_truth (stopsAt_expr _) js cg hd
    | not => exact (ih ⟨[], []⟩ cg hd).finish fun r h => h
  | _ => exact stopsAt_truth (stopsAt_expr _) js cg hd

end

/-- **Which expressions compile**: those that read what is declared and that the free scratch registers are enough for. -/
theorem compileExpr_ok_iff (e : Expr) (dest : UInt8) (cg : Codegen) :
    (∃ cg', compileExpr e dest cg = .ok cg') ↔ e.Declared cg.decls ∧ e.need cg.decls ≤ cg.scratch.count := by
  rw [← obstacles_eq_nil_iff]
  have hstops := stopsAt_expr e dest cg rfl
  constructor
  · rintro ⟨cg', hok⟩
    rw [hok] at hstops
    generalize e.obstacles cg.decls cg.scratch.count = o at hstops ⊢
    rcases o with _ | ⟨_ | _ | _, _⟩
    · rfl
    · obtain ⟨_, herror⟩ := hstops
      cases herror
    · cases hstops
    · cases hstops
  · intro hnone
    rw [hnone] at hstops
    obtain ⟨cg', hok, _⟩ := hstops
    exact ⟨cg', hok⟩

/-! ## Calls -/

section
variable {d : Decls} {cg : Codegen}

theorem stopsAt_input (arg : Expr) (dest : UInt8) {n : Nat} (hd : cg.decls = d) (hcount : cg.scratch.count = n) :
    StopsAt (inputObstacles d n arg) (compileInput arg dest cg) (SameFrame cg) := by
  subst hd hcount
  cases arg with
  | var name =>
    unfold inputObstacles compileInput
    exact (stopsAt_varReg rfl name).finish fun r _ => (SameFrame.refl cg).emit _
  | _ => exact stopsAt_expr _ dest cg rfl

theorem stopsAt_args (args : List Expr) (i : Nat) (hd : cg.decls = d) (hcount : cg.scratch.count = 3) :
    StopsAt ((args.take (4 - i)).flatMap (·.obstacles d 3)) (compileArgs i args cg) (SameFrame cg) := by
  induction args generalizing i cg with
  | nil =>
    rw [List.take_nil]
    exact .ok (SameFrame.refl cg)
  | cons arg args ih =>
    unfold compileArgs compileArg
    by_cases hi : i < 4
    · rw [if_pos hi, show 4 - i = 4 - (i + 1) + 1 by omega, List.take_succ_cons, List.flatMap_cons, ← hcount]
      refine (stopsAt_expr arg _ cg hd).bind fun cg₁ h₁ => ?_
      rw [hcount]
      exact (ih (i + 1) (h₁.decls.trans hd) (by rw [h₁.scratch, hcount])).mono fun cg₂ h₂ => h₁.trans h₂
    · rw [if_neg hi, show 4 - i = 0 by omega, List.take_zero]
      have hrest := ih (i + 1) hd hcount
      rw [show 4 - (i + 1) = 0 by omega, List.take_zero] at hrest
      exact hrest

theorem stopsAt_call (name : String) (args : List Expr) (hd : cg.decls = d) (hcount : cg.scratch.count = 3) :
    StopsAt (callObstacles d name args) (compileFunCall name args cg) (SameFrame cg) := by
  subst hd
  have hgeneric (args : List Expr) : StopsAt ((args.take 4).flatMap (·.obstacles cg.decls 3))
      (compileFunCall.compileGeneric args cg) (SameFrame cg) :=
    (stopsAt_args args 0 rfl hcount).finish fun cg₁ h₁ => h₁.emit _
  have hedge (arg0 : Expr) : StopsAt (cg.decls.declared name ++ inputObstacles cg.decls 2 arg0)
      (compileFunCall.compileEdge name arg0 cg) (SameFrame cg) := by
    refine (stopsAt_varReg rfl name).bind fun reg _ => stopsAt_alloc_succ hcount fun clk cg₁ h₁ hn => ?_
    exact (stopsAt_input arg0 clk h₁.decls hn).finish fun cg₂ h₂ => h₁.release (h₂.emit _)
  unfold callObstacles compileFunCall
  dsimp only
  split
  · rename_i arg0 arg1 rest
    split
    · refine (stopsAt_varReg rfl name).bind fun reg _ => stopsAt_alloc_succ hcount fun inp cg₁ h₁ hn => ?_
      exact (stopsAt_input arg0 inp h₁.decls hn).finish fun cg₂ h₂ => h₁.release (h₂.emit _)
    · split
      · rw [List.append_assoc]
        refine (stopsAt_varReg rfl name).bind fun reg _ => stopsAt_alloc_succ hcount fun cu cg₁ h₁ hn => ?_
        refine (stopsAt_input arg0 cu h₁.decls hn).bind fun cg₂ h₂ => ?_
        refine stopsAt_alloc_succ (by rw [h₂.scratch, hn]) fun cd cg₃ h₃ hn₃ => ?_
        -- the count down input may be left out
        have hdown : StopsAt ((rest.take 1).flatMap (inputObstacles cg.decls 1)) (compileDown rest cd cg₃)
            (SameFrame cg₃) := by
          cases rest with
          | nil => exact .ok ((SameFrame.refl cg₃).emit _)
          | cons arg2 rest =>
            rw [List.take_succ_cons, List.take_zero, List.flatMap_singleton]
            exact stopsAt_input arg2 cd (h₃.decls.trans (h₂.decls.trans h₁.decls)) hn₃
        exact hdown.finish fun cg₄ h₄ => h₁.release (h₂.trans (h₃.release (h₄.emit _)))
      · split
        · rw [List.append_assoc]
          refine (stopsAt_varReg rfl name).bind fun reg _ => stopsAt_alloc_succ hcount fun s1 cg₁ h₁ hn => ?_
          refine (stopsAt_input arg0 s1 h₁.decls hn).bind fun cg₂ h₂ => ?_
          refine stopsAt_alloc_succ (by rw [h₂.scratch, hn]) fun r cg₃ h₃ hn₃ => ?_
          refine (stopsAt_input arg1 r (h₃.decls.trans (h₂.decls.trans h₁.decls)) hn₃).finish fun cg₄ h₄ => ?_
          exact h₁.release (h₂.trans (h₃.release (h₄.emit _)))
        · split
          · exact hedge arg0
          · exact hgeneric _
  · split
    · exact hedge _
    · exact hgeneric _
  · exact hgeneric []

end

/-! ## Statements -/

/-- A state in which a statement is compiled, inside a loop or not. -/
structure Ready (d : Decls) (inLoop : Bool) (cg : Codegen) : Prop where
  decls : cg.decls = d
  count : cg.scratch.count = 3
  depth : inLoop = true ↔ 0 < cg.loopExits.length

section
variable {d : Decls} {inLoop : Bool} {cg cg' : Codegen}

theorem Ready.of_frame (h : Ready d inLoop cg) (hframe : SameFrame cg cg') : Ready d inLoop cg' :=
  ⟨hframe.decls.trans h.decls, by rw [hframe.scratch, h.count], by rw [hframe.depth, h.depth]⟩

theorem Ready.pushLoop (h : Ready d inLoop cg) : Ready d true cg.pushLoop :=
  ⟨h.decls, h.count, by simp [Codegen.pushLoop]⟩

theorem Ready.cond (h : Ready d inLoop cg) (e : Expr) :
    StopsAt (e.condObstacles d 3) (compileCondition e cg) (SameFrame cg ·.2) := by
  rw [← h.count]
  exact stopsAt_cond e _ cg h.decls

theorem Ready.expr (h : Ready d inLoop cg) (e : Expr) (dest : UInt8) :
    StopsAt (e.obstacles d 3) (compileExpr e dest cg) (SameFrame cg) := by
  rw [← h.count]
  exact stopsAt_expr e dest cg h.decls

theorem stopsAt_labels (var : UInt8) (vs : List Int64) (js : List UInt32) (h : Ready d inLoop cg) :
    StopsAt [] (compileLabels var vs js cg) (SameFrame cg ·.2) := by
  induction vs generalizing js cg with
  | nil => exact .ok (SameFrame.refl cg)
  | cons v vs ih =>
    refine stopsAt_alloc_succ h.count fun s cg₁ h₁ _ => ?_
    have h₂ := (h₁.release (((SameFrame.refl _).emit (.loadImm s (.s32 v.toInt32))).emit (.cmp .eq var s))).emit (.jumpIf 0)
    exact (ih _ (h.of_frame h₂)).mono fun r h₃ => h₂.trans h₃

theorem stopsAt_step (step : Option Expr) (dest : UInt8) {n : Nat} (hd : cg.decls = d) (hcount : cg.scratch.count = n) :
    StopsAt (step.toList.flatMap (·.obstacles d n)) (compileStep step dest cg) (SameFrame cg) := by
  cases step with
  | none => exact .ok ((SameFrame.refl cg).emit _)
  | some e =>
    rw [Option.toList_some, List.flatMap_singleton, ← hcount]
    exact stopsAt_expr e dest cg hd

theorem stopsAt_counter {α : Type} {o : List Obstacle} {f : VarType → Except Stop α} {R : α → Prop} (name : String)
    (hd : cg.decls = d) (h : ∀ vt, vt = .int ∨ vt = .dint → StopsAt o (f vt) R)
    (hbad : ∀ vt, ¬ (vt = .int ∨ vt = .dint) → ∃ e, f vt = .error (.error e)) :
    StopsAt (counterObstacles d name ++ o) (cg.decls.lookup name >>= f) R := by
  subst hd
  unfold counterObstacles Decls.lookup
  cases hvt : cg.decls.varTypes name with
  | none => exact ⟨_, rfl⟩
  | some vt =>
    by_cases hok : vt = .int ∨ vt = .dint
    · rw [if_pos (by simpa using hok)]
      exact h vt hok
    · rw [if_neg (by simpa using hok)]
      exact hbad vt hok

mutual

/-- **A statement** stops at its obstacles. -/
theorem stopsAt_stmt (s : Statement) (cg : Codegen) (inLoop : Bool) (h : Ready d inLoop cg) :
    StopsAt (s.obstacles d inLoop) (compileStmt s cg) (SameFrame cg) := by
  cases s with
  | assign name value =>
    simp [Statement.obstacles]
    rw [h.decls]
    refine (stopsAt_checked (checkAssign_ne_panic name value)).bind fun _ _ => ?_
    refine (stopsAt_varReg h.decls name).bind fun dest _ => ?_
    exact (h.expr value dest).finish fun cg₁ h₁ => h₁.emit _
  | arrayAssign name index value =>
    simp only [Statement.obstacles, compileStmt, List.append_assoc]
    refine (stopsAt_varReg h.decls name).bind fun array _ => stopsAt_alloc_succ h.count fun idx cg₁ h₁ hn₁ => ?_
    dsimp only
    rw [← hn₁]
    refine (stopsAt_expr index idx cg₁ (h₁.decls.trans h.decls)).bind fun cg₂ h₂ => ?_
    refine stopsAt_alloc_succ (by rw [h₂.scratch, hn₁]) fun val cg₃ h₃ hn₃ => ?_
    dsimp only
    rw [← hn₃]
    refine (stopsAt_expr value val cg₃ (h₃.decls.trans (h₂.decls.trans (h₁.decls.trans h.decls)))).finish fun cg₄ h₄ => ?_
    exact (h₁.release_both h₂ h₃ (h₄.emit _)).emit _
  | ifThen condition thenBody elseBody =>
    simp only [Statement.obstacles, compileStmt, List.append_assoc]
    rw [h.decls]
    refine (stopsAt_checked (checkCondition_ne_panic condition "IF")).bind fun _ _ => ?_
    refine (h.cond condition).bind fun r h₁ => ?_
    -- the exits of the condition are patched, and do not change what is declared or taken
    have h₂ := ((h₁.emit (.jump 0)).patchJumps r.1.elseJumps (r.2.emit (.jump 0)).currentIdx).patchJumps r.1.endJumps
      (r.2.emit (.jump 0)).currentIdx
    refine (stopsAt_body thenBody _ inLoop (h.of_frame h₂)).bind fun cg₃ h₃ => ?_
    have h₄ := ((h₂.trans h₃).emit (.jump 0)).patchJump r.2.currentIdx (cg₃.emit (.jump 0)).currentIdx
    refine (stopsAt_body elseBody _ inLoop (h.of_frame h₄)).finish fun cg₅ h₅ => ?_
    exact (h₄.trans h₅).patchJump _ _
  | whileDo condition body =>
    simp only [Statement.obstacles, compileStmt, List.append_assoc]
    rw [h.decls]
    refine (stopsAt_checked (checkCondition_ne_panic condition "WHILE")).bind fun _ _ => ?_
    refine (h.pushLoop.cond condition).bind fun r h₁ => ?_
    have h₂ := (h₁.emit (.jump 0)).patchJumps r.1.elseJumps (r.2.emit (.jump 0)).currentIdx
    refine (stopsAt_body body _ true (h.pushLoop.of_frame h₂)).finish fun cg₃ h₃ => ?_
    exact (((h₂.trans h₃).emit _).patchJump _ _).popLoop
  | forDo variableName start stop step body =>
    simp only [Statement.obstacles, compileStmt, List.append_assoc]
    refine stopsAt_counter variableName h.decls (fun vt hvt => ?_) fun vt hvt => ?_
    -- a counter of the right type
    · rw [if_neg (by simpa [or_iff_not_imp_left] using hvt)]
      refine (stopsAt_varReg h.decls variableName).bind fun var _ => (h.expr start var).bind fun cg₁ h₁ => ?_
      have hloop := (h.of_frame h₁).pushLoop
      refine stopsAt_alloc_succ hloop.count fun s cg₂ h₂ hn₂ => ?_
      dsimp only
      rw [← hn₂]
      refine (stopsAt_expr stop s cg₂ (h₂.decls.trans hloop.decls)).bind fun cg₃ h₃ => ?_
      have h₄ := (h₂.release (h₃.emit (.cmp .gt var s))).emit (.jumpIf 0)
      refine (stopsAt_body body _ true (hloop.of_frame h₄)).bind fun cg₅ h₅ => ?_
      have h₆ := h₄.trans h₅
      refine stopsAt_alloc_succ (hloop.of_frame h₆).count fun st cg₇ h₇ hn₇ => ?_
      refine (stopsAt_step step st (h₇.decls.trans (hloop.of_frame h₆).decls) (hn₇.trans hn₂.symm)).finish
        fun cg₈ h₈ => ?_
      exact h₁.trans (((h₆.trans (h₇.release (h₈.emit _))).emit _).patchJump _ _).popLoop
    -- a counter of another type is refused before anything is compiled
    · rw [if_pos (by simpa [not_or] using hvt)]
      exact ⟨_, rfl⟩
  | repeatUntil body condition =>
    simp [Statement.obstacles]
    rw [h.decls]
    refine (stopsAt_checked (checkCondition_ne_panic condition "REPEAT")).bind fun _ _ => ?_
    refine (stopsAt_body body _ true h.pushLoop).bind fun cg₁ h₁ => ?_
    refine ((h.pushLoop.of_frame h₁).cond condition).finish fun r h₂ => ?_
    exact ((((h₁.trans h₂).emit _).patchJumps _ _).patchJump _ _).popLoop
  | ret =>
    simp only [Statement.obstacles, compileStmt]
    exact .ok ((SameFrame.refl cg).emit _)
  | exit =>
    simp [Statement.obstacles, Codegen.recordExit]
    have hdepth := h.depth
    cases hexits : cg.loopExits with
    | nil =>
      rw [hexits] at hdepth
      rw [if_neg (by simpa using hdepth)]
      rfl
    | cons exits outer =>
      rw [hexits] at hdepth
      rw [if_pos (by simpa using hdepth)]
      exact .ok ⟨rfl, rfl, by rw [hexits]; rfl⟩
  | case variableName cases elseBody =>
    simp [Statement.obstacles]
    refine (stopsAt_varReg h.decls variableName).bind fun var _ => ?_
    refine (stopsAt_cases var cases [] cg inLoop h).bind fun r h₁ => ?_
    refine (stopsAt_body elseBody _ inLoop (h.of_frame h₁)).finish fun cg₂ h₂ => ?_
    exact (h₁.trans h₂).patchJumps _ _
  | funCall name args =>
    simp only [Statement.obstacles, compileStmt]
    exact stopsAt_call name args h.decls h.count

theorem stopsAt_body (body : List Statement) (cg : Codegen) (inLoop : Bool) (h : Ready d inLoop cg) :
    StopsAt (bodyObstacles d inLoop body) (compileBody body cg) (SameFrame cg) := by
  cases body with
  | nil =>
    simp only [bodyObstacles, compileBody]
    exact .ok (SameFrame.refl cg)
  | cons s rest =>
    simp only [bodyObstacles, compileBody]
    refine (stopsAt_stmt s cg inLoop h).bind fun cg₁ h₁ => ?_
    exact (stopsAt_body rest cg₁ inLoop (h.of_frame h₁)).mono fun cg₂ h₂ => h₁.trans h₂

theorem stopsAt_cases (var : UInt8) (cases : List (List Int64 × List Statement)) (exits : List UInt32) (cg : Codegen)
    (inLoop : Bool) (h : Ready d inLoop cg) :
    StopsAt (casesObstacles d inLoop cases) (compileCases var cases exits cg) (SameFrame cg ·.2) := by
  match cases with
  | [] =>
    simp only [casesObstacles, compileCases]
    exact .ok (SameFrame.refl cg)
  | (values, body) :: rest =>
    simp only [casesObstacles, compileCases]
    show StopsAt ([] ++ (bodyObstacles d inLoop body ++ casesObstacles d inLoop rest)) _ _
    refine StopsAt.bind (stopsAt_labels var values [] h) fun r h₁ => ?_
    have h₂ := (h₁.emit (.jump 0)).patchJumps r.1 (r.2.emit (.jump 0)).currentIdx
    refine (stopsAt_body body _ inLoop (h.of_frame h₂)).bind fun cg₃ h₃ => ?_
    have h₄ := ((h₂.trans h₃).emit (.jump 0)).patchJump r.2.currentIdx (cg₃.emit (.jump 0)).currentIdx
    exact (stopsAt_cases var rest _ _ inLoop (h.of_frame h₄)).mono fun r' h₅ => h₄.trans h₅

end

/-! ## Programs -/

theorem stopsAt_functions (fs : List FunctionDef) (table : List FunctionEntry) (h : Ready d false cg) :
    StopsAt (fs.flatMap fun f => bodyObstacles d false f.body) (compileFunctions fs table cg) (SameFrame cg ·.2) := by
  induction fs generalizing table cg with
  | nil => exact .ok (SameFrame.refl cg)
  | cons f fs ih =>
    refine (stopsAt_body f.body cg false h).bind fun cg₁ h₁ => ?_
    have h₂ := h₁.emit (.ret none)
    exact (ih _ (h.of_frame h₂)).mono fun r h₃ => h₂.trans h₃

end

theorem stopsAt_program (p : Program) : StopsAt p.obstacles (compileAst p) fun _ => True := by
  unfold Program.obstacles compileAst Codegen.new
  split
  · exact ⟨_, rfl⟩
  · have h : Ready (.ofVariables p.vars) false ⟨.ofVariables p.vars, [], .all, []⟩ := ⟨rfl, rfl, by simp⟩
    refine (stopsAt_body p.body _ false h).bind fun cg₁ h₁ => ?_
    exact (stopsAt_functions p.functions [] (h.of_frame (h₁.emit .halt))).finish fun _ _ => trivial

/-- **Panics.** On a program that the parser accepts, the compiler returns a program or an error exactly if the
    first obstacle, should there be one, is a rejection. -/
theorem compileAst_returns_iff (tokens : List TokenInfo) (p : Program) :
    parseProgram tokens = .ok p → (Returns (compileAst p) ↔ ∀ o ∈ p.obstacles.head?, o = .rejected) :=
  fun _ => (stopsAt_program p).returns_iff

end Audesys.St

/-! ## An exit -/

namespace Audesys.St

open Audesys.Hal

local instance releaseObstacles : Target := host false

/-- The tokens of `PROGRAM p VAR x : BOOL; END_VAR`, the given statement and `END_PROGRAM`, all at one position. -/
def oneStatement (tokens : List Token) : List TokenInfo :=
  let head : List Token := [.program, .identifier "p", .var, .identifier "x", .colon, .bool, .semicolon, .endVar]
  (head ++ tokens ++ [Token.endProgram]).map (⟨·, ⟨1, 1⟩⟩)

/-- `x := (1 < 2) AND (3 < 4)`: the right comparison finds two registers free and takes both. -/
theorem compileAst_returns_iff_and :
    Returns (compileAst ⟨"p", [⟨"x", .bool⟩], [.assign "x" (.binary (.binary (.intLiteral 1) .lt (.intLiteral 2)) .and
      (.binary (.intLiteral 3) .lt (.intLiteral 4)))], []⟩) :=
  (compileAst_returns_iff (oneStatement [.identifier "x", .assign, .integerLiteral 1, .less, .integerLiteral 2, .and,
    .integerLiteral 3, .less, .integerLiteral 4, .semicolon]) _ rfl).2 (by decide)

/-- `EXIT` outside every loop: the parser accepts it, and the compiler panics. -/
theorem compileAst_panics :
    ∃ p, parseProgram (oneStatement [.exit, .semicolon]) = .ok p ∧ ¬ Returns (compileAst p) := by
  refine ⟨⟨"p", [⟨"x", .bool⟩], [.exit], []⟩, rfl, ?_⟩
  rintro (⟨hp, h⟩ | ⟨e, h⟩)
  · cases h
  · cases h

end Audesys.St
