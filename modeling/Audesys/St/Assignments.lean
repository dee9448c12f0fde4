import Audesys.St.Brackets
import Audesys.St.Parser

/-!
# `St.Assignments` — assignments in the tokens and in the tree

What the parsers read, as a property of the tokens that were used up. Where `x := n;` stands in the tokens of a
program, the program contains the assignment of the literal (`parseProgramInner_contains`). An assignment sign
stands in an assignment, behind the brackets of an array element, or in the head of a `FOR`; expressions and
declarations have none, and an expression no semicolon either.
-/

open List

namespace Audesys.St

open Audesys.Hal
open Lib (Parser.Consumes Parser.ConsumesFrom)
open Lib.Parser (Consumes ConsumesFrom)

variable [Target]
variable {used : List TokenInfo} {ti : TokenInfo} {token : Token}

/-! ## Tokens -/

theorem expect_consumes (token : Token) :
    Consumes (expect token) fun _ used => ∃ ti, used = [ti] ∧ ti.token = token := by
  refine Consumes.next_bind (.fail _) fun ti => ?_
  dsimp only
  split
  · rename_i htoken
    exact .pure ⟨ti, rfl, htoken⟩
  · exact .fail _

theorem expectIdent_consumes :
    Consumes expectIdent fun r used => ∃ ti, used = [ti] ∧ ti.token = .identifier r.1 := by
  refine Consumes.next_bind (.fail _) fun ti => ?_
  dsimp only
  cases htoken : ti.token with
  | identifier name => exact .pure ⟨ti, rfl, htoken⟩
  | _ => exact .fail _

theorem peekToken_consumes {α : Type} {f : Option Token → Parser α} {Q : α → List TokenInfo → Prop}
    (hnone : Consumes (f none) Q) (hsome : ∀ ti, ConsumesFrom ti (f (some ti.token)) Q) :
    Consumes (peekToken >>= f) Q :=
  show Consumes (Lib.Parser.peek >>= fun ti => f (ti.map (·.token))) Q from Consumes.peek_bind hnone hsome

/-! ## Expressions -/

/-- Neither an assignment sign nor a semicolon. -/
def Token.inExpr (token : Token) : Prop := token ≠ .assign ∧ token ≠ .semicolon

theorem inExpr_of_tokenToBinop {op : BinOp} (h : tokenToBinop token = some op) : token.inExpr := by
  constructor
  · rintro rfl
    cases h
  · rintro rfl
    cases h

def InExpr (used : List TokenInfo) : Prop := ∀ ti ∈ used, ti.token.inExpr

theorem InExpr.append {used more : List TokenInfo} (h : InExpr used) (hmore : InExpr more) :
    InExpr (used ++ more) := fun ti hti =>
  (mem_append.1 hti).elim (h ti) (hmore ti)

theorem InExpr.cons (hti : ti.token.inExpr) (h : InExpr used) : InExpr (ti :: used) :=
  forall_mem_cons.2 ⟨hti, h⟩

theorem expect_inExpr (h : token.inExpr) : Consumes (expect token) fun _ used => used ≠ [] ∧ InExpr used := by
  refine (expect_consumes token).mono fun _ used => ?_
  rintro ⟨ti, rfl, hti⟩
  exact ⟨nofun, .cons (hti ▸ h) nofun⟩

/-- The tokens of an expression. A single token for a literal is the literal. -/
structure ExprTokens (e : Expr) (used : List TokenInfo) : Prop where
  ne_nil : used ≠ []
  inExpr : InExpr used
  literal : ∀ ti n, used = [ti] → ti.token = .integerLiteral n → e = .intLiteral n

/-- An operator or a bracket in front, and what is behind it. -/
theorem ExprTokens.long {e : Expr} (hti : ti.token.inExpr)
    (hne : used ≠ []) (hused : InExpr used) : ExprTokens e (ti :: used) where
  ne_nil := nofun
  inExpr := hused.cons hti
  literal _ _ h := absurd (List.cons.inj h).2 hne

/-- One token that is no literal. -/
theorem ExprTokens.single {e : Expr} (hti : ti.token.inExpr)
    (hliteral : ∀ n, ti.token = .integerLiteral n → e = .intLiteral n) : ExprTokens e [ti] where
  ne_nil := nofun
  inExpr := .cons hti nofun
  literal t n h ht := by
    cases h
    exact hliteral n ht

/-- The tokens of the operators and operands behind an expression. -/
structure MoreTokens (left e : Expr) (used : List TokenInfo) : Prop where
  inExpr : InExpr used
  same : used = [] → e = left

theorem ExprTokens.append {left e : Expr} {used more : List TokenInfo} (h : ExprTokens left used)
    (hmore : MoreTokens left e more) : ExprTokens e (used ++ more) where
  ne_nil := append_ne_nil_of_left_ne_nil h.ne_nil _
  inExpr := h.inExpr.append hmore.inExpr
  literal ti n heq hti := by
    have hlen := congrArg List.length heq
    have hpos := length_pos_iff.2 h.ne_nil
    rw [length_append, length_singleton] at hlen
    have hnil : more = [] := length_eq_zero_iff.1 (by omega)
    rw [hmore.same hnil]
    rw [hnil, List.append_nil] at heq
    exact h.literal ti n heq hti

structure ExprConsumes (fuel : Nat) : Prop where
  prec : ∀ minPrec, Consumes (parseExprPrec fuel minPrec) ExprTokens
  climb : ∀ minPrec left, Consumes (climb fuel minPrec left) (MoreTokens left)
  unary : Consumes (parseUnary fuel) ExprTokens
  primary : Consumes (parsePrimary fuel) ExprTokens

section

variable {fuel : Nat} (ih : ExprConsumes fuel)

include ih

theorem climb_consumes (minPrec : Nat) (left : Expr) : Consumes (climb (fuel + 1) minPrec left) (MoreTokens left) := by
  have hend : Consumes (pure left : Parser Expr) (MoreTokens left) := .pure ⟨nofun, fun _ => rfl⟩
  unfold climb
  refine peekToken_consumes hend fun ti => ?_
  simp only [Option.bind_some]
  cases hop : tokenToBinop ti.token with
  | none => exact hend.ahead ti
  | some op =>
    dsimp only
    split
    · refine ConsumesFrom.next_bind ((ih.prec _).bind fun right used hright => ?_)
      refine (ih.climb _ _).mono fun e more hmore => ⟨?_, nofun⟩
      exact (hright.inExpr.append hmore.inExpr).cons (inExpr_of_tokenToBinop hop)
    · exact hend.ahead ti

theorem parseUnary_consumes : Consumes (parseUnary (fuel + 1)) ExprTokens := by
  have hoperand (op : UnaryOp) {ti : TokenInfo} (hti : ti.token.inExpr) : ConsumesFrom ti
      (do let _ ← advance; let expr ← parseUnary fuel; return .unary op expr) ExprTokens := by
    refine ConsumesFrom.next_bind (ih.unary.bind fun expr used hexpr => .pure ?_)
    rw [List.append_nil]
    exact .long hti hexpr.ne_nil hexpr.inExpr
  unfold parseUnary
  refine peekToken_consumes ih.primary fun ti => ?_
  cases htoken : ti.token with
  | minus => exact hoperand .neg (by rw [htoken]; constructor <;> nofun)
  | not => exact hoperand .not (by rw [htoken]; constructor <;> nofun)
  | _ => exact ih.primary.ahead ti

theorem parsePrimary_consumes : Consumes (parsePrimary (fuel + 1)) ExprTokens := by
  unfold parsePrimary
  refine Consumes.next_bind (.fail _) fun ti => ?_
  dsimp only
  cases htoken : ti.token with
  | integerLiteral n =>
    refine .pure (.single (by rw [htoken]; constructor <;> nofun) fun m hm => ?_)
    cases htoken.symm.trans hm
    rfl
  | realLiteral x =>
    exact .pure (.single (by rw [htoken]; constructor <;> nofun) fun m hm => by cases htoken.symm.trans hm)
  | identifier name =>
    have hti : ti.token.inExpr := by rw [htoken]; constructor <;> nofun
    have hname (e : Expr) : ExprTokens e [ti] := .single hti fun m hm => by cases htoken.symm.trans hm
    dsimp only
    split
    · exact .pure (hname _)
    · split
      · exact .pure (hname _)
      · refine peekToken_consumes (.pure (hname _)) fun next => Consumes.ahead ?_ next
        split
        · -- an element of an array
          refine (expect_inExpr (by constructor <;> nofun)).bind fun _ u₁ h₁ => ?_
          refine (ih.prec 0).bind fun index u₂ h₂ => ?_
          refine (expect_inExpr (by constructor <;> nofun)).bind fun _ u₃ h₃ => .pure ?_
          refine .long hti (append_ne_nil_of_left_ne_nil h₁.1 _) ?_
          exact h₁.2.append (h₂.inExpr.append (h₃.2.append nofun))
        · -- a field
          refine (expect_inExpr (by constructor <;> nofun)).bind fun _ u₁ h₁ => ?_
          refine expectIdent_consumes.bind fun field u₂ h₂ => .pure ?_
          obtain ⟨f, rfl, hf⟩ := h₂
          refine .long hti (append_ne_nil_of_left_ne_nil h₁.1 _) ?_
          exact h₁.2.append (.cons (by rw [hf]; constructor <;> nofun) nofun)
        · exact .pure (hname _)
  | lparen =>
    refine (ih.prec 0).bind fun expr u₁ h₁ => ?_
    refine (expect_inExpr (by constructor <;> nofun)).bind fun _ u₂ h₂ => .pure ?_
    refine .long (by rw [htoken]; constructor <;> nofun) (append_ne_nil_of_left_ne_nil h₁.ne_nil _) ?_
    exact h₁.inExpr.append (h₂.2.append nofun)
  | _ => exact .fail _

end

theorem exprConsumes (fuel : Nat) : ExprConsumes fuel := by
  induction fuel with
  | zero => exact ⟨fun _ => .outOfFuel, fun _ _ => .outOfFuel, .outOfFuel, .outOfFuel⟩
  | succ fuel ih =>
    exact {
      prec minPrec := ih.unary.bind fun left used h => (ih.climb minPrec left).mono fun e more => h.append
      climb := climb_consumes ih
      unary := parseUnary_consumes ih
      primary := parsePrimary_consumes ih }

theorem parseExpression_consumes (fuel : Nat) : Consumes (parseExpression fuel) ExprTokens := (exprConsumes fuel).prec 0

/-! ## Without assignment signs -/

def NoAssign (used : List TokenInfo) : Prop := ∀ ti ∈ used, ti.token ≠ .assign

theorem NoAssign.append {used more : List TokenInfo} (h : NoAssign used) (hmore : NoAssign more) :
    NoAssign (used ++ more) := fun ti hti =>
  (mem_append.1 hti).elim (h ti) (hmore ti)

theorem NoAssign.cons (hti : ti.token ≠ .assign) (h : NoAssign used) : NoAssign (ti :: used) :=
  forall_mem_cons.2 ⟨hti, h⟩

theorem NoAssign.single (hti : ti.token = token) (h : token ≠ .assign) : NoAssign [ti] :=
  .cons (hti ▸ h) (forall_mem_nil _)

theorem ExprTokens.noAssign {e : Expr} (h : ExprTokens e used) : NoAssign used :=
  fun ti hti => (h.inExpr ti hti).1

/-- The parser reads no assignment sign. -/
def Quiet {α : Type} (p : Parser α) : Prop := Consumes p fun _ used => NoAssign used

namespace Quiet

variable {α β : Type} {p : Parser α} {f : α → Parser β}

theorem bind (h : Quiet p) (hf : ∀ a, Quiet (f a)) : Quiet (p >>= f) :=
  Consumes.bind h fun a _ hused => (hf a).mono fun _ _ hmore => hused.append hmore

theorem pure (a : α) : Quiet (Pure.pure a : Parser α) := Consumes.pure (forall_mem_nil _)

theorem next_bind {f : Option TokenInfo → Parser β} (hnone : Quiet (f none))
    (hsome : ∀ ti, ti.token ≠ .assign → Quiet (f (some ti)))
    (hassign : ∀ ti ts b rest, ti.token = .assign → f (some ti) ts ≠ .ok b rest) :
    Quiet (Lib.Parser.next >>= f) := by
  refine Consumes.next_bind hnone fun ti => ?_
  by_cases hti : ti.token = .assign
  · exact fun ts b rest hrun => absurd hrun (hassign ti ts b rest hti)
  · exact (hsome ti hti).mono fun _ _ hused => hused.cons hti

end Quiet

theorem expect_quiet (h : token ≠ .assign) : Quiet (expect token) :=
  (expect_consumes token).mono fun _ used => by
    rintro ⟨ti, rfl, hti⟩
    exact .cons (hti ▸ h) nofun

theorem expectIdent_quiet : Quiet expectIdent :=
  expectIdent_consumes.mono fun _ used => by
    rintro ⟨ti, rfl, hti⟩
    exact .cons (by rw [hti]; nofun) nofun

theorem parseExpression_quiet (fuel : Nat) : Quiet (parseExpression fuel) :=
  (parseExpression_consumes fuel).mono fun _ _ => ExprTokens.noAssign

theorem parseStringLength_quiet : Quiet parseStringLength := by
  refine peekToken_consumes (Quiet.pure ()) fun ti => Consumes.ahead ?_ ti
  split
  · refine (expect_quiet (by nofun)).bind fun _ => ?_
    refine Quiet.next_bind (.fail _) (fun ti hti => ?_) fun ti ts b rest hti => ?_
    · simp only [Option.map_some]
      split
      · exact expect_quiet (by nofun)
      · exact .fail _
    · simp only [Option.map_some, hti]
      nofun
  · exact Quiet.pure ()

theorem parseVarType_quiet (fuel : Nat) : Quiet (parseVarType fuel) := by
  induction fuel with
  | zero => exact .outOfFuel
  | succ fuel ih =>
    unfold parseVarType
    refine Quiet.next_bind (.fail _) (fun ti hti => ?_) fun ti ts b rest hti => ?_
    · dsimp only
      split
      · exact parseStringLength_quiet.bind fun _ => .pure _
      · refine (expect_quiet (by nofun)).bind fun _ => (parseExpression_quiet fuel).bind fun _ => ?_
        refine (expect_quiet (by nofun)).bind fun _ => (parseExpression_quiet fuel).bind fun _ => ?_
        refine (expect_quiet (by nofun)).bind fun _ => (expect_quiet (by nofun)).bind fun _ => ?_
        exact ih.bind fun _ => .pure _
      · split
        · exact .pure _
        · exact .fail _
    · dsimp only
      rw [hti]
      nofun

theorem parseDeclarations_quiet (fuel : Nat) (stop : Token) (vars : List Variable) :
    Quiet (parseDeclarations fuel stop vars) := by
  induction fuel generalizing vars with
  | zero => exact .outOfFuel
  | succ fuel ih =>
    have hdeclaration : Quiet (parseDeclaration fuel) := by
      refine expectIdent_quiet.bind fun _ => (expect_quiet (by nofun)).bind fun _ => ?_
      exact (parseVarType_quiet fuel).bind fun _ => (expect_quiet (by nofun)).bind fun _ => .pure _
    have hround : Quiet (parseDeclaration fuel >>= fun r =>
        if vars.any (·.name == r.1.name) then Lib.Parser.fail (.redefinedVariable r.1.name r.2)
        else parseDeclarations fuel stop (vars ++ [r.1])) := by
      refine hdeclaration.bind fun r => ?_
      split
      · exact .fail _
      · exact ih _
    unfold parseDeclarations
    refine peekToken_consumes hround fun ti => Consumes.ahead ?_ ti
    split
    · exact hround
    · exact Quiet.pure vars

theorem parseVarBlock_quiet (fuel : Nat) : Quiet (parseVarBlock fuel) := by
  refine (expect_quiet (by nofun)).bind fun _ => (parseDeclarations_quiet fuel _ _).bind fun vars => ?_
  refine (expect_quiet (by nofun)).bind fun _ => peekToken_consumes (Quiet.pure vars) fun ti => ?_
  split
  · rename_i hsemicolon
    refine ConsumesFrom.next_bind (Consumes.pure ?_)
    exact .cons (by rw [Option.some.inj hsemicolon]; nofun) (forall_mem_nil _)
  · exact Consumes.ahead (Quiet.pure vars) ti

theorem parseParamBlock_quiet (fuel : Nat) {start stop : Token} (hstart : start ≠ .assign) (hstop : stop ≠ .assign) :
    Quiet (parseParamBlock fuel start stop) := by
  refine (expect_quiet hstart).bind fun _ => (parseDeclarations_quiet fuel stop _).bind fun vars => ?_
  exact (expect_quiet hstop).bind fun _ => (expect_quiet (by nofun)).bind fun _ => .pure _

theorem parseMoreArgs_quiet (fuel : Nat) : Quiet (parseMoreArgs fuel) := by
  induction fuel with
  | zero => exact .outOfFuel
  | succ fuel ih =>
    unfold parseMoreArgs
    refine peekToken_consumes (Quiet.pure []) fun ti => Consumes.ahead ?_ ti
    split
    · refine (expect_quiet (by nofun)).bind fun _ => (parseExpression_quiet fuel).bind fun _ => ?_
      exact ih.bind fun _ => .pure _
    · exact Quiet.pure []

theorem parseArgs_quiet (fuel : Nat) : Quiet (parseArgs fuel) := by
  have hround : Quiet (do
      let arg ← parseExpression fuel
      let args ← parseMoreArgs fuel
      return arg :: args) :=
    (parseExpression_quiet fuel).bind fun _ => (parseMoreArgs_quiet fuel).bind fun _ => .pure _
  refine peekToken_consumes hround fun ti => Consumes.ahead ?_ ti
  split
  · exact hround
  · exact Quiet.pure []

theorem parseCaseValues_quiet (fuel : Nat) : Quiet (parseCaseValues fuel) := by
  induction fuel with
  | zero => exact .outOfFuel
  | succ fuel ih =>
    have hmissing : Quiet (do
        let span := (← current).map (·.span)
        Lib.Parser.fail (.expectedToken .colon ((span.map (·.line)).getD 0) ((span.map (·.col)).getD 0)) :
          Parser (List Int64)) :=
      Consumes.peek_bind (.fail _) fun ti => Consumes.ahead (.fail _) ti
    unfold parseCaseValues
    refine Quiet.next_bind (.fail _) (fun ti hti => ?_) fun ti ts b rest hti => ?_
    · dsimp only
      split
      · refine peekToken_consumes hmissing fun next => ?_
        cases hnext : next.token with
        | colon => exact ConsumesFrom.next_bind (Consumes.pure (.cons (by rw [hnext]; nofun) (forall_mem_nil _)))
        | comma =>
          refine ConsumesFrom.next_bind (Consumes.bind ih fun values used hused => Consumes.pure ?_)
          rw [List.append_nil]
          exact hused.cons (by rw [hnext]; nofun)
        | _ => exact hmissing.ahead next
      · exact .fail _
    · dsimp only
      rw [hti]
      nofun

/-! ## Assignments in the tokens -/

/-- `name := n;` stands around an assignment sign that has `l` in front of it and `r` behind it. -/
structure Around (l r : List TokenInfo) (name : String) (n : Int64) : Prop where
  target : l.getLast?.map (·.token) = some (.identifier name)
  literal : r[0]?.map (·.token) = some (.integerLiteral n)
  stop : r[1]?.map (·.token) = some .semicolon

/-- Each `name := n;` in the tokens is an assignment in `S`, and none reaches beyond the tokens. -/
def Covers (S : Statement → Prop) (used : List TokenInfo) : Prop :=
  ∀ l a r, used = l ++ a :: r → a.token = .assign →
    l ≠ [] ∧ 2 ≤ r.length ∧ ∀ name n, Around l r name n → S (.assign name (.intLiteral n))

theorem NoAssign.covers {S : Statement → Prop} (h : NoAssign used) : Covers S used := by
  intro l a r heq ha
  exact absurd ha (h a (heq ▸ mem_append_right l mem_cons_self))

namespace Covers

variable {S S' : Statement → Prop} {more : List TokenInfo}

theorem mono (h : Covers S used) (hS : ∀ s, S s → S' s) : Covers S' used := by
  intro l a r heq ha
  obtain ⟨hl, hr, hcovered⟩ := h l a r heq ha
  exact ⟨hl, hr, fun name n haround => hS _ (hcovered name n haround)⟩

theorem nil : Covers S [] := NoAssign.covers (forall_mem_nil _)

theorem append (h : Covers S used) (hmore : Covers S more) : Covers S (used ++ more) := by
  intro l a r heq ha
  obtain ⟨m, rfl, hm⟩ | ⟨m, rfl, hm⟩ := append_eq_append_iff.1 heq
  · -- the sign is in the second part, and so is what stands in front of it
    obtain ⟨hne, hr, hcovered⟩ := hmore m a r hm ha
    refine ⟨append_ne_nil_of_right_ne_nil used hne, hr, fun name n haround => hcovered name n ?_⟩
    refine ⟨?_, haround.literal, haround.stop⟩
    rw [← getLast?_append_of_ne_nil used hne]
    exact haround.target
  · cases m with
    | nil =>
      rw [nil_append] at hm
      exact absurd rfl (hmore [] a r hm.symm ha).1
    | cons b m =>
      -- the sign is in the first part, and so are the two tokens behind it
      obtain ⟨rfl, hr⟩ := List.cons.inj hm
      rw [append_eq] at hr
      subst hr
      obtain ⟨hne, hr, hcovered⟩ := h l a m rfl ha
      refine ⟨hne, ?_, fun name n haround => hcovered name n ⟨haround.target, ?_, ?_⟩⟩
      · rw [length_append]
        omega
      · rw [← getElem?_append_left (by omega)]
        exact haround.literal
      · rw [← getElem?_append_left (by omega)]
        exact haround.stop

/-- A single sign. -/
theorem single {front back : List TokenInfo} {a : TokenInfo} (hfront : NoAssign front) (hback : NoAssign back)
    (hne : front ≠ []) (hlen : 2 ≤ back.length)
    (hcovered : ∀ name n, Around front back name n → S (.assign name (.intLiteral n))) :
    Covers S (front ++ a :: back) := by
  intro l b r heq hb
  obtain ⟨m, rfl, hm⟩ | ⟨m, rfl, hm⟩ := append_eq_append_iff.1 heq
  · cases m with
    | nil =>
      rw [nil_append] at hm
      obtain ⟨rfl, rfl⟩ := List.cons.inj hm
      rw [List.append_nil]
      exact ⟨hne, hlen, hcovered⟩
    | cons c m =>
      obtain ⟨rfl, rfl⟩ := List.cons.inj hm
      exact absurd hb (hback b (by simp))
  · cases m with
    | nil =>
      rw [nil_append] at hm
      obtain ⟨rfl, rfl⟩ := List.cons.inj hm
      rw [List.append_nil] at hne hcovered
      exact ⟨hne, hlen, hcovered⟩
    | cons c m =>
      obtain ⟨rfl, rfl⟩ := List.cons.inj hm
      exact absurd hb (hfront b (by simp))

end Covers

/-- Behind the sign stands an expression: it is a literal only where the assigned expression is one. -/
theorem Around.literal_of_expr {l value more : List TokenInfo} {stop : TokenInfo} {e : Expr} {name : String}
    {n : Int64} (h : Around l (value ++ stop :: more) name n) (hvalue : ExprTokens e value) :
    e = .intLiteral n ∧ stop.token = .semicolon := by
  obtain ⟨_, hliteral, hstop⟩ := h
  match value, hvalue with
  | [], hvalue => exact absurd rfl hvalue.ne_nil
  | [ti], hvalue => exact ⟨hvalue.literal ti n rfl (Option.some.inj hliteral), Option.some.inj hstop⟩
  | _ :: ti :: _, hvalue => exact absurd (Option.some.inj hstop) (hvalue.inExpr ti (by simp)).2

theorem ExprTokens.two_le {e : Expr} (h : ExprTokens e used) (ti : TokenInfo) : 2 ≤ (used ++ [ti]).length := by
  have := length_pos_iff.2 h.ne_nil
  rw [length_append, length_singleton]
  omega

theorem parseIdentStmt_consumes (fuel : Nat) :
    Consumes (parseIdentStmt fuel) fun s used => Covers (Occurs [s]) used := by
  refine expectIdent_consumes.bind fun name u₁ h₁ => ?_
  obtain ⟨x, rfl, hx⟩ := h₁
  have hname : NoAssign [x] := .single hx (by nofun)
  refine peekToken_consumes (.fail _) fun next => Consumes.ahead ?_ next
  split
  · -- an element of an array: the bracket stands in front of the sign
    refine (expect_consumes _).bind fun _ u₂ h₂ => (parseExpression_consumes fuel).bind fun index u₃ h₃ => ?_
    refine (expect_consumes _).bind fun _ u₄ h₄ => (expect_consumes _).bind fun _ u₅ h₅ => ?_
    refine (parseExpression_consumes fuel).bind fun value u₆ h₆ => (expect_consumes _).bind fun _ u₇ h₇ => .pure ?_
    obtain ⟨lb, rfl, hlb⟩ := h₂
    obtain ⟨rb, rfl, hrb⟩ := h₄
    obtain ⟨a, rfl, ha⟩ := h₅
    obtain ⟨semi, rfl, hsemi⟩ := h₇
    have hfront : NoAssign ([x] ++ [lb] ++ u₃ ++ [rb]) :=
      ((hname.append (.single hlb (by nofun))).append h₃.noAssign).append (.single hrb (by nofun))
    have hback : NoAssign (u₆ ++ [semi]) := h₆.noAssign.append (.single hsemi (by nofun))
    have hsingle : Covers (Occurs [.arrayAssign name.1 index value])
        ([x] ++ [lb] ++ u₃ ++ [rb] ++ a :: (u₆ ++ [semi])) := by
      refine Covers.single hfront hback nofun (h₆.two_le semi) fun name' n haround => ?_
      have htarget := haround.target
      rw [getLast?_concat, Option.map_some, hrb] at htarget
      cases htarget
    simpa only [List.append_assoc, cons_append, nil_append] using hsingle
  · refine (expect_consumes _).bind fun _ u₂ h₂ => (parseExpression_consumes fuel).bind fun value u₃ h₃ => ?_
    refine (expect_consumes _).bind fun _ u₄ h₄ => .pure ?_
    obtain ⟨a, rfl, ha⟩ := h₂
    obtain ⟨semi, rfl, hsemi⟩ := h₄
    have hback : NoAssign (u₃ ++ [semi]) := h₃.noAssign.append (.single hsemi (by nofun))
    refine Covers.single hname hback nofun (h₃.two_le semi) fun name' n haround => ?_
    obtain ⟨rfl, _⟩ := haround.literal_of_expr h₃
    have htarget := haround.target
    rw [getLast?_singleton, Option.map_some, hx] at htarget
    cases htarget
    exact .here
  · have hcall : Quiet (do
        expect .lparen
        let args ← parseArgs fuel
        expect .rparen
        expect .semicolon
        return .funCall name.1 args : Parser Statement) := by
      refine (expect_quiet (by nofun)).bind fun _ => (parseArgs_quiet fuel).bind fun _ => ?_
      exact (expect_quiet (by nofun)).bind fun _ => (expect_quiet (by nofun)).bind fun _ => .pure _
    exact hcall.mono fun s used hused => (hname.append hused).covers
  · exact .fail _

/-! ## Statements -/

theorem Covers.inside {s : Statement} {body : List Statement} (h : Covers (Occurs body) used)
    (hbody : body ∈ s.bodies) : Covers (Occurs [s]) used :=
  h.mono fun _ => .inside hbody

theorem parseOptional_consumes {α : Type} {p : Parser α} {S : α → Statement → Prop}
    (htoken : token ≠ .assign) (h : Consumes p fun a used => Covers (S a) used) (default : α) :
    Consumes (parseOptional token p default) fun a used => Covers (S a) used := by
  refine peekToken_consumes (.pure .nil) fun ti => Consumes.ahead ?_ ti
  split
  · refine Consumes.bind (expect_quiet htoken) fun _ used hused => h.mono fun a more hmore => ?_
    exact hused.covers.append hmore
  · exact .pure .nil

/-- What the statement parsers read, with the assignments that are found there. -/
structure StmtConsumes (fuel : Nat) : Prop where
  stmt : Consumes (parseStatement fuel) fun s used => Covers (Occurs [s]) used
  block : ∀ more, Consumes (parseStatementsWhile fuel more) fun body used => Covers (Occurs body) used
  ifThen : Consumes (parseIf fuel) fun s used => Covers (Occurs [s]) used
  whileDo : Consumes (parseWhile fuel) fun s used => Covers (Occurs [s]) used
  forDo : Consumes (parseFor fuel) fun s used => Covers (Occurs [s]) used
  case : Consumes (parseCase fuel) fun s used => Covers (Occurs [s]) used
  cases : Consumes (parseCases fuel) fun cases used => Covers (fun s => ∃ br ∈ cases, Occurs br.2 s) used
  repeatUntil : Consumes (parseRepeat fuel) fun s used => Covers (Occurs [s]) used

section

variable {fuel : Nat} (ih : StmtConsumes fuel)

include ih

theorem parseStatement_consumes : Consumes (parseStatement (fuel + 1)) fun s used => Covers (Occurs [s]) used := by
  have hquiet {token : Token} (htoken : token ≠ .assign) (s : Statement) :
      Consumes (do expect token; expect .semicolon; return s) fun s used => Covers (Occurs [s]) used := by
    have h : Quiet (do expect token; expect .semicolon; return s) :=
      (expect_quiet htoken).bind fun _ => (expect_quiet (by nofun)).bind fun _ => .pure _
    exact h.mono fun _ _ => NoAssign.covers
  unfold parseStatement
  refine peekToken_consumes (parseIdentStmt_consumes fuel) fun ti => Consumes.ahead ?_ ti
  split
  · exact ih.ifThen
  · exact ih.whileDo
  · exact ih.forDo
  · exact ih.case
  · exact ih.repeatUntil
  · exact hquiet (by nofun) .ret
  · exact hquiet (by nofun) .exit
  · exact parseIdentStmt_consumes fuel

theorem parseStatementsWhile_consumes (more : Option Token → Bool) :
    Consumes (parseStatementsWhile (fuel + 1) more) fun body used => Covers (Occurs body) used := by
  have hround : Consumes (do
      let stmt ← parseStatement fuel
      let stmts ← parseStatementsWhile fuel more
      return stmt :: stmts) fun body used => Covers (Occurs body) used := by
    refine ih.stmt.bind fun s u₁ h₁ => (ih.block more).bind fun rest u₂ h₂ => .pure ?_
    exact (h₁.mono fun _ => Occurs.head).append ((h₂.mono fun _ => .after).append .nil)
  unfold parseStatementsWhile
  refine peekToken_consumes ?_ fun ti => Consumes.ahead ?_ ti
  · split
    · exact hround
    · exact .pure .nil
  · split
    · exact hround
    · exact .pure .nil

theorem parseIf_consumes : Consumes (parseIf (fuel + 1)) fun s used => Covers (Occurs [s]) used := by
  unfold parseIf
  refine Consumes.bind (expect_quiet (by nofun)) fun _ u₁ h₁ => ?_
  refine Consumes.bind (parseExpression_quiet fuel) fun condition u₂ h₂ => ?_
  refine Consumes.bind (expect_quiet (by nofun)) fun _ u₃ h₃ => (ih.block _).bind fun thenBody u₄ h₄ => ?_
  refine (parseOptional_consumes (by nofun) (ih.block _) _).bind fun elseBody u₅ h₅ => ?_
  refine Consumes.bind (expect_quiet (by nofun)) fun _ u₆ h₆ => ?_
  refine Consumes.bind (expect_quiet (by nofun)) fun _ u₇ h₇ => .pure ?_
  have hthen : Covers (Occurs [.ifThen condition thenBody elseBody]) u₄ := h₄.inside (by simp [Statement.bodies])
  have helse : Covers (Occurs [.ifThen condition thenBody elseBody]) u₅ := h₅.inside (by simp [Statement.bodies])
  have hend : NoAssign (u₆ ++ (u₇ ++ [])) := h₆.append (h₇.append (forall_mem_nil _))
  exact h₁.covers.append (h₂.covers.append (h₃.covers.append (hthen.append (helse.append hend.covers))))

theorem parseWhile_consumes : Consumes (parseWhile (fuel + 1)) fun s used => Covers (Occurs [s]) used := by
  unfold parseWhile
  refine Consumes.bind (expect_quiet (by nofun)) fun _ u₁ h₁ => ?_
  refine Consumes.bind (parseExpression_quiet fuel) fun condition u₂ h₂ => ?_
  refine Consumes.bind (expect_quiet (by nofun)) fun _ u₃ h₃ => (ih.block _).bind fun body u₄ h₄ => ?_
  refine Consumes.bind (expect_quiet (by nofun)) fun _ u₅ h₅ => ?_
  refine Consumes.bind (expect_quiet (by nofun)) fun _ u₆ h₆ => .pure ?_
  have hbody : Covers (Occurs [.whileDo condition body]) u₄ := h₄.inside mem_cons_self
  have hend : NoAssign (u₅ ++ (u₆ ++ [])) := h₅.append (h₆.append (forall_mem_nil _))
  exact h₁.covers.append (h₂.covers.append (h₃.covers.append (hbody.append hend.covers)))

theorem parseRepeat_consumes : Consumes (parseRepeat (fuel + 1)) fun s used => Covers (Occurs [s]) used := by
  unfold parseRepeat
  refine Consumes.bind (expect_quiet (by nofun)) fun _ u₁ h₁ => (ih.block _).bind fun body u₂ h₂ => ?_
  refine Consumes.bind (expect_quiet (by nofun)) fun _ u₃ h₃ => ?_
  refine Consumes.bind (parseExpression_quiet fuel) fun condition u₄ h₄ => ?_
  refine Consumes.bind (expect_quiet (by nofun)) fun _ u₅ h₅ => ?_
  refine Consumes.bind (expect_quiet (by nofun)) fun _ u₆ h₆ => .pure ?_
  have hbody : Covers (Occurs [.repeatUntil body condition]) u₂ := h₂.inside mem_cons_self
  have hend : NoAssign (u₃ ++ (u₄ ++ (u₅ ++ (u₆ ++ [])))) :=
    h₃.append (h₄.append (h₅.append (h₆.append (forall_mem_nil _))))
  exact h₁.covers.append (hbody.append hend.covers)

theorem parseCases_consumes : Consumes (parseCases (fuel + 1)) fun cases used =>
    Covers (fun s => ∃ br ∈ cases, Occurs br.2 s) used := by
  have hround : Consumes (do
      let values ← parseCaseValues fuel
      let body ← parseStatementsWhile fuel inCaseBody
      let cases ← parseCases fuel
      return (values, body) :: cases) fun cases used => Covers (fun s => ∃ br ∈ cases, Occurs br.2 s) used := by
    refine Consumes.bind (parseCaseValues_quiet fuel) fun values u₁ h₁ => ?_
    refine (ih.block _).bind fun body u₂ h₂ => ih.cases.bind fun cases u₃ h₃ => .pure ?_
    refine h₁.covers.append ((h₂.mono fun s hs => ?_).append ((h₃.mono fun s hs => ?_).append .nil))
    · exact ⟨(values, body), mem_cons_self, hs⟩
    · obtain ⟨br, hbr, hs⟩ := hs
      exact ⟨br, mem_cons_of_mem _ hbr, hs⟩
  unfold parseCases
  refine peekToken_consumes ?_ fun ti => Consumes.ahead ?_ ti
  · exact hround
  · split
    · exact .pure .nil
    · exact hround

theorem parseCase_consumes : Consumes (parseCase (fuel + 1)) fun s used => Covers (Occurs [s]) used := by
  unfold parseCase
  refine Consumes.bind (expect_quiet (by nofun)) fun _ u₁ h₁ => Consumes.bind expectIdent_quiet fun name u₂ h₂ => ?_
  refine Consumes.bind (expect_quiet (by nofun)) fun _ u₃ h₃ => ih.cases.bind fun cases u₄ h₄ => ?_
  refine (parseOptional_consumes (by nofun) (ih.block _) _).bind fun elseBody u₅ h₅ => ?_
  refine Consumes.bind (expect_quiet (by nofun)) fun _ u₆ h₆ => ?_
  refine Consumes.bind (expect_quiet (by nofun)) fun _ u₇ h₇ => .pure ?_
  have hcases : Covers (Occurs [.case name.1 cases elseBody]) u₄ := by
    refine h₄.mono fun s hs => ?_
    obtain ⟨br, hbr, hs⟩ := hs
    exact .inside (mem_append_left _ (mem_map_of_mem hbr)) hs
  have helse : Covers (Occurs [.case name.1 cases elseBody]) u₅ := h₅.inside (by simp [Statement.bodies])
  have hend : NoAssign (u₆ ++ (u₇ ++ [])) := h₆.append (h₇.append (forall_mem_nil _))
  exact h₁.covers.append (h₂.covers.append (h₃.covers.append (hcases.append (helse.append hend.covers))))

theorem parseFor_consumes : Consumes (parseFor (fuel + 1)) fun s used => Covers (Occurs [s]) used := by
  unfold parseFor
  refine (expect_consumes _).bind fun _ u₁ h₁ => expectIdent_consumes.bind fun name u₂ h₂ => ?_
  refine (expect_consumes _).bind fun _ u₃ h₃ => (parseExpression_consumes fuel).bind fun start u₄ h₄ => ?_
  refine (expect_consumes _).bind fun _ u₅ h₅ => Consumes.bind (parseExpression_quiet fuel) fun stop u₆ h₆ => ?_
  have hstep : Consumes (parseOptional .by_ (some <$> parseExpression fuel) none) fun _ used =>
      Covers (fun _ => False) used := by
    refine parseOptional_consumes (by nofun) (Consumes.bind (parseExpression_quiet fuel) fun e used hused => .pure ?_) _
    rw [List.append_nil]
    exact hused.covers
  refine hstep.bind fun step u₇ h₇ => Consumes.bind (expect_quiet (by nofun)) fun _ u₈ h₈ => ?_
  refine (ih.block _).bind fun body u₉ h₉ => Consumes.bind (expect_quiet (by nofun)) fun _ u₁₀ h₁₀ => ?_
  refine Consumes.bind (expect_quiet (by nofun)) fun _ u₁₁ h₁₁ => .pure ?_
  obtain ⟨f, rfl, hf⟩ := h₁
  obtain ⟨x, rfl, hx⟩ := h₂
  obtain ⟨a, rfl, ha⟩ := h₃
  obtain ⟨t, rfl, ht⟩ := h₅
  -- the sign of the head, in front of an expression and `TO`
  have hhead : Covers (Occurs [.forDo name.1 start stop step body]) ([f] ++ [x] ++ a :: (u₄ ++ [t])) := by
    have hfront : NoAssign ([f] ++ [x]) := NoAssign.append (.single hf (by nofun)) (.single hx (by nofun))
    have hback : NoAssign (u₄ ++ [t]) := h₄.noAssign.append (.single ht (by nofun))
    refine Covers.single hfront hback nofun (h₄.two_le t) fun name' n haround => ?_
    obtain ⟨_, hsemicolon⟩ := haround.literal_of_expr h₄
    cases ht.symm.trans hsemicolon
  have hbody : Covers (Occurs [.forDo name.1 start stop step body]) u₉ := h₉.inside mem_cons_self
  have hend : NoAssign (u₁₀ ++ (u₁₁ ++ [])) := h₁₀.append (h₁₁.append (forall_mem_nil _))
  have hrest := h₆.covers.append ((h₇.mono fun _ => False.elim).append (h₈.covers.append (hbody.append hend.covers)))
  simpa only [List.append_assoc, cons_append, nil_append] using hhead.append hrest

end

theorem stmtConsumes (fuel : Nat) : StmtConsumes fuel := by
  induction fuel with
  | zero =>
    exact ⟨.outOfFuel, fun _ => .outOfFuel, .outOfFuel, .outOfFuel, .outOfFuel, .outOfFuel, .outOfFuel, .outOfFuel⟩
  | succ fuel ih =>
    exact {
      stmt := parseStatement_consumes ih
      block := parseStatementsWhile_consumes ih
      ifThen := parseIf_consumes ih
      whileDo := parseWhile_consumes ih
      forDo := parseFor_consumes ih
      case := parseCase_consumes ih
      cases := parseCases_consumes ih
      repeatUntil := parseRepeat_consumes ih }

/-! ## Functions and programs -/

theorem parseBlocks_quiet (fuel : Nat) (blocks : Blocks) : Quiet (parseBlocks fuel blocks) := by
  induction fuel generalizing blocks with
  | zero => exact .outOfFuel
  | succ fuel ih =>
    unfold parseBlocks
    refine peekToken_consumes (Quiet.pure blocks) fun ti => Consumes.ahead ?_ ti
    split
    · exact (parseParamBlock_quiet fuel (by nofun) (by nofun)).bind fun vars => ih _
    · exact (parseParamBlock_quiet fuel (by nofun) (by nofun)).bind fun vars => ih _
    · exact (parseParamBlock_quiet fuel (by nofun) (by nofun)).bind fun vars => ih _
    · exact (parseVarBlock_quiet fuel).bind fun vars => ih _
    · exact Quiet.pure blocks

theorem parseFunctionDef_consumes (fuel : Nat) :
    Consumes (parseFunctionDef fuel) fun f used => Covers (Occurs f.body) used := by
  refine Consumes.bind (expect_quiet (by nofun)) fun _ u₁ h₁ => Consumes.bind expectIdent_quiet fun name u₂ h₂ => ?_
  refine Consumes.bind (expect_quiet (by nofun)) fun _ u₃ h₃ => ?_
  refine Consumes.bind (parseVarType_quiet fuel) fun returnType u₄ h₄ => ?_
  refine Consumes.bind (expect_quiet (by nofun)) fun _ u₅ h₅ => ?_
  refine Consumes.bind (parseBlocks_quiet fuel _) fun blocks u₆ h₆ => ?_
  refine ((stmtConsumes fuel).block _).bind fun body u₇ h₇ => ?_
  refine Consumes.bind (expect_quiet (by nofun)) fun _ u₈ h₈ => ?_
  refine Consumes.bind (expect_quiet (by nofun)) fun _ u₉ h₉ => .pure ?_
  have hend : NoAssign (u₈ ++ (u₉ ++ [])) := h₈.append (h₉.append (forall_mem_nil _))
  have hhead : NoAssign (u₁ ++ (u₂ ++ (u₃ ++ (u₄ ++ (u₅ ++ u₆))))) :=
    h₁.append (h₂.append (h₃.append (h₄.append (h₅.append h₆))))
  simpa only [List.append_assoc] using hhead.covers.append (h₇.append hend.covers)

/-- The statement stands in the body or in one of the functions. -/
def InItems (items : List Statement × List FunctionDef) (s : Statement) : Prop :=
  Occurs items.1 s ∨ ∃ f ∈ items.2, Occurs f.body s

theorem parseItems_consumes (fuel : Nat) :
    Consumes (parseItems fuel) fun items used => Covers (InItems items) used := by
  induction fuel with
  | zero => exact .outOfFuel
  | succ fuel ih =>
    unfold parseItems
    refine peekToken_consumes (.fail _) fun ti => Consumes.ahead ?_ ti
    split
    · refine (parseFunctionDef_consumes fuel).bind fun f u₁ h₁ => ih.bind fun items u₂ h₂ => .pure ?_
      refine (h₁.mono fun s hs => ?_).append ((h₂.mono fun s hs => ?_).append .nil)
      · exact .inr ⟨f, mem_cons_self, hs⟩
      · rcases hs with hs | ⟨g, hg, hs⟩
        · exact .inl hs
        · exact .inr ⟨g, mem_cons_of_mem f hg, hs⟩
    · exact .pure .nil
    · refine (stmtConsumes fuel).stmt.bind fun stmt u₁ h₁ => ih.bind fun items u₂ h₂ => .pure ?_
      refine (h₁.mono fun s hs => .inl hs.head).append ((h₂.mono fun s hs => ?_).append .nil)
      exact hs.imp .after id
    · exact .fail _

theorem parseProgramInner_consumes (fuel : Nat) : Consumes (parseProgramInner fuel) fun p used =>
    ∃ front ti, used = front ++ [ti] ∧ ti.token = .endProgram ∧ Covers p.Contains front := by
  refine Consumes.bind (expect_quiet (by nofun)) fun _ u₁ h₁ => Consumes.bind expectIdent_quiet fun name u₂ h₂ => ?_
  have hvariables : Quiet (parseVariables fuel) := by
    refine peekToken_consumes (Quiet.pure []) fun ti => Consumes.ahead ?_ ti
    split
    · exact parseVarBlock_quiet fuel
    · exact Quiet.pure []
  refine Consumes.bind hvariables fun vars u₃ h₃ => ?_
  dsimp only
  split
  · exact .fail _
  · refine (parseItems_consumes fuel).bind fun items u₄ h₄ => (expect_consumes _).bind fun _ u₅ h₅ => .pure ?_
    obtain ⟨ti, rfl, hti⟩ := h₅
    refine ⟨u₁ ++ (u₂ ++ (u₃ ++ u₄)), ti, by simp only [List.append_assoc, List.append_nil], hti, ?_⟩
    exact h₁.covers.append (h₂.covers.append (h₃.covers.append h₄))

/-- `name := literal;` stands in the tokens, in front of `END_PROGRAM`. -/
def AssignedIn (tokens : List TokenInfo) (name : String) (literal : TokenInfo) : Prop :=
  ∃ front back : List TokenInfo, ∃ target sign stop : TokenInfo,
    tokens = front ++ target :: sign :: literal :: stop :: back ∧ target.token = .identifier name ∧
    sign.token = .assign ∧ (∃ n, literal.token = .integerLiteral n) ∧ stop.token = .semicolon ∧
    ∀ ti ∈ front, ti.token ≠ .endProgram

/-- **The assignments of literals in the tokens are those of the program.** -/
theorem parseProgramInner_contains {fuel : Nat} {tokens rest : List TokenInfo} {p : Program} {name : String}
    {literal : TokenInfo} {n : Int64} (hrun : parseProgramInner fuel tokens = .ok p rest)
    (hassigned : AssignedIn tokens name literal) (hliteral : literal.token = .integerLiteral n) :
    p.Contains (.assign name (.intLiteral n)) := by
  obtain ⟨_, rfl, used, last, rfl, hlast, hcovers⟩ := parseProgramInner_consumes fuel tokens p rest hrun
  obtain ⟨front, back, target, sign, stop, heq, htarget, hsign, _, hstop, hfront⟩ := hassigned
  have hwindow : ∀ ti ∈ front ++ [target, sign, literal, stop], ti.token ≠ .endProgram := by
    intro ti hti
    rcases mem_append.1 hti with hti | hti
    · exact hfront ti hti
    · simp only [mem_cons, not_mem_nil, or_false] at hti
      rcases hti with rfl | rfl | rfl | rfl
      · rw [htarget]; nofun
      · rw [hsign]; nofun
      · rw [hliteral]; nofun
      · rw [hstop]; nofun
  -- `END_PROGRAM` is behind the assignment
  have heq' : used ++ last :: rest = (front ++ [target, sign, literal, stop]) ++ back := by
    simpa only [List.append_assoc, cons_append, nil_append] using heq
  obtain ⟨mid, rfl⟩ : ∃ mid, used = (front ++ [target, sign, literal, stop]) ++ mid := by
    obtain ⟨mid, hmid, hback⟩ | ⟨mid, hused, _⟩ := append_eq_append_iff.1 heq'
    · cases mid with
      | nil => exact ⟨[], by rw [hmid, List.append_nil, List.append_nil]⟩
      | cons ti mid =>
        obtain ⟨rfl, _⟩ := List.cons.inj hback
        exact absurd hlast (hwindow last (by rw [hmid]; simp))
    · exact ⟨mid, hused⟩
  have hplace : (front ++ [target, sign, literal, stop]) ++ mid =
      (front ++ [target]) ++ sign :: (literal :: stop :: mid) := by
    simp only [List.append_assoc, cons_append, nil_append]
  refine (hcovers _ sign _ hplace hsign).2.2 name n ⟨?_, congrArg some hliteral, congrArg some hstop⟩
  rw [getLast?_concat, Option.map_some, htarget]

end Audesys.St
