import Audesys.St.Parser

/-!
# `St.Progress` — parsing ends

Every parser ends on every input once it has three units of fuel for each token and some more, and more fuel
changes nothing (`Settles`). The measure is the number of tokens left: a recursive call on the same tokens goes
down one of three levels, from expression or block to operand or statement to what starts with a token of its own,
and a call from the lowest level comes after a token was used up.
-/

namespace Audesys.St

open Audesys.Hal
open Lib (Parser.Settles Parser.SettlesAt)
open Lib.Parser (Settles SettlesAt)

variable [Target] {n : Nat}
variable {fuel fuel' : Nat}

/-! ## Tokens -/

theorem peekToken_settles : Settles n 0 peekToken peekToken :=
  Settles.peek.bind fun _ _ _ => .pure _

theorem expect_settles (token : Token) : Settles n 1 (expect token) (expect token) := by
  refine Settles.next_bind (.fail _) fun ti m hm => ?_
  dsimp only
  split
  · exact .pure _
  · exact .fail _

/-- The end of a production: the last token is read and the result returned. -/
theorem expect_one {α : Type} {a : α} {token : Token} :
    Settles n 0 (expect token >>= fun _ => pure a) (expect token >>= fun _ => pure a) :=
  (expect_settles _).bind fun _ _ _ => .pure _

theorem expect_two {α : Type} {a : α} {token token' : Token} :
    Settles n 0 (expect token >>= fun _ => expect token' >>= fun _ => pure a)
      (expect token >>= fun _ => expect token' >>= fun _ => pure a) :=
  (expect_settles _).bind fun _ _ _ => expect_one

theorem expectIdent_settles : Settles n 1 expectIdent expectIdent := by
  refine Settles.next_bind (.fail _) fun ti m hm => ?_
  dsimp only
  split
  · exact .pure _
  · exact .fail _

omit [Target] in
/-- A bound above a successor. -/
theorem exists_more (h : fuel + 1 ≤ fuel') : ∃ k, fuel' = k + 1 ∧ fuel ≤ k := ⟨fuel' - 1, by omega, by omega⟩

/-! ## Expressions -/

structure ExprSettles (fuel fuel' : Nat) : Prop where
  prec : ∀ n minPrec, 3 * n + 3 ≤ fuel → Settles n 1 (parseExprPrec fuel minPrec) (parseExprPrec fuel' minPrec)
  climb : ∀ n minPrec left, 3 * n + 1 ≤ fuel → Settles n 0 (climb fuel minPrec left) (climb fuel' minPrec left)
  unary : ∀ n, 3 * n + 2 ≤ fuel → Settles n 1 (parseUnary fuel) (parseUnary fuel')
  primary : ∀ n, 3 * n + 1 ≤ fuel → Settles n 1 (parsePrimary fuel) (parsePrimary fuel')

theorem climb_settles {fuel fuel' minPrec : Nat} {left : Expr} (ih : ExprSettles fuel fuel')
    (hfuel : 3 * n + 1 ≤ fuel + 1) :
    Settles n 0 (climb (fuel + 1) minPrec left) (climb (fuel' + 1) minPrec left) := by
  rintro (_ | ⟨ti, ts⟩) hts
  · exact Settles.pure left [] hts
  · unfold climb
    rw [List.length_cons] at hts
    rw [peekToken_bind, peekToken_bind]
    simp only [List.head?_cons, Option.map_some, Option.bind_some]
    cases tokenToBinop ti.token with
    | none => exact Settles.pure left (ti :: ts) hts
    | some op =>
      dsimp only
      split
      · -- the operator is used up before the right operand is read
        refine SettlesAt.step (Settles.bind (ih.prec ts.length _ (by omega)) (fun right m hm => ?_) ts (Nat.le_refl _))
        exact ih.climb m _ _ (by omega)
      · exact Settles.pure left (ti :: ts) hts

theorem parseUnary_settles (ih : ExprSettles fuel fuel') (hfuel : 3 * n + 2 ≤ fuel + 1) :
    Settles n 1 (parseUnary (fuel + 1)) (parseUnary (fuel' + 1)) := by
  rintro (_ | ⟨ti, ts⟩) hts
  · exact ih.primary 0 (by omega) [] (Nat.le_refl 0)
  · unfold parseUnary
    rw [List.length_cons] at hts
    rw [peekToken_bind, peekToken_bind]
    simp only [List.head?_cons, Option.map_some]
    have hoperand (op : UnaryOp) : SettlesAt 1 (ts.length + 1)
        ((parseUnary fuel >>= fun expr => pure (.unary op expr) : Parser Expr) ts)
        ((parseUnary fuel' >>= fun expr => pure (.unary op expr) : Parser Expr) ts) :=
      SettlesAt.step (Settles.bind (ih.unary ts.length (by omega)) (fun _ _ _ => .pure _) ts (Nat.le_refl _))
    generalize some ti.token = token
    split
    · exact hoperand .neg
    · exact hoperand .not
    · exact ih.primary n (by omega) (ti :: ts) hts

theorem parsePrimary_settles (ih : ExprSettles fuel fuel') (hfuel : 3 * n + 1 ≤ fuel + 1) :
    Settles n 1 (parsePrimary (fuel + 1)) (parsePrimary (fuel' + 1)) := by
  unfold parsePrimary
  refine Settles.next_bind (.fail _) fun ti m hm => ?_
  dsimp only
  split
  · exact .pure _
  · exact .pure _
  · split
    · exact .pure _
    · split
      · exact .pure _
      · refine peekToken_settles.bind fun token m' hm' => ?_
        split
        · refine (expect_settles _).bind fun _ k hk => (ih.prec k 0 (by omega)).bind fun index k' hk' => ?_
          exact expect_one
        · exact (expect_settles _).bind fun _ _ _ => expectIdent_settles.bind fun _ _ _ => .pure _
        · exact .pure _
  · refine (ih.prec m 0 (by omega)).bind fun expr k hk => ?_
    exact expect_one
  · exact .fail _

theorem exprSettles (h : fuel ≤ fuel') : ExprSettles fuel fuel' := by
  induction fuel generalizing fuel' with
  | zero => constructor <;> intros <;> omega
  | succ fuel ih =>
    obtain ⟨fuel', rfl, hle⟩ := exists_more h
    have ih := ih hle
    exact {
      prec n minPrec hfuel := (ih.unary n (by omega)).bind fun left m hm => ih.climb m minPrec left (by omega)
      climb n minPrec left hfuel := climb_settles ih hfuel
      unary n hfuel := parseUnary_settles ih hfuel
      primary n hfuel := parsePrimary_settles ih hfuel }

theorem parseExpression_settles (h : fuel ≤ fuel') (hfuel : 3 * n + 3 ≤ fuel) :
    Settles n 1 (parseExpression fuel) (parseExpression fuel') :=
  (exprSettles h).prec n 0 hfuel

/-! ## Declarations -/

theorem parseStringLength_settles : Settles n 0 parseStringLength parseStringLength := by
  refine peekToken_settles.bind fun token m hm => ?_
  split
  · refine (expect_settles _).bind fun _ k hk => Settles.next_bind (.fail _) fun ti k' hk' => ?_
    split
    · exact (expect_settles _).mono (Nat.le_refl _) (Nat.zero_le _)
    · exact .fail _
  · exact .pure _

theorem parseVarType_settles (h : fuel ≤ fuel') (hfuel : 3 * n + 1 ≤ fuel) :
    Settles n 1 (parseVarType fuel) (parseVarType fuel') := by
  induction fuel generalizing n fuel' with
  | zero => omega
  | succ fuel ih =>
    obtain ⟨fuel', rfl, hle⟩ := exists_more h
    unfold parseVarType
    refine Settles.next_bind (.fail _) fun ti m hm => ?_
    dsimp only
    split
    · exact parseStringLength_settles.bind fun _ _ _ => .pure _
    · refine (expect_settles _).bind fun _ m₁ h₁ => ?_
      refine (parseExpression_settles hle (by omega)).bind fun _ m₂ h₂ => ?_
      refine (expect_settles _).bind fun _ m₃ h₃ => ?_
      refine (parseExpression_settles hle (by omega)).bind fun _ m₄ h₄ => ?_
      refine (expect_settles _).bind fun _ m₅ h₅ => (expect_settles _).bind fun _ m₆ h₆ => ?_
      exact (ih hle (by omega)).bind fun _ _ _ => .pure _
    · split
      · exact .pure _
      · exact .fail _

theorem parseDeclaration_settles (h : fuel ≤ fuel') (hfuel : 3 * n ≤ fuel + 2) :
    Settles n 1 (parseDeclaration fuel) (parseDeclaration fuel') := by
  refine expectIdent_settles.bind fun name m₁ h₁ => (expect_settles _).bind fun _ m₂ h₂ => ?_
  refine (parseVarType_settles h (by omega)).bind fun varType m₃ h₃ => ?_
  exact expect_one

theorem parseDeclarations_settles (h : fuel ≤ fuel') (hfuel : 3 * n + 1 ≤ fuel) (stop : Token)
    (vars : List Variable) :
    Settles n 0 (parseDeclarations fuel stop vars) (parseDeclarations fuel' stop vars) := by
  induction fuel generalizing n fuel' vars with
  | zero => omega
  | succ fuel ih =>
    obtain ⟨fuel', rfl, hle⟩ := exists_more h
    unfold parseDeclarations
    refine peekToken_settles.bind fun token m hm => ?_
    split
    · refine (parseDeclaration_settles hle (by omega)).bind fun v k hk => ?_
      dsimp only
      split
      · exact .fail _
      · exact ih hle (by omega) _
    · exact .pure _

theorem parseVarBlock_settles (h : fuel ≤ fuel') (hfuel : 3 * n + 1 ≤ fuel) :
    Settles n 1 (parseVarBlock fuel) (parseVarBlock fuel') := by
  refine (expect_settles _).bind fun _ m₁ h₁ => ?_
  refine (parseDeclarations_settles h (by omega) _ _).bind fun vars m₂ h₂ => ?_
  refine (expect_settles _).bind fun _ m₃ h₃ => peekToken_settles.bind fun token m₄ h₄ => ?_
  dsimp only
  split
  · exact Settles.next_bind (.pure _) fun _ _ _ => .pure _
  · exact .pure _

theorem parseParamBlock_settles (h : fuel ≤ fuel') (hfuel : 3 * n + 1 ≤ fuel)
    (start stop : Token) : Settles n 1 (parseParamBlock fuel start stop) (parseParamBlock fuel' start stop) := by
  refine (expect_settles _).bind fun _ m₁ h₁ => ?_
  refine (parseDeclarations_settles h (by omega) _ _).bind fun vars m₂ h₂ => ?_
  exact expect_two

/-! ## Statements -/

theorem parseMoreArgs_settles (h : fuel ≤ fuel') (hfuel : 3 * n + 1 ≤ fuel) :
    Settles n 0 (parseMoreArgs fuel) (parseMoreArgs fuel') := by
  induction fuel generalizing n fuel' with
  | zero => omega
  | succ fuel ih =>
    obtain ⟨fuel', rfl, hle⟩ := exists_more h
    unfold parseMoreArgs
    refine peekToken_settles.bind fun token m hm => ?_
    split
    · refine (expect_settles _).bind fun _ m₁ h₁ => ?_
      refine (parseExpression_settles hle (by omega)).bind fun arg m₂ h₂ => ?_
      exact (ih hle (by omega)).bind fun _ _ _ => .pure _
    · exact .pure _

theorem parseArgs_settles (h : fuel ≤ fuel') (hfuel : 3 * n + 3 ≤ fuel) :
    Settles n 0 (parseArgs fuel) (parseArgs fuel') := by
  refine peekToken_settles.bind fun token m hm => ?_
  split
  · refine (parseExpression_settles h (by omega)).bind fun arg m₁ h₁ => ?_
    exact (parseMoreArgs_settles h (by omega)).bind fun _ _ _ => .pure _
  · exact .pure _

theorem parseIdentStmt_settles (h : fuel ≤ fuel') (hfuel : 3 * n + 1 ≤ fuel) :
    Settles n 1 (parseIdentStmt fuel) (parseIdentStmt fuel') := by
  refine expectIdent_settles.bind fun name m hm => peekToken_settles.bind fun token m' hm' => ?_
  split
  · refine (expect_settles _).bind fun _ m₁ h₁ => ?_
    refine (parseExpression_settles h (by omega)).bind fun index m₂ h₂ => ?_
    refine (expect_settles _).bind fun _ m₃ h₃ => (expect_settles _).bind fun _ m₄ h₄ => ?_
    refine (parseExpression_settles h (by omega)).bind fun value m₅ h₅ => ?_
    exact expect_one
  · refine (expect_settles _).bind fun _ m₁ h₁ => ?_
    refine (parseExpression_settles h (by omega)).bind fun value m₂ h₂ => ?_
    exact expect_one
  · refine (expect_settles _).bind fun _ m₁ h₁ => (parseArgs_settles h (by omega)).bind fun args m₂ h₂ => ?_
    exact expect_two
  · exact .fail _

theorem parseReturn_settles : Settles n 1 parseReturn parseReturn :=
  (expect_settles _).bind fun _ _ _ => expect_one

theorem parseExit_settles : Settles n 1 parseExit parseExit :=
  (expect_settles _).bind fun _ _ _ => expect_one

theorem parseCaseValues_settles (h : fuel ≤ fuel') (hfuel : 3 * n + 1 ≤ fuel) :
    Settles n 1 (parseCaseValues fuel) (parseCaseValues fuel') := by
  induction fuel generalizing n fuel' with
  | zero => omega
  | succ fuel ih =>
    obtain ⟨fuel', rfl, hle⟩ := exists_more h
    have hmore {m : Nat} (hm : m + 1 ≤ n) (v : Int64) : Settles m 0
        (parseCaseValues fuel >>= fun values => pure (v :: values) : Parser (List Int64))
        (parseCaseValues fuel' >>= fun values => pure (v :: values)) :=
      (ih hle (by omega)).bind fun _ _ _ => .pure _
    unfold parseCaseValues
    refine Settles.next_bind (.fail _) fun ti m hm => ?_
    dsimp only
    split
    · refine peekToken_settles.bind fun token m' hm' => ?_
      split
      · exact Settles.next_bind (.pure _) fun _ _ _ => .pure _
      · refine Settles.next_bind (hmore (by omega) _) fun _ k hk => hmore (by omega) _
      · exact Settles.peek.bind fun _ _ _ => .fail _
    · exact .fail _

theorem parseOptional_settles {α : Type} {p q : Parser α} (token : Token) (h : Settles n 0 p q) (default : α) :
    Settles n 0 (parseOptional token p default) (parseOptional token q default) := by
  refine peekToken_settles.bind fun next m hm => ?_
  split
  · exact (expect_settles _).bind fun _ m' hm' => h.mono (by omega) (Nat.le_refl _)
  · exact .pure _

/-- The statement parsers under two bounds. A statement uses a token up, and so does every round of a loop over
    statements that goes on. -/
structure StmtSettles (fuel fuel' : Nat) : Prop where
  stmt : ∀ n, 3 * n + 2 ≤ fuel → Settles n 1 (parseStatement fuel) (parseStatement fuel')
  block : ∀ n more, 3 * n + 3 ≤ fuel →
    Settles n 0 (parseStatementsWhile fuel more) (parseStatementsWhile fuel' more)
  ifThen : ∀ n, 3 * n + 1 ≤ fuel → Settles n 1 (parseIf fuel) (parseIf fuel')
  whileDo : ∀ n, 3 * n + 1 ≤ fuel → Settles n 1 (parseWhile fuel) (parseWhile fuel')
  forDo : ∀ n, 3 * n + 1 ≤ fuel → Settles n 1 (parseFor fuel) (parseFor fuel')
  case : ∀ n, 3 * n + 1 ≤ fuel → Settles n 1 (parseCase fuel) (parseCase fuel')
  cases : ∀ n, 3 * n + 3 ≤ fuel → Settles n 0 (parseCases fuel) (parseCases fuel')
  repeatUntil : ∀ n, 3 * n + 1 ≤ fuel → Settles n 1 (parseRepeat fuel) (parseRepeat fuel')

section

variable (hle : fuel ≤ fuel') (ih : StmtSettles fuel fuel')

include hle ih

theorem parseStatement_settles (hfuel : 3 * n + 2 ≤ fuel + 1) :
    Settles n 1 (parseStatement (fuel + 1)) (parseStatement (fuel' + 1)) := by
  unfold parseStatement
  refine peekToken_settles.bind fun token m hm => ?_
  split
  · exact ih.ifThen m (by omega)
  · exact ih.whileDo m (by omega)
  · exact ih.forDo m (by omega)
  · exact ih.case m (by omega)
  · exact ih.repeatUntil m (by omega)
  · exact parseReturn_settles
  · exact parseExit_settles
  · exact parseIdentStmt_settles hle (by omega)

omit hle in
theorem parseStatementsWhile_settles (hfuel : 3 * n + 3 ≤ fuel + 1) (more : Option Token → Bool) :
    Settles n 0 (parseStatementsWhile (fuel + 1) more) (parseStatementsWhile (fuel' + 1) more) := by
  unfold parseStatementsWhile
  refine peekToken_settles.bind fun token m hm => ?_
  split
  · exact (ih.stmt m (by omega)).bind fun stmt k hk => (ih.block k more (by omega)).bind fun _ _ _ => .pure _
  · exact .pure _

theorem parseIf_settles (hfuel : 3 * n + 1 ≤ fuel + 1) :
    Settles n 1 (parseIf (fuel + 1)) (parseIf (fuel' + 1)) := by
  unfold parseIf
  refine (expect_settles _).bind fun _ m₁ h₁ => ?_
  refine (parseExpression_settles hle (by omega)).bind fun condition m₂ h₂ => ?_
  refine (expect_settles _).bind fun _ m₃ h₃ => (ih.block m₃ _ (by omega)).bind fun thenBody m₄ h₄ => ?_
  refine (parseOptional_settles _ (ih.block m₄ _ (by omega)) _).bind fun elseBody m₅ h₅ => ?_
  exact expect_two

theorem parseWhile_settles (hfuel : 3 * n + 1 ≤ fuel + 1) :
    Settles n 1 (parseWhile (fuel + 1)) (parseWhile (fuel' + 1)) := by
  unfold parseWhile
  refine (expect_settles _).bind fun _ m₁ h₁ => ?_
  refine (parseExpression_settles hle (by omega)).bind fun condition m₂ h₂ => ?_
  refine (expect_settles _).bind fun _ m₃ h₃ => (ih.block m₃ _ (by omega)).bind fun body m₄ h₄ => ?_
  exact expect_two

theorem parseFor_settles (hfuel : 3 * n + 1 ≤ fuel + 1) :
    Settles n 1 (parseFor (fuel + 1)) (parseFor (fuel' + 1)) := by
  unfold parseFor
  refine (expect_settles _).bind fun _ m₁ h₁ => expectIdent_settles.bind fun name m₂ h₂ => ?_
  refine (expect_settles _).bind fun _ m₃ h₃ => ?_
  refine (parseExpression_settles hle (by omega)).bind fun start m₄ h₄ => ?_
  refine (expect_settles _).bind fun _ m₅ h₅ => ?_
  refine (parseExpression_settles hle (by omega)).bind fun stop m₆ h₆ => ?_
  have hstep : Settles m₆ 1 (some <$> parseExpression fuel) (some <$> parseExpression fuel') :=
    (parseExpression_settles hle (by omega)).map _
  refine (parseOptional_settles _ (hstep.mono (Nat.le_refl _) (Nat.zero_le _)) _).bind fun step m₇ h₇ => ?_
  refine (expect_settles _).bind fun _ m₈ h₈ => (ih.block m₈ _ (by omega)).bind fun body m₉ h₉ => ?_
  exact expect_two

omit hle in
theorem parseCase_settles (hfuel : 3 * n + 1 ≤ fuel + 1) :
    Settles n 1 (parseCase (fuel + 1)) (parseCase (fuel' + 1)) := by
  unfold parseCase
  refine (expect_settles _).bind fun _ m₁ h₁ => expectIdent_settles.bind fun name m₂ h₂ => ?_
  refine (expect_settles _).bind fun _ m₃ h₃ => (ih.cases m₃ (by omega)).bind fun cases m₄ h₄ => ?_
  refine (parseOptional_settles _ (ih.block m₄ _ (by omega)) _).bind fun elseBody m₅ h₅ => ?_
  exact expect_two

theorem parseCases_settles (hfuel : 3 * n + 3 ≤ fuel + 1) :
    Settles n 0 (parseCases (fuel + 1)) (parseCases (fuel' + 1)) := by
  unfold parseCases
  refine peekToken_settles.bind fun token m hm => ?_
  split
  · exact .pure _
  · refine (parseCaseValues_settles hle (by omega)).bind fun values m₁ h₁ => ?_
    refine (ih.block m₁ _ (by omega)).bind fun body m₂ h₂ => ?_
    exact (ih.cases m₂ (by omega)).bind fun _ _ _ => .pure _

theorem parseRepeat_settles (hfuel : 3 * n + 1 ≤ fuel + 1) :
    Settles n 1 (parseRepeat (fuel + 1)) (parseRepeat (fuel' + 1)) := by
  unfold parseRepeat
  refine (expect_settles _).bind fun _ m₁ h₁ => (ih.block m₁ _ (by omega)).bind fun body m₂ h₂ => ?_
  refine (expect_settles _).bind fun _ m₃ h₃ => ?_
  refine (parseExpression_settles hle (by omega)).bind fun condition m₄ h₄ => ?_
  exact expect_two

end

theorem stmtSettles (h : fuel ≤ fuel') : StmtSettles fuel fuel' := by
  induction fuel generalizing fuel' with
  | zero => constructor <;> intros <;> omega
  | succ fuel ih =>
    obtain ⟨fuel', rfl, hle⟩ := exists_more h
    exact {
      stmt n hfuel := parseStatement_settles hle (ih hle) hfuel
      block n more hfuel := parseStatementsWhile_settles (ih hle) hfuel more
      ifThen n hfuel := parseIf_settles hle (ih hle) hfuel
      whileDo n hfuel := parseWhile_settles hle (ih hle) hfuel
      forDo n hfuel := parseFor_settles hle (ih hle) hfuel
      case n hfuel := parseCase_settles (ih hle) hfuel
      cases n hfuel := parseCases_settles hle (ih hle) hfuel
      repeatUntil n hfuel := parseRepeat_settles hle (ih hle) hfuel }

/-! ## Functions and programs -/

theorem parseBlocks_settles (h : fuel ≤ fuel') (hfuel : 3 * n + 2 ≤ fuel) (blocks : Blocks) :
    Settles n 0 (parseBlocks fuel blocks) (parseBlocks fuel' blocks) := by
  induction fuel generalizing n fuel' blocks with
  | zero => omega
  | succ fuel ih =>
    obtain ⟨fuel', rfl, hle⟩ := exists_more h
    unfold parseBlocks
    refine peekToken_settles.bind fun token m hm => ?_
    split
    · exact (parseParamBlock_settles hle (by omega) _ _).bind fun vars k hk => ih hle (by omega) _
    · exact (parseParamBlock_settles hle (by omega) _ _).bind fun vars k hk => ih hle (by omega) _
    · exact (parseParamBlock_settles hle (by omega) _ _).bind fun vars k hk => ih hle (by omega) _
    · exact (parseVarBlock_settles hle (by omega)).bind fun vars k hk => ih hle (by omega) _
    · exact .pure _

theorem parseFunctionDef_settles (h : fuel ≤ fuel') (hfuel : 3 * n + 1 ≤ fuel) :
    Settles n 1 (parseFunctionDef fuel) (parseFunctionDef fuel') := by
  refine (expect_settles _).bind fun _ m₁ h₁ => expectIdent_settles.bind fun name m₂ h₂ => ?_
  refine (expect_settles _).bind fun _ m₃ h₃ => ?_
  refine (parseVarType_settles h (by omega)).bind fun returnType m₄ h₄ => ?_
  refine (expect_settles _).bind fun _ m₅ h₅ => (parseBlocks_settles h (by omega) _).bind fun blocks m₆ h₆ => ?_
  refine ((stmtSettles h).block m₆ _ (by omega)).bind fun body m₇ h₇ => ?_
  exact expect_two

theorem parseItems_settles (h : fuel ≤ fuel') (hfuel : 3 * n + 3 ≤ fuel) :
    Settles n 0 (parseItems fuel) (parseItems fuel') := by
  induction fuel generalizing n fuel' with
  | zero => omega
  | succ fuel ih =>
    obtain ⟨fuel', rfl, hle⟩ := exists_more h
    unfold parseItems
    refine peekToken_settles.bind fun token m hm => ?_
    split
    · refine (parseFunctionDef_settles hle (by omega)).bind fun f k hk => ?_
      exact (ih hle (by omega)).bind fun _ _ _ => .pure _
    · exact .pure _
    · refine ((stmtSettles hle).stmt m (by omega)).bind fun stmt k hk => ?_
      exact (ih hle (by omega)).bind fun _ _ _ => .pure _
    · exact .fail _

theorem parseVariables_settles (h : fuel ≤ fuel') (hfuel : 3 * n + 1 ≤ fuel) :
    Settles n 0 (parseVariables fuel) (parseVariables fuel') := by
  refine peekToken_settles.bind fun token m hm => ?_
  split
  · exact (parseVarBlock_settles h (by omega)).mono (Nat.le_refl _) (Nat.zero_le _)
  · exact .pure _

theorem parseProgramInner_settles (h : fuel ≤ fuel') (hfuel : 3 * n + 3 ≤ fuel) :
    Settles n 1 (parseProgramInner fuel) (parseProgramInner fuel') := by
  refine (expect_settles _).bind fun _ m₁ h₁ => expectIdent_settles.bind fun name m₂ h₂ => ?_
  refine (parseVariables_settles h (by omega)).bind fun vars m₃ h₃ => ?_
  dsimp only
  split
  · exact .fail _
  · refine (parseItems_settles h (by omega)).bind fun items m₄ h₄ => ?_
    exact expect_one

/-- `parse_program`, which has all the fuel it needs. -/
def parseProgram (tokens : List TokenInfo) : Except ParseError Program :=
  (parseProgramInner (3 * tokens.length + 3) tokens).ended.get <| by
    obtain ⟨p, rest, hrun, _⟩ | ⟨e, hrun, _⟩ :=
      parseProgramInner_settles (Nat.le_refl _) (Nat.le_refl _) tokens (Nat.le_refl _)
    · rw [hrun]
      rfl
    · rw [hrun]
      rfl

theorem parseProgram_eq (tokens : List TokenInfo) {fuel : Nat} (h : 3 * tokens.length + 3 ≤ fuel) :
    (parseProgramInner fuel tokens).ended = some (parseProgram tokens) := by
  have hsame := (parseProgramInner_settles h (Nat.le_refl _)).eq (Nat.le_refl tokens.length)
  rw [← hsame]
  exact (Option.some_get _).symm

/-- A round of a loop ends with fewer tokens left or in an error, which at the end of the input is
    `UnexpectedEof`. -/
def MakesProgress {α : Type} (round : Nat → Parser α) : Prop :=
  ∀ fuel ts, 3 * ts.length + 3 ≤ fuel →
    (∃ a rest, round fuel ts = .ok a rest ∧ rest.length < ts.length) ∨
    ∃ e, round fuel ts = .error e ∧ (ts = [] → e = .unexpectedEof)

theorem MakesProgress.of_settles {α : Type} {round : Nat → Parser α}
    (h : ∀ fuel n, 3 * n + 3 ≤ fuel → Settles n 1 (round fuel) (round fuel))
    (hend : ∀ fuel, round (fuel + 3) [] = .error .unexpectedEof) : MakesProgress round := by
  intro fuel ts hfuel
  obtain ⟨a, rest, hrun, _, hlen⟩ | ⟨e, hrun, _⟩ := h fuel ts.length hfuel ts (Nat.le_refl _)
  · exact .inl ⟨a, rest, hrun, by omega⟩
  · refine .inr ⟨e, hrun, fun hts => ?_⟩
    obtain ⟨k, rfl⟩ : ∃ k, fuel = k + 3 := ⟨fuel - 3, by omega⟩
    rw [hts, hend k] at hrun
    exact (Lib.Parsed.error.inj hrun).symm

/-- **Parsing ends**, with a program or an error, whatever the tokens are: no deeper than three calls a token and
    three more. The rounds of the loops over statements, cases, declarations, blocks and functions all make
    progress. -/
theorem parseProgram_ends (tokens : List TokenInfo) :
    (∃ result, ∀ fuel, 3 * tokens.length + 3 ≤ fuel → (parseProgramInner fuel tokens).ended = some result) ∧
    MakesProgress parseStatement ∧ MakesProgress parseCaseValues ∧ MakesProgress parseDeclaration ∧
    (∀ start stop, MakesProgress (parseParamBlock · start stop)) ∧ MakesProgress parseVarBlock ∧
    MakesProgress parseFunctionDef := by
  refine ⟨⟨parseProgram tokens, fun fuel => parseProgram_eq tokens⟩, ?_, ?_, ?_, ?_, ?_, ?_⟩
  · exact .of_settles (fun fuel n h => (stmtSettles (Nat.le_refl fuel)).stmt n (by omega)) fun _ => rfl
  · exact .of_settles (fun fuel n h => parseCaseValues_settles (Nat.le_refl fuel) (by omega)) fun _ => rfl
  · exact .of_settles (fun fuel n h => parseDeclaration_settles (Nat.le_refl fuel) (by omega)) fun _ => rfl
  · intro start stop
    exact .of_settles (fun fuel n h => parseParamBlock_settles (Nat.le_refl fuel) (by omega) _ _) fun _ => rfl
  · exact .of_settles (fun fuel n h => parseVarBlock_settles (Nat.le_refl fuel) (by omega)) fun _ => rfl
  · exact .of_settles (fun fuel n h => parseFunctionDef_settles (Nat.le_refl fuel) (by omega)) fun _ => rfl

end Audesys.St
