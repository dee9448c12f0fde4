import Audesys.Hal.Host
import Audesys.St.Progress

/-!
# `St.Printing` — the expression parser undoes printing

An expression is printed with parentheses where the precedence of its operators and their associating to the left
require them: `printPrec q e` is `e` as an operand at precedence `q`. What is printed parses back, whatever follows
it, unless that goes on with the expression (`parseExpression_print`).

The induction carries the loop of precedence climbing as a continuation: to parse what was printed at `q`, at a
minimum of at most `q`, is to go on climbing with that expression on the left.
-/

open List

namespace Audesys.St

open Audesys.Hal
open Lib.Parser (Yields)

variable [Target]
variable {ts : List TokenInfo}

/-! ## Printing -/

def BinOp.token : BinOp → Token
  | .add => .plus
  | .sub => .minus
  | .mul => .star
  | .div => .slash
  | .eq => .equal
  | .neq => .notEqual
  | .gt => .greater
  | .lt => .less
  | .gte => .greaterEq
  | .lte => .lessEq
  | .and => .and
  | .or => .or
  | .mod => .mod
  | .xor => .xor

def UnaryOp.token : UnaryOp → Token
  | .neg => .minus
  | .not => .not

/-- Tighter than every binary operator. -/
def unaryPrecedence : Nat := 6

def printPrec : Nat → Expr → List Token
  | _, .intLiteral n => [.integerLiteral n]
  | _, .realLiteral x => [.realLiteral x]
  | _, .boolLiteral b => [.identifier (if b then "TRUE" else "FALSE")]
  | _, .var name => [.identifier name]
  | _, .arrayAccess name index => [.identifier name, .lbracket] ++ printPrec 0 index ++ [.rbracket]
  | _, .fieldAccess name field => [.identifier name, .dot, .identifier field]
  | _, .unary op inner => op.token :: printPrec unaryPrecedence inner
  | minPrec, .binary left op right =>
    let text := printPrec (precedence op) left ++ [op.token] ++ printPrec (precedence op + 1) right
    -- the left operand may be at the operator's own precedence, the right one may not
    if minPrec ≤ precedence op then text else [.lparen] ++ text ++ [.rparen]

def print (e : Expr) : List Token := printPrec 0 e

/-- `TRUE` and `FALSE` are literals, not the names of variables. -/
def Expr.Named : Expr → Prop
  | .intLiteral _ | .realLiteral _ | .boolLiteral _ => True
  | .var name | .fieldAccess name _ => name ≠ "TRUE" ∧ name ≠ "FALSE"
  | .arrayAccess name index => (name ≠ "TRUE" ∧ name ≠ "FALSE") ∧ index.Named
  | .unary _ inner => inner.Named
  | .binary left _ right => left.Named ∧ right.Named

/-- Tokens that do not go on with an operand at precedence `q`: no access, and no operator that binds tighter. -/
def EndsAt (q : Nat) (ts : List TokenInfo) : Prop :=
  ∀ ti ∈ ts.head?, ti.token ≠ .lbracket ∧ ti.token ≠ .dot ∧
    ∀ op, tokenToBinop ti.token = some op → precedence op ≤ q

/-- Tokens that do not start with a binary operator, `[` or `.`. -/
def EndsExpr (ts : List TokenInfo) : Prop :=
  ∀ ti ∈ ts.head?, tokenToBinop ti.token = none ∧ ti.token ≠ .lbracket ∧ ti.token ≠ .dot

omit [Target] in
theorem precedence_lt_unary (op : BinOp) : precedence op < unaryPrecedence := by
  cases op <;> decide

theorem BinOp.tokenToBinop_token (op : BinOp) : tokenToBinop (op.token : Token) = some op := by
  cases op <;> rfl

theorem EndsExpr.endsAt (h : EndsExpr ts) (q : Nat) : EndsAt q ts := by
  intro ti hti
  obtain ⟨hop, hbracket, hdot⟩ := h ti hti
  exact ⟨hbracket, hdot, fun op hop' => nomatch hop.symm.trans hop'⟩

theorem EndsAt.mono {q q' : Nat} (h : EndsAt q ts) (hq : q ≤ q') : EndsAt q' ts := by
  intro ti hti
  obtain ⟨hbracket, hdot, hop⟩ := h ti hti
  exact ⟨hbracket, hdot, fun op hop' => (hop op hop').trans hq⟩

/-- No binary operator binds more tightly than the unary ones. -/
theorem EndsAt.unary {q : Nat} (h : EndsAt q ts) : EndsAt unaryPrecedence ts := by
  intro ti hti
  obtain ⟨hbracket, hdot, _⟩ := h ti hti
  exact ⟨hbracket, hdot, fun op _ => (precedence_lt_unary op).le⟩

theorem endsAt_cons {q : Nat} {ti : TokenInfo} : EndsAt q (ti :: ts) ↔ ti.token ≠ .lbracket ∧ ti.token ≠ .dot ∧
      ∀ op, tokenToBinop ti.token = some op → precedence op ≤ q := by
  simp [EndsAt]

/-! ## One rule for each way to parse -/

section

variable {m : Nat} {left right e e' : Expr} {op : BinOp} {ti : TokenInfo} {mid rest : List TokenInfo}

theorem yields_exprPrec (hunary : Yields parseUnary ts left mid) (hclimb : Yields (climb · m left) mid e rest) :
    Yields (parseExprPrec · m) ts e rest :=
  .succ (hunary.bind (f := fun fuel left => climb fuel m left) hclimb)

/-- An operator that binds less tightly than the minimum ends the loop. -/
theorem yields_climb_stop (h : ∀ ti ∈ ts.head?, ∀ op, tokenToBinop ti.token = some op → precedence op < m) :
    Yields (climb · m left) ts left ts := by
  refine .succ (.of_eq fun fuel => ?_)
  rw [climb, peekToken_bind]
  cases ts with
  | nil => rfl
  | cons ti ts =>
    simp
    cases hop : tokenToBinop ti.token with
    | none => rfl
    | some op =>
      dsimp only
      rw [if_neg (Nat.not_le.2 (h ti rfl op hop))]
      rfl

theorem yields_climb_step (htoken : tokenToBinop ti.token = some op) (hop : m ≤ precedence op)
    (hright : Yields (parseExprPrec · (precedence op + 1)) ts right mid)
    (hclimb : Yields (climb · m (.binary left op right)) mid e rest) :
    Yields (climb · m left) (ti :: ts) e rest := by
  refine .succ ((hright.bind (f := fun fuel right => climb fuel m (.binary left op right)) hclimb).congr fun fuel => ?_)
  rw [climb, peekToken_bind]
  simp [htoken]
  rw [if_pos hop]
  rfl

theorem yields_unary (op : UnaryOp) (htoken : ti.token = op.token) (h : Yields parseUnary ts e rest) :
    Yields parseUnary (ti :: ts) (.unary op e) rest := by
  refine .succ ((h.bind (f := fun _ e => pure (.unary op e)) (.of_eq fun _ => rfl)).congr fun fuel => ?_)
  rw [parseUnary, peekToken_bind]
  simp [htoken]
  cases op <;> rfl

theorem yields_primary (hminus : ti.token ≠ .minus) (hnot : ti.token ≠ .not)
    (h : Yields parsePrimary (ti :: ts) e rest) : Yields parseUnary (ti :: ts) e rest := by
  refine .succ (h.congr fun fuel => ?_)
  rw [parseUnary, peekToken_bind]
  simp only [head?_cons, Option.map_some]
  have hminus : some ti.token ≠ some .minus := fun h => hminus (Option.some.inj h)
  have hnot : some ti.token ≠ some .not := fun h => hnot (Option.some.inj h)
  generalize some ti.token = token at hminus hnot
  split
  · exact absurd rfl hminus
  · exact absurd rfl hnot
  · rfl

theorem yields_parens {close : TokenInfo} (hopen : ti.token = .lparen) (hclose : close.token = .rparen)
    (h : Yields (parseExprPrec · 0) ts e (close :: rest)) : Yields parsePrimary (ti :: ts) e rest := by
  have hbody : Yields (fun fuel => parseExprPrec fuel 0 >>= fun e => expect .rparen >>= fun _ => pure e) ts e rest :=
    h.bind (f := fun _ e => expect .rparen >>= fun _ => pure e) (.of_eq fun _ => expect_bind_cons _ hclose rest)
  refine .succ (hbody.congr fun fuel => ?_)
  rw [parsePrimary, advance_bind]
  simp [hopen]

theorem yields_name {name : String} (hname : name ≠ "TRUE" ∧ name ≠ "FALSE") (htoken : ti.token = .identifier name)
    (hrest : ∀ next ∈ ts.head?, next.token ≠ .lbracket ∧ next.token ≠ .dot) :
    Yields parsePrimary (ti :: ts) (.var name) ts := by
  refine .succ (.of_eq fun fuel => ?_)
  rw [parsePrimary, advance_bind]
  simp [htoken]
  rw [if_neg hname.1, if_neg hname.2, peekToken_bind]
  cases ts with
  | nil => rfl
  | cons next ts =>
    obtain ⟨hbracket, hdot⟩ := hrest next rfl
    simp only [head?_cons, Option.map_some]
    have hbracket : some next.token ≠ some .lbracket := fun h => hbracket (Option.some.inj h)
    have hdot : some next.token ≠ some .dot := fun h => hdot (Option.some.inj h)
    generalize some next.token = token at hbracket hdot
    split
    · exact absurd rfl hbracket
    · exact absurd rfl hdot
    · rfl

theorem yields_array {name : String} {index : Expr} {bracket close : TokenInfo} (hname : name ≠ "TRUE" ∧ name ≠ "FALSE")
    (htoken : ti.token = .identifier name) (hbracket : bracket.token = .lbracket) (hclose : close.token = .rbracket)
    (h : Yields (parseExprPrec · 0) ts index (close :: rest)) :
    Yields parsePrimary (ti :: bracket :: ts) (.arrayAccess name index) rest := by
  have hindex : Yields (fun fuel => parseExprPrec fuel 0 >>= fun index => expect .rbracket >>= fun _ =>
      pure (Expr.arrayAccess name index)) ts (.arrayAccess name index) rest :=
    h.bind (f := fun _ index => expect .rbracket >>= fun _ => pure (Expr.arrayAccess name index))
      (.of_eq fun _ => expect_bind_cons _ hclose rest)
  refine .succ (hindex.congr fun fuel => ?_)
  rw [parsePrimary, advance_bind]
  simp [htoken]
  rw [if_neg hname.1, if_neg hname.2, peekToken_bind]
  simp only [head?_cons, Option.map_some, hbracket]
  exact expect_bind_cons _ hbracket ts

theorem yields_field {name field : String} {dot ident : TokenInfo} (hname : name ≠ "TRUE" ∧ name ≠ "FALSE")
    (htoken : ti.token = .identifier name) (hdot : dot.token = .dot) (hfield : ident.token = .identifier field) :
    Yields parsePrimary (ti :: dot :: ident :: rest) (.fieldAccess name field) rest := by
  refine .succ (.of_eq fun fuel => ?_)
  rw [parsePrimary, advance_bind]
  simp [htoken]
  rw [if_neg hname.1, if_neg hname.2, peekToken_bind]
  simp only [head?_cons, Option.map_some, hdot]
  exact (expect_bind_cons _ hdot _).trans (expectIdent_bind_cons _ hfield rest)

end

/-! ## The round trip -/

/-- What the printed `e` is parsed as: an operand where it is printed for one, and the left side of what follows
    everywhere. -/
structure Parses (e : Expr) : Prop where
  operand : ∀ {ts rest : List TokenInfo}, ts.map (·.token) = printPrec unaryPrecedence e →
    EndsAt unaryPrecedence rest → Yields parseUnary (ts ++ rest) e rest
  climbs : ∀ {q m : Nat} {ts rest rest' : List TokenInfo} {e' : Expr}, m ≤ q →
    ts.map (·.token) = printPrec q e → EndsAt q rest → Yields (climb · m e) rest e' rest' →
    Yields (parseExprPrec · m) (ts ++ rest) e' rest'

/-- What is no operator's application is printed in the same way everywhere. -/
theorem Parses.of_operand {e : Expr} (hsame : ∀ q, printPrec q e = printPrec unaryPrecedence e)
    (h : ∀ {ts rest : List TokenInfo}, ts.map (·.token) = printPrec unaryPrecedence e →
      EndsAt unaryPrecedence rest → Yields parseUnary (ts ++ rest) e rest) : Parses e where
  operand := h
  climbs _ hts hrest hclimb := yields_exprPrec (h (hts.trans (hsame _)) hrest.unary) hclimb

theorem parses_literal {e : Expr} {token : Token} (hprint : ∀ q, printPrec q e = [token]) (hminus : token ≠ .minus)
    (hnot : token ≠ .not) (h : ∀ fuel span rest, parsePrimary (fuel + 1) (⟨token, span⟩ :: rest) = .ok e rest) :
    Parses e := by
  refine .of_operand (fun q => (hprint q).trans (hprint _).symm) fun {ts rest} hts _ => ?_
  rw [hprint, map_eq_singleton_iff] at hts
  obtain ⟨ti, rfl, rfl⟩ := hts
  exact yields_primary hminus hnot (.succ (.of_eq fun fuel => h fuel ti.span rest))

theorem parses_unary {inner : Expr} (op : UnaryOp) (ih : Parses inner) : Parses (.unary op inner) := by
  refine .of_operand (fun q => rfl) fun {ts rest} hts hrest => ?_
  obtain ⟨ti, ts, rfl, hti, hinner⟩ := map_eq_cons_iff.1 hts
  exact yields_unary op hti (ih.operand hinner hrest)

theorem parses_array {name : String} {index : Expr} (hname : name ≠ "TRUE" ∧ name ≠ "FALSE") (ih : Parses index) :
    Parses (.arrayAccess name index) := by
  refine .of_operand (fun q => rfl) fun {ts rest} hts _ => ?_
  obtain ⟨front, back, rfl, hfront, hback⟩ := map_eq_append_iff.1 hts
  obtain ⟨close, rfl, hclose⟩ := map_eq_singleton_iff.1 hback
  obtain ⟨ti, _, rfl, hti, hfront⟩ := map_eq_cons_iff.1 hfront
  obtain ⟨bracket, ts, rfl, hbracket, hindex⟩ := map_eq_cons_iff.1 hfront
  have hends : EndsAt 0 (close :: rest) := endsAt_cons.2 (by rw [hclose]; exact ⟨nofun, nofun, nofun⟩)
  have hstop : Yields (climb · 0 index) (close :: rest) index (close :: rest) :=
    yields_climb_stop (by rintro _ ⟨⟩ op; rw [hclose]; nofun)
  have hbody := ih.climbs (Nat.le_refl 0) hindex hends hstop
  rw [List.append_assoc, cons_append, cons_append]
  exact yields_primary (by rw [hti]; nofun) (by rw [hti]; nofun) (yields_array hname hti hbracket hclose hbody)

theorem parses_field {name field : String} (hname : name ≠ "TRUE" ∧ name ≠ "FALSE") :
    Parses (.fieldAccess name field) := by
  refine .of_operand (fun q => rfl) fun {ts rest} hts _ => ?_
  obtain ⟨ti, _, rfl, hti, hts⟩ := map_eq_cons_iff.1 hts
  obtain ⟨dot, _, rfl, hdot, hts⟩ := map_eq_cons_iff.1 hts
  obtain ⟨ident, rfl, hident⟩ := map_eq_singleton_iff.1 hts
  exact yields_primary (by rw [hti]; nofun) (by rw [hti]; nofun) (yields_field hname hti hdot hident)

theorem parses_var {name : String} (hname : name ≠ "TRUE" ∧ name ≠ "FALSE") : Parses (.var name) := by
  refine .of_operand (fun q => rfl) fun {ts rest} hts hrest => ?_
  obtain ⟨ti, rfl, hti⟩ := map_eq_singleton_iff.1 hts
  exact yields_primary (by rw [hti]; nofun) (by rw [hti]; nofun)
    (yields_name hname hti fun next hnext => ⟨(hrest next hnext).1, (hrest next hnext).2.1⟩)

/-- Without parentheses around it: the left operand is parsed first, and its loop goes on with the operator. -/
theorem Parses.application {left right e' : Expr} {op : BinOp} (hleft : Parses left) (hright : Parses right) {q m : Nat}
    {ts rest rest' : List TokenInfo} (hm : m ≤ q) (hq : q ≤ precedence op)
    (hts : ts.map (·.token) = printPrec (precedence op) left ++ [op.token] ++ printPrec (precedence op + 1) right)
    (hrest : EndsAt q rest) (hclimb : Yields (climb · m (.binary left op right)) rest e' rest') :
    Yields (parseExprPrec · m) (ts ++ rest) e' rest' := by
  obtain ⟨front, tsRight, rfl, hfront, htsRight⟩ := map_eq_append_iff.1 hts
  obtain ⟨tsLeft, back, rfl, htsLeft, hback⟩ := map_eq_append_iff.1 hfront
  obtain ⟨ti, rfl, hti⟩ := map_eq_singleton_iff.1 hback
  have hop : tokenToBinop ti.token = some op := by rw [hti, op.tokenToBinop_token]
  have hends : EndsAt (precedence op) (ti :: (tsRight ++ rest)) := by
    refine endsAt_cons.2 ⟨?_, ?_, fun op' hop' => ?_⟩
    · rw [hti]
      cases op <;> nofun
    · rw [hti]
      cases op <;> nofun
    · rw [Option.some.inj (hop.symm.trans hop')]
  have hstop : Yields (climb · (precedence op + 1) right) rest right rest :=
    yields_climb_stop fun next hnext op' hop' => by
      have := (hrest next hnext).2.2 op' hop'
      omega
  have hoperand : Yields (parseExprPrec · (precedence op + 1)) (tsRight ++ rest) right rest :=
    hright.climbs (Nat.le_refl _) htsRight (hrest.mono (by omega)) hstop
  rw [List.append_assoc, List.append_assoc, singleton_append]
  exact hleft.climbs (hm.trans hq) htsLeft hends (yields_climb_step hop (hm.trans hq) hoperand hclimb)

theorem parses_binary {left right : Expr} (op : BinOp) (hleft : Parses left) (hright : Parses right) :
    Parses (.binary left op right) := by
  have hparens {q : Nat} (hq : ¬ q ≤ precedence op) {ts rest : List TokenInfo}
      (hts : ts.map (·.token) = printPrec q (.binary left op right)) :
      Yields parseUnary (ts ++ rest) (.binary left op right) rest := by
    rw [printPrec, if_neg hq] at hts
    obtain ⟨front, back, rfl, hfront, hback⟩ := map_eq_append_iff.1 hts
    obtain ⟨close, rfl, hclose⟩ := map_eq_singleton_iff.1 hback
    obtain ⟨ti, ts, rfl, hti, htext⟩ := map_eq_cons_iff.1 hfront
    have hends : EndsAt 0 (close :: rest) := endsAt_cons.2 (by rw [hclose]; exact ⟨nofun, nofun, nofun⟩)
    have hbody := hleft.application hright (Nat.le_refl 0) (Nat.zero_le _) htext hends
      (yields_climb_stop (by rintro _ ⟨⟩ op'; rw [hclose]; nofun))
    rw [List.append_assoc, cons_append]
    exact yields_primary (by rw [hti]; nofun) (by rw [hti]; nofun) (yields_parens hti hclose hbody)
  constructor
  · intro ts rest hts _
    exact hparens (Nat.not_le.2 (precedence_lt_unary op)) hts
  · intro q m ts rest rest' e' hm hts hrest hclimb
    by_cases hq : q ≤ precedence op
    · rw [printPrec, if_pos hq] at hts
      exact hleft.application hright hm hq hts hrest hclimb
    · exact yields_exprPrec (hparens hq hts) hclimb

theorem parses {e : Expr} (h : e.Named) : Parses e := by
  induction e with
  | intLiteral n => exact parses_literal (fun _ => rfl) nofun nofun fun _ _ _ => rfl
  | realLiteral x => exact parses_literal (fun _ => rfl) nofun nofun fun _ _ _ => rfl
  | boolLiteral b =>
    cases b with
    | false => exact parses_literal (fun _ => rfl) nofun nofun fun _ _ _ => rfl
    | true => exact parses_literal (fun _ => rfl) nofun nofun fun _ _ _ => rfl
  | var name => exact parses_var h
  | binary left op right hleft hright => exact parses_binary op (hleft h.1) (hright h.2)
  | unary op inner ih => exact parses_unary op (ih h)
  | arrayAccess name index ih => exact parses_array h.1 (ih h.2)
  | fieldAccess name field => exact parses_field h

/-- **The expression parser undoes printing**: whatever the positions of the printed tokens are, and whatever follows
    them that does not go on with the expression. -/
theorem parseExpression_print {e : Expr} (he : e.Named) {ts rest : List TokenInfo}
    (hts : ts.map (·.token) = print e) (hrest : EndsExpr rest) {fuel : Nat}
    (hfuel : 3 * (ts ++ rest).length + 3 ≤ fuel) : parseExpression fuel (ts ++ rest) = .ok e rest := by
  have hstop : Yields (climb · 0 e) rest e rest :=
    yields_climb_stop fun next hnext op hop => nomatch (hrest next hnext).1.symm.trans hop
  obtain ⟨n, hn⟩ := (parses he).climbs (Nat.le_refl 0) hts (hrest.endsAt 0) hstop
  have hsame := (parseExpression_settles (Nat.le_max_left fuel n) hfuel).eq (Nat.le_refl _)
  rw [hsame]
  exact hn _ (Nat.le_max_right ..)

end Audesys.St

namespace Audesys.St

open Audesys.Hal

local instance releasePrinting : Target := host false

/-- `(a + 1) * NOT x[2] - (b - t.ET)`. -/
def printedExample : Expr :=
  .binary (.binary (.binary (.var "a") .add (.intLiteral 1)) .mul (.unary .not (.arrayAccess "x" (.intLiteral 2)))) .sub
    (.binary (.var "b") .sub (.fieldAccess "t" "ET"))

theorem parseExpression_print_example :
    parseExpression 200 ((print printedExample).map (⟨·, ⟨1, 1⟩⟩) ++ [⟨.semicolon, ⟨1, 40⟩⟩]) =
      .ok printedExample [⟨.semicolon, ⟨1, 40⟩⟩] := by
  refine parseExpression_print ?_ ?_ ?_ (by decide)
  · simp [printedExample, Expr.Named]
  · rfl
  · rintro _ ⟨⟩
    exact ⟨rfl, nofun, nofun⟩

end Audesys.St
