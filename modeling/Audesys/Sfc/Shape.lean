import Audesys.Il.Memory
import Audesys.Sfc.Compiler

/-!
# `Sfc.Shape` — the statements of a chart

The text of a chart is read back as a jump to the first step and the statements of the steps behind one another
(`statements_generateIl`): the label, the blocks of the actions, and for a transition its condition with two jumps. The
label of a step is where the statements of the last step with that label begin (`labelPlace_chart`).
-/

open List

namespace Audesys.Sfc

open Audesys.Hal Audesys.Il Audesys.Lib

variable {q : List Char × String × List Char} {steps : List Step} {s : Step}

/-! ## Expressions -/

theorem splitAt?_subset {op : String} {expr : List Char}
    (h : splitAt? op expr = some q) : q.1 ⊆ expr ∧ q.2.2 ⊆ expr := by
  obtain ⟨⟨l, r⟩, hsplit, rfl⟩ := Option.map_eq_some_iff.1 h
  obtain ⟨hl, hr⟩ := splitOnce_subset hsplit
  exact ⟨List.Subset.trans (trim_subset l) hl, List.Subset.trans (trim_subset r) hr⟩

theorem splitAtEqual?_subset {expr : List Char} (h : splitAtEqual? expr = some q) :
    q.1 ⊆ expr ∧ q.2.2 ⊆ expr := by
  unfold splitAtEqual? at h
  split at h
  · rename_i l r hsplit
    obtain ⟨hl, hr⟩ := splitOnce_subset hsplit
    cases h
    exact ⟨List.Subset.trans (trim_subset l) hl, List.Subset.trans (trim_subset r) hr⟩
  · split at h
    · rename_i l r hsplit
      obtain ⟨⟨l', r'⟩, hrev, heq⟩ := Option.map_eq_some_iff.1 hsplit
      cases heq
      obtain ⟨hl, hr⟩ := splitOnce_subset hrev
      have hleft : r'.reverse ⊆ expr := fun c hc => mem_reverse.1 (hr (mem_reverse.1 hc))
      have hright : l'.reverse ⊆ expr := fun c hc => mem_reverse.1 (hl (mem_reverse.1 hc))
      split at h
      · cases h
      · split at h
        · cases h
        · cases h
          exact ⟨List.Subset.trans (trim_subset _) hleft, List.Subset.trans (trim_subset _) hright⟩
    · cases h

theorem splitBinaryExpression_subset {expr : List Char}
    (h : splitBinaryExpression expr = some q) : q.1 ⊆ expr ∧ q.2.2 ⊆ expr := by
  have hor : ∀ {o o' : Option (List Char × String × List Char)}, (∀ q, o = some q → q.1 ⊆ expr ∧ q.2.2 ⊆ expr) →
      (∀ q, o' = some q → q.1 ⊆ expr ∧ q.2.2 ⊆ expr) → ∀ q, (o <|> o') = some q → q.1 ⊆ expr ∧ q.2.2 ⊆ expr := by
    intro o o' ho ho' q hq
    cases o with
    | none => exact ho' q hq
    | some p => exact ho q hq
  have hat : ∀ op q, splitAt? op expr = some q → q.1 ⊆ expr ∧ q.2.2 ⊆ expr := fun op q hq => splitAt?_subset hq
  refine hor (hat ">=") (hor (hat "<=") (hor (hat "<>") (hor ?_ (hor (hat "<") (hor (hat ">") (hor (hat "+")
    (hor (hat "-") (hor (hat "*") (hat "/"))))))))) q h
  exact fun q hq => splitAtEqual?_subset hq

/-- The statement of an operator: arithmetic or a comparison. -/
theorem ilOpFor_statement {op ilOp : String} (h : ilOpFor op = some ilOp) :
    ∃ tok statement, parseMnemonic ilOp = some tok ∧ tok.withOperand? = some statement ∧ '\n' ∉ ilOp.toList ∧
      ((∀ x, (statement x).IsStraight) ∨ ∃ c, statement = .cmp c) := by
  unfold ilOpFor at h
  split at h
  all_goals cases h
  · exact ⟨.add, _, rfl, rfl, by decide, .inl fun _ => trivial⟩
  · exact ⟨.sub, _, rfl, rfl, by decide, .inl fun _ => trivial⟩
  · exact ⟨.mul, _, rfl, rfl, by decide, .inl fun _ => trivial⟩
  · exact ⟨.div, _, rfl, rfl, by decide, .inl fun _ => trivial⟩
  · exact ⟨.eq, _, rfl, rfl, by decide, .inr ⟨_, rfl⟩⟩
  · exact ⟨.ne, _, rfl, rfl, by decide, .inr ⟨_, rfl⟩⟩
  · exact ⟨.lt, _, rfl, rfl, by decide, .inr ⟨_, rfl⟩⟩
  · exact ⟨.le, _, rfl, rfl, by decide, .inr ⟨_, rfl⟩⟩
  · exact ⟨.gt, _, rfl, rfl, by decide, .inr ⟨_, rfl⟩⟩
  · exact ⟨.ge, _, rfl, rfl, by decide, .inr ⟨_, rfl⟩⟩

variable [CaseMap]

theorem readLine_not : readLine "NOT".toList = [.not] := by
  have htoks := @tokenizeLine_mnemonic _ [] rfl "NOT" .not rfl []
  have hline : readLine "NOT".toList = readLine ([] ++ ("NOT".toList ++ ' ' :: [])) := readLine_trim rfl
  rw [hline]
  unfold readLine
  rw [htoks]
  rfl

theorem statements_loadStore {x target : List Char} (hx : '\n' ∉ x) (htarget : '\n' ∉ target) :
    statements (loadStore x target) = [.load (readOperand x), .store (readOperand target)] := by
  have hload : '\n' ∉ "LD ".toList ++ x := by simp [hx]
  have hstore : '\n' ∉ "ST ".toList ++ target := by simp [htarget]
  unfold loadStore
  rw [statements_cons hload, statements_line hstore, readLine_ld, readLine_st]
  rfl

/-- The code of an expression is a block. -/
theorem exprToIl_block {expr var : List Char} (hexpr : '\n' ∉ expr) (hvar : '\n' ∉ var) :
    Block (statements (exprToIl expr var)) := by
  -- a load and a store
  have hpair : ∀ x : List Char, '\n' ∉ x → Block (statements (loadStore x var)) := by
    intro x hx
    rw [statements_loadStore hx hvar]
    exact .straight trivial (.straight trivial .nil)
  have he : '\n' ∉ trim expr := fun hin => hexpr (trim_subset expr hin)
  have hstore : '\n' ∉ "ST ".toList ++ var := by simp [hvar]
  -- a comment is no statement
  have hcomment : ∀ front back : List Char, '\n' ∉ front → '\n' ∉ back →
      Block (statements (';' :: ' ' :: (front ++ expr ++ back ++ var))) := by
    intro front back hfront hback
    have hline : '\n' ∉ ';' :: ' ' :: (front ++ expr ++ back ++ var) := by simp [hfront, hback, hexpr, hvar]
    rw [statements_line hline, readLine_comment]
    exact .nil
  unfold exprToIl
  simp only
  split
  · exact hpair _ (by decide)
  split
  · exact hpair _ (by decide)
  split
  · exact hpair _ he
  split
  · rename_i inner hinner
    have hload : '\n' ∉ "LD ".toList ++ trim inner := by
      have hin : '\n' ∉ trim inner := fun hin => he (stripPrefix_subset hinner (trim_subset _ hin))
      simp [hin]
    have htext : "LD ".toList ++ trim inner ++ "\nNOT\nST ".toList ++ var =
        ("LD ".toList ++ trim inner) ++ '\n' :: ("NOT".toList ++ '\n' :: ("ST ".toList ++ var)) := by simp
    rw [htext, statements_cons hload, statements_cons (by decide), statements_line hstore, readLine_ld, readLine_not,
      readLine_st]
    exact .straight trivial (.straight trivial (.straight trivial .nil))
  split
  · exact hpair _ he
  split
  · rename_i left op right hsplit
    obtain ⟨hleft, hright⟩ := splitBinaryExpression_subset hsplit
    split
    · exact hcomment "unparsed binary: ".toList " → ST ".toList (by decide) (by decide)
    · rename_i ilOp hop
      obtain ⟨tok, statement, hm, hstatement, hfeed, hkind⟩ := ilOpFor_statement hop
      have hload : '\n' ∉ "LD ".toList ++ left := by
        have hin : '\n' ∉ left := fun hin => he (hleft hin)
        simp [hin]
      have hline : '\n' ∉ ilOp.toList ++ ' ' :: trim right := by
        have hin : '\n' ∉ trim right := fun hin => he (hright (trim_subset _ hin))
        simp [hin, hfeed]
      have htext : "LD ".toList ++ left ++ '\n' :: (ilOp.toList ++ ' ' :: trim right ++ '\n' :: ("ST ".toList ++ var)) =
          ("LD ".toList ++ left) ++ '\n' :: ((ilOp.toList ++ ' ' :: trim right) ++ '\n' :: ("ST ".toList ++ var)) := rfl
      have hread := @readLine_mnemonic _ [] rfl ilOp tok hm statement hstatement (trim right)
      rw [nil_append] at hread
      rw [htext, statements_cons hload, statements_cons hline, statements_line hstore, readLine_ld, hread, readLine_st]
      refine .straight trivial ?_
      -- the operator is a comparison, or the accumulator is changed in place
      rcases hkind with hstraight | ⟨c, rfl⟩
      · exact .straight (hstraight _) (.straight trivial .nil)
      · exact .compare .nil
  · exact hcomment "unparsed expr: ".toList " → ST ".toList (by decide) (by decide)

/-- The code of a condition is a block, maybe with a comparison at the end. -/
theorem transitionConditionToIl_condition {condition : List Char} (hcondition : '\n' ∉ condition) :
    Condition (statements (transitionConditionToIl condition)) := by
  have hload : ∀ x : List Char, '\n' ∉ x → '\n' ∉ "LD ".toList ++ x := fun x hx => by simp [hx]
  have hsingle : ∀ x : List Char, '\n' ∉ x → Condition (statements ("LD ".toList ++ x)) := by
    intro x hx
    rw [statements_line (hload x hx), readLine_ld]
    exact .block (.straight trivial .nil)
  have hc : '\n' ∉ trim condition := fun hin => hcondition (trim_subset condition hin)
  unfold transitionConditionToIl
  simp only
  split
  · exact hsingle ['1'] (by decide)
  split
  · exact hsingle ['0'] (by decide)
  split
  · exact hsingle _ hc
  split
  -- a name is compared with zero
  · have htext : "LD ".toList ++ trim condition ++ "\nNE 0".toList =
        ("LD ".toList ++ trim condition) ++ '\n' :: ("NE".toList ++ ' ' :: ['0']) := rfl
    have hread := @readLine_mnemonic _ [] rfl "NE" .ne rfl _ rfl ['0']
    rw [nil_append] at hread
    rw [htext, statements_cons (hload _ hc), statements_line (by decide), readLine_ld, hread]
    exact .compare (.straight trivial .nil)
  split
  · rename_i inner hinner
    have hin : '\n' ∉ trim inner := fun hin => hc (stripPrefix_subset hinner (trim_subset _ hin))
    have htext : "LD ".toList ++ trim inner ++ "\nNOT".toList = ("LD ".toList ++ trim inner) ++ '\n' :: "NOT".toList := rfl
    rw [htext, statements_cons (hload _ hin), statements_line (by decide), readLine_ld, readLine_not]
    exact .block (.straight trivial (.straight trivial .nil))
  split
  -- two sides: the comparison is the last statement
  · rename_i _ ilOp _ hboth
    obtain ⟨⟨left, op, right⟩, hsplit, hop⟩ := Option.bind_eq_some_iff.1 hboth
    obtain ⟨_, hil, heq⟩ := Option.map_eq_some_iff.1 hop
    cases heq
    obtain ⟨hleft, hright⟩ := splitBinaryExpression_subset hsplit
    obtain ⟨tok, statement, hm, hstatement, hfeed, hkind⟩ := ilOpFor_statement hil
    have hleft' : '\n' ∉ left := fun hin => hc (hleft hin)
    have hline : '\n' ∉ ilOp.toList ++ ' ' :: right := by
      have hin : '\n' ∉ right := fun hin => hc (hright hin)
      simp [hin, hfeed]
    have hread := @readLine_mnemonic _ [] rfl ilOp tok hm statement hstatement right
    rw [nil_append] at hread
    rw [statements_cons (hload _ hleft'), statements_line hline, readLine_ld, hread]
    rcases hkind with hstraight | ⟨c, rfl⟩
    · exact .block (.straight trivial (.straight (hstraight _) .nil))
    · exact .compare (.straight trivial .nil)
  -- anything else becomes a comment
  · have hline : '\n' ∉ "; unparsed condition: ".toList ++ trim condition := by simp [hc]
    rw [statements_line hline]
    show Condition (readLine (';' :: ' ' :: ("unparsed condition: ".toList ++ trim condition)))
    rw [readLine_comment]
    exact .block .nil

/-! ## Steps -/

theorem readLine_label {w : List Char} (hw : IsName (String.ofList w)) :
    readLine (w ++ [':']) = [.label (String.ofList w)] := by
  obtain ⟨⟨_, hspace⟩, hparen⟩ := hw
  rw [String.toList_ofList] at hspace hparen
  have hword : IsWord (w ++ [':']) := by
    refine ⟨append_ne_nil_of_right_ne_nil _ (cons_ne_nil _ _), ?_⟩
    intro c hc
    rcases mem_append.1 hc with hc | hc
    · exact hspace c hc
    · rw [mem_singleton.1 hc]
      rfl
  have hparen' : '(' ∉ w ++ [':'] := by simp [hparen]
  have hlast : (w ++ [':']).getLast? = some ':' := getLast?_concat
  -- a colon is in no mnemonic
  have hmnemonic : mnemonic (w ++ [':']) = none := by
    cases h : mnemonic (w ++ [':']) with
    | none => rfl
    | some tok =>
      have hcolon : ':' ∈ toUppercase (w ++ [':']) := by
        refine mem_flatMap.2 ⟨':', by simp, ?_⟩
        rw [CaseMap.upper_ascii ':' (by decide)]
        exact mem_singleton.2 (by decide)
      have hall := (parseMnemonic_chars h).2
      rw [String.toList_ofList] at hall
      have hbad := all_eq_true.1 hall ':' hcolon
      cases hbad
  have hline : readLine (w ++ [':']) = readLine ([] ++ ((w ++ [':']) ++ ' ' :: [])) :=
    readLine_trim (trim_concat (w ++ [':']) rfl).symm
  rw [hline]
  unfold readLine
  rw [tokenizeLine_word rfl hword hparen', if_pos hlast, hmnemonic, dropLast_concat]
  rfl

def Action.statements (a : Action) : List ILStatement := Il.statements (actionBodyToIl a.body)

def Transition.statements (tr : Transition) : List ILStatement := Il.statements (transitionConditionToIl tr.condition)

/-- The statements behind the actions. -/
def Step.exit (s : Step) : List ILStatement :=
  match s.transition with
  | some tr =>
    tr.statements ++ [.jumpIf (String.ofList (toUppercase tr.toStep)), .jump (String.ofList s.label)]
  | none => []

def Step.statements (s : Step) : List ILStatement :=
  .label (String.ofList s.label) :: (s.actions.flatMap Action.statements ++ s.exit)

/-- The names of the steps are single words. -/
structure Named (steps : List Step) : Prop where
  label : ∀ s ∈ steps, IsName (String.ofList s.label)
  target : ∀ s ∈ steps, ∀ tr, s.transition = some tr → IsName (String.ofList (toUppercase tr.toStep))

omit [CaseMap] in
theorem not_feed_of_isName {w : List Char} (h : IsName (String.ofList w)) : '\n' ∉ w := by
  intro hin
  have hspace := h.word.not_space '\n' (by rw [String.toList_ofList]; exact hin)
  cases hspace

omit [CaseMap] in
theorem readOperand_ofList {w : List Char} (h : IsName (String.ofList w)) : readOperand w = String.ofList w := by
  have hread := readOperand_name h
  rwa [String.toList_ofList] at hread

theorem statements_actionsText (hname : IsName (String.ofList s.label)) :
    Il.statements s.actionsText = .label (String.ofList s.label) :: s.actions.flatMap Action.statements := by
  have hfeed : '\n' ∉ s.label ++ [':'] := by simp [not_feed_of_isName hname]
  have hactions : Il.statements (s.actions.flatMap Action.text) = s.actions.flatMap Action.statements := by
    refine statements_flatMap (fun a _ => indented_closed _) ?_
    intro a _
    exact statements_indented _
  unfold Step.actionsText
  rw [append_cons, statements_cons hfeed, readLine_label hname, hactions]
  rfl

/-- `HALT` is no mnemonic. -/
theorem statements_halt : Il.statements "  HALT\n\n".toList = [] := by
  have htext : "  HALT\n\n".toList = "  HALT".toList ++ '\n' :: ([] ++ '\n' :: []) := by decide
  have hword : IsWord "HALT".toList := .of_all (by decide) (by decide)
  have hother := @readLine_other _ "  ".toList (by decide) _ hword (by decide) (by decide)
    (IsUpper.of_ascii (by decide)) (by decide) []
  have hline : readLine "  HALT".toList = readLine ("  ".toList ++ ("HALT".toList ++ ' ' :: [])) :=
    readLine_trim (by decide)
  rw [htext, statements_cons (by decide), statements_cons not_mem_nil, hline, hother, statements_nil]
  rfl

/-- The two jumps behind a condition. -/
theorem statements_jumps {next own : List Char} (hnext : IsName (String.ofList next)) (hown : IsName (String.ofList own)) :
    Il.statements ("  JMPC ".toList ++ next ++ '\n' :: ("  JMP ".toList ++ own ++ ['\n'])) =
      [.jumpIf (String.ofList next), .jump (String.ofList own)] := by
  have hjmpc : '\n' ∉ "  JMPC ".toList ++ next := by simp [not_feed_of_isName hnext]
  have hjmp : '\n' ∉ "  JMP ".toList ++ own := by simp [not_feed_of_isName hown]
  have hreadc : readLine ("  JMPC ".toList ++ next) = [.jumpIf (readOperand next)] :=
    @readLine_mnemonic _ "  ".toList (by decide) "JMPC" .jmpc rfl _ rfl next
  have hread : readLine ("  JMP ".toList ++ own) = [.jump (readOperand own)] :=
    @readLine_mnemonic _ "  ".toList (by decide) "JMP" .jmp rfl _ rfl own
  rw [statements_cons hjmpc, statements_cons hjmp, statements_nil, hreadc, hread, readOperand_ofList hnext,
    readOperand_ofList hown]
  rfl

/-- **A step** is read back. -/
theorem statements_text (hname : IsName (String.ofList s.label))
    (htarget : ∀ tr, s.transition = some tr → IsName (String.ofList (toUppercase tr.toStep))) :
    Il.statements s.text = s.statements := by
  unfold Step.text Step.statements Step.exit
  rw [statements_append (actionsText_closed s), statements_actionsText hname, cons_append]
  cases htr : s.transition with
  | none =>
    simp only
    rw [statements_halt]
  | some tr =>
    simp only
    rw [statements_append (transition_closed _ _)]
    unfold Transition.text
    rw [statements_append (indented_closed _), statements_indented, statements_jumps (htarget tr htr) hname]
    show _ :: (_ ++ (_ ++ readLine [])) = _
    rw [readLine_nil, List.append_nil]
    rfl

theorem statements_headerText {first : Step} (hname : IsName (String.ofList first.label)) :
    Il.statements (headerText first) = [.jump (String.ofList first.label)] := by
  have hcomment : '\n' ∉ "; SFC compiled to IL".toList := by decide
  have hjmp : '\n' ∉ "JMP ".toList ++ first.label := by simp [not_feed_of_isName hname]
  have hread : readLine ("JMP ".toList ++ first.label) = [.jump (readOperand first.label)] :=
    @readLine_mnemonic _ [] rfl "JMP" .jmp rfl _ rfl first.label
  have htext : headerText first =
      "; SFC compiled to IL".toList ++ '\n' :: (("JMP ".toList ++ first.label) ++ '\n' :: ([] ++ '\n' :: [])) := by
    unfold headerText
    simp
  rw [htext, statements_cons hcomment, statements_cons hjmp, statements_cons not_mem_nil, statements_nil, hread,
    readOperand_ofList hname]
  show readLine (';' :: ' ' :: "SFC compiled to IL".toList) ++ _ = _
  rw [readLine_comment, readLine_nil]
  rfl

/-- The statements of a chart. -/
def chart (steps : List Step) : List ILStatement :=
  (steps.head?.map fun first => .jump (String.ofList first.label)).toList ++ steps.flatMap Step.statements

/-- **The text of a chart**, read back. -/
theorem statements_generateIl (hnames : Named steps) {il : List Char} (h : generateIl steps = .ok il) :
    Il.statements il = chart steps := by
  obtain ⟨first, rest, rfl, rfl⟩ := generateIl_eq h
  have hread : Il.statements ((first :: rest).flatMap Step.text) = (first :: rest).flatMap Step.statements := by
    refine statements_flatMap (fun s _ => text_closed s) ?_
    intro s hs
    exact statements_text (hnames.label s hs) (hnames.target s hs)
  rw [statements_append (headerText_closed first), statements_headerText (hnames.label first mem_cons_self), hread]
  rfl

/-- Only the last step is without a transition. -/
theorem generateIl_last {il : List Char} (h : generateIl steps = .ok il) {front back : List Step}
    (hsteps : steps = front ++ s :: back) (htr : s.transition = none) : back = [] := by
  have htext : ∃ text, stepsText steps = .ok text := by
    cases steps with
    | nil => cases h
    | cons first rest =>
      simp only [generateIl, bind_ok] at h
      obtain ⟨text, htext, _⟩ := h
      exact ⟨text, htext⟩
  obtain ⟨text, htext⟩ := htext
  rw [hsteps] at htext
  clear h hsteps
  induction front generalizing text with
  | nil =>
    rw [nil_append] at htext
    unfold stepsText at htext
    simp only [htr] at htext
    split at htext
    · rename_i hempty
      exact isEmpty_iff.1 hempty
    · cases htext
  | cons step front ih =>
    rw [cons_append] at htext
    unfold stepsText at htext
    cases hstep : step.transition with
    | some tr =>
      simp only [hstep, bind_ok] at htext
      obtain ⟨text', hrest, _⟩ := htext
      exact ih text' hrest
    | none =>
      simp only [hstep] at htext
      split at htext
      · rename_i hempty
        cases front <;> cases hempty
      · cases htext

/-! ## Where the labels are -/

/-- The last step with the label. -/
def stepIndex (label : List Char) : List Step → Option Nat
  | [] => none
  | s :: rest =>
    match stepIndex label rest with
    | some k => some (k + 1)
    | none => if s.label = label then some 0 else none

/-- Where the statements of step `k` begin; the end, if there is none. -/
def stepPlace (steps : List Step) : Option Nat → Nat
  | some k => 1 + ((steps.take k).flatMap Step.statements).length
  | none => (chart steps).length

/-- In the statements of a step only its own label is defined. -/
theorem labelIndex_step (hblock : Block (s.actions.flatMap Action.statements))
    (hcondition : ∀ tr, s.transition = some tr → Condition tr.statements) (label : List Char) :
    labelIndex (String.ofList label) s.statements = if s.label = label then some 0 else none := by
  have hplain : ∀ t : ILStatement, (t.IsStraight ∨ ∃ op x, t = .cmp op x) → t ≠ .label (String.ofList label) := by
    intro t ht heq
    rw [heq] at ht
    rcases ht with ht | ⟨op, x, ht⟩
    · exact ht
    · cases ht
  have hnone : ILStatement.label (String.ofList label) ∉ s.actions.flatMap Action.statements ++ s.exit := by
    intro hin
    rcases mem_append.1 hin with hin | hin
    · exact hplain _ (hblock.mem _ hin) rfl
    · unfold Step.exit at hin
      cases htr : s.transition with
      | none =>
        rw [htr] at hin
        cases hin
      | some tr =>
        rw [htr] at hin
        rcases mem_append.1 hin with hin | hin
        · exact hplain _ ((hcondition tr htr).mem _ hin) rfl
        · simp at hin
  unfold Step.statements
  simp only [labelIndex]
  rw [labelIndex_none hnone]
  by_cases heq : s.label = label
  · rw [if_pos heq, if_pos (by rw [heq])]
  · rw [if_neg heq, if_neg]
    intro hlabel
    exact heq (String.ofList_injective (ILStatement.label.inj hlabel))

/-- The actions are assignments and the condition is a condition, each as read back from its code. -/
structure Step.Shaped (s : Step) : Prop where
  actions : Block (s.actions.flatMap Action.statements)
  condition : ∀ tr, s.transition = some tr → Condition tr.statements

theorem Step.OneLine.shaped (h : s.OneLine) (hassign : ∀ a ∈ s.actions, (assignment? a.body).isSome = true) :
    s.Shaped where
  actions := by
    refine .flatMap ?_
    intro a ha
    obtain ⟨⟨var, expr⟩, hsome⟩ := Option.isSome_iff_exists.1 (hassign a ha)
    obtain ⟨hvar, hexpr⟩ := assignment?_subset hsome
    have hbody := h.actions a ha
    unfold Action.statements
    rw [actionBodyToIl_eq hsome]
    exact exprToIl_block (fun hin => hbody (hexpr hin)) fun hin => hbody (hvar hin)
  condition tr htr := transitionConditionToIl_condition (h.transition tr htr).2

theorem labelIndex_steps (hshaped : ∀ s ∈ steps, s.Shaped) (label : List Char) :
    labelIndex (String.ofList label) (steps.flatMap Step.statements) =
      (stepIndex label steps).map fun k => ((steps.take k).flatMap Step.statements).length := by
  induction steps with
  | nil => rfl
  | cons s rest ih =>
    have hs := hshaped s mem_cons_self
    rw [flatMap_cons, labelIndex_append, ih fun s' hs' => hshaped s' (mem_cons_of_mem _ hs')]
    simp only [stepIndex]
    cases stepIndex label rest with
    | some k =>
      show some (_ + _) = some (((s :: rest.take k).flatMap Step.statements).length)
      rw [flatMap_cons, length_append]
    | none =>
      show labelIndex _ s.statements = _
      rw [labelIndex_step hs.actions hs.condition]
      by_cases heq : s.label = label
      · rw [if_pos heq]
        rfl
      · rw [if_neg heq]
        rfl

/-- **A jump to a label** leads to the last step with that label. -/
theorem labelPlace_chart (hne : steps ≠ []) (hshaped : ∀ s ∈ steps, s.Shaped) (label : List Char) :
    labelPlace (chart steps) (String.ofList label) = stepPlace steps (stepIndex label steps) := by
  obtain ⟨first, rest, rfl⟩ := exists_cons_of_ne_nil hne
  unfold labelPlace
  show (labelIndex _ (.jump _ :: (first :: rest).flatMap Step.statements)).getD _ = _
  simp only [labelIndex]
  rw [labelIndex_steps hshaped]
  cases stepIndex label (first :: rest) with
  | some k =>
    show _ + 1 = 1 + _
    rw [Nat.add_comm]
  | none => rfl

/-- The statements of step `k`, in place. -/
theorem step_codeAt {k : Nat} (hs : steps[k]? = some s) :
    CodeAt (chart steps) (stepPlace steps (some k)) s.statements := by
  obtain ⟨hlt, rfl⟩ := List.getElem?_eq_some_iff.1 hs
  have hsplit : steps = steps.take k ++ steps[k] :: steps.drop (k + 1) := by
    rw [getElem_cons_drop, take_append_drop]
  obtain ⟨first, rest, rfl⟩ := exists_cons_of_ne_nil (ne_nil_of_length_pos (Nat.zero_lt_of_lt hlt))
  refine ⟨.jump (String.ofList first.label) :: ((first :: rest).take k).flatMap Step.statements,
    ((first :: rest).drop (k + 1)).flatMap Step.statements, ?_, ?_⟩
  · show _ :: (first :: rest).flatMap Step.statements = _ :: (_ ++ _)
    rw [← flatMap_cons, ← flatMap_append, ← hsplit]
  · rw [length_cons, Nat.add_comm]
    rfl

end Audesys.Sfc
