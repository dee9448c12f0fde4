import Audesys.Il.Lines

/-!
# `Sfc.Compiler` — sequential function charts to Instruction List

`audesys-sfc-compiler`: the lines of a chart, its steps and transitions, and the text of Instruction List. A step becomes
a label, the code of its actions, and a conditional jump to the next step with a jump back to its own label behind it;
the last step may do without a transition. Keywords are found in the upper case text and cut out of the source text by
their byte offset, which panics where that is no character boundary.
-/

open List

namespace Audesys.Sfc

open Audesys.Hal Audesys.Il Audesys.Lib

variable {steps : List Step} {toks : List Token} {source : List Char}

/-! ## Charts -/

structure Action where
  qualifier : Char
  body : List Char
  deriving DecidableEq

/-- `from`, `to` and `condition`. -/
structure Transition where
  fromStep : List Char
  toStep : List Char
  condition : List Char
  deriving DecidableEq

structure Step where
  name : List Char
  actions : List Action
  transition : Option Transition
  deriving DecidableEq

inductive Token where
  | stepName (name : List Char)
  | action (a : Action)
  | endStep
  | transition (t : Transition)
  | endTransition
  deriving DecidableEq

/-! ## The lexer -/

section
variable [CaseMap]

/-- `FROM <from> TO <to> : <condition>`. -/
def tokenizeTransition (rest : List Char) : Option (List Token) :=
  match findBytes "FROM ".toList (toUppercase rest) with
  | none => some []
  | some fromStart => do
    let (_, afterFrom) ← splitBytes (fromStart + 5) rest
    match findBytes " TO ".toList (toUppercase afterFrom) with
    | none => some []
    | some toPos => do
      let (source, _) ← splitBytes toPos afterFrom
      let (_, afterTo) ← splitBytes (toPos + 4) afterFrom
      match splitOnce [':'] afterTo with
      | some (target, condition) => some [.transition ⟨trim source, trim target, trim condition⟩]
      | none => some []

/-- The token of an `ACTION` line, without the keyword. -/
def tokenizeAction (rest : List Char) : List Token :=
  match splitOnce [':'] rest with
  | some (qualifier, body) =>
    match (trim qualifier).head? with
    | some q => [.action ⟨q, trim body⟩]
    | none => []
  | none => []

/-- One line; `none` is the panic of a cut that is no character boundary. -/
def tokenizeLine (raw : List Char) : Option (List Token) :=
  let line := trim raw
  let upper := toUppercase line
  if startsWith "END_STEP".toList upper then some [.endStep]
  else if startsWith "END_TRANSITION".toList upper then some [.endTransition]
  else if startsWith "STEP ".toList upper then do
    let (_, rest) ← splitBytes 5 line
    let name := trim rest
    some (if name.isEmpty then [] else [.stepName name])
  else if startsWith "ACTION ".toList upper then do
    let (_, rest) ← splitBytes 7 line
    some (tokenizeAction (trim rest))
  else if startsWith "TRANSITION ".toList upper then do
    let (_, rest) ← splitBytes 11 line
    tokenizeTransition (trim rest)
  else some []

def tokenize (source : List Char) : Option (List Token) := ((lines source).mapM tokenizeLine).map List.flatten

end

/-! ## The parser -/

/-- One token of `parse_steps`: the steps so far, and the step that is open. -/
def parseStep : List Step × Option Step → Token → List Step × Option Step
  | (steps, current), .stepName name => (steps ++ current.toList, some ⟨name, [], none⟩)
  | (steps, current), .action a => (steps, current.map fun step => { step with actions := step.actions ++ [a] })
  | (steps, current), .endStep => (steps ++ current.toList, none)
  | state, .transition _ => state
  | state, .endTransition => state

def parseSteps (tokens : List Token) : Except String (List Step) :=
  let (steps, current) := tokens.foldl parseStep ([], none)
  let steps := steps ++ current.toList
  if steps.isEmpty then .error "no SFC steps found" else .ok steps

def parseTransitions (tokens : List Token) : List Transition :=
  tokens.filterMap fun
    | .transition t => some t
    | _ => none

/-- One transition of `link_transitions`; a second transition out of a step is left out. -/
def linkTransition (steps : List Step) (tr : Transition) : Except String (List Step) :=
  match steps.findIdx? fun s => s.name = tr.fromStep with
  | none => .error ("step '" ++ String.ofList tr.fromStep ++ "' not found for transition FROM")
  | some idx =>
    if steps.any fun s => s.name = tr.toStep then
      .ok (steps.modify idx fun s => if s.transition.isSome then s else { s with transition := some tr })
    else .error ("step '" ++ String.ofList tr.toStep ++ "' not found for transition TO")

def linkTransitions (steps : List Step) (transitions : List Transition) : Except String (List Step) :=
  transitions.foldlM linkTransition steps

/-! ## Expressions -/

/-- `il_op_for`. -/
def ilOpFor : String → Option String
  | "+" => some "ADD"
  | "-" => some "SUB"
  | "*" => some "MUL"
  | "/" => some "DIV"
  | "=" => some "EQ"
  | "<>" => some "NE"
  | "<" => some "LT"
  | "<=" => some "LE"
  | ">" => some "GT"
  | ">=" => some "GE"
  | _ => none

def isIdentifier (s : List Char) : Bool :=
  match trim s with
  | [] => false
  | first :: rest =>
    (first.isAlpha || first = '_') && (first :: rest).all fun c => c.isAlphanum || c = '_'

/-- The operand texts around the first occurrence of an operator. -/
def splitAt? (op : String) (expr : List Char) : Option (List Char × String × List Char) :=
  (splitOnce op.toList expr).map fun (l, r) => (trim l, op, trim r)

/-- The branch of `split_binary_expression` for `=`, which leaves `:=` alone. -/
def splitAtEqual? (expr : List Char) : Option (List Char × String × List Char) :=
  match splitOnce " = ".toList expr with
  | some (l, r) => some (trim l, "=", trim r)
  | none =>
    match rsplitOnce '=' expr with
    | some (l, r) =>
      if l.getLast? = some ':' then none
      else if r.head? = some '=' then none
      else some (trim l, "=", trim r)
    | none => none

def splitBinaryExpression (expr : List Char) : Option (List Char × String × List Char) :=
  splitAt? ">=" expr <|> splitAt? "<=" expr <|> splitAt? "<>" expr <|> splitAtEqual? expr <|> splitAt? "<" expr <|>
    splitAt? ">" expr <|> splitAt? "+" expr <|> splitAt? "-" expr <|> splitAt? "*" expr <|> splitAt? "/" expr

/-- `LD <x>`, `ST <target>`. -/
def loadStore (x target : List Char) : List Char := "LD ".toList ++ x ++ '\n' :: ("ST ".toList ++ target)

/-- `expr_to_il`. -/
def exprToIl (expr targetVar : List Char) : List Char :=
  let e := trim expr
  if eqIgnoreAsciiCase e "TRUE".toList then loadStore ['1'] targetVar
  else if eqIgnoreAsciiCase e "FALSE".toList then loadStore ['0'] targetVar
  else if e.all Char.isDigit then loadStore e targetVar
  else
    match stripPrefix "NOT ".toList e with
    | some inner => "LD ".toList ++ trim inner ++ "\nNOT\nST ".toList ++ targetVar
    | none =>
      if isIdentifier e then loadStore e targetVar
      else
        match splitBinaryExpression e with
        | some (left, op, right) =>
          match ilOpFor op with
          | none => "; unparsed binary: ".toList ++ expr ++ " → ST ".toList ++ targetVar
          | some ilOp =>
            "LD ".toList ++ left ++ '\n' :: (ilOp.toList ++ ' ' :: trim right ++ '\n' :: ("ST ".toList ++ targetVar))
        | none => "; unparsed expr: ".toList ++ expr ++ " → ST ".toList ++ targetVar

/-- The mnemonics of Instruction List that a raw action starts with. -/
def ilOpcodes : List String :=
  ["LD ", "LDN ", "ST ", "S ", "R ", "AND ", "ANDN ", "OR ", "ORN ", "XOR ", "XORN ", "ADD ", "SUB ", "MUL ", "DIV ",
    "GT ", "GE ", "EQ ", "NE ", "LT ", "LE ", "JMP ", "JMPC ", "JMPCN ", "CAL ", "RET ", "NOT ", "NOP "]

/-- `transition_condition_to_il`. -/
def transitionConditionToIl (condition : List Char) : List Char :=
  let c := trim condition
  if eqIgnoreAsciiCase c "TRUE".toList then "LD 1".toList
  else if eqIgnoreAsciiCase c "FALSE".toList then "LD 0".toList
  else if c.all Char.isDigit then "LD ".toList ++ c
  else if isIdentifier c then "LD ".toList ++ c ++ "\nNE 0".toList
  else
    match stripPrefix "NOT ".toList c with
    | some inner => "LD ".toList ++ trim inner ++ "\nNOT".toList
    | none =>
      match (splitBinaryExpression c).bind fun (left, op, right) => (ilOpFor op).map fun ilOp => (left, ilOp, right) with
      | some (left, ilOp, right) => "LD ".toList ++ left ++ '\n' :: (ilOp.toList ++ ' ' :: right)
      | none => "; unparsed condition: ".toList ++ c

section
variable [CaseMap]

/-- A raw action. -/
def isRaw (b : List Char) : Bool := ilOpcodes.any fun p => startsWith p.toList (toUppercase b)

/-- `action_body_to_il`. -/
def actionBodyToIl (body : List Char) : List Char :=
  let b := trimEndMatches ';' (trim body)
  if isRaw b then b
  else
    match splitOnce ":=".toList b with
    | some (var, expr) => exprToIl (trim expr) (trim var)
    | none => "; unparsed action: ".toList ++ b

/-! ## The generator -/

/-- Every line of a piece of code, set in. -/
def indented (il : List Char) : List Char := (lines il).flatMap fun line => ' ' :: ' ' :: (line ++ ['\n'])

def Action.text (a : Action) : List Char := indented (actionBodyToIl a.body)

def Step.label (s : Step) : List Char := toUppercase s.name

/-- The code in front of the transition of a step. -/
def Step.actionsText (s : Step) : List Char := s.label ++ ':' :: '\n' :: s.actions.flatMap Action.text

/-- The condition, the jump to the next step, and the jump back to the own label. -/
def Transition.text (tr : Transition) (label : List Char) : List Char :=
  indented (transitionConditionToIl tr.condition) ++
    ("  JMPC ".toList ++ toUppercase tr.toStep ++ '\n' :: ("  JMP ".toList ++ label ++ ['\n']))

/-- The steps behind one another. -/
def stepsText : List Step → Except String (List Char)
  | [] => .ok []
  | step :: rest =>
    match step.transition with
    | some tr => do
      let text ← stepsText rest
      .ok (step.actionsText ++ tr.text step.label ++ '\n' :: text)
    | none =>
      if rest.isEmpty then .ok (step.actionsText ++ "  HALT\n\n".toList)
      else .error ("step '" ++ String.ofList step.name ++
        "' has no transition (only the final step may lack a transition)")

/-- The jump to the first step. -/
def headerText (first : Step) : List Char :=
  "; SFC compiled to IL\n".toList ++ ("JMP ".toList ++ first.label ++ "\n\n".toList)

def generateIl : List Step → Except String (List Char)
  | [] => .error "no steps to generate IL from"
  | first :: rest => do
    let text ← stepsText (first :: rest)
    .ok (headerText first ++ text)

/-- `sfc_compile`; `none` is a panic. -/
def sfcCompile (source : List Char) : Option (Except String (List Char)) := do
  let tokens ← tokenize source
  some (do
    let steps ← parseSteps tokens
    let steps ← linkTransitions steps (parseTransitions tokens)
    generateIl steps)

end

/-! ## No line feed in a name -/

def Token.OneLine : Token → Prop
  | .stepName name => '\n' ∉ name
  | .action a => '\n' ∉ a.body
  | .transition tr => '\n' ∉ tr.toStep ∧ '\n' ∉ tr.condition
  | .endStep | .endTransition => True

structure Step.OneLine (s : Step) : Prop where
  name : '\n' ∉ s.name
  actions : ∀ a ∈ s.actions, '\n' ∉ a.body
  transition : ∀ tr, s.transition = some tr → '\n' ∉ tr.toStep ∧ '\n' ∉ tr.condition

theorem tokenizeAction_oneLine {rest : List Char} (h : '\n' ∉ rest) : ∀ tok ∈ tokenizeAction rest, tok.OneLine := by
  unfold tokenizeAction
  intro tok htok
  split at htok
  · rename_i qualifier body hsplit
    split at htok
    · rw [mem_singleton.1 htok]
      exact fun hin => h ((splitOnce_subset hsplit).2 (trim_subset body hin))
    · cases htok
  · cases htok

section
variable [CaseMap]

theorem tokenizeTransition_oneLine {rest : List Char} (h : '\n' ∉ rest)
    (htoks : tokenizeTransition rest = some toks) : ∀ tok ∈ toks, tok.OneLine := by
  unfold tokenizeTransition at htoks
  split at htoks
  · cases htoks
    exact fun tok htok => absurd htok not_mem_nil
  · rename_i fromStart _
    obtain ⟨⟨front, afterFrom⟩, hfrom, htoks⟩ := Option.bind_eq_some_iff.1 htoks
    simp only at htoks
    split at htoks
    · cases htoks
      exact fun tok htok => absurd htok not_mem_nil
    · rename_i toPos _
      obtain ⟨⟨source, back⟩, _, htoks⟩ := Option.bind_eq_some_iff.1 htoks
      obtain ⟨⟨middle, afterTo⟩, hto, htoks⟩ := Option.bind_eq_some_iff.1 htoks
      simp only at htoks
      split at htoks
      · rename_i target condition hsplit
        cases htoks
        have hsub : afterTo ⊆ rest := List.Subset.trans (splitBytes_subset hto).2 (splitBytes_subset hfrom).2
        intro tok htok
        rw [mem_singleton.1 htok]
        exact ⟨fun hin => h (hsub ((splitOnce_subset hsplit).1 (trim_subset _ hin))),
          fun hin => h (hsub ((splitOnce_subset hsplit).2 (trim_subset _ hin)))⟩
      · cases htoks
        exact fun tok htok => absurd htok not_mem_nil

theorem tokenizeLine_oneLine {raw : List Char} (h : '\n' ∉ raw) (htoks : tokenizeLine raw = some toks) :
    ∀ tok ∈ toks, tok.OneLine := by
  have hcut : ∀ n l r, splitBytes n (trim raw) = some (l, r) → '\n' ∉ trim r := fun n l r hsplit hin =>
    h (trim_subset raw ((splitBytes_subset hsplit).2 (trim_subset r hin)))
  unfold tokenizeLine at htoks
  simp only at htoks
  split at htoks
  · cases htoks
    exact forall_mem_singleton.2 trivial
  split at htoks
  · cases htoks
    exact forall_mem_singleton.2 trivial
  split at htoks
  · obtain ⟨⟨l, rest⟩, hsplit, htoks⟩ := Option.bind_eq_some_iff.1 htoks
    rw [Option.some.injEq] at htoks
    subst htoks
    split
    · exact fun tok htok => absurd htok not_mem_nil
    · exact forall_mem_singleton.2 (hcut _ _ _ hsplit)
  split at htoks
  · obtain ⟨⟨l, rest⟩, hsplit, htoks⟩ := Option.bind_eq_some_iff.1 htoks
    rw [Option.some.injEq] at htoks
    subst htoks
    exact tokenizeAction_oneLine (hcut _ _ _ hsplit)
  split at htoks
  · obtain ⟨⟨l, rest⟩, hsplit, htoks⟩ := Option.bind_eq_some_iff.1 htoks
    exact tokenizeTransition_oneLine (hcut _ _ _ hsplit) htoks
  · cases htoks
    exact fun tok htok => absurd htok not_mem_nil

theorem tokenize_oneLine (h : tokenize source = some toks) : ∀ tok ∈ toks, tok.OneLine := by
  have hall : ∀ ls : List (List Char), (∀ l ∈ ls, '\n' ∉ l) → ∀ tss, ls.mapM tokenizeLine = some tss →
      ∀ tok ∈ tss.flatten, tok.OneLine := by
    intro ls hls
    induction ls with
    | nil =>
      rintro tss ⟨⟩ tok htok
      cases htok
    | cons l ls ih =>
      intro tss htss
      rw [mapM_cons] at htss
      obtain ⟨ts, hts, htss⟩ := Option.bind_eq_some_iff.1 htss
      obtain ⟨tss', htss', heq⟩ := Option.bind_eq_some_iff.1 htss
      cases heq
      intro tok htok
      rw [flatten_cons] at htok
      rcases mem_append.1 htok with htok | htok
      · exact tokenizeLine_oneLine (hls l mem_cons_self) hts tok htok
      · exact ih (fun l' hl' => hls l' (mem_cons_of_mem _ hl')) tss' htss' tok htok
  obtain ⟨tss, htss, rfl⟩ := Option.map_eq_some_iff.1 h
  exact hall _ (fun l hl => not_feed_of_mem_lines hl) tss htss

end

/-- What the parser keeps: it holds of a step without actions, and an action added to it does not change that. -/
theorem parseStep_keeps {p : Step → Prop} {state : List Step × Option Step} {tok : Token}
    (hname : ∀ name, tok = .stepName name → p ⟨name, [], none⟩)
    (haction : ∀ a s, tok = .action a → p s → p { s with actions := s.actions ++ [a] })
    (h : ∀ s ∈ state.1 ++ state.2.toList, p s) :
    ∀ s ∈ (parseStep state tok).1 ++ (parseStep state tok).2.toList, p s := by
  obtain ⟨steps, current⟩ := state
  cases tok with
  | stepName name =>
    intro s hs
    rcases mem_append.1 hs with hs | hs
    · exact h s hs
    · rw [mem_singleton.1 hs]
      exact hname name rfl
  | action a =>
    intro s hs
    rcases mem_append.1 hs with hs | hs
    · exact h s (mem_append_left _ hs)
    · obtain ⟨open_, hopen, rfl⟩ := Option.map_eq_some_iff.1 (Option.mem_toList.1 hs)
      exact haction a open_ rfl (h open_ (mem_append_right _ (Option.mem_toList.2 hopen)))
  | endStep =>
    intro s hs
    rcases mem_append.1 hs with hs | hs
    · exact h s hs
    · cases hs
  | transition tr => exact h
  | endTransition => exact h

theorem parseSteps_keeps {p : Step → Prop} (hname : ∀ name, .stepName name ∈ toks → p ⟨name, [], none⟩)
    (haction : ∀ a s, .action a ∈ toks → p s → p { s with actions := s.actions ++ [a] })
    (h : parseSteps toks = .ok steps) : ∀ s ∈ steps, p s := by
  have hfold : ∀ (rest : List Token) (state : List Step × Option Step), rest ⊆ toks →
      (∀ s ∈ state.1 ++ state.2.toList, p s) →
      ∀ s ∈ (rest.foldl parseStep state).1 ++ (rest.foldl parseStep state).2.toList, p s := by
    intro rest
    induction rest with
    | nil => exact fun _ _ hstate => hstate
    | cons tok rest ih =>
      intro state hsub hstate
      obtain ⟨htok, hrest⟩ := cons_subset.1 hsub
      refine ih _ hrest (parseStep_keeps ?_ ?_ hstate)
      · rintro name rfl
        exact hname name htok
      · rintro a s rfl
        exact haction a s htok
  have hall := hfold toks ([], none) (List.Subset.refl _) fun s hs => absurd hs not_mem_nil
  unfold parseSteps at h
  simp only at h
  split at h
  · cases h
  · cases h
    exact hall

theorem parseSteps_oneLine (htoks : ∀ tok ∈ toks, tok.OneLine)
    (h : parseSteps toks = .ok steps) : ∀ s ∈ steps, s.OneLine := by
  refine parseSteps_keeps ?_ ?_ h
  · intro name hname
    exact ⟨htoks _ hname, fun a ha => absurd ha not_mem_nil, fun tr htr => by cases htr⟩
  · intro a s ha hs
    refine ⟨hs.name, ?_, hs.transition⟩
    intro a' ha'
    rcases mem_append.1 ha' with ha' | ha'
    · exact hs.actions a' ha'
    · rw [mem_singleton.1 ha']
      exact htoks _ ha

/-- Transitions are added later. -/
theorem parseSteps_bare (h : parseSteps toks = .ok steps) : ∀ s ∈ steps, s.transition = none :=
  parseSteps_keeps (fun _ _ => rfl) (fun _ _ _ hs => hs) h

/-- What a transition does to the steps. -/
theorem linkTransition_ok {steps steps' : List Step} {tr : Transition} (h : linkTransition steps tr = .ok steps') :
    steps'.map Step.name = steps.map Step.name ∧ tr.toStep ∈ steps.map Step.name ∧
      ∀ s ∈ steps', s ∈ steps ∨ ∃ old ∈ steps, s = { old with transition := some tr } := by
  unfold linkTransition at h
  split at h
  · cases h
  rename_i idx _
  split at h
  · rename_i hto
    cases h
    refine ⟨?_, ?_, ?_⟩
    · refine ext_getElem? ?_
      intro k
      rw [getElem?_map, getElem?_map, getElem?_modify]
      cases steps[k]? with
      | none => rfl
      | some s =>
        refine congrArg some ?_
        show Step.name (if idx = k then _ else s) = s.name
        split
        · split <;> rfl
        · rfl
    · obtain ⟨s, hs, hname⟩ := any_eq_true.1 hto
      exact mem_map.2 ⟨s, hs, of_decide_eq_true hname⟩
    · intro s hs
      obtain ⟨k, hk⟩ := getElem?_of_mem hs
      rw [getElem?_modify] at hk
      obtain ⟨old, hold, rfl⟩ := Option.map_eq_some_iff.1 hk
      have hmem := mem_of_getElem? hold
      split
      · split
        · exact .inl hmem
        · exact .inr ⟨old, hmem, rfl⟩
      · exact .inl hmem
  · cases h

/-- What linking keeps: it holds of the steps, and a transition to one of them does not change that. -/
theorem linkTransitions_keeps {p : Step → Prop} {names : List (List Char)} {trs : List Transition}
    (hlink : ∀ tr ∈ trs, ∀ s, tr.toStep ∈ names → p s → p { s with transition := some tr }) {steps steps' : List Step}
    (hnames : steps.map Step.name = names) (hp : ∀ s ∈ steps, p s) (h : linkTransitions steps trs = .ok steps') :
    steps'.map Step.name = names ∧ ∀ s ∈ steps', p s := by
  unfold linkTransitions at h
  induction trs generalizing steps with
  | nil =>
    cases h
    exact ⟨hnames, hp⟩
  | cons tr trs ih =>
    rw [foldlM_cons, bind_ok] at h
    obtain ⟨steps₁, hone, h⟩ := h
    obtain ⟨hsame, hto, hnew⟩ := linkTransition_ok hone
    refine ih (fun tr' htr' => hlink tr' (mem_cons_of_mem _ htr')) (hsame.trans hnames) ?_ h
    intro s hs
    rcases hnew s hs with hs | ⟨old, hold, rfl⟩
    · exact hp s hs
    · exact hlink tr mem_cons_self old (hnames ▸ hto) (hp old hold)

theorem linkTransitions_oneLine {steps steps' : List Step} (h : ∀ s ∈ steps, s.OneLine) {trs : List Transition}
    (htrs : ∀ tr ∈ trs, '\n' ∉ tr.toStep ∧ '\n' ∉ tr.condition) (hlink : linkTransitions steps trs = .ok steps') :
    ∀ s ∈ steps', s.OneLine := by
  refine (linkTransitions_keeps ?_ rfl h hlink).2
  intro tr htr s _ hs
  refine ⟨hs.name, hs.actions, ?_⟩
  rintro tr' ⟨⟩
  exact htrs tr htr

/-! ## Actions that are assignments -/

section
variable [CaseMap]

/-- The variable and the expression of an action that is an assignment. -/
def assignment? (body : List Char) : Option (List Char × List Char) :=
  let b := trimEndMatches ';' (trim body)
  if isRaw b then none else (splitOnce ":=".toList b).map fun (var, expr) => (trim var, trim expr)

theorem actionBodyToIl_eq {body var expr : List Char} (h : assignment? body = some (var, expr)) :
    actionBodyToIl body = exprToIl expr var := by
  unfold assignment? at h
  unfold actionBodyToIl
  simp only at h ⊢
  split at h
  · cases h
  · rename_i hraw
    obtain ⟨⟨l, r⟩, hsplit, heq⟩ := Option.map_eq_some_iff.1 h
    cases heq
    rw [if_neg hraw, hsplit]

theorem assignment?_subset {body var expr : List Char} (h : assignment? body = some (var, expr)) :
    var ⊆ body ∧ expr ⊆ body := by
  unfold assignment? at h
  simp only at h
  split at h
  · cases h
  · obtain ⟨⟨l, r⟩, hsplit, heq⟩ := Option.map_eq_some_iff.1 h
    cases heq
    obtain ⟨hl, hr⟩ := splitOnce_subset hsplit
    have hb : trimEndMatches ';' (trim body) ⊆ body := List.Subset.trans (trimEndMatches_subset _ _) (trim_subset _)
    exact ⟨List.Subset.trans (trim_subset l) (List.Subset.trans hl hb),
      List.Subset.trans (trim_subset r) (List.Subset.trans hr hb)⟩

end

/-! ## Charts of a source -/

section
variable [CaseMap]

/-- The linked steps of a source. -/
def IsChart (source : List Char) (steps : List Step) : Prop :=
  ∃ tokens parsed, tokenize source = some tokens ∧ parseSteps tokens = .ok parsed ∧
    linkTransitions parsed (parseTransitions tokens) = .ok steps

theorem IsChart.det {steps steps' : List Step} (h : IsChart source steps) (h' : IsChart source steps') :
    steps = steps' := by
  obtain ⟨tokens, parsed, htokens, hparsed, hlink⟩ := h
  obtain ⟨tokens', parsed', htokens', hparsed', hlink'⟩ := h'
  rw [htokens] at htokens'
  cases htokens'
  rw [hparsed] at hparsed'
  cases hparsed'
  rw [hlink] at hlink'
  cases hlink'
  rfl

theorem IsChart.oneLine (h : IsChart source steps) : ∀ s ∈ steps, s.OneLine := by
  obtain ⟨tokens, parsed, htokens, hparsed, hlink⟩ := h
  have hone := tokenize_oneLine htokens
  refine linkTransitions_oneLine (parseSteps_oneLine hone hparsed) ?_ hlink
  intro tr htr
  obtain ⟨tok, htok, heq⟩ := mem_filterMap.1 htr
  cases tok with
  | transition tr' =>
    cases heq
    exact hone _ htok
  | _ => cases heq

/-- A transition leads to a step. -/
theorem IsChart.target (h : IsChart source steps) {s : Step} (hs : s ∈ steps)
    {tr : Transition} (htr : s.transition = some tr) : tr.toStep ∈ steps.map Step.name := by
  obtain ⟨tokens, parsed, _, hparsed, hlink⟩ := h
  have hbare : ∀ s ∈ parsed, ∀ tr, s.transition = some tr → tr.toStep ∈ parsed.map Step.name := by
    intro s hs tr htr
    rw [parseSteps_bare hparsed s hs] at htr
    cases htr
  have hkeep : ∀ tr ∈ parseTransitions tokens, ∀ s : Step, tr.toStep ∈ parsed.map Step.name →
      (∀ tr', s.transition = some tr' → tr'.toStep ∈ parsed.map Step.name) →
      ∀ tr', some tr = some tr' → tr'.toStep ∈ parsed.map Step.name := by
    rintro tr _ s hto _ tr' ⟨⟩
    exact hto
  obtain ⟨hnames, hall⟩ := linkTransitions_keeps hkeep rfl hbare hlink
  rw [hnames]
  exact hall s hs tr htr

theorem sfcCompile_ok {source il : List Char} (h : sfcCompile source = some (.ok il)) :
    ∃ steps, IsChart source steps ∧ generateIl steps = .ok il := by
  unfold sfcCompile at h
  obtain ⟨tokens, htokens, h⟩ := Option.bind_eq_some_iff.1 h
  rw [Option.some.injEq, bind_ok] at h
  obtain ⟨parsed, hparsed, h⟩ := h
  rw [bind_ok] at h
  obtain ⟨steps, hlink, h⟩ := h
  exact ⟨steps, ⟨tokens, parsed, htokens, hparsed, hlink⟩, h⟩

/-- The whole code of a step. -/
def Step.text (s : Step) : List Char :=
  s.actionsText ++
    match s.transition with
    | some tr => tr.text s.label ++ ['\n']
    | none => "  HALT\n\n".toList

theorem stepsText_eq {text : List Char} (h : stepsText steps = .ok text) : text = steps.flatMap Step.text := by
  induction steps generalizing text with
  | nil =>
    cases h
    rfl
  | cons step rest ih =>
    unfold stepsText at h
    rw [flatMap_cons]
    cases htr : step.transition with
    | some tr =>
      simp only [htr, bind_ok] at h
      obtain ⟨text', hrest, h⟩ := h
      cases h
      rw [← ih hrest]
      simp [Step.text, htr]
    | none =>
      simp only [htr] at h
      split at h
      · rename_i hempty
        cases h
        rw [isEmpty_iff.1 hempty]
        simp [Step.text, htr]
      · cases h

theorem generateIl_eq {il : List Char} (h : generateIl steps = .ok il) :
    ∃ first rest, steps = first :: rest ∧ il = headerText first ++ steps.flatMap Step.text := by
  cases steps with
  | nil => cases h
  | cons first rest =>
    simp only [generateIl, bind_ok] at h
    obtain ⟨text, htext, h⟩ := h
    cases h
    exact ⟨first, rest, rfl, by rw [stepsText_eq htext]⟩

/-! ## The text, read back -/

omit [CaseMap] in
theorem indented_closed (il : List Char) : Closed (indented il) :=
  .flatMap fun line _ => .line (' ' :: ' ' :: line)

theorem transition_closed (tr : Transition) (label : List Char) : Closed (tr.text label) :=
  (indented_closed _).append (.feed _ (.line _))

theorem headerText_closed (first : Step) : Closed (headerText first) :=
  .feed "; SFC compiled to IL".toList (.feed _ (.line []))

theorem actionsText_closed (s : Step) : Closed s.actionsText := by
  have hactions : Closed (s.actions.flatMap Action.text) := .flatMap fun a _ => indented_closed _
  unfold Step.actionsText
  rw [append_cons]
  exact .feed _ hactions

theorem text_closed (s : Step) : Closed s.text := by
  unfold Step.text
  refine (actionsText_closed s).append ?_
  split
  · exact (transition_closed _ _).append (.line [])
  · exact .feed "  HALT".toList (.line [])

/-- Setting in changes nothing. -/
theorem statements_indented (il : List Char) : statements (indented il) = statements il := by
  unfold indented
  rw [statements_lines il]
  refine statements_flatMap (fun line _ => .line (' ' :: ' ' :: line)) ?_
  intro line hline
  have hfeed : '\n' ∉ ' ' :: ' ' :: line := by simp [not_feed_of_mem_lines hline]
  have hread := statements_cons hfeed []
  rw [statements_nil, List.append_nil] at hread
  exact hread.trans (readLine_trim rfl)

end

end Audesys.Sfc
