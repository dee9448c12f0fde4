import Audesys.Fbd.Compiler
import Audesys.Il.Constants
import Audesys.Sfc.Compiler

/-!
# `Graphical.Constants` — numbers in charts and diagrams

An action `x := 5` of a chart and a wiring `b.PT := 500` of a diagram become `LD` of the digits and `ST` of the target,
and Instruction List takes the digits for the name of a signal. `constants_iff` says when the number is stored all the
same.
-/

/-! ## Actions that assign a number -/

open List

namespace Audesys.Sfc

open Audesys.Hal Audesys.Il Audesys.Lib

variable [CaseMap]
variable {source il front number target : List Char}

omit [CaseMap] in
theorem exprToIl_decimal {n : List Char} (h : IsDecimal n) (var : List Char) : exprToIl n var = loadStore n var := by
  have hdigit := all_eq_true.1 h.2
  obtain ⟨d, rest, rfl⟩ := exists_cons_of_ne_nil h.1
  have hd := hdigit d mem_cons_self
  have htrim : trim (d :: rest) = d :: rest := by
    refine @trim_pad [] (d :: rest) rfl ?_ ?_
    · rintro c ⟨⟩
      exact not_space_of_digit hd
    · intro c hc
      exact not_space_of_digit (hdigit c (mem_of_getLast? hc))
  -- a digit is no letter
  have hword : ∀ word : List Char, (∃ w ws, word = w :: ws ∧ w.toLower.isDigit = false) →
      eqIgnoreAsciiCase (d :: rest) word = false := by
    rintro _ ⟨w, ws, rfl, hw⟩
    refine decide_eq_false ?_
    intro heq
    have hhead : d.toLower = w.toLower := (List.cons.inj heq).1
    have hlower : d.toLower = d := by
      unfold Char.toLower
      refine dif_neg ?_
      rintro ⟨hlow, _⟩
      unfold Char.isDigit at hd
      rw [Bool.and_eq_true, decide_eq_true_eq, decide_eq_true_eq] at hd
      have hupper : d.toNat ≤ 57 := hd.2
      have hlow : 65 ≤ d.toNat := hlow
      omega
    rw [← hhead, hlower, hd] at hw
    cases hw
  have htrue : eqIgnoreAsciiCase (d :: rest) "TRUE".toList = false := hword _ ⟨'T', _, rfl, rfl⟩
  have hfalse : eqIgnoreAsciiCase (d :: rest) "FALSE".toList = false := hword _ ⟨'F', _, rfl, rfl⟩
  unfold exprToIl
  simp only
  rw [htrim, htrue, hfalse, if_neg Bool.false_ne_true, if_neg Bool.false_ne_true, if_pos h.2]

/-- The text in front of an action. -/
def textBefore (first : Step) (before : List Step) (step : Step) (earlier : List Action) : List Char :=
  headerText first ++ (before.flatMap Step.text ++ (step.label ++ ':' :: '\n' :: earlier.flatMap Action.text))

theorem textBefore_closed (first : Step) (before : List Step) (step : Step) (earlier : List Action) :
    Closed (textBefore first before step earlier) := by
  have hearlier : Closed (step.label ++ ':' :: '\n' :: earlier.flatMap Action.text) := by
    rw [append_cons]
    exact .feed _ (.flatMap fun a _ => indented_closed _)
  exact (headerText_closed first).append ((Closed.flatMap fun s _ => text_closed s).append hearlier)

/-- `target := number` is an action of a step of the source, behind the text `front`. -/
structure HasConstant (source front number target : List Char) : Prop where
  decimal : IsDecimal number
  place : ∃ first rest before step after earlier a later, IsChart source (first :: rest) ∧
    first :: rest = before ++ step :: after ∧ step.actions = earlier ++ a :: later ∧
    assignment? a.body = some (target, number) ∧ front = textBefore first before step earlier

/-- The pair in the text. -/
theorem HasConstant.statements (h : HasConstant source front number target)
    (hsfc : sfcCompile source = some (.ok il)) : ∃ back, statements il =
      Il.statements front ++ .load (String.ofList number) :: .store (readOperand target) :: back := by
  obtain ⟨hdecimal, first, rest, before, step, after, earlier, a, later, hchart, hsteps, hactions, hassign, rfl⟩ := h
  obtain ⟨steps, hchart', hil⟩ := sfcCompile_ok hsfc
  rw [hchart'.det hchart] at hil
  obtain ⟨first', rest', heq, rfl⟩ := generateIl_eq hil
  cases heq
  have hone : '\n' ∉ target := by
    have hstep : step ∈ first :: rest := by
      rw [hsteps]
      exact mem_append_right _ mem_cons_self
    have ha : a ∈ step.actions := by
      rw [hactions]
      exact mem_append_right _ mem_cons_self
    exact fun hin => (hchart.oneLine step hstep).actions a ha ((assignment?_subset hassign).1 hin)
  have hnumber : '\n' ∉ "LD ".toList ++ number := by
    have hdigit : '\n' ∉ number := fun hin => by cases all_eq_true.1 hdecimal.2 _ hin
    simp [hdigit]
  have htarget : '\n' ∉ "ST ".toList ++ target := by simp [hone]
  have hread : Il.statements a.text = [.load (String.ofList number), .store (readOperand target)] := by
    unfold Action.text
    rw [statements_indented, actionBodyToIl_eq hassign, exprToIl_decimal hdecimal]
    unfold loadStore
    rw [statements_cons hnumber, statements_line htarget, readLine_ld, readLine_st, hdecimal.readOperand]
    rfl
  -- the text is what is in front of the action, the action, and what is behind it
  have htext : ∃ back, headerText first ++ (first :: rest).flatMap Step.text =
      textBefore first before step earlier ++ (a.text ++ back) := by
    rw [hsteps]
    unfold textBefore Step.text Step.actionsText
    rw [flatMap_append, flatMap_cons, hactions, flatMap_append, flatMap_cons]
    exact ⟨_, by simp only [List.append_assoc, cons_append]; rfl⟩
  obtain ⟨back, htext⟩ := htext
  refine ⟨Il.statements back, ?_⟩
  rw [htext, statements_append (textBefore_closed first before step earlier),
    statements_append (show Closed a.text from indented_closed _),
    hread]
  rfl

end Audesys.Sfc

/-! ## Inputs that are a number -/

namespace Audesys.Fbd

open Audesys.Hal Audesys.Il Audesys.Lib

/-- The text in front of an input of a block. -/
def textBefore (before : List FbBlock) (b : FbBlock) (earlier : List (List Char × List Char)) : List Char :=
  let il := blocksText before
  (if il.isEmpty then il else il ++ ['\n']) ++
    ("; BLOCK ".toList ++ b.name ++ ' ' :: b.kind.ilName.toList ++ '\n' :: earlier.flatMap b.inputText)

/-- `target := number` is an input of a block of the source, behind the text `front`. -/
structure HasConstant (source front number target : List Char) : Prop where
  decimal : IsDecimal number
  place : ∃ before b after earlier pin later, parseBlocks (tokenize source) = .ok (before ++ b :: after) ∧
    b.inputs = earlier ++ (pin, number) :: later ∧ target = b.name ++ '.' :: pin ∧
    front = textBefore before b earlier

variable [CaseMap]

theorem statements_textBefore {before : List FbBlock} {b : FbBlock} {earlier : List (List Char × List Char)}
    (hbefore : ∀ b ∈ before, b.OneLine) (hname : '\n' ∉ b.name) (hearlier : ∀ q ∈ earlier, '\n' ∉ q.1 ∧ '\n' ∉ q.2) :
    Il.statements (textBefore before b earlier) =
      before.flatMap FbBlock.callStatements ++ earlier.flatMap b.inputStatements := by
  obtain ⟨hclosed, hread⟩ := statements_blocksText hbefore
  obtain ⟨hclosed', hread'⟩ := statements_separate hclosed
  unfold textBefore
  simp only
  rw [statements_append hclosed', hread', hread, FbBlock.statements_head hname,
    statements_flatMap (fun q _ => b.inputText_closed q) fun q hq => FbBlock.statements_inputText hname (hearlier q hq)]

/-- The pair in the text. -/
theorem HasConstant.statements (h : HasConstant source front number target)
    (hfbd : fbdCompile source = .ok il) : ∃ back, statements il =
      Il.statements front ++ .load (String.ofList number) :: .store (readOperand target) :: back := by
  obtain ⟨hdecimal, before, b, after, earlier, pin, later, hparse, hinputs, rfl, rfl⟩ := h
  obtain ⟨blocks, hblocks, _, hone, rfl⟩ := fbdCompile_ok hfbd
  rw [hparse] at hblocks
  cases hblocks
  have hb := hone b (mem_append_right _ mem_cons_self)
  have hearlier : ∀ q ∈ earlier, '\n' ∉ q.1 ∧ '\n' ∉ q.2 := by
    intro q hq
    refine hb.inputs q ?_
    rw [hinputs]
    exact mem_append_left _ hq
  have hcall : b.callStatements = earlier.flatMap b.inputStatements ++ (.load (String.ofList number) ::
      .store (readOperand (b.name ++ '.' :: pin)) :: (later.flatMap b.inputStatements ++ [.call (readOperand b.name)])) := by
    unfold FbBlock.callStatements
    rw [hinputs, flatMap_append, flatMap_cons, List.append_assoc, ← hdecimal.readOperand]
    rfl
  rw [statements_generateIl hone, statements_textBefore (fun b' hb' => hone b' (mem_append_left _ hb')) hb.name hearlier,
    flatMap_append, flatMap_cons, hcall]
  refine ⟨?back, ?same⟩
  case same =>
    simp only [List.append_assoc, cons_append]
    rfl

end Audesys.Fbd

/-! ## Constants -/

namespace Audesys.Graphical

open Audesys.Hal Audesys.Il Audesys.Lib

variable [CaseMap]

/-- `target := number` in an accepted chart or diagram: the text, and the part of it in front of the pair. -/
inductive Constant (source il front number target : List Char) : Prop
  | chart : Sfc.sfcCompile source = some (.ok il) → Sfc.HasConstant source front number target →
      Constant source il front number target
  | diagram : Fbd.fbdCompile source = .ok il → Fbd.HasConstant source front number target →
      Constant source il front number target

/-- The statements of a constant. -/
theorem Constant.pair (h : Constant source il front number target) :
    Pair (statements il) (statements front).length (String.ofList number) (readOperand target) := by
  cases h with
  | chart hsfc h =>
    obtain ⟨back, hback⟩ := h.statements hsfc
    exact .of_append hback
  | diagram hfbd h =>
    obtain ⟨back, hback⟩ := h.statements hfbd
    exact .of_append hback

variable [Target]

/-- **Numeric constants** of a chart or diagram whose text compiles, from any table of signals: wherever the store of the
constant is executed it stores the number, exactly if, whenever control comes to the pair, the signal that is named by
the digits holds that number and the target is read as it is written. -/
theorem constants_iff {source il front number target : List Char} (h : Constant source il front number target)
    {program : HalProgram} (hil : ilCompile (String.ofList il) = some program) :
    ∃ regs, Assigned regs (statements il) ∧ program.instructions = linked regs (statements il) ∧
      ∀ (vm : Vm) (table : String → Option HalValue),
        StoresNumber (statements il) program.instructions (statements front).length (decimal number)
            (String.ofList target) (started vm table) ↔
          ∀ u, Enters (statements il) program.instructions (statements front).length (started vm table) u →
            readOperand target = String.ofList target ∧
              integer? (incoming regs (statements il) (statements front).length (String.ofList number) u) =
                some (decimal number : Int) := by
  obtain ⟨regs, hregs, hcode⟩ := ilCompile_some hil
  refine ⟨regs, hregs, hcode, ?_⟩
  intro vm table
  rw [hcode]
  exact storesNumber_iff hregs h.pair rfl (decimal number) (String.ofList target)

end Audesys.Graphical

/-! ## One constant -/

namespace Audesys.Graphical

open Audesys.Hal Audesys.Il Audesys.Lib

local instance releaseConstants : Target := host false

local instance asciiConstants : CaseMap := .ascii

/-- A chart of one step with the action `x := 5`, and its text. -/
def fiveSource : List Char := "STEP S\nACTION N: x := 5\nEND_STEP".toList

def fiveFront : List Char := "; SFC compiled to IL\nJMP S\n\nS:\n".toList

def fiveText : List Char := fiveFront ++ "  LD 5\n  ST x\n  HALT\n\n".toList

theorem fiveSource_constant : Constant fiveSource fiveText fiveFront ['5'] ['x'] := by
  refine .chart rfl ⟨by decide, ?_⟩
  have hchart : Sfc.IsChart fiveSource [⟨['S'], [⟨'N', "x := 5".toList⟩], none⟩] := ⟨_, _, rfl, rfl, rfl⟩
  exact ⟨_, [], [], _, [], [], _, [], hchart, rfl, rfl, by decide, by decide⟩

/-- Its statements and its code. -/
theorem fiveText_statements : statements fiveText = [.jump "S", .label "S", .load "5", .store "x"] := by decide

def fiveCode : List Instruction :=
  [.loadImm 15 (.bool true), .jump 2, ⟨.load, [.register 0, .signalName "5"]⟩, ⟨.load, [.register 14, .register 0]⟩,
    ⟨.store, [.signalName "x", .register 14]⟩, .halt]

theorem fiveText_code : ∃ program, ilCompile (String.ofList fiveText) = some program ∧ program.instructions = fiveCode :=
  Option.map_eq_some_iff.1 (show (ilCompile (String.ofList fiveText)).map HalProgram.instructions = some fiveCode by decide)

theorem fiveFront_length : (statements fiveFront).length = 2 := by decide

/-- With no signal set, false is stored. -/
theorem fiveSource_lost : Constant fiveSource fiveText fiveFront ['5'] ['x'] ∧
    ∃ program, ilCompile (String.ofList fiveText) = some program ∧
      ¬ StoresNumber (statements fiveText) program.instructions (statements fiveFront).length (decimal ['5'])
        (String.ofList ['x']) (started Vm.new fun _ => none) := by
  obtain ⟨program, hil, hcode⟩ := fiveText_code
  refine ⟨fiveSource_constant, program, hil, ?_⟩
  rw [hcode, fiveText_statements, fiveFront_length]
  intro h
  have hstored := (h 4 _ (.step rfl (.step rfl (.step rfl (.step rfl (.refl _))))) (by decide)).2
  exact absurd hstored (by decide)

/-- The signal with the name `5` is five. -/
def fiveTable : String → Option HalValue := fun x => if x = "5" then some (.s32 5) else none

/-- Then five is stored. -/
theorem fiveSource_stored : ∃ program, ilCompile (String.ofList fiveText) = some program ∧
    StoresNumber (statements fiveText) program.instructions (statements fiveFront).length (decimal ['5'])
      (String.ofList ['x']) (started Vm.new fiveTable) := by
  obtain ⟨program, hil, hcode⟩ := fiveText_code
  obtain ⟨regs, _, _, hiff⟩ := constants_iff fiveSource_constant hil
  refine ⟨program, hil, (hiff Vm.new fiveTable).2 ?_⟩
  rw [hcode, fiveText_statements, fiveFront_length]
  rintro u ⟨k, t, hrun, hnext, hout, hin⟩
  have hrun₅ : RunN (next fiveCode) 5 (started Vm.new fiveTable) _ :=
    .step rfl (.step rfl (.step rfl (.step rfl (.step rfl (.refl _)))))
  have hk : k ≤ 5 := hrun.le_of_stopped hrun₅ rfl
  match k, hk with
  | 0, _ =>
    rw [← hrun.zero_inv] at hnext
    cases hnext
    exact absurd hin (by decide)
  | 1, _ =>
    rw [hrun.det (.step rfl (.refl _))] at hnext
    cases hnext
    refine ⟨by decide, ?_⟩
    unfold incoming
    rw [if_pos (by decide)]
    rfl
  | 2, _ =>
    rw [hrun.det (.step rfl (.step rfl (.refl _)))] at hout
    exact absurd hout (by decide)
  | 3, _ =>
    rw [hrun.det (.step rfl (.step rfl (.step rfl (.refl _))))] at hout
    exact absurd hout (by decide)
  | 4, _ =>
    rw [hrun.det (.step rfl (.step rfl (.step rfl (.step rfl (.refl _)))))] at hnext
    cases hnext
    exact absurd hin (by decide)
  | 5, _ =>
    rw [hrun.det hrun₅] at hnext
    cases hnext

end Audesys.Graphical
