import Audesys.Il.Memory
import Audesys.Lib.Rounds
import Audesys.Sfc.Shape

/-!
# `Sfc.Scan` — when a scan of a chart ends

A visit to a step executes its actions and the condition of its transition. If that leaves `TRUE` in the accumulator the
next visit is to the target of the transition, else to the same step again, in the same scan: the jump back stands in the
generated code to stay in the step. So a scan ends exactly if the visits come to the last step (`scan_ends_iff`).
-/

namespace Audesys.Sfc

open Audesys.Hal Audesys.Il Audesys.Lib

variable [CaseMap] [Target]

-- the statements of a text are known by what is proved of them, not by reading the text again
attribute [local irreducible] Action.statements Transition.statements

/-! ## Visits -/

/-- A visit to a step: the memory after it, and the label that comes next; `none` where the arithmetic has no result. -/
def Step.visit (s : Step) (m : Memory) : Option (Memory × Option (List Char)) :=
  (m.run false (s.actions.flatMap Action.statements)).bind fun m =>
    match s.transition with
    | some tr =>
      (m.run false tr.statements).map fun m =>
        (m, some (if m.acc.cr = .bool true then toUppercase tr.toStep else s.label))
    | none => some (m, none)

/-- Where there is no label, there is no transition. -/
theorem transition_none {s : Step} {m m' : Memory} (h : s.visit m = some (m', none)) : s.transition = none := by
  unfold Step.visit at h
  obtain ⟨m₁, _, h⟩ := Option.bind_eq_some_iff.1 h
  cases htr : s.transition with
  | none => rfl
  | some tr =>
    rw [htr] at h
    obtain ⟨m₂, _, heq⟩ := Option.map_eq_some_iff.1 h
    cases heq

/-- One visit; a label that no step has is the end. -/
def visits (steps : List Step) : Option Nat × Memory → Outcome (Option Nat × Memory)
  | (place, m) =>
    match place.bind fun k => steps[k]? with
    | none => .ends
    | some s =>
      match s.visit m with
      | none => .fails
      | some (_, none) => .ends
      | some (m', some label) => .goes (stepIndex label steps, m')

theorem visits_goes {steps : List Step} {k : Nat} {s : Step} (hs : steps[k]? = some s) {m m' : Memory}
    {label : List Char} (hv : s.visit m = some (m', some label)) :
    visits steps (some k, m) = .goes (stepIndex label steps, m') := by
  unfold visits
  simp only [Option.bind_some]
  rw [hs]
  simp only
  rw [hv]

theorem visits_ends {steps : List Step} {k : Nat} {s : Step} (hs : steps[k]? = some s) {m m' : Memory}
    (hv : s.visit m = some (m', none)) : visits steps (some k, m) = .ends := by
  unfold visits
  simp only [Option.bind_some]
  rw [hs]
  simp only
  rw [hv]

/-- The first visit. -/
def entry (steps : List Step) (table : String → Option HalValue) : Option Nat × Memory :=
  (steps.head?.bind fun first => stepIndex first.label steps, .init table)

/-- The visits of a scan come to an end. -/
def ScanEnds (steps : List Step) (table : String → Option HalValue) : Prop :=
  Terminates (visits steps) (entry steps table)

/-! ## The code of a visit -/

/-- A machine that halts. -/
def Halts (code : List Instruction) (vm : Vm) : Prop := ∃ vm', vm.step code = some (vm', .halted)

/-- A machine in front of the statements of a step. -/
def AtStep (regs : String → UInt8) (steps : List Step) (a : Option Nat × Memory) (vm : Vm) : Prop :=
  InFront regs (chart steps) (stepPlace steps a.1) false a.2 vm

section
variable {regs : String → UInt8} {steps : List Step} {vm : Vm} {m : Memory}

omit [Target] in
theorem chart_noCalls (hshaped : ∀ s ∈ steps, s.Shaped) : NoCalls (chart steps) := by
  have hplain : ∀ t : ILStatement, (t.IsStraight ∨ ∃ op x, t = .cmp op x) → t ≠ .ret ∧ ∀ fb, t ≠ .call fb := by
    rintro t (ht | ⟨op, x, rfl⟩)
    · cases t <;> first | exact ht.elim | simp
    · simp
  intro t ht
  rcases List.mem_append.1 ht with ht | ht
  · obtain ⟨first, _, rfl⟩ := Option.map_eq_some_iff.1 (Option.mem_toList.1 ht)
    simp
  · obtain ⟨s, hs, ht⟩ := List.mem_flatMap.1 ht
    rcases List.mem_cons.1 ht with rfl | ht
    · simp
    rcases List.mem_append.1 ht with ht | ht
    · exact hplain t ((hshaped s hs).actions.mem t ht)
    unfold Step.exit at ht
    cases htr : s.transition with
    | none =>
      rw [htr] at ht
      cases ht
    | some tr =>
      rw [htr] at ht
      rcases List.mem_append.1 ht with ht | ht
      · exact hplain t (((hshaped s hs).condition tr htr).mem t ht)
      · simp only [List.mem_cons, List.not_mem_nil, or_false] at ht
        rcases ht with rfl | rfl <;> simp

/-- The end of the chart is the `Halt`. -/
theorem halts_at_end (h : InFront regs (chart steps) (chart steps).length false m vm) :
    next (linked regs (chart steps)) vm = none ∧ Halts (linked regs (chart steps)) vm := by
  have hhalt : (linked regs (chart steps))[vm.ip]? = some .halt := by
    rw [show vm.ip = start (chart steps) (chart steps).length from h.ip]
    exact halt_at regs (chart steps)
  exact ⟨next_halt hhalt, _, step_halt hhalt⟩

omit [CaseMap] in
/-- The label of a step has no code. -/
theorem label_run {stmts : List ILStatement} {i : Nat} {name : String} (hs : stmts[i]? = some (.label name))
    (h : InFront regs stmts i false m vm) : InFront regs stmts (i + 1) false m vm := by
  refine ⟨h.holds, h.true_, ?_, h.skipped⟩
  rw [start_succ hs]
  exact h.ip

/-- Where the code of a visit to step `k` gets. -/
def Visited (regs : String → UInt8) (steps : List Step) (vm : Vm) (place : Nat) :
    Option (Memory × Option (List Char)) → Prop
  | some (m, some label) => ∃ n t, RunN (next (linked regs (chart steps))) (n + 1) vm t ∧
      AtStep regs steps (stepIndex label steps, m) t
  | some (m, none) => ∃ n t, RunN (next (linked regs (chart steps))) n vm t ∧ InFront regs (chart steps) place false m t
  | none => ∃ t, StopsIn (next (linked regs (chart steps))) vm t ∧ ¬ Halts (linked regs (chart steps)) t

/-- **A visit** in the code of the chart. -/
theorem visit_run (hregs : Assigned regs (chart steps)) (hsmall : (linked regs (chart steps)).length < 2 ^ 32)
    (hshaped : ∀ s ∈ steps, s.Shaped) {k : Nat} {s : Step} (hs : steps[k]? = some s)
    (h : AtStep regs steps (some k, m) vm) :
    Visited regs steps vm (stepPlace steps (some k) + s.statements.length) (s.visit m) := by
  have hcalls := chart_noCalls hshaped
  have hmem := List.mem_of_getElem? hs
  have hne : steps ≠ [] := List.ne_nil_of_mem hmem
  have hcode := step_codeAt hs
  -- a machine without a step is stuck, and did not halt
  have hstuck : ∀ t : Vm, t.step (linked regs (chart steps)) = none →
      next (linked regs (chart steps)) t = none ∧ ¬ Halts (linked regs (chart steps)) t := by
    intro t ht
    refine ⟨?_, ?_⟩
    · unfold next
      rw [ht]
    · rintro ⟨vm', hhalt⟩
      rw [ht] at hhalt
      cases hhalt
  have hactions := block_run hregs hcalls hsmall (hshaped s hmem).actions hcode.tail.left (label_run hcode.head h)
  unfold Step.visit
  cases hm : m.run false (s.actions.flatMap Action.statements) with
  | none =>
    rw [hm] at hactions
    obtain ⟨n, t, hn, ht⟩ := hactions
    obtain ⟨hstop, hbad⟩ := hstuck t ht
    exact ⟨t, ⟨n, hn, hstop⟩, hbad⟩
  | some m₁ =>
    rw [hm] at hactions
    obtain ⟨n, u, hn, hu⟩ := hactions
    have hexit := hcode.tail.right
    simp only [Option.bind_some]
    -- without a transition the step behind this one in the code comes next
    cases htr : s.transition with
    | none =>
      simp only [Visited]
      refine ⟨n, u, hn, ?_⟩
      have hlen : s.statements.length = 1 + (s.actions.flatMap Action.statements).length := by
        unfold Step.statements Step.exit
        rw [htr, List.append_nil, List.length_cons, Nat.add_comm]
      rw [hlen, ← Nat.add_assoc]
      exact hu
    | some tr =>
      have hplace : CodeAt (chart steps) (stepPlace steps (some k) + 1 + (s.actions.flatMap Action.statements).length)
          (tr.statements ++ [.jumpIf (String.ofList (toUppercase tr.toStep)), .jump (String.ofList s.label)]) := by
        unfold Step.exit at hexit
        rw [htr] at hexit
        exact hexit
      have hcond := condition_run hregs hcalls hsmall ((hshaped s hmem).condition tr htr) hplace hu
      simp only
      cases hm₂ : m₁.run false tr.statements with
      | none =>
        rw [hm₂] at hcond
        obtain ⟨j, t, hj, ht⟩ := hcond
        obtain ⟨hstop, hbad⟩ := hstuck t ht
        exact ⟨t, ⟨n + j, hn.trans hj, hstop⟩, hbad⟩
      | some m₂ =>
        rw [hm₂] at hcond
        obtain ⟨j, t, hj, ht⟩ := hcond
        simp only [Option.map_some, Visited]
        refine ⟨n + j, t, hn.trans hj, ?_⟩
        unfold AtStep
        rw [← labelPlace_chart hne hshaped]
        -- the jump is taken on true, and the visit repeated otherwise
        by_cases hcr : m₂.acc.cr = .bool true
        · rw [if_pos hcr] at ht ⊢
          exact ht
        · rw [if_neg hcr] at ht ⊢
          exact ht

omit [Target] in
/-- Behind the last step. -/
theorem stepPlace_end (hne : steps ≠ []) {k : Nat} (hk : steps.length ≤ k) :
    stepPlace steps (some k) = (chart steps).length := by
  obtain ⟨first, rest, rfl⟩ := List.exists_cons_of_ne_nil hne
  simp only [stepPlace]
  rw [List.take_of_length_le hk]
  show _ = (ILStatement.jump _ :: (first :: rest).flatMap Step.statements).length
  rw [List.length_cons, Nat.add_comm]

omit [Target] in
theorem stepPlace_succ {k : Nat} {s : Step} (hs : steps[k]? = some s) :
    stepPlace steps (some (k + 1)) = stepPlace steps (some k) + s.statements.length := by
  show 1 + _ = 1 + _ + _
  rw [List.take_add_one, hs, List.flatMap_append, List.length_append, Nat.add_assoc]
  simp

/-- **The code plays the visits.** -/
theorem plays_visits (hregs : Assigned regs (chart steps)) (hsmall : (linked regs (chart steps)).length < 2 ^ 32)
    (hne : steps ≠ []) (hshaped : ∀ s ∈ steps, s.Shaped)
    (hlast : ∀ front s back, steps = front ++ s :: back → s.transition = none → back = []) :
    Plays (visits steps) (next (linked regs (chart steps))) (Halts (linked regs (chart steps))) (AtStep regs steps) := by
  -- a step without a transition is in front of the end
  have hend : ∀ {k s}, steps[k]? = some s → s.transition = none →
      stepPlace steps (some k) + s.statements.length = (chart steps).length := by
    intro k s hs htr
    obtain ⟨hlt, rfl⟩ := List.getElem?_eq_some_iff.1 hs
    have hsplit : steps = steps.take k ++ steps[k] :: steps.drop (k + 1) := by
      rw [List.getElem_cons_drop, List.take_append_drop]
    have hback := List.drop_eq_nil_iff.1 (hlast _ _ _ hsplit htr)
    rw [← stepPlace_succ hs]
    exact stepPlace_end hne hback
  have hvisit : ∀ {place m vm}, AtStep regs steps (place, m) vm → ∀ {k s}, place = some k → steps[k]? = some s →
      AtStep regs steps (some k, m) vm := by
    rintro place m vm hrel k s rfl _
    exact hrel
  refine ⟨?_, ?_, ?_⟩
  · rintro ⟨place, m⟩ vm hrel hround
    unfold visits at hround
    cases hs : place.bind fun k => steps[k]? with
    | none =>
      have hplace : stepPlace steps place = (chart steps).length := by
        cases place with
        | none => rfl
        | some k => exact stepPlace_end hne (List.getElem?_eq_none_iff.1 hs)
      unfold AtStep at hrel
      rw [hplace] at hrel
      obtain ⟨hstop, hgood⟩ := halts_at_end hrel
      exact ⟨vm, ⟨0, .refl vm, hstop⟩, hgood⟩
    | some s =>
      obtain ⟨k, rfl, hk⟩ := Option.bind_eq_some_iff.1 hs
      have hrun := visit_run hregs hsmall hshaped hk hrel
      simp only [hs] at hround
      cases hv : s.visit m with
      | none =>
        simp only [hv] at hround
        cases hround
      | some p =>
        obtain ⟨m', label⟩ := p
        cases label with
        | some label =>
          simp only [hv] at hround
          cases hround
        | none =>
          rw [hv] at hrun
          obtain ⟨n, t, hn, ht⟩ := hrun
          have htr : s.transition = none := transition_none hv
          rw [hend hk htr] at ht
          obtain ⟨hstop, hgood⟩ := halts_at_end ht
          exact ⟨t, ⟨n, hn, hstop⟩, hgood⟩
  · rintro ⟨place, m⟩ vm hrel hround
    unfold visits at hround
    cases hs : place.bind fun k => steps[k]? with
    | none =>
      simp only [hs] at hround
      cases hround
    | some s =>
      obtain ⟨k, rfl, hk⟩ := Option.bind_eq_some_iff.1 hs
      have hrun := visit_run hregs hsmall hshaped hk hrel
      simp only [hs] at hround
      cases hv : s.visit m with
      | none =>
        rw [hv] at hrun
        exact hrun
      | some p =>
        obtain ⟨m', label⟩ := p
        cases label <;> (simp only [hv] at hround; cases hround)
  · rintro ⟨place, m⟩ b vm hrel hround
    unfold visits at hround
    cases hs : place.bind fun k => steps[k]? with
    | none =>
      simp only [hs] at hround
      cases hround
    | some s =>
      obtain ⟨k, rfl, hk⟩ := Option.bind_eq_some_iff.1 hs
      have hrun := visit_run hregs hsmall hshaped hk hrel
      simp only [hs] at hround
      cases hv : s.visit m with
      | none =>
        simp only [hv] at hround
        cases hround
      | some p =>
        obtain ⟨m', label⟩ := p
        cases label with
        | none =>
          simp only [hv] at hround
          cases hround
        | some label =>
          simp only [hv] at hround
          cases hround
          rw [hv] at hrun
          exact hrun

end

/-! ## Scans -/

omit [Target] in
/-- Where all steps have names, the targets of transitions have. -/
theorem IsChart.named {source : List Char} {steps : List Step} (h : IsChart source steps)
    (hnames : ∀ s ∈ steps, IsName (String.ofList s.label)) : Named steps where
  label := hnames
  target s hs tr htr := by
    obtain ⟨s', hs', hname⟩ := List.mem_map.1 (h.target hs htr)
    rw [← hname]
    exact hnames s' hs'

section
variable {source il : List Char} {steps : List Step}

/-- The machine of a compiled chart halts exactly if the visits come to an end. -/
theorem halts_iff (hsfc : sfcCompile source = some (.ok il)) (hchart : IsChart source steps)
    (hassign : ∀ s ∈ steps, ∀ a ∈ s.actions, (assignment? a.body).isSome = true)
    (hnames : ∀ s ∈ steps, IsName (String.ofList s.label)) {program : HalProgram}
    (hil : ilCompile (String.ofList il) = some program) (hsmall : program.instructions.length < 2 ^ 32) (vm : Vm)
    (table : String → Option HalValue) :
    (∃ vm', HaltsAt program.instructions (started vm table) vm') ↔ ScanEnds steps table := by
  obtain ⟨steps', hchart', hgen⟩ := sfcCompile_ok hsfc
  rw [hchart'.det hchart] at hgen
  have hshaped : ∀ s ∈ steps, s.Shaped := fun s hs => (hchart.oneLine s hs).shaped (hassign s hs)
  obtain ⟨first, rest, rfl, _⟩ := generateIl_eq hgen
  obtain ⟨regs, hregs, hcode⟩ := ilCompile_some hil
  rw [statements_generateIl (hchart.named hnames) hgen] at hregs hcode
  rw [hcode] at hsmall ⊢
  have hplays := plays_visits hregs hsmall (List.cons_ne_nil _ _) hshaped fun _ _ _ => generateIl_last hgen
  -- the first instruction, then the jump to the first step
  obtain ⟨vm₁, hnext, hip, hholds, htrue⟩ := first_run hregs vm table
  have hfront : InFront regs (chart (first :: rest)) 0 false (.init table) vm₁ :=
    ⟨hholds, htrue, hip, fun hskip => by cases hskip⟩
  obtain ⟨vm₂, hnext', hfront'⟩ := jump_run hsmall rfl hfront
  rw [labelPlace_chart (List.cons_ne_nil _ _) hshaped] at hfront'
  have hiff := hplays.terminates_iff (a := entry (first :: rest) table) (.step hnext (.single hnext')) hfront'
  refine Iff.trans ?_ hiff
  constructor
  · rintro ⟨vm', n, last, hn, hhalt⟩
    refine ⟨last, ⟨n, hn, ?_⟩, vm', hhalt⟩
    unfold next
    rw [hhalt]
  · rintro ⟨last, ⟨n, hn, _⟩, vm', hhalt⟩
    exact ⟨vm', n, last, hn, hhalt⟩

/-- **A scan** of an accepted chart, whose actions are assignments and whose steps have single words for names, runs to a
halt exactly if its visits come to an end. -/
theorem scan_ends_iff (hsfc : sfcCompile source = some (.ok il)) (hchart : IsChart source steps)
    (hassign : ∀ s ∈ steps, ∀ a ∈ s.actions, (assignment? a.body).isSome = true)
    (hnames : ∀ s ∈ steps, IsName (String.ofList s.label)) {program : HalProgram}
    (hil : ilCompile (String.ofList il) = some program) (hsmall : program.instructions.length < 2 ^ 32) (vm : Vm)
    (table : String → Option HalValue) :
    (∃ vm', RunsTo program (started vm table) vm') ↔ ScanEnds steps table := by
  have hruns : ∀ vm', RunsTo program (started vm table) vm' ↔ HaltsAt program.instructions (started vm table) vm' :=
    fun vm' => runToHalt_iff program _ vm'
  simp only [hruns]
  exact halts_iff hsfc hchart hassign hnames hil hsmall vm table

end

end Audesys.Sfc

/-! ## A chart that waits -/

namespace Audesys.Sfc

open Audesys.Hal Audesys.Il Audesys.Lib

local instance releaseScan : Target := host false

local instance asciiScan : CaseMap := .ascii

/-- From step `A` to step `B` when `n > 5`. -/
def waitSource : List Char := "STEP A\nEND_STEP\nTRANSITION FROM A TO B : n > 5\nEND_TRANSITION\nSTEP B\nEND_STEP".toList

def waitSteps : List Step := [⟨['A'], [], some ⟨['A'], ['B'], "n > 5".toList⟩⟩, ⟨['B'], [], none⟩]

def waitText : List Char :=
  "; SFC compiled to IL\nJMP A\n\nA:\n  LD n\n  GT 5\n  JMPC B\n  JMP A\n\nB:\n  HALT\n\n".toList

theorem waitSource_chart : IsChart waitSource waitSteps := ⟨_, _, rfl, rfl, rfl⟩

def waitCode : List Instruction :=
  [.loadImm 15 (.bool true), .jump 2, ⟨.load, [.register 0, .signalName "n"]⟩, ⟨.load, [.register 14, .register 0]⟩,
    .cmp .gt 14 1, .jumpIf 8, .loadImm 14 (.bool false), .jump 10, .loadImm 14 (.bool true), .cmp .eq 14 15, .jumpIf 12,
    .jump 2, .halt]

/-- What the compilers make of the chart, and of its condition. -/
theorem waitSource_compiled : sfcCompile waitSource = some (.ok waitText) ∧
    (ilCompile (String.ofList waitText)).map HalProgram.instructions = some waitCode ∧
    Transition.statements ⟨['A'], ['B'], "n > 5".toList⟩ = [.load "n", .cmp .gt "5"] := by decide +kernel

theorem waitText_code : ∃ program, ilCompile (String.ofList waitText) = some program ∧ program.instructions = waitCode :=
  Option.map_eq_some_iff.1 waitSource_compiled.2.1

/-- What a visit to `A` leaves, `n > 5` being `b`. -/
theorem waitStep_visit {m : Memory} {b : Bool} (hb : (m.acc.operand "n").gt (m.copies "5") = b) :
    Step.visit ⟨['A'], [], some ⟨['A'], ['B'], "n > 5".toList⟩⟩ m =
      some (⟨⟨.bool b, m.acc.signals⟩, Function.update m.copies "n" (m.acc.operand "n")⟩,
        some (if b = true then ['B'] else ['A'])) := by
  have hrun : m.run false [.load "n", .cmp .gt "5"] =
      some ⟨⟨.bool b, m.acc.signals⟩, Function.update m.copies "n" (m.acc.operand "n")⟩ := by
    rw [← hb]
    rfl
  have hnil : m.run false [] = some m := rfl
  unfold Step.visit
  simp only [List.flatMap_nil]
  rw [hnil, Option.bind_some, waitSource_compiled.2.2, hrun, Option.map_some]
  cases b with
  | true => rfl
  | false => rfl

/-- With no signal set, `A` is visited again and again. -/
theorem waitSteps_endless : ¬ ScanEnds waitSteps fun _ => none := by
  refine not_terminates (p := fun a => a.1 = some 0 ∧ a.2.acc.signals = (fun _ => none) ∧ a.2.copies "5" = .s32 0) ?_
    ⟨rfl, rfl, rfl⟩
  rintro ⟨place, m⟩ ⟨hplace, hsignals, hcopy⟩
  have hn : m.acc.operand "n" = .bool false := by
    unfold Accumulator.operand
    rw [show m.acc.signals = _ from hsignals]
    rfl
  have hb : (m.acc.operand "n").gt (m.copies "5") = false := by
    rw [hn, show m.copies "5" = _ from hcopy]
    rfl
  have hgoes := @visits_goes _ _ waitSteps 0 _ rfl _ _ _ (waitStep_visit hb)
  obtain rfl : place = some 0 := hplace
  exact ⟨_, hgoes, rfl, hsignals, hcopy⟩

theorem waitSteps_names : ∀ s ∈ waitSteps, IsName (String.ofList s.label) := by
  have hname : ∀ c : Char, isWhitespace c = false → c ≠ '(' → IsName (String.ofList [c]) := by
    intro c hc hparen
    refine ⟨⟨?_, ?_⟩, ?_⟩
    · simp
    · simpa using hc
    · simpa using Ne.symm hparen
  intro s hs
  rcases List.mem_cons.1 hs with rfl | hs
  · exact hname 'A' rfl (by decide)
  · rw [List.mem_singleton.1 hs]
    exact hname 'B' rfl (by decide)

/-- With `n = 10`, the scan goes on to `B` and ends. -/
def tenTable : String → Option HalValue := fun x => if x = "n" then some (.s32 10) else none

theorem waitSteps_ends : ScanEnds waitSteps tenTable := by
  have hb : ((Memory.init tenTable).acc.operand "n").gt ((Memory.init tenTable).copies "5") = true := rfl
  refine .goes (@visits_goes _ _ waitSteps 0 _ rfl _ _ _ (waitStep_visit hb)) ?_
  exact .ends (@visits_ends _ _ waitSteps 1 _ rfl _ _ rfl)

theorem waitSource_halts : ∃ program, ilCompile (String.ofList waitText) = some program ∧
    ∃ vm', RunsTo program (started Vm.new tenTable) vm' := by
  obtain ⟨program, hil, hcode⟩ := waitText_code
  refine ⟨program, hil, ?_⟩
  have hassign : ∀ s ∈ waitSteps, ∀ a ∈ s.actions, (assignment? a.body).isSome = true := by decide
  have hsmall : program.instructions.length < 2 ^ 32 := by
    rw [hcode]
    decide
  exact (scan_ends_iff waitSource_compiled.1 waitSource_chart hassign waitSteps_names hil hsmall Vm.new tenTable).2
    waitSteps_ends

/-- One step, its name two words, with a transition to itself that is never taken. -/
def gapSource : List Char := "STEP A B\nEND_STEP\nTRANSITION FROM A B TO A B : FALSE\nEND_TRANSITION".toList

def gapStep : Step := ⟨"A B".toList, [], some ⟨"A B".toList, "A B".toList, "FALSE".toList⟩⟩

def gapText : List Char := "; SFC compiled to IL\nJMP A B\n\nA B:\n  LD 0\n  JMPC A B\n  JMP A B\n\n".toList

def gapCode : List Instruction :=
  [.loadImm 15 (.bool true), .jump 7, ⟨.load, [.register 0, .signalName "0"]⟩, ⟨.load, [.register 14, .register 0]⟩,
    .cmp .eq 14 15, .jumpIf 7, .jump 7, .halt]

/-- What the compilers make of the chart, and of its condition. -/
theorem gapSource_compiled : sfcCompile gapSource = some (.ok gapText) ∧
    (ilCompile (String.ofList gapText)).map HalProgram.instructions = some gapCode ∧
    Transition.statements ⟨"A B".toList, "A B".toList, "FALSE".toList⟩ = [.load "0"] := by decide +kernel

theorem gapText_code : ∃ program, ilCompile (String.ofList gapText) = some program ∧ program.instructions = gapCode :=
  Option.map_eq_some_iff.1 gapSource_compiled.2.1

theorem gapStep_visit {m : Memory} (hunset : m.acc.signals = fun _ => none) :
    gapStep.visit m =
      some (⟨⟨.bool false, m.acc.signals⟩, Function.update m.copies "0" (.bool false)⟩, some "A B".toList) := by
  have hrun : m.run false [.load "0"] =
      some ⟨⟨.bool false, m.acc.signals⟩, Function.update m.copies "0" (.bool false)⟩ := by
    obtain ⟨⟨cr, signals⟩, copies⟩ := m
    obtain rfl : signals = fun _ => none := hunset
    rfl
  have hnil : m.run false [] = some m := rfl
  unfold Step.visit gapStep
  simp only [List.flatMap_nil]
  rw [hnil, Option.bind_some, gapSource_compiled.2.2, hrun, Option.map_some]
  rfl

theorem gapStep_endless : ¬ ScanEnds [gapStep] fun _ => none := by
  refine not_terminates (p := fun a => a.1 = some 0 ∧ a.2.acc.signals = fun _ => none) ?_ ⟨by decide, rfl⟩
  rintro ⟨place, m⟩ ⟨hplace, hunset⟩
  have hgoes := @visits_goes _ _ [gapStep] 0 _ rfl _ _ _ (gapStep_visit hunset)
  obtain rfl : place = some 0 := hplace
  have hindex : stepIndex "A B".toList [gapStep] = some 0 := by decide
  exact ⟨_, hgoes, hindex, hunset⟩

/-- **Two charts**: the first waits for `n` without end; the second does not wait, for the jump to a name of two words
finds no label. -/
theorem waitSource_waits :
    (sfcCompile waitSource = some (.ok waitText) ∧ IsChart waitSource waitSteps ∧
      (∀ s ∈ waitSteps, ∀ a ∈ s.actions, (assignment? a.body).isSome = true) ∧
      ∃ program, ilCompile (String.ofList waitText) = some program ∧
        ¬ ∃ vm', RunsTo program (started Vm.new fun _ => none) vm') ∧
    sfcCompile gapSource = some (.ok gapText) ∧ IsChart gapSource [gapStep] ∧ (¬ ScanEnds [gapStep] fun _ => none) ∧
      ∃ program, ilCompile (String.ofList gapText) = some program ∧
        ∃ vm', RunsTo program (started Vm.new fun _ => none) vm' := by
  have hassign : ∀ s ∈ waitSteps, ∀ a ∈ s.actions, (assignment? a.body).isSome = true := by decide
  refine ⟨⟨waitSource_compiled.1, waitSource_chart, hassign, ?_⟩, gapSource_compiled.1, ⟨_, _, rfl, rfl, rfl⟩,
    gapStep_endless, ?_⟩
  · obtain ⟨program, hil, hcode⟩ := waitText_code
    refine ⟨program, hil, ?_⟩
    rintro ⟨vm', hrun⟩
    have hsmall : program.instructions.length < 2 ^ 32 := by
      rw [hcode]
      decide
    have hiff := halts_iff waitSource_compiled.1 waitSource_chart hassign waitSteps_names hil hsmall Vm.new fun _ => none
    exact waitSteps_endless (hiff.1 ⟨vm', (runToHalt_iff program _ vm').1 hrun⟩)
  · obtain ⟨program, hil, hcode⟩ := gapText_code
    refine ⟨program, hil, ?_⟩
    have hhalts : ∃ vm', HaltsAt program.instructions (started Vm.new fun _ => none) vm' := by
      rw [hcode]
      exact ⟨_, 2, _, .step rfl (.step rfl (.refl _)), step_halt rfl⟩
    obtain ⟨vm', hhalt⟩ := hhalts
    exact ⟨vm', (runToHalt_iff program _ vm').2 hhalt⟩

end Audesys.Sfc
