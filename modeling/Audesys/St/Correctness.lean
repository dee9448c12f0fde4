import Audesys.Hal.Host
import Audesys.St.StmtRun

/-!
# `St.Correctness` — the compiler on the integer core

A compiled program of the core, run from the reset state, halts exactly when the interpreter terminates, and
then the registers hold the interpreter's values. The signals hold what was last *assigned*: the counting of
a `FOR` changes its variable's register and not its signal, so a signal is out of date when a loop counts a
variable that was assigned before. `correct_iff` says that this is the only way to go wrong.
-/

namespace Audesys.St

open Audesys.Hal Audesys.Lib

/-! ## Declarations -/

theorem findRev?_some {α : Type} {p : α → Bool} {l : List α} {a : α} (h : l.findRev? p = some a) :
    a ∈ l ∧ p a := by
  rw [List.findRev?_eq_findRev?TR, List.findRev?TR] at h
  exact ⟨List.mem_reverse.1 (List.mem_of_find?_eq_some h), List.find?_some h⟩

theorem findRev?_isSome {α : Type} {p : α → Bool} {l : List α} {a : α} (ha : a ∈ l) (hp : p a) :
    ∃ b, l.findRev? p = some b := by
  rw [List.findRev?_eq_findRev?TR, List.findRev?TR]
  exact Option.isSome_iff_exists.1 (List.find?_isSome.2 ⟨a, List.mem_reverse.2 ha, hp⟩)

/-- The variable behind a register is the one declared at its index. -/
theorem registers_get {vars : List Variable} {x : String} {r : UInt8} (hlen : vars.length ≤ maxVarRegs)
    (h : (Decls.ofVariables vars).registers x = some r) :
    ∃ v, vars[r.toNat]? = some v ∧ v.name = x := by
  simp only [Decls.ofVariables, Option.map_eq_some_iff, Prod.exists] at h
  obtain ⟨v, i, hfind, rfl⟩ := h
  obtain ⟨hmem, hname⟩ := findRev?_some hfind
  have hget := List.mk_mem_zipIdx_iff_getElem?.1 hmem
  have hi : i < vars.length := (List.getElem?_eq_some_iff.1 hget).1
  have hnat : (UInt8.ofNat i).toNat = i := by
    rw [UInt8.toNat_ofNat']
    exact Nat.mod_eq_of_lt (by have : maxVarRegs = 13 := rfl; omega)
  exact ⟨v, by rw [hnat]; exact hget, by simpa using hname⟩

theorem varDecls_ofVariables {vars : List Variable} (hlen : vars.length ≤ maxVarRegs) :
    VarDecls (.ofVariables vars) where
  below {x r} h := by
    obtain ⟨v, hget, _⟩ := registers_get hlen h
    exact Nat.lt_of_lt_of_le (List.getElem?_eq_some_iff.1 hget).1 hlen
  inj {x y r} hx hy := by
    obtain ⟨v, hget, rfl⟩ := registers_get hlen hx
    obtain ⟨w, hget', rfl⟩ := registers_get hlen hy
    rw [hget] at hget'
    cases hget'
    rfl

theorem intDecls_ofVariables {vars : List Variable} (hlen : vars.length ≤ maxVarRegs)
    (hdint : ∀ v ∈ vars, v.varType = .dint) : IntDecls (.ofVariables vars) where
  toVarDecls := varDecls_ofVariables hlen
  dint {x r} h := by
    obtain ⟨v, hget, rfl⟩ := registers_get hlen h
    obtain ⟨w, hw⟩ := findRev?_isSome (p := fun w => w.name == v.name) (List.mem_of_getElem? hget) (by simp)
    simp only [Decls.ofVariables, hw, Option.map_some, hdint w (findRev?_some hw).1]

variable [Target]

/-! ## `EXIT` stays inside -/

omit [Target] in
theorem loop_ne_exit {iterate : Store → Iteration} (h : ∀ σ σ', iterate σ ≠ .inr (.exit σ')) (n : Nat)
    (σ σ' : Store) : loop iterate n σ ≠ .exit σ' := by
  induction n generalizing σ with
  | zero => simp [loop]
  | succ n ih =>
    unfold loop
    split
    · exact ih _
    · rename_i o heq
      rintro rfl
      exact h σ σ' heq

omit [Target] in
theorem afterBody_ne_exit {o : Outcome} {k : Store → Iteration} (h : ∀ σ σ', k σ ≠ .inr (.exit σ'))
    (σ' : Store) : afterBody o k ≠ .inr (.exit σ') := by
  cases o with
  | normal σ => exact h σ σ'
  | _ => simp [afterBody]

theorem while_ne_exit (condition : Expr) (body : Store → Outcome) (n : Nat) (σ σ' : Store) :
    loop (whileIter condition body) n σ ≠ .exit σ' := by
  refine loop_ne_exit (fun σ σ' => ?_) n σ σ'
  unfold whileIter
  split
  · simp
  · simp
  · exact afterBody_ne_exit (by simp) σ'

theorem repeat_ne_exit (condition : Expr) (body : Store → Outcome) (n : Nat) (σ σ' : Store) :
    loop (repeatIter body condition) n σ ≠ .exit σ' := by
  refine loop_ne_exit (fun σ σ' => afterBody_ne_exit (fun σ σ' => ?_) σ') n σ σ'
  split <;> simp

theorem for_ne_exit (name : String) (stop : Expr) (step : Option Expr) (body : Store → Outcome) (n : Nat)
    (σ σ' : Store) : loop (forIter name stop step body) n σ ≠ .exit σ' := by
  refine loop_ne_exit (fun σ σ' => ?_) n σ σ'
  unfold forIter
  split
  · simp
  · split
    · simp
    · refine afterBody_ne_exit (fun σ σ' => ?_) σ'
      unfold count
      split <;> simp

mutual

/-- Outside a loop, no statement of the core ends in `EXIT`. -/
theorem stmt_ne_exit (fuel : Nat) : (s : Statement) → s.isCore false → ∀ σ σ', execStmt fuel s σ ≠ .exit σ'
  | .assign name value, _, σ, σ' => by simp only [execStmt]; split <;> simp
  | .ifThen condition thenBody elseBody, h, σ, σ' => by
    simp only [Statement.isCore, Bool.and_eq_true] at h
    simp only [execStmt]
    split
    · simp
    · exact body_ne_exit fuel thenBody h.1.2 σ σ'
    · exact body_ne_exit fuel elseBody h.2 σ σ'
  | .whileDo condition body, _, σ, σ' => while_ne_exit condition _ fuel σ σ'
  | .forDo name start stop step body, _, σ, σ' => by
    simp only [execStmt]
    split
    · simp
    · exact for_ne_exit name stop step _ fuel _ σ'
  | .repeatUntil body condition, _, σ, σ' => repeat_ne_exit condition _ fuel σ σ'
  | .ret, _, _, _ => by simp [execStmt]
  | .exit, h, _, _ => by simp [Statement.isCore] at h
  | .case name cases elseBody, h, σ, σ' => by
    simp only [Statement.isCore, Bool.and_eq_true] at h
    exact cases_ne_exit fuel cases h.1 _ _ (body_ne_exit fuel elseBody h.2) σ σ'
  | .funCall _ _, h, _, _ => by simp [Statement.isCore] at h
  | .arrayAssign _ _ _, h, _, _ => by simp [Statement.isCore] at h

theorem body_ne_exit (fuel : Nat) : (body : List Statement) → bodyIsCore false body →
    ∀ σ σ', execBody fuel body σ ≠ .exit σ'
  | [], _, σ, σ' => by simp [execBody]
  | s :: rest, h, σ, σ' => by
    simp only [bodyIsCore, Bool.and_eq_true] at h
    have hs := stmt_ne_exit fuel s h.1 σ
    simp only [execBody, Outcome.seq]
    split
    · exact body_ne_exit fuel rest h.2 _ σ'
    · exact hs σ'

theorem cases_ne_exit (fuel : Nat) : (cases : List (List Int64 × List Statement)) → casesAreCore false cases →
    ∀ (v : Int32) (otherwise : Store → Outcome), (∀ σ σ', otherwise σ ≠ .exit σ') →
    ∀ σ σ', execCases fuel v cases otherwise σ ≠ .exit σ'
  | [], _, _, _, ho, σ, σ' => ho σ σ'
  | (labels, body) :: rest, h, v, otherwise, ho, σ, σ' => by
    simp only [casesAreCore, Bool.and_eq_true] at h
    simp only [execCases]
    split
    · simp
    · exact body_ne_exit fuel body h.1 σ σ'
    · exact cases_ne_exit fuel rest h.2 v otherwise ho σ σ'

end

/-! ## Programs -/

/-- The compiled program, or an empty one. -/
def compiled (p : Program) : HalProgram :=
  match compileAst p with
  | .ok hp => hp
  | .error _ => .new "" []

/-- The executor, started on `vm`, runs to a halt in `vm'`. -/
def Stops (hp : HalProgram) (vm vm' : Vm) : Prop :=
  ∃ fuel steps, (Executor.at hp vm).runToHalt fuel 0 = some (Executor.at hp vm', steps)

/-- **What the compiler promises** of a program, on a machine that is reset first: it halts exactly when the
    program terminates, and then the registers of the variables and the signals written hold their values. -/
structure Correct (p : Program) (hp : HalProgram) (vm : Vm) : Prop where
  halts : (∃ vm', Stops hp vm.reset vm') ↔ ∃ σ, Final p.body σ
  registers : ∀ vm' σ, Stops hp vm.reset vm' → Final p.body σ →
    ∀ x r, (Decls.ofVariables p.vars).registers x = some r → vm'.get r = .s32 (σ.vals x)
  signals : ∀ vm' σ, Stops hp vm.reset vm' → Final p.body σ →
    ∀ x v, vm'.signals x = some v → v = .s32 (σ.vals x)

/-- Whenever the program ends, every assigned variable still has the value of its last assignment. -/
def Settled (body : List Statement) : Prop :=
  ∀ σ, Final body σ → ∀ x v, σ.published x = some v → σ.vals x = v

section
variable {p : Program} {hp : HalProgram} (hcore : p.isCore) (hok : compileAst p = .ok hp)
  (hlen : hp.instructions.length < 2 ^ 32) (vm : Vm)
include hcore hok hlen

/-- The run of the whole program, for every fuel. -/
theorem program_run (fuel : Nat) :
    ∃ stop, hp.instructions[stop]? = some .halt ∧
      Meets (.ofVariables p.vars) hp.instructions fuel vm.reset stop 0 (execBody fuel p.body .init) := by
  obtain ⟨c, post, hc, hinst, _, hvars⟩ := compileAst_eq hok hlen
  simp only [Program.isCore, Bool.and_eq_true, List.all_eq_true, decide_eq_true_eq] at hcore
  have hd : IntDecls (.ofVariables p.vars) := intDecls_ofVariables hvars hcore.1
  have hat : CodeAt hp.instructions 0 (c.resolve 0) := ⟨[], .halt :: post, by rw [hinst 0]; rfl, rfl⟩
  have hsim : Sim (.ofVariables p.vars) .init vm.reset := ⟨fun x r _ => vm.reset_get r, rfl⟩
  refine ⟨c.length, ?_, ?_⟩
  · rw [hinst 0, List.getElem?_append_right (by simp)]
    simp
  · have hbody : Runs (.ofVariables p.vars) hp.instructions fuel
        (genBody (.ofVariables p.vars) .all p.body) (execBody fuel p.body) := body_run hlen hd p.body false hcore.2
    have h := hbody 0 c 0 vm.reset .init hc hat hsim rfl
    simpa using h

/-- A program that terminates halts in a state that simulates its final store. -/
theorem stops_of_final {σ : Store} (hfinal : Final p.body σ) :
    ∃ vm', HaltsAt hp.instructions vm.reset vm' ∧ Sim (.ofVariables p.vars) σ vm' := by
  obtain ⟨fuel, hfinal⟩ := hfinal
  obtain ⟨stop, hhalt, hrun⟩ := program_run hcore hok hlen vm fuel
  rcases hfinal with heq | heq
  · rw [heq] at hrun
    obtain ⟨n, vm', hn, hs, hip⟩ := hrun
    exact ⟨vm'.advanceIp, ⟨n, vm', hn, step_halt (hip ▸ hhalt)⟩, hs.advanceIp⟩
  · rw [heq] at hrun
    obtain ⟨n, vm', hn, hs, hh⟩ := hrun
    exact ⟨vm'.advanceIp, ⟨n, vm', hn, step_halt hh⟩, hs.advanceIp⟩

/-- A program that halts terminates: with more fuel than steps, the interpreter does not run out. -/
theorem final_of_stops (hno : NoOverflow p.body) {vm' : Vm} (hstops : HaltsAt hp.instructions vm.reset vm') :
    ∃ σ, Final p.body σ := by
  obtain ⟨N, hN⟩ := hstops.bounded
  obtain ⟨stop, _, hrun⟩ := program_run hcore hok hlen vm (N + 1)
  simp only [Program.isCore, Bool.and_eq_true] at hcore
  cases ho : execBody (N + 1) p.body .init with
  | normal σ => exact ⟨σ, N + 1, .inl ho⟩
  | ret σ => exact ⟨σ, N + 1, .inr ho⟩
  | exit σ => exact absurd ho (body_ne_exit _ _ hcore.2 _ _)
  | overflow => exact absurd ho (hno _)
  | timeout =>
    rw [ho] at hrun
    obtain ⟨n, u, hle, hn⟩ := hrun
    exact absurd (hN n u hn) (by omega)

end

/-- **Correctness of the core.** Where no arithmetic overflows, a compiled program behaves as the interpreter
    does exactly if no signal is left behind by a counting loop. -/
theorem correct_iff {p : Program} {hp : HalProgram} (hcore : p.isCore) (hok : compileAst p = .ok hp)
    (hlen : hp.instructions.length < 2 ^ 32) (hno : NoOverflow p.body) (vm : Vm) :
    Correct p hp vm ↔ Settled p.body := by
  have hsim : ∀ vm' σ, Stops hp vm.reset vm' → Final p.body σ → Sim (.ofVariables p.vars) σ vm' := by
    intro vm' σ hstops hfinal
    obtain ⟨vm₁, hhalts, hs⟩ := stops_of_final hcore hok hlen vm hfinal
    rwa [((runToHalt_iff hp _ _).1 hstops).det hhalts]
  constructor
  · intro hcorrect σ hfinal x v hpub
    obtain ⟨vm', hhalts, hs⟩ := stops_of_final hcore hok hlen vm hfinal
    have hsig : vm'.signals x = some (.s32 v) := by rw [hs.signals]; simp [hpub]
    have heq := hcorrect.signals vm' σ ((runToHalt_iff hp _ _).2 hhalts) hfinal x _ hsig
    simpa using heq.symm
  · intro hsettled
    refine ⟨⟨?_, ?_⟩, ?_, ?_⟩
    · rintro ⟨vm', hstops⟩
      exact final_of_stops hcore hok hlen vm hno ((runToHalt_iff hp _ _).1 hstops)
    · rintro ⟨σ, hfinal⟩
      obtain ⟨vm', hhalts, _⟩ := stops_of_final hcore hok hlen vm hfinal
      exact ⟨vm', (runToHalt_iff hp _ _).2 hhalts⟩
    · intro vm' σ hstops hfinal
      exact (hsim vm' σ hstops hfinal).regs
    · intro vm' σ hstops hfinal x v hv
      rw [(hsim vm' σ hstops hfinal).signals] at hv
      obtain ⟨w, hw, rfl⟩ := Option.map_eq_some_iff.1 hv
      rw [hsettled σ hfinal x w hw]

end Audesys.St

/-! ## Two programs -/

namespace Audesys.St

open Audesys.Hal Audesys.Lib

local instance releaseCorrectness : Target := host false

/-- `y := 0; FOR x := 1 TO 3 DO y := y + x; END_FOR`. -/
def sumProgram : Program where
  name := "sum"
  vars := [⟨"x", .dint⟩, ⟨"y", .dint⟩]
  body := [.assign "y" (.intLiteral 0), .forDo "x" (.intLiteral 1) (.intLiteral 3) none
    [.assign "y" (.binary (.var "y") .add (.var "x"))]]
  functions := []

/-- Its final store. -/
def sumFinal : Store :=
  (((((((Store.init.assign "y" 0).set "x" 1).assign "y" 1).set "x" 2).assign "y" 3).set "x" 3).assign "y" 6).set
    "x" 4

theorem sum_exec (fuel : Nat) :
    execBody fuel sumProgram.body .init = .timeout ∨ execBody fuel sumProgram.body .init = .normal sumFinal :=
  match fuel with
  | 0 | 1 | 2 | 3 => .inl rfl
  | _ + 4 => .inr rfl

theorem sumProgram_correct : sumProgram.isCore ∧ Correct sumProgram (compiled sumProgram) Vm.new := by
  refine ⟨rfl, (correct_iff rfl rfl (by decide) ?_ Vm.new).2 ?_⟩
  · intro fuel
    rcases sum_exec fuel with h | h <;> simp [h]
  · rintro σ ⟨fuel, hfinal⟩ x v hpub
    have hσ : σ = sumFinal := by
      rcases sum_exec fuel with h | h <;> simp [h] at hfinal
      exact hfinal.symm
    subst hσ
    by_cases hx : x = "y"
    · subst hx
      exact Option.some.inj hpub
    · simp [sumFinal, Store.set, Store.assign, Store.init, hx] at hpub

/-- `x := 5; FOR x := 1 TO 3 DO END_FOR`. -/
def countProgram : Program where
  name := "count"
  vars := [⟨"x", .dint⟩]
  body := [.assign "x" (.intLiteral 5), .forDo "x" (.intLiteral 1) (.intLiteral 3) none []]
  functions := []

/-- Its final store: the loop leaves 4 in the variable, the last assignment was 5. -/
def countFinal : Store := ((((Store.init.assign "x" 5).set "x" 1).set "x" 2).set "x" 3).set "x" 4

theorem countProgram_not_correct : ¬ Correct countProgram (compiled countProgram) Vm.new := by
  intro hcorrect
  have hfinal : Final countProgram.body countFinal := ⟨4, .inl rfl⟩
  obtain ⟨vm', hhalts, hsim⟩ := stops_of_final (p := countProgram) rfl rfl (by decide) Vm.new hfinal
  have hsignal : vm'.signals "x" = some (.s32 5) := by rw [hsim.signals]; rfl
  have hvalue := hcorrect.signals vm' countFinal ((runToHalt_iff _ _ _).2 hhalts) hfinal "x" _ hsignal
  exact absurd hvalue (by decide)

end Audesys.St
