import Audesys.Hal.Relocate
import Audesys.Gcode.Compiler

/-!
# `Gcode.Splice` — straight moves inside a program

The generator of a straight move writes a program of its own, with loops that name indices of that program.
`compile_commands` copies the instructions behind what it has emitted so far, at index two at the earliest, and leaves
the jumps as they are.

* `movesRelocated_iff` — the moves of a program are relocated exactly where none of them has a loop.
-/

namespace Audesys.Gcode

open Audesys.Hal Audesys.Hal.F64 Audesys.Cnc.Motion Audesys.Lib

variable [Target]

/-! ## Code that runs to its halt -/

/-- Loads a constant, stores a register, or halts. -/
def passes (inst : Instruction) : Bool :=
  match inst.opcode, inst.operands with
  | .load, [.register r, .immediate _] => decide (r.toNat < registerCount)
  | .store, [.signalName _, .register r] => decide (r.toNat < registerCount)
  | .halt, [] => true
  | _, _ => false

theorem passes_cases {inst : Instruction} (h : passes inst = true) :
    (∃ r v, inst = .loadImm r v ∧ r.toNat < registerCount) ∨
      (∃ name r, inst = store name r ∧ r.toNat < registerCount) ∨ inst = .halt := by
  obtain ⟨op, args⟩ := inst
  unfold passes at h
  dsimp only at h
  split at h
  · exact Or.inl ⟨_, _, rfl, of_decide_eq_true h⟩
  · exact Or.inr (Or.inl ⟨_, _, rfl, of_decide_eq_true h⟩)
  · exact Or.inr (Or.inr rfl)
  · cases h

/-- Such an instruction leads on to the next one, or halts. -/
theorem step_passes {code : List Instruction} {vm : Vm} {inst : Instruction} (hinst : code[vm.ip]? = some inst)
    (h : passes inst = true) (hne : inst ≠ .halt) : ∃ vm', next code vm = some vm' ∧ vm'.ip = vm.ip + 1 := by
  rcases passes_cases h with ⟨r, v, rfl, hr⟩ | ⟨name, r, rfl, hr⟩ | rfl
  · exact ⟨_, next_loadImm hinst hr, by rw [Vm.advanceIp_ip, Vm.set_ip]⟩
  · exact ⟨_, next_store hinst hr, rfl⟩
  · exact absurd rfl hne

/-- **No way but forward.** Code of such instructions with a halt in it runs to a halt. -/
theorem haltsAt_of_passes {code : List Instruction} (hcode : ∀ inst ∈ code, passes inst = true) {last : Nat}
    (hlast : code[last]? = some .halt) {vm : Vm} (hip : vm.ip ≤ last) : ∃ vm', HaltsAt code vm vm' := by
  induction hn : last - vm.ip generalizing vm with
  | zero =>
    have heq : vm.ip = last := by omega
    exact ⟨vm.advanceIp, 0, vm, .refl vm, step_halt (by rw [heq, hlast])⟩
  | succ n ih =>
    have hlt : vm.ip < code.length := by
      have := (List.getElem?_eq_some_iff.1 hlast).1
      omega
    have hinst : code[vm.ip]? = some code[vm.ip] := List.getElem?_eq_getElem hlt
    by_cases hhalt : code[vm.ip] = .halt
    · -- a halt before the one at `last`
      rw [hhalt] at hinst
      exact ⟨vm.advanceIp, 0, vm, .refl vm, step_halt hinst⟩
    · obtain ⟨vm₁, hnext, hip₁⟩ := step_passes hinst (hcode _ (List.getElem_mem hlt)) hhalt
      have hip' : vm₁.ip ≤ last := by omega
      have hleft : last - vm₁.ip = n := by omega
      obtain ⟨vm', k, u, hrun, hu⟩ := ih hip' hleft
      exact ⟨vm', k + 1, u, .step hnext hrun, hu⟩

/-! ## Moves -/

variable [F64Math]

/-- The straight move that a command is, where it has a length. -/
def linearMove (cmd : GCodeCommand) (state : ModalState) : Option TrapezoidalProfile :=
  if cmd.kind = .motion ∧ cmd.gCode.getD state.motionMode = 1 then g1Profile state (state.advance cmd) else none

/-- The straight moves of a list of commands, in order. -/
def movesOf (state : ModalState) : List GCodeCommand → List TrapezoidalProfile
  | [] => []
  | cmd :: rest => (linearMove cmd state).toList ++ movesOf (state.advance cmd) rest

/-- No move of a list of commands has cycles. -/
def NoCycles (commands : List GCodeCommand) (initial : ModalState) : Prop :=
  ∀ profile ∈ movesOf initial commands, ¬ profile.HasCycles

instance (commands : List GCodeCommand) (initial : ModalState) : Decidable (NoCycles commands initial) :=
  inferInstanceAs (Decidable (∀ _ ∈ _, _))

theorem mem_movesOf {state : ModalState} {commands : List GCodeCommand} {profile : TrapezoidalProfile} :
    profile ∈ movesOf state commands ↔
      ∃ before cmd rest, commands = before ++ cmd :: rest ∧ linearMove cmd (state.after before) = some profile := by
  induction commands generalizing state with
  | nil =>
    constructor
    · intro h
      cases h
    · rintro ⟨before, cmd, rest, hcut, _⟩
      cases before <;> cases hcut
  | cons cmd commands ih =>
    rw [movesOf, List.mem_append, Option.mem_toList, ih]
    constructor
    · rintro (h | ⟨before, cmd', rest, rfl, h⟩)
      · exact ⟨[], cmd, commands, rfl, h⟩
      · exact ⟨cmd :: before, cmd', rest, rfl, h⟩
    · rintro ⟨before, cmd', rest, hcut, h⟩
      cases before with
      | nil =>
        cases hcut
        exact Or.inl h
      | cons c before =>
        cases hcut
        exact Or.inr ⟨before, cmd', rest, rfl, h⟩

/-- A straight move of a program: the index its code was put at, its profile, and the program of the generator. -/
structure MoveAt (commands : List GCodeCommand) (initial : ModalState) (base : Nat) (profile : TrapezoidalProfile)
    (alone : HalProgram) : Prop where
  place : ∃ before cmd rest out, commands = before ++ cmd :: rest ∧
    linearMove cmd (initial.after before) = some profile ∧ compileFrom initial before = .ok out ∧
    base = (prelude.append out).instructions.length
  generated : generateTrapezoidalProgram profile = some alone

/-- `M2` or `M30`. -/
def EndsProgram (cmd : GCodeCommand) : Prop :=
  cmd.kind = .programControl ∧ (cmd.mCode = some 2 ∨ cmd.mCode = some 30)

/-- The moves of a program run where they were put as they run alone: every jump names the instruction it names in the
program of the generator, the machine goes through the move step for step, each loop as often, and a program that ends
in `M2` or `M30` comes to a halt. -/
structure MovesRelocated (commands : List GCodeCommand) (initial : ModalState) (program : HalProgram) : Prop where
  targets : ∀ {base profile alone}, MoveAt commands initial base profile alone →
    JumpsMoved program.instructions base alone.instructions
  runs : ∀ {base profile alone}, MoveAt commands initial base profile alone → ∀ {n v w},
    RunN (next alone.instructions) n v w → RunN (next program.instructions) n (v.movedTo base) (w.movedTo base)
  halts : ∀ {before stop}, commands = before ++ [stop] → EndsProgram stop → ∀ vm σ,
    ∃ vm', HaltsAt program.instructions (scanStart vm σ) vm'

/-- A command that is a move emits the move. -/
theorem emit_linearMove {cmd : GCodeCommand} {state : ModalState} {profile : TrapezoidalProfile}
    (h : linearMove cmd state = some profile) : emit cmd state =
      match generateTrapezoidalProgram profile with
      | none => .error .panic
      | some program => .ok ⟨program.instructions, program.signals⟩ := by
  unfold linearMove at h
  split at h
  · rename_i hmove
    unfold emit
    rw [hmove.1]
    dsimp only
    unfold emitMotion emitLinear
    dsimp only
    rw [hmove.2, h]
    rfl
  · cases h

/-- The code of a move stands in the program where the move was put. -/
theorem MoveAt.codeAt {commands : List GCodeCommand} {initial : ModalState} {program : HalProgram} {base : Nat}
    {profile : TrapezoidalProfile} {alone : HalProgram} (hprogram : compileCommands commands initial = .ok program)
    (h : MoveAt commands initial base profile alone) : CodeAt program.instructions base alone.instructions := by
  obtain ⟨⟨before, cmd, rest, out, rfl, hmove, hout, rfl⟩, halone⟩ := h
  obtain ⟨whole, hwhole, rfl⟩ := compileCommands_ok.1 hprogram
  obtain ⟨out', more, hout', hmore, rfl⟩ := compileFrom_append_ok.1 hwhole
  obtain ⟨first, more, hfirst, _, rfl⟩ := compileFrom_cons_ok.1 hmore
  rw [hout] at hout'
  cases hout'
  rw [emit_linearMove hmove, halone] at hfirst
  cases hfirst
  refine ⟨(prelude.append out).instructions, more.instructions, ?_, rfl⟩
  show prelude.instructions ++ (out.instructions ++ (alone.instructions ++ more.instructions)) =
    (prelude.instructions ++ out.instructions) ++ (alone.instructions ++ more.instructions)
  rw [List.append_assoc]

/-- In front of every move are the two constants at least. -/
theorem MoveAt.base_pos {commands : List GCodeCommand} {initial : ModalState} {base : Nat}
    {profile : TrapezoidalProfile} {alone : HalProgram} (h : MoveAt commands initial base profile alone) : 0 < base := by
  obtain ⟨⟨_, _, _, out, _, _, _, rfl⟩, _⟩ := h
  show 0 < (prelude.instructions ++ out.instructions).length
  rw [List.length_append]
  exact Nat.lt_of_lt_of_le (by decide) (Nat.le_add_right 2 _)

theorem MoveAt.mem_movesOf {commands : List GCodeCommand} {initial : ModalState} {base : Nat}
    {profile : TrapezoidalProfile} {alone : HalProgram} (h : MoveAt commands initial base profile alone) :
    profile ∈ movesOf initial commands := by
  obtain ⟨before, cmd, rest, _, hcut, hmove, _⟩ := h.place
  exact Gcode.mem_movesOf.2 ⟨before, cmd, rest, hcut, hmove⟩

/-- Every move of a list that compiles stands somewhere in the program. -/
theorem exists_moveAt {commands : List GCodeCommand} {initial : ModalState} {program : HalProgram}
    (hprogram : compileCommands commands initial = .ok program) {profile : TrapezoidalProfile}
    (h : profile ∈ movesOf initial commands) : ∃ base alone, MoveAt commands initial base profile alone := by
  obtain ⟨before, cmd, rest, rfl, hmove⟩ := mem_movesOf.1 h
  obtain ⟨whole, hwhole, _⟩ := compileCommands_ok.1 hprogram
  obtain ⟨out, more, hout, hmore, _⟩ := compileFrom_append_ok.1 hwhole
  obtain ⟨first, _, hfirst, _, _⟩ := compileFrom_cons_ok.1 hmore
  -- the generator has a program for the move, since the command compiles
  rw [emit_linearMove hmove] at hfirst
  split at hfirst
  · cases hfirst
  · rename_i alone halone
    exact ⟨_, alone, ⟨before, cmd, rest, out, rfl, hmove, hout, rfl⟩, halone⟩

/-- A loop that is copied jumps to another place. -/
theorem not_movesRelocated {commands : List GCodeCommand} {initial : ModalState} {program : HalProgram}
    (hprogram : compileCommands commands initial = .ok program) (h : ¬ NoCycles commands initial) :
    ¬ MovesRelocated commands initial program := by
  intro hmoved
  apply h
  intro profile hmem hcycles
  obtain ⟨base, alone, hat⟩ := exists_moveAt hprogram hmem
  obtain ⟨t, ht⟩ := exists_jumpIf hcycles hat.generated
  exact not_jumpsMoved (hat.codeAt hprogram) hat.base_pos ht (hmoved.targets hat)

/-! ## Programs without loops -/

section
omit [F64Math]

theorem passes_storeAxis {reg : UInt8} (position : Target.F64) (pos enable : String) (h : reg.toNat < registerCount) :
    ∀ inst ∈ storeAxis reg position pos enable, passes inst = true := by
  intro inst hmem
  simp only [storeAxis, List.mem_cons, List.not_mem_nil, or_false] at hmem
  rcases hmem with rfl | rfl | rfl | rfl
  · exact decide_eq_true h
  · exact decide_eq_true h
  · rfl
  · rfl

theorem passes_emitG0 (state : ModalState) : ∀ inst ∈ emitG0 state, passes inst = true := by
  intro inst hmem
  unfold emitG0 at hmem
  rcases List.mem_append.1 hmem with hmem | hmem
  · rcases List.mem_append.1 hmem with hmem | hmem
    · exact passes_storeAxis _ _ _ (by decide) inst hmem
    · split at hmem
      · exact passes_storeAxis _ _ _ (by decide) inst hmem
      · cases hmem
  · split at hmem
    · exact passes_storeAxis _ _ _ (by decide) inst hmem
    · cases hmem

theorem passes_emitSpindle (cmd : GCodeCommand) : (emitSpindle cmd).all passes = true := by
  unfold emitSpindle
  rw [List.all_append, Bool.and_eq_true]
  constructor
  · split <;> rfl
  · split <;> rfl

theorem passes_emitProgramControl (cmd : GCodeCommand) : (emitProgramControl cmd).all passes = true := by
  unfold emitProgramControl
  rw [List.all_append, Bool.and_eq_true]
  constructor
  · split <;> rfl
  · split <;> rfl

end

theorem passes_emitArc {gCode : Nat} {prev next : ModalState} {cmd : GCodeCommand} {is : List Instruction}
    (h : emitArc gCode prev next cmd = .ok is) : ∀ inst ∈ is, passes inst = true := by
  unfold emitArc at h
  split at h
  · cases h
  · rename_i axes _
    cases hcenter : calculateArcCenter axes cmd prev.plane with
    | error e =>
      rw [hcenter] at h
      cases h
    | ok center =>
      rw [hcenter] at h
      simp only [bind, Except.bind] at h
      split at h
      · cases h
      · split at h
        · cases h
          intro inst hmem
          cases hmem
        · cases h
          intro inst hmem
          rcases List.mem_cons.1 hmem with rfl | hmem
          · rfl
          · obtain ⟨i, _, hmem⟩ := List.mem_flatMap.1 hmem
            have hchord : ∀ a b l, (emitChord axes a b l).all passes = true := fun _ _ _ => rfl
            exact List.all_eq_true.1 (hchord _ _ _) inst hmem

/-- The code of a command passes, unless it is a move with cycles. -/
theorem passes_emit {cmd : GCodeCommand} {state : ModalState} {out : Output} (h : emit cmd state = .ok out)
    (hmove : ∀ profile, linearMove cmd state = some profile → ¬ profile.HasCycles) :
    ∀ inst ∈ out.instructions, passes inst = true := by
  cases hlin : linearMove cmd state with
  | some profile =>
    rw [emit_linearMove hlin] at h
    split at h
    · cases h
    · rename_i program hprogram
      cases h
      intro inst hmem
      obtain ⟨reg, x, rfl, hreg⟩ := loadF64_of_not_hasCycles (hmove profile hlin) hprogram hmem
      exact decide_eq_true hreg
  | none =>
    unfold emit at h
    split at h
    · rename_i hkind
      unfold emitMotion at h
      dsimp only at h
      split at h
      · cases h
        exact passes_emitG0 _
      · split at h
        -- the move is no linear one: it has no profile
        · rename_i hone
          have hnone : g1Profile state (state.advance cmd) = none := by
            unfold linearMove at hlin
            rwa [if_pos ⟨hkind, hone⟩] at hlin
          unfold emitLinear at h
          rw [hnone] at h
          cases h
          intro inst hmem
          cases hmem
        · split at h
          · cases h
          · split at h
            · rename_i g _ _
              cases harc : emitArc g state (state.advance cmd) cmd with
              | error e =>
                rw [harc] at h
                cases h
              | ok is =>
                rw [harc] at h
                cases h
                exact passes_emitArc harc
            · cases h
    · cases h
      exact List.all_eq_true.1 (passes_emitSpindle cmd)
    · cases h
      intro inst hmem
      cases hmem
    · cases h
      exact List.all_eq_true.1 (passes_emitProgramControl cmd)
    · unfold emitUnknown at h
      split at h
      · cases h
      · cases h
      · cases h
        intro inst hmem
        cases hmem

theorem passes_compileFrom {commands : List GCodeCommand} {state : ModalState} {out : Output}
    (h : compileFrom state commands = .ok out) (hmoves : NoCycles commands state) :
    ∀ inst ∈ out.instructions, passes inst = true := by
  induction commands generalizing state out with
  | nil =>
    cases h
    intro inst hmem
    cases hmem
  | cons cmd commands ih =>
    obtain ⟨first, more, hfirst, hmore, rfl⟩ := compileFrom_cons_ok.1 h
    intro inst hmem
    rcases List.mem_append.1 hmem with hmem | hmem
    · apply passes_emit hfirst _ inst hmem
      intro profile hprofile
      exact hmoves profile (List.mem_append_left _ (Option.mem_toList.2 hprofile))
    · exact ih hmore (fun profile hp => hmoves profile (List.mem_append_right _ hp)) inst hmem

/-- A program that ends in `M2` or `M30` has a halt in it. -/
theorem halt_mem_of_endsProgram {before : List GCodeCommand} {stop : GCodeCommand} {initial : ModalState}
    {out : Output} (h : compileFrom initial (before ++ [stop]) = .ok out) (hstop : EndsProgram stop) :
    Instruction.halt ∈ out.instructions := by
  obtain ⟨first, more, _, hmore, rfl⟩ := compileFrom_append_ok.1 h
  obtain ⟨last, nothing, hlast, _, rfl⟩ := compileFrom_cons_ok.1 hmore
  obtain ⟨hkind, hcode⟩ := hstop
  unfold emit at hlast
  rw [hkind] at hlast
  cases hlast
  apply List.mem_append_right
  apply List.mem_append_left
  show Instruction.halt ∈ emitProgramControl stop
  unfold emitProgramControl
  rw [if_pos hcode]
  exact List.mem_append_right _ (List.mem_singleton_self _)

/-- **Straight moves are relocated exactly where they have no loops.** -/
theorem movesRelocated_iff {commands : List GCodeCommand} {initial : ModalState} {program : HalProgram}
    (hprogram : compileCommands commands initial = .ok program) :
    MovesRelocated commands initial program ↔ NoCycles commands initial := by
  constructor
  · intro hmoved
    by_contra h
    exact not_movesRelocated hprogram h hmoved
  · intro hmoves
    have hloads : ∀ {base profile alone}, MoveAt commands initial base profile alone →
        ∀ inst ∈ alone.instructions, ∃ reg x, inst = loadF64 reg x ∧ reg.toNat < registerCount := by
      intro base profile alone hat inst hmem
      exact loadF64_of_not_hasCycles (hmoves profile hat.mem_movesOf) hat.generated hmem
    have hrelocated : ∀ {base profile alone}, MoveAt commands initial base profile alone →
        RelocatedAt program.instructions base alone.instructions := by
      intro base profile alone hat
      apply jumpsMoved_of_codeAt (hat.codeAt hprogram)
      intro inst hmem
      obtain ⟨_, _, rfl, _⟩ := hloads hat inst hmem
      rfl
    refine ⟨fun hat => (hrelocated hat).toJumpsMoved, ?_, ?_⟩
    · intro base profile alone hat n v w hrun
      apply (hrelocated hat).run _ hrun
      intro inst hmem
      obtain ⟨_, _, rfl, _⟩ := hloads hat inst hmem
      exact Or.inl rfl
    · intro before stop hcut hstop vm σ
      obtain ⟨out, hout, rfl⟩ := compileCommands_ok.1 hprogram
      have hhalt : Instruction.halt ∈ (prelude.append out).instructions := by
        apply List.mem_append_right
        rw [hcut] at hout
        exact halt_mem_of_endsProgram hout hstop
      have hpass : ∀ inst ∈ (prelude.append out).instructions, passes inst = true := by
        intro inst hmem
        rcases List.mem_append.1 hmem with hmem | hmem
        · have hprelude : prelude.instructions.all passes = true := rfl
          exact List.all_eq_true.1 hprelude inst hmem
        · exact passes_compileFrom hout hmoves inst hmem
      obtain ⟨last, hlt, hlast⟩ := List.mem_iff_getElem.1 hhalt
      exact haltsAt_of_passes hpass (by rw [List.getElem?_eq_getElem hlt, hlast]) (Nat.zero_le _)

end Audesys.Gcode

/-! ## Two programs -/

namespace Audesys.Gcode

open Audesys.Hal

local instance spliceFractions : Target := fractions
local instance spliceFractionMath : F64Math := fractionMath

/-- A straight move to where the tool is already, and the end. -/
def standstill : List GCodeCommand := parseAll (tokenize "G0 X5\nG1 X5 F600\nM30\n")

theorem standstill_relocated :
    ∃ program, compileCommands standstill .new = .ok program ∧ MovesRelocated standstill .new program := by
  have hok : (compileCommands standstill .new).isOk = true := by decide +kernel
  obtain ⟨program, hprogram⟩ := exists_of_isOk hok
  exact ⟨program, hprogram, (movesRelocated_iff hprogram).2 (by decide +kernel)⟩

/-- Ten millimetres at ten millimetres a second: two cycles up, ninety-eight across, two down. -/
def tenMillimetres : List GCodeCommand := parseAll (tokenize "G1 X10 F600\nM30\n")

theorem tenMillimetres_not_relocated :
    ∃ program, compileCommands tenMillimetres .new = .ok program ∧ ¬ MovesRelocated tenMillimetres .new program := by
  have hok : (compileCommands tenMillimetres .new).isOk = true := by decide +kernel
  obtain ⟨program, hprogram⟩ := exists_of_isOk hok
  exact ⟨program, hprogram, not_movesRelocated hprogram (by decide +kernel)⟩

end Audesys.Gcode
