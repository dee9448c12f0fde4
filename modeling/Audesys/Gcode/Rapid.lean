import Audesys.Hal.Symbolic
import Audesys.Gcode.Splice

/-!
# `Gcode.Rapid` — programs of rapid moves

A G0 stores the target of the first axis, and the target of the second and the third where it is not zero. So what the
position signal of such an axis holds at the end is the last target other than zero (`lastNonzero`), whatever came
after it.

* `endsAtPosition_iff` — the signals end at the modal position exactly where neither axis is brought back to zero.
-/

open List

namespace Audesys.Gcode

open Audesys.Hal Audesys.Hal.F64 Audesys.Cnc.Motion Audesys.Lib

variable [Target]
variable {l : List Instruction} {cmd : GCodeCommand}

/-! ## A signal that skips zeros -/

/-- What a signal holds that is written with each of the values but the zeros. -/
def lastNonzero (held : Target.F64) (values : List Target.F64) : Target.F64 :=
  values.foldl (fun held v => if ne v zero then v else held) held

section
variable {held v : Target.F64} {values : List Target.F64}

theorem lastNonzero_cons : lastNonzero held (v :: values) = lastNonzero (if ne v zero then v else held) values := rfl

theorem lastNonzero_append {more : List Target.F64} :
    lastNonzero held (values ++ more) = lastNonzero (lastNonzero held values) more := foldl_append ..

/-- A last value other than zero is held. -/
theorem lastNonzero_snoc (h : ne v zero = true) : lastNonzero held (values ++ [v]) = v := by
  rw [lastNonzero_append, lastNonzero_cons, if_pos h]
  rfl

/-- Zeros leave it as it is. -/
theorem lastNonzero_of_forall (h : ∀ v ∈ values, ne v zero = false) : lastNonzero held values = held := by
  induction values generalizing held with
  | nil => rfl
  | cons v values ih =>
    rw [lastNonzero_cons, if_neg (by simp [h v (mem_cons_self ..)])]
    exact ih fun w hw => h w (mem_cons_of_mem _ hw)

/-- Once it is not zero it never is again. -/
theorem lastNonzero_ne (h : ne held zero = true ∨ ∃ v ∈ values, ne v zero = true) :
    ne (lastNonzero held values) zero = true := by
  induction values generalizing held with
  | nil =>
    rcases h with h | ⟨v, hmem, _⟩
    · exact h
    · cases hmem
  | cons v values ih =>
    rw [lastNonzero_cons]
    apply ih
    by_cases hv : ne v zero = true
    · rw [if_pos hv]
      exact Or.inl hv
    · rw [if_neg hv]
      rcases h with h | ⟨w, hmem, hw⟩
      · exact Or.inl h
      · rcases mem_cons.1 hmem with rfl | hmem
        · exact absurd hw hv
        · exact Or.inr ⟨w, hmem, hw⟩

end

/-! ## Commands -/

/-- The commands of a program of rapid moves. -/
def RapidCommand (cmd : GCodeCommand) : Prop :=
  cmd.kind = .motion ∧ cmd.gCode = some 0 ∨ cmd.kind = .modal ∨ cmd.kind = .spindle

instance (cmd : GCodeCommand) : Decidable (RapidCommand cmd) := inferInstanceAs (Decidable (_ ∨ _))

instance (cmd : GCodeCommand) : Decidable (EndsProgram cmd) := inferInstanceAs (Decidable (_ ∧ _))

/-- The states a list of commands goes through, behind each of its commands. -/
def statesOf (state : ModalState) : List GCodeCommand → List ModalState
  | [] => []
  | cmd :: rest => state.advance cmd :: statesOf (state.advance cmd) rest

/-- The last of the states is the one behind the list. -/
theorem statesOf_snoc (state : ModalState) (commands : List GCodeCommand) (cmd : GCodeCommand) :
    statesOf state (commands ++ [cmd]) = statesOf state commands ++ [state.after (commands ++ [cmd])] := by
  induction commands generalizing state with
  | nil => rfl
  | cons c commands ih =>
    rw [cons_append, statesOf, ih, statesOf, cons_append, ModalState.after_cons]

/-- The code of a block that starts without constants, by its symbolic run. -/
theorem straight_of_run {st : SymState} (h : (SymState.ofConsts []).run l = some st) :
    Straight l (Holds []) (Holds []) (fun σ => applyStores σ st.stores) := by
  apply Straight.ofRun st h
  intro p hp
  cases hp

/-- The signals of the position. -/
structure Shows (σ : SignalTable) (x y z : Target.F64) : Prop where
  x : σ "axis.0.pos" = some (.f64 x)
  y : σ "axis.1.pos" = some (.f64 y)
  z : σ "axis.2.pos" = some (.f64 z)

/-- The position signals hold the position of a modal state. -/
def ShowsPosition (σ : SignalTable) (state : ModalState) : Prop :=
  Shows σ state.currentX state.currentY state.currentZ

/-- The effect of storing an axis. -/
def axisStores (position : Target.F64) (pos enable : String) : List (String × Sym) :=
  [(pos, .value (.f64 position)), (enable, .value (.bool true))]

theorem straight_storeAxis {reg : UInt8} (position : Target.F64) (pos enable : String)
    (hreg : reg.toNat < registerCount) : Straight (storeAxis reg position pos enable) (Holds []) (Holds [])
      (fun σ => applyStores σ (axisStores position pos enable)) := by
  have hstep : regStep.toNat < registerCount := by decide
  have hrun : (SymState.ofConsts []).run (storeAxis reg position pos enable) =
      some ⟨(((SymState.ofConsts []).set reg (some (.value (.f64 position)))).set regStep
        (some (.value (.bool true)))).regs, axisStores position pos enable⟩ := by
    simp [storeAxis, loadF64, store, SymState.run, SymState.step, Instruction.loadImm,
      if_pos hreg, if_pos hstep, SymState.set, SymState.ofConsts, axisStores]
  exact straight_of_run hrun

/-- Straight code that writes none of the position signals. -/
def KeepsPosition (l : List Instruction) : Prop :=
  ∃ f, Straight l (Holds []) (Holds []) f ∧ ∀ σ x y z, Shows σ x y z → Shows (f σ) x y z

theorem KeepsPosition.nil : KeepsPosition [] := ⟨_, .nil, fun _ _ _ _ h => h⟩

theorem KeepsPosition.append {l₁ l₂ : List Instruction} (h₁ : KeepsPosition l₁) (h₂ : KeepsPosition l₂) :
    KeepsPosition (l₁ ++ l₂) := by
  obtain ⟨f, hf, hkeep⟩ := h₁
  obtain ⟨g, hg, hkeep'⟩ := h₂
  exact ⟨_, hf.append hg, fun σ x y z h => hkeep' _ _ _ _ (hkeep _ _ _ _ h)⟩

/-- A block whose stores are to the signals `names`. -/
theorem KeepsPosition.ofRun (names : List String)
    (h : ((SymState.ofConsts []).run l).map (fun st => st.stores.map Prod.fst) = some names)
    (hnames : ∀ name ∈ ["axis.0.pos", "axis.1.pos", "axis.2.pos"], name ∉ names) : KeepsPosition l := by
  obtain ⟨st, hrun, rfl⟩ := Option.map_eq_some_iff.1 h
  refine ⟨_, straight_of_run hrun, ?_⟩
  have hne : ∀ name ∈ ["axis.0.pos", "axis.1.pos", "axis.2.pos"], ∀ p ∈ st.stores, name ≠ p.1 := by
    rintro name hname p hp rfl
    exact hnames _ hname (mem_map_of_mem hp)
  intro σ x y z hσ
  refine ⟨?_, ?_, ?_⟩
  · rw [applyStores_of_ne (hne _ (by simp))]
    exact hσ.x
  · rw [applyStores_of_ne (hne _ (by simp))]
    exact hσ.y
  · rw [applyStores_of_ne (hne _ (by simp))]
    exact hσ.z

theorem keepsPosition_emitSpindle (cmd : GCodeCommand) : KeepsPosition (emitSpindle cmd) := by
  unfold emitSpindle
  apply KeepsPosition.append
  · split
    · exact .ofRun ["spindle.rpm"] rfl (by decide)
    · exact .nil
  · split
    · exact .ofRun ["spindle.cw"] rfl (by decide)
    · exact .ofRun ["spindle.ccw"] rfl (by decide)
    · exact .ofRun ["spindle.cw", "spindle.ccw", "spindle.rpm"] rfl (by decide)
    · exact .nil

theorem keepsPosition_prelude [F64Math] : KeepsPosition prelude.instructions :=
  .ofRun [] rfl (by decide)

/-- The code of `M2` and `M30` ends in the halt. -/
theorem keepsPosition_emitProgramControl (h : cmd.mCode = some 2 ∨ cmd.mCode = some 30) :
    ∃ l, emitProgramControl cmd = l ++ [.halt] ∧ KeepsPosition l := by
  unfold emitProgramControl
  rw [if_pos h]
  refine ⟨_, rfl, ?_⟩
  split
  · exact .ofRun ["spindle.cw", "spindle.ccw"] rfl (by decide)
  · exact .nil

/-! ## Rapid moves -/

/-- Straight code that leaves `v` on the signal `pos`, where it is given a value, and writes no other position. -/
structure Puts (l : List Instruction) (pos : String) (v : Option HalValue) (enable : String)
    (f : SignalTable → SignalTable) : Prop where
  straight : Straight l (Holds []) (Holds []) f
  there : ∀ σ, f σ pos = if v.isSome then v else σ pos
  other : ∀ σ name, name ≠ pos → name ≠ enable → f σ name = σ name

theorem puts_storeAxis {reg : UInt8} (position : Target.F64) {pos enable : String} (hreg : reg.toNat < registerCount)
    (hne : pos ≠ enable) : ∃ f, Puts (storeAxis reg position pos enable) pos (some (.f64 position)) enable f := by
  refine ⟨_, straight_storeAxis position pos enable hreg, ?_, ?_⟩
  · intro σ
    show (if pos = enable then _ else if pos = pos then _ else _) = _
    rw [if_neg hne, if_pos rfl]
    rfl
  · intro σ name hpos henable
    show (if name = enable then _ else if name = pos then _ else _) = _
    rw [if_neg henable, if_neg hpos]

/-- An axis that is stored unless its target is zero. -/
theorem puts_unlessZero {reg : UInt8} (position : Target.F64) {pos enable : String} (hreg : reg.toNat < registerCount)
    (hne : pos ≠ enable) : ∃ f, Puts (if ne position zero then storeAxis reg position pos enable else []) pos
      (if ne position zero then some (.f64 position) else none) enable f := by
  by_cases h : ne position zero = true
  · simp only [h, if_true]
    exact puts_storeAxis position hreg hne
  · simp only [h]
    exact ⟨_, .nil, fun _ => rfl, fun _ _ _ _ => rfl⟩

/-- What a G0 leaves on the position signals. -/
theorem straight_emitG0 (state : ModalState) :
    ∃ f, Straight (emitG0 state) (Holds []) (Holds []) f ∧ ∀ σ x y z, Shows σ x y z →
      Shows (f σ) state.currentX (if ne state.currentY zero then state.currentY else y)
        (if ne state.currentZ zero then state.currentZ else z) := by
  have hX : regX.toNat < registerCount := by decide
  have hY : regY.toNat < registerCount := by decide
  have hZ : regZ.toNat < registerCount := by decide
  obtain ⟨fx, hx⟩ := puts_storeAxis state.currentX hX (show "axis.0.pos" ≠ "axis.0.enable" by decide)
  obtain ⟨fy, hy⟩ := puts_unlessZero state.currentY hY (show "axis.1.pos" ≠ "axis.1.enable" by decide)
  obtain ⟨fz, hz⟩ := puts_unlessZero state.currentZ hZ (show "axis.2.pos" ≠ "axis.2.enable" by decide)
  refine ⟨_, (hx.straight.append hy.straight).append hz.straight, ?_⟩
  intro σ x y z hσ
  refine ⟨?_, ?_, ?_⟩
  · rw [hz.other _ _ (by decide) (by decide), hy.other _ _ (by decide) (by decide), hx.there]
    rfl
  · rw [hz.other _ _ (by decide) (by decide), hy.there, hx.other _ _ (by decide) (by decide), hσ.y]
    split <;> rfl
  · rw [hz.there, hy.other _ _ (by decide) (by decide), hx.other _ _ (by decide) (by decide), hσ.z]
    split <;> rfl

/-! ## Lists of commands -/

/-- A signal that holds the position of its axis, unless the axis is at zero. -/
def Follows (held position : Target.F64) : Prop := ne position zero = true → held = position

theorem follows_update (held v : Target.F64) : Follows (if ne v zero then v else held) v := by
  intro h
  rw [if_pos h]

theorem Follows.update {held v : Target.F64} (h : Follows held v) : (if ne v zero then v else held) = held := by
  by_cases hv : ne v zero = true
  · rw [if_pos hv, h hv]
  · rw [if_neg hv]

/-- A modal word moves no axis. -/
theorem setMode_position (state : ModalState) (g : Nat) :
    (state.setMode g).currentX = state.currentX ∧ (state.setMode g).currentY = state.currentY ∧
      (state.setMode g).currentZ = state.currentZ := by
  unfold ModalState.setMode
  repeat' split
  all_goals exact ⟨rfl, rfl, rfl⟩

/-- Only a move changes the position. -/
theorem advance_position (h : cmd.kind ≠ .motion) (state : ModalState) :
    (state.advance cmd).currentX = state.currentX ∧ (state.advance cmd).currentY = state.currentY ∧
      (state.advance cmd).currentZ = state.currentZ := by
  unfold ModalState.advance
  cases hkind : cmd.kind with
  | motion => exact absurd hkind h
  | modal =>
    cases cmd.gCode with
    | none => exact ⟨rfl, rfl, rfl⟩
    | some g => exact setMode_position _ g
  | _ => exact ⟨rfl, rfl, rfl⟩

/-- Code that keeps the position, for a command that does. -/
theorem KeepsPosition.follows (hkind : cmd.kind ≠ .motion) (state : ModalState) (h : KeepsPosition l) :
    ∃ f, Straight l (Holds []) (Holds []) f ∧ ∀ σ y z, Shows σ state.currentX y z →
      Follows y state.currentY → Follows z state.currentZ →
      Shows (f σ) (state.advance cmd).currentX
        (if ne (state.advance cmd).currentY zero then (state.advance cmd).currentY else y)
        (if ne (state.advance cmd).currentZ zero then (state.advance cmd).currentZ else z) := by
  obtain ⟨f, hf, hkeep⟩ := h
  obtain ⟨hx, hy, hz⟩ := advance_position hkind state
  refine ⟨f, hf, ?_⟩
  intro σ y z hσ hfy hfz
  rw [hx, hy, hz, hfy.update, hfz.update]
  exact hkeep σ _ _ _ hσ

section
variable [F64Math]

/-- One command: each signal follows its axis. -/
theorem straight_emit {state : ModalState} {out : Output} (hcmd : RapidCommand cmd)
    (h : emit cmd state = .ok out) :
    ∃ f, Straight out.instructions (Holds []) (Holds []) f ∧ ∀ σ y z, Shows σ state.currentX y z →
      Follows y state.currentY → Follows z state.currentZ →
      Shows (f σ) (state.advance cmd).currentX
        (if ne (state.advance cmd).currentY zero then (state.advance cmd).currentY else y)
        (if ne (state.advance cmd).currentZ zero then (state.advance cmd).currentZ else z) := by
  unfold emit at h
  rcases hcmd with ⟨hkind, hg⟩ | hkind | hkind
  · rw [hkind] at h
    unfold emitMotion at h
    rw [hg] at h
    cases h
    obtain ⟨f, hf, hshows⟩ := straight_emitG0 (state.advance cmd)
    exact ⟨f, hf, fun σ y z hσ _ _ => hshows σ _ y z hσ⟩
  · rw [hkind] at h
    cases h
    exact KeepsPosition.nil.follows (by simp [hkind]) state
  · rw [hkind] at h
    cases h
    exact (keepsPosition_emitSpindle cmd).follows (by simp [hkind]) state

/-- **A list of commands.** The first signal ends at the position of its axis; the others hold the last position other
than zero. -/
theorem straight_compileFrom {commands : List GCodeCommand} {state : ModalState} {out : Output}
    (hcommands : ∀ cmd ∈ commands, RapidCommand cmd) (h : compileFrom state commands = .ok out) :
    ∃ f, Straight out.instructions (Holds []) (Holds []) f ∧ ∀ σ y z, Shows σ state.currentX y z →
      Follows y state.currentY → Follows z state.currentZ →
      Shows (f σ) (state.after commands).currentX
        (lastNonzero y ((statesOf state commands).map ModalState.currentY))
        (lastNonzero z ((statesOf state commands).map ModalState.currentZ)) := by
  induction commands generalizing state out with
  | nil =>
    cases h
    exact ⟨_, .nil, fun _ _ _ hσ _ _ => hσ⟩
  | cons cmd commands ih =>
    obtain ⟨first, more, hfirst, hmore, rfl⟩ := compileFrom_cons_ok.1 h
    obtain ⟨f, hf, hshows⟩ := straight_emit (hcommands cmd (mem_cons_self ..)) hfirst
    obtain ⟨g, hg, hrest⟩ := ih (fun c hc => hcommands c (mem_cons_of_mem _ hc)) hmore
    refine ⟨_, hf.append hg, ?_⟩
    intro σ y z hσ hy hz
    exact hrest _ _ _ (hshows σ y z hσ hy hz) (follows_update _ _) (follows_update _ _)

omit [F64Math] in
/-- Straight code has no branches, so the machine sees it as it is. -/
theorem map_blind_of_straight {pre post : Vm → Prop} {f : SignalTable → SignalTable}
    (h : Straight l pre post f) : l.map Instruction.blind = l := by
  refine (map_congr_left ?_).trans (map_id l)
  intro inst hmem
  apply blind_of_ne
  intro hop
  have hplain := h.plain inst hmem
  rw [hop] at hplain
  cases hplain

/-- **A program of rapid moves**, run to its halt. -/
theorem scans_rapid {commands : List GCodeCommand} {stop : GCodeCommand} {initial : ModalState} {program : HalProgram}
    (hcommands : ∀ cmd ∈ commands, RapidCommand cmd) (hstop : EndsProgram stop)
    (hprogram : compileCommands (commands ++ [stop]) initial = .ok program) {σ : SignalTable}
    (hσ : ShowsPosition σ initial) : ∃ σ', Scans program σ σ' ∧ Shows σ' (initial.after commands).currentX
      (lastNonzero initial.currentY ((statesOf initial commands).map ModalState.currentY))
      (lastNonzero initial.currentZ ((statesOf initial commands).map ModalState.currentZ)) := by
  obtain ⟨out, hout, rfl⟩ := compileCommands_ok.1 hprogram
  obtain ⟨body, more, hbody, hmore, rfl⟩ := compileFrom_append_ok.1 hout
  obtain ⟨last, nothing, hlast, hnothing, rfl⟩ := compileFrom_cons_ok.1 hmore
  cases hnothing
  obtain ⟨hkind, hcode⟩ := hstop
  unfold emit at hlast
  rw [hkind] at hlast
  cases hlast
  obtain ⟨tail, htail, g, hg, hkeep⟩ := keepsPosition_emitProgramControl hcode
  obtain ⟨f, hf, hshows⟩ := straight_compileFrom hcommands hbody
  obtain ⟨e, he, hstart⟩ := keepsPosition_prelude
  have hall := (he.append hf).append hg
  refine ⟨_, hall.scans ?_ σ, ?_⟩
  · show (prelude.instructions ++ (body.instructions ++ (emitProgramControl stop ++ []))).map Instruction.blind = _
    rw [htail, List.append_nil, ← List.append_assoc, ← List.append_assoc, map_append, map_blind_of_straight hall]
    rfl
  · exact hkeep _ _ _ _ (hshows _ _ _ (hstart _ _ _ _ hσ) (fun _ => rfl) (fun _ => rfl))

end

/-! ## Where the signals end -/

/-- The axis is not brought back to zero: it ends somewhere else, or is at zero all the way. -/
def NotBroughtBack (axis : ModalState → Target.F64) (initial : ModalState) (commands : List GCodeCommand) : Prop :=
  axis (initial.after commands) ≠ zero ∨ ∀ state ∈ initial :: statesOf initial commands, axis state = zero

instance (axis : ModalState → Target.F64) (initial : ModalState) (commands : List GCodeCommand) :
    Decidable (NotBroughtBack axis initial commands) := inferInstanceAs (Decidable (_ ∨ _))

/-- The last value other than zero is the last value exactly where the axis is not brought back. -/
theorem lastNonzero_eq_iff (hexact : ExactEq) (axis : ModalState → Target.F64) (initial : ModalState)
    (commands : List GCodeCommand) :
    lastNonzero (axis initial) ((statesOf initial commands).map axis) = axis (initial.after commands) ↔
      NotBroughtBack axis initial commands := by
  have hne : ∀ v : Target.F64, ne v zero = true ↔ v ≠ zero := fun v => ne_eq_true hexact
  constructor
  · intro heq
    by_contra h
    obtain ⟨hlast, hall⟩ := not_or.1 h
    obtain ⟨state, hnot⟩ := not_forall.1 hall
    obtain ⟨hmem, hstate⟩ := Classical.not_imp.1 hnot
    have hheld : ne (lastNonzero (axis initial) ((statesOf initial commands).map axis)) zero = true := by
      apply lastNonzero_ne
      rcases mem_cons.1 hmem with rfl | hmem
      · exact Or.inl ((hne _).2 hstate)
      · exact Or.inr ⟨_, mem_map_of_mem hmem, (hne _).2 hstate⟩
    rw [heq, hne] at hheld
    exact hlast hheld
  · rintro (hlast | hall)
    · induction commands using List.reverseRecOn with
      | nil => rfl
      | append_singleton commands cmd _ =>
        rw [statesOf_snoc, map_append]
        exact lastNonzero_snoc ((hne _).2 hlast)
    · have hzero : lastNonzero (axis initial) ((statesOf initial commands).map axis) = axis initial := by
        apply lastNonzero_of_forall
        intro v hv
        obtain ⟨state, hmem, rfl⟩ := mem_map.1 hv
        rw [hall state (mem_cons_of_mem _ hmem), Bool.eq_false_iff]
        exact fun h => (hne _).1 h rfl
      have hend : axis (initial.after commands) = zero := by
        induction commands using List.reverseRecOn with
        | nil => exact hall initial (mem_cons_self ..)
        | append_singleton commands cmd _ =>
          apply hall
          rw [statesOf_snoc]
          exact mem_cons_of_mem _ (mem_append_right _ (mem_singleton_self _))
      rw [hzero, hend, hall initial (mem_cons_self ..)]

variable [F64Math]

/-- **Programs of rapid moves end where the modal state says exactly where neither the second nor the third axis is
brought back to zero.** -/
theorem endsAtPosition_iff (hexact : ExactEq) {commands : List GCodeCommand} {stop : GCodeCommand}
    {initial : ModalState} {program : HalProgram} (hcommands : ∀ cmd ∈ commands, RapidCommand cmd)
    (hstop : EndsProgram stop) (hprogram : compileCommands (commands ++ [stop]) initial = .ok program)
    {σ : SignalTable} (hσ : ShowsPosition σ initial) :
    (∃ σ', Scans program σ σ' ∧ ShowsPosition σ' (initial.after (commands ++ [stop]))) ↔
      NotBroughtBack ModalState.currentY initial commands ∧ NotBroughtBack ModalState.currentZ initial commands := by
  obtain ⟨σ', hscan, hshows⟩ := scans_rapid hcommands hstop hprogram hσ
  have hkind : stop.kind ≠ .motion := by simp [hstop.1]
  obtain ⟨hx, hy, hz⟩ := advance_position hkind (initial.after commands)
  have hend : initial.after (commands ++ [stop]) = (initial.after commands).advance stop := by
    rw [ModalState.after_append]
    rfl
  rw [← lastNonzero_eq_iff hexact, ← lastNonzero_eq_iff hexact, hend]
  unfold ShowsPosition
  rw [hx, hy, hz]
  constructor
  · rintro ⟨σ'', hscan', hshows'⟩
    rw [hscan'.det hscan] at hshows'
    constructor
    · exact HalValue.f64.inj (Option.some.inj (hshows.y.symm.trans hshows'.y))
    · exact HalValue.f64.inj (Option.some.inj (hshows.z.symm.trans hshows'.z))
  · rintro ⟨heqY, heqZ⟩
    rw [heqY, heqZ] at hshows
    exact ⟨σ', hscan, hshows⟩

end Audesys.Gcode

/-! ## Two programs -/

namespace Audesys.Gcode

open Audesys.Hal Audesys.Hal.F64

local instance rapidFractions : Target := fractions
local instance rapidFractionMath : F64Math := fractionMath

theorem exactEq_fractions : ExactEq := fun _ _ => rfl

/-- The position signals of the state a program starts in, and nothing else. -/
def tableAt (state : ModalState) : SignalTable := fun name =>
  if name = "axis.0.pos" then some (.f64 state.currentX)
  else if name = "axis.1.pos" then some (.f64 state.currentY)
  else if name = "axis.2.pos" then some (.f64 state.currentZ)
  else none

theorem showsPosition_tableAt (state : ModalState) : ShowsPosition (tableAt state) state := ⟨rfl, rfl, rfl⟩

def endOfProgram : GCodeCommand := parseLine [⟨.m 2, 9⟩]

def outwards : List GCodeCommand := parseAll (tokenize "G91\nG0 X4 Y5\nM3 S1000\nG0 Y2.5 Z-1\n")

theorem outwards_endsAtPosition :
    ∃ program, compileCommands (outwards ++ [endOfProgram]) .new = .ok program ∧
      ∃ σ', Scans program (tableAt .new) σ' ∧ ShowsPosition σ' (ModalState.new.after (outwards ++ [endOfProgram])) := by
  have hok : (compileCommands (outwards ++ [endOfProgram]) .new).isOk = true := by decide +kernel
  obtain ⟨program, hprogram⟩ := exists_of_isOk hok
  refine ⟨program, hprogram, ?_⟩
  exact (endsAtPosition_iff exactEq_fractions (by decide +kernel) (by decide +kernel) hprogram
    (showsPosition_tableAt _)).2 (by decide +kernel)

def outAndBack : List GCodeCommand := parseAll (tokenize "G0 Y5\nG0 Y0\n")

/-- The signal of the second axis stays at five. -/
theorem outAndBack_endsElsewhere :
    ∃ program, compileCommands (outAndBack ++ [endOfProgram]) .new = .ok program ∧
      ¬ ∃ σ', Scans program (tableAt .new) σ' ∧
        ShowsPosition σ' (ModalState.new.after (outAndBack ++ [endOfProgram])) := by
  have hok : (compileCommands (outAndBack ++ [endOfProgram]) .new).isOk = true := by decide +kernel
  obtain ⟨program, hprogram⟩ := exists_of_isOk hok
  refine ⟨program, hprogram, ?_⟩
  rintro ⟨σ', hscan, hshows⟩
  have hrapid : ∀ cmd ∈ outAndBack, RapidCommand cmd := by decide +kernel
  have hend : EndsProgram endOfProgram := by decide +kernel
  obtain ⟨σ'', hscan', hheld⟩ := scans_rapid hrapid hend hprogram (showsPosition_tableAt _)
  rw [hscan.det hscan'] at hshows
  have hsame := HalValue.f64.inj (Option.some.inj (hheld.y.symm.trans hshows.y))
  have hfive : lastNonzero ModalState.new.currentY ((statesOf .new outAndBack).map ModalState.currentY) ≠
      (ModalState.new.after (outAndBack ++ [endOfProgram])).currentY := by decide +kernel
  exact hfive hsame

end Audesys.Gcode
