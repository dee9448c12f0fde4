import Audesys.Cnc.Trapezoid

/-!
# `Cnc.Triangle` — short moves go the wrong way

The loop of a move that is too short to cruise is to raise the velocity in its first half and to lower it in its second.
Its switch compares the counter with a register that the step of an axis has overwritten by then, and the branch it
takes is the one that lowers the velocity. So the second cycle runs backwards, whatever the move.
-/

namespace Audesys.Cnc.Motion

open Audesys.Hal Audesys.Hal.F64 Audesys.Hal.Exact Audesys.Lib

variable {total : UInt32}

attribute [local instance] atLeastTwo_two atLeastTwo_ten atLeastTwo_sixty

variable [Build]

/-! ## The switch -/

/-- The switch of the loop, with its second branch at `decelStart`. -/
noncomputable def switchCode (decelStart : UInt32) : List Instruction :=
  [.cmp .gt regCounter regRatio, .jumpIf decelStart, .arith .add regVel regVstep regVel, .jump (decelStart + 1),
    .arith .sub regVel regVstep regVel]

/-- No axis has a share above one. -/
theorem ratio_le_one (p : TrapezoidalProfile) (k : Axis) : real (k.ratio p) ≤ 1 := by
  unfold Axis.ratio
  rw [real_div]
  refine div_le_one_of_le₀ (Real.le_sqrt_of_sq_le ?_) (distance_nonneg p)
  show real (k.delta p) ^ 2 ≤ real p.dx * real p.dx + real p.dy * real p.dy + real p.dz * real p.dz
  have hx := mul_self_nonneg (real p.dx)
  have hy := mul_self_nonneg (real p.dy)
  have hz := mul_self_nonneg (real p.dz)
  rw [sq]
  cases k with
  | x =>
    show real p.dx * real p.dx ≤ _
    linarith
  | y =>
    show real p.dy * real p.dy ≤ _
    linarith
  | z =>
    show real p.dz * real p.dz ≤ _
    linarith

section
variable {p : TrapezoidalProfile} {code : List Instruction} {b : Nat} {m : Numbers}

/-- Positions may do anything. -/
def Anyhow (_ _ : Axis → Target.F64) : Prop := True

/-- **The switch** lowers the velocity as long as the counter is above one: it takes a share for half the cycles. -/
theorem switch_leads {decelStart : UInt32} (hcode : CodeAt code b (switchCode decelStart))
    (hdecel : decelStart.toNat = b + 4) (hb : b + 5 < 2 ^ 32) :
    Leads (next code) (Steps p Anyhow) (fun vm => vm.ip = b ∧ Shows p m vm ∧ HasRatio p vm)
      (fun vm => vm.ip = b + 5 ∧ ∃ w, Shows p { m with vel := w } vm ∧ (1 < real m.counter → w = m.vel - m.vstep)) := by
  rintro vm ⟨hip, h, k, hratio⟩
  let above := gt m.counter (k.ratio p)
  let vm₁ := (vm.setFlagsZero above).advanceIp
  have hany : ∀ x, Anyhow x x := fun _ => trivial
  have hs₁ : next code vm = some vm₁ := by
    rw [next_cmp (f := HalValue.gt) (by rw [hip]; exact hcode.head) rfl (fun _ _ => rfl) (by decide) (by decide),
      h.counter, hratio]
    rfl
  have h₁ : Shows p m vm₁ := h.congr (fun _ => rfl) rfl
  have hip₁ : vm₁.ip = b + 1 := by
    show vm.ip + 1 = _
    rw [hip]
  have hjump : code[vm₁.ip]? = some (.jumpIf decelStart) := by
    rw [hip₁]
    exact hcode.tail.head
  by_cases hgo : above = true
  · -- the second branch
    let vm₂ := vm₁.setIp decelStart.toNat
    have hsub : code[vm₂.ip]? = some (.arith .sub regVel regVstep regVel) := by
      show code[decelStart.toNat]? = _
      rw [hdecel]
      exact hcode.tail.tail.tail.tail.head
    have h₂ : Shows p m vm₂ := h₁.congr (fun _ => rfl) rfl
    have hs₃ : next code vm₂ = some (vm₂.set regVel (.f64 (m.vel - m.vstep))).advanceIp := by
      refine next_arith (f := HalValue.sub) hsub rfl (fun _ _ => rfl) (by decide) (by decide) (by decide) ?_
      rw [h₂.vel, h₂.vstep]
      rfl
    refine ⟨3, _, .step hs₁ trivial (.step (next_jumpIf_taken hjump hgo) trivial (.step hs₃ trivial (.refl _))), ?_, _,
      h₂.set_vel _, fun _ => rfl⟩
    rw [Vm.advanceIp_ip, Vm.set_ip]
    show decelStart.toNat + 1 = _
    rw [hdecel]
  · -- the first one, for which the counter is too small
    let vm₂ := vm₁.advanceIp
    let vm₃ := (vm₂.set regVel (.f64 (m.vel + m.vstep))).advanceIp
    have hip₂ : vm₂.ip = b + 2 := by
      show vm₁.ip + 1 = _
      rw [hip₁]
    have hip₃ : vm₃.ip = b + 3 := by
      show (vm₂.set _ _).ip + 1 = _
      rw [Vm.set_ip, hip₂]
    have h₂ : Shows p m vm₂ := h₁.congr (fun _ => rfl) rfl
    have h₃ : Shows p { m with vel := m.vel + m.vstep } vm₃ := h₂.set_vel _
    have hs₃ : next code vm₂ = some vm₃ := by
      refine next_arith (f := HalValue.add) (by rw [hip₂]; exact hcode.tail.tail.head) rfl (fun _ _ => rfl) (by decide)
        (by decide) (by decide) ?_
      rw [h₂.vel, h₂.vstep]
      rfl
    have hs₄ : next code vm₃ = some (vm₃.setIp (decelStart + 1).toNat) :=
      next_jump (by rw [hip₃]; exact hcode.tail.tail.tail.head)
    refine ⟨4, _, .step hs₁ trivial (.step (next_jumpIf_through hjump (Bool.eq_false_iff.2 hgo)) trivial
      (.step hs₃ trivial (.step hs₄ trivial (.refl _)))), ?_, m.vel + m.vstep,
      h₃.congr (fun _ => rfl) rfl, ?_⟩
    · show (decelStart + 1).toNat = _
      rw [UInt32.toNat_add, hdecel]
      exact Nat.mod_eq_of_lt hb
    · intro hone
      have habove : gt m.counter (k.ratio p) = true := real_gt_iff.2 (lt_of_le_of_lt (ratio_le_one p k) hone)
      exact absurd habove hgo

/-! ## A cycle -/

/-- The code of a cycle of the loop. -/
noncomputable def triangleCode (p : TrapezoidalProfile) (loopStart decelStart : UInt32) : List Instruction :=
  [.arith .mul regVel regDt regTstep] ++ axisSteps p ++ switchCode decelStart ++ loopEnd loopStart

/-- **A cycle**: the axes move by the velocity, and it is lowered as long as the counter is above one. -/
theorem triangle_leads {loopStart decelStart : UInt32} (hcode : CodeAt code b (triangleCode p loopStart decelStart))
    (hdecel : decelStart.toNat = b + (axisSteps p).length + 5) (hb : b + (axisSteps p).length + 6 < 2 ^ 32) :
    Leads (next code) (Steps p Anyhow) (fun vm => vm.ip = b ∧ Shows p m vm)
      (fun vm => vm.ip = (if 0 < real m.counter - 1 then loopStart.toNat
          else b + (triangleCode p loopStart decelStart).length) ∧
        ∃ w, Shows p { m.axes p (m.vel * p.dt) with counter := m.counter - ofNat 1, vel := w } vm ∧
          (1 < real m.counter → w = m.vel - m.vstep)) := by
  have hany : ∀ x, Anyhow x x := fun _ => trivial
  unfold triangleCode at hcode
  have h₁ := tstep_leads (p := p) (m := m) hcode.left.left.left hany
  have h₂ := axisSteps_leads (m := m) (t := m.vel * p.dt) hcode.left.left.right hany fun _ _ _ => trivial
  have h₃ := switch_leads (p := p) (m := m.axes p (m.vel * p.dt)) hcode.left.right
    (by rw [hdecel, List.length_append, List.length_singleton]; omega)
    (by rw [List.length_append, List.length_singleton]; omega)
  refine h₁.trans (h₂.trans (.trans ?_ (h₃.trans ?_)))
  · refine .of_imp ?_
    rintro vm ⟨hip, h, hratio⟩
    refine ⟨?_, h.toShows, hratio⟩
    rw [hip, List.length_append, Nat.add_assoc]
  · rintro vm ⟨hip, w, h, hw⟩
    have h₄ := loopEnd_leads (p := p) (m := { m.axes p (m.vel * p.dt) with vel := w }) hcode.right hany
    have hlen : b + ([Instruction.arith .mul regVel regDt regTstep] ++ axisSteps p).length + 5 =
        b + ([Instruction.arith .mul regVel regDt regTstep] ++ axisSteps p ++ switchCode decelStart).length := by
      rw [@List.length_append _ _ (switchCode decelStart)]
      rfl
    obtain ⟨n, vm', hrun, hip', h'⟩ := h₄ vm ⟨hip.trans hlen, h⟩
    refine ⟨n, vm', hrun, ?_, w, ?_, ?_⟩
    · rw [hip']
      refine if_congr ?_ rfl ?_
      · rw [real_gt_iff, real_sub, axes_counter, real_ofNat, real_zero, Nat.cast_one]
      · unfold triangleCode
        rw [@List.length_append _ _ (loopEnd loopStart)]
        rfl
    · rw [axes_counter] at h'
      exact h'
    · intro hone
      rw [hw (by rw [axes_counter]; exact hone), axes_vel, axes_vstep]

end

/-! ## The program of a short move -/

section
variable {p : TrapezoidalProfile}

/-- What comes before the loop of a short move on the first axis. -/
noncomputable def shortStart (p : TrapezoidalProfile) (total : UInt32) : List Instruction :=
  constantCode p ++ [loadF64 regVel zero] ++ [loadF64 regVstep (p.vPeak / ofNat p.cyclesHalf.toNat)] ++
    startCode p .x ++ [loadF64 regCounter (ofNat total.toNat)] ++ [loadF64 regRatio (ofNat p.cyclesHalf.toNat)]

/-- The program of a short move on the first axis. -/
noncomputable def shortCode (p : TrapezoidalProfile) (total : UInt32) : List Instruction :=
  shortStart p total ++ triangleCode p 8 17

/-- Nothing is programmed for the other axes. -/
def OnlyX (p : TrapezoidalProfile) : Prop := real p.dy = 0 ∧ real p.dz = 0

theorem OnlyX.moves (h : OnlyX p) : p.movesY = false ∧ p.movesZ = false := by
  have hnot : ∀ d : Target.F64, real d = 0 → gt (F64Math.abs d) tolerance = false := by
    intro d hd
    refine Bool.eq_false_iff.2 fun hgt => ?_
    have hlt := real_gt_iff.1 hgt
    rw [real_abs, hd, abs_zero, real_tolerance] at hlt
    norm_num at hlt
  exact ⟨hnot _ h.1, hnot _ h.2⟩

/-- The program with these instructions. -/
noncomputable def shortProgram (p : TrapezoidalProfile) (total : UInt32) : HalProgram :=
  { name := "trapezoidal_motion"
    signals := [signalBinding "axis.0.pos" "axis.0.pos", signalBinding "axis.1.pos" "axis.1.pos",
      signalBinding "axis.2.pos" "axis.2.pos"]
    instructions := shortCode p total, functionTable := [] }

theorem generate_eq_short (h : OnlyX p) (hlong : lt p.distance tolerance = false)
    (hcruise : gt p.distCruise zero = false) :
    generateTrapezoidalProgram p = (MachineInt.mul p.cyclesHalf 2).map (shortProgram p) := by
  obtain ⟨hy, hz⟩ := h.moves
  unfold generateTrapezoidalProgram emitG1 emitTriangularMotion
  rw [hlong, hcruise, if_neg Bool.false_ne_true, if_neg Bool.false_ne_true]
  cases MachineInt.mul p.cyclesHalf 2 with
  | none => rfl
  | some total =>
    unfold shortProgram shortCode loadStartYZ triangleCode axisSteps
    rw [hy, hz]
    rfl

/-- The numbers of a short move, before its first cycle. -/
noncomputable def shortNumbers (p : TrapezoidalProfile) (total : UInt32) : Numbers :=
  { counter := ofNat total.toNat, vel := zero, vstep := p.vPeak / ofNat p.cyclesHalf.toNat, pos := fun k => k.start p }

/-- On the first axis alone nothing else has to be loaded. -/
theorem Starting.ready_x {vm : Vm} (hx : OnlyX p) (h : Starting p [.x] vm) : Ready p (fun k => k.start p) vm := by
  obtain ⟨hy, hz⟩ := hx.moves
  refine ⟨h.dt, h.zero, h.one, ?_, ?_⟩
  · intro k hk
    cases k with
    | x => exact h.axes .x (List.mem_singleton.2 rfl) hk
    | y => exact absurd hk (Bool.eq_false_iff.1 hy)
    | z => exact absurd hk (Bool.eq_false_iff.1 hz)
  · intro k
    unfold position
    rw [h.silent]

variable {code : List Instruction}

/-- A short move starts at rest. -/
theorem shortStart_leads (hx : OnlyX p) (hcode : CodeAt code 0 (shortStart p total)) (vm : Vm) :
    Leads (next code) (Steps p Anyhow) (fun s => s = vm.reset)
      (fun s => s.ip = 8 ∧ Shows p (shortNumbers p total) s) := by
  have hany : ∀ x, Anyhow x x := fun _ => trivial
  have h₀ := constantCode_leads hcode.left.left.left.left.left hany vm
  have h₁ := load_leads (p := p) (Starting p []) (fun s => Starting p [] s ∧ s.get regVel = .f64 zero)
    hcode.left.left.left.left.right hany (by decide)
    (fun s h => ⟨h.set _ (by decide) (by decide), get_written s (by decide) _⟩)
  have h₂ := load_leads (p := p) (fun s => Starting p [] s ∧ s.get regVel = .f64 zero)
    (fun s => Starting p [] s ∧ s.get regVel = .f64 zero ∧ s.get regVstep = .f64 (p.vPeak / ofNat p.cyclesHalf.toNat))
    hcode.left.left.left.right hany (by decide)
    (fun s h => ⟨h.1.set _ (by decide) (by decide), (get_kept s (by decide) _).trans h.2, get_written s (by decide) _⟩)
  have h₃ := load_leads (p := p)
    (fun s => Starting p [] s ∧ s.get regVel = .f64 zero ∧ s.get regVstep = .f64 (p.vPeak / ofNat p.cyclesHalf.toNat))
    (fun s => Ready p (fun k => k.start p) s ∧ s.get regVel = .f64 zero ∧
      s.get regVstep = .f64 (p.vPeak / ofNat p.cyclesHalf.toNat))
    (r := regPosX) (v := p.startX) hcode.left.left.right hany (by decide)
    (fun s h => ⟨(h.1.set_axis .x (by decide)).ready_x hx, (get_kept s (by decide) _).trans h.2.1,
      (get_kept s (by decide) _).trans h.2.2⟩)
  have h₄ := load_leads (p := p)
    (fun s => Ready p (fun k => k.start p) s ∧ s.get regVel = .f64 zero ∧
      s.get regVstep = .f64 (p.vPeak / ofNat p.cyclesHalf.toNat))
    (Shows p (shortNumbers p total)) hcode.left.right hany (by decide)
    (fun s h => ⟨h.1.set _ (by decide), get_written s (by decide) _, (get_kept s (by decide) _).trans h.2.1,
      (get_kept s (by decide) _).trans h.2.2⟩)
  have h₅ := load_leads (p := p) (Shows p (shortNumbers p total)) (Shows p (shortNumbers p total)) hcode.right hany
    (by decide)
    (fun s h => h.set _ (by decide) (by decide) (by decide) (by decide))
  exact h₀.trans (h₁.trans (h₂.trans (h₃.trans (h₄.trans h₅))))

theorem length_axisSteps (hx : OnlyX p) : (axisSteps p).length = 4 := by
  obtain ⟨hy, hz⟩ := hx.moves
  unfold axisSteps
  rw [hy, hz]
  rfl

/-- The first axis is always driven. -/
theorem real_axes_x (m : Numbers) (t : Target.F64) :
    real ((m.axes p t).pos .x) = real (m.pos .x) + real t * real (Axis.ratio p .x) := by
  have hdriven : Axis.driven p .x = true := rfl
  rw [Numbers.axes_pos, if_pos hdriven, real_add, real_mul]

/-- The first cycle stands still, and lowers the velocity from zero. -/
theorem first_cycle (hx : OnlyX p) (hcode : CodeAt code 0 (shortCode p total)) (vm : Vm) :
    Leads (next code) (Steps p Anyhow) (fun s => s = vm.reset)
      (fun s => s.ip = (if 0 < (total.toNat : ℝ) - 1 then 8 else (shortCode p total).length) ∧
        ∃ m : Numbers, Shows p m s ∧ real m.counter = total.toNat - 1 ∧ real (m.pos .x) = real p.startX ∧
          (1 < (total.toNat : ℝ) → real m.vel = -(real p.vPeak / p.cyclesHalf.toNat))) := by
  have hsteps := length_axisSteps hx
  have hbegin := shortStart_leads hx hcode.left vm
  have hat := hcode.right
  rw [Nat.zero_add] at hat
  have hstart : (shortStart p total).length = 8 := rfl
  have hcycle := triangle_leads (m := shortNumbers p total) hat (by rw [hsteps, hstart]; rfl)
    (by rw [hsteps, hstart]; decide)
  have hcount : real (shortNumbers p total).counter = total.toNat := real_ofNat _
  refine hbegin.trans (.trans hcycle (.of_imp ?_))
  rintro s ⟨hip, w, h, hw⟩
  rw [hcount] at hip hw
  refine ⟨?_, _, h, ?_, ?_, ?_⟩
  · rw [hip]
    exact if_congr Iff.rfl rfl List.length_append.symm
  · show real ((shortNumbers p total).counter - ofNat 1) = _
    rw [real_sub, hcount, real_ofNat, Nat.cast_one]
  · show real (((shortNumbers p total).axes p _).pos .x) = _
    rw [real_axes_x, real_mul]
    show real p.startX + real zero * _ * _ = _
    rw [real_zero, zero_mul, zero_mul, add_zero]
  · intro hone
    show real w = _
    rw [hw hone]
    show real (zero - p.vPeak / ofNat p.cyclesHalf.toNat) = _
    rw [real_sub, real_zero, real_div, real_ofNat, zero_sub]

/-- The second cycle goes back. -/
theorem second_cycle (hx : OnlyX p) (htotal : 2 ≤ total.toNat)
    (hcode : CodeAt code 0 (shortCode p total)) (vm : Vm) :
    Leads (next code) (Steps p Anyhow) (fun s => s = vm.reset) (fun s => real (position p .x s) =
      real p.startX - real p.vPeak / p.cyclesHalf.toNat * real p.dt * real (Axis.ratio p .x)) := by
  have hsteps := length_axisSteps hx
  have hstart : (shortStart p total).length = 8 := rfl
  have hat := hcode.right
  rw [Nat.zero_add] at hat
  have htwo : (2 : ℝ) ≤ total.toNat := by exact_mod_cast htotal
  refine (first_cycle hx hcode vm).trans ?_
  rintro s ⟨hip, m, h, hcounter, hpos, hvel⟩
  rw [if_pos (by linarith)] at hip
  have hcycle := triangle_leads (m := m) hat (by rw [hsteps, hstart]; rfl) (by rw [hsteps, hstart]; decide)
  obtain ⟨n, s', hrun, -, w, h', -⟩ := hcycle s ⟨hip, h⟩
  refine ⟨n, s', hrun, ?_⟩
  show real (position p .x s') = _
  rw [h'.published]
  show real ((m.axes p (m.vel * p.dt)).pos .x) = _
  rw [real_axes_x, real_mul, hpos, hvel (by linarith)]
  ring

end

/-! ## Arrival -/

/-- The velocity that a state holds. -/
noncomputable def velocity (vm : Vm) : ℝ :=
  match vm.get regVel with
  | .f64 w => real w
  | _ => 0

/-- The velocities of the cycles of a run, one for each time that the loop starts over. -/
noncomputable def cycleVelocities (code : List Instruction) : ℕ → Vm → List ℝ
  | 0, _ => []
  | n + 1, vm =>
    (if code[vm.ip]? = some (.arith .mul regVel regDt regTstep) then [velocity vm] else []) ++
      (next code vm).elim [] (cycleVelocities code n)

/-- As many cycles of a rising velocity as of a falling one. -/
def RisesAndFalls (velocities : List ℝ) : Prop :=
  ∃ rise fall, velocities = rise ++ fall ∧ rise.length = fall.length ∧ rise.Pairwise (· < ·) ∧ fall.Pairwise (· > ·)

/-- Where a short move on the first axis is to end. -/
noncomputable def shortTarget (p : TrapezoidalProfile) : ℝ := real p.startX + real p.dx

/-- **A short move arrives.** The machine halts behind the program, no step moves away from the target, the velocity
rises and falls again, and the move ends at most two cycles at the peak velocity from the target. -/
def ShortArrives (p : TrapezoidalProfile) (is : List Instruction) (vm : Vm) : Prop :=
  ∃ n last halted, RunN (next (is ++ [.halt])) n vm.reset last ∧ last.ip = is.length ∧
    last.step (is ++ [.halt]) = some (halted, .halted) ∧
    (∀ m s s', RunN (next (is ++ [.halt])) m vm.reset s → next (is ++ [.halt]) s = some s' →
      |shortTarget p - real (position p .x s')| ≤ |shortTarget p - real (position p .x s)|) ∧
    RisesAndFalls (cycleVelocities (is ++ [.halt]) n vm.reset) ∧
    |shortTarget p - real (position p .x last)| ≤ 2 * real p.vPeak * real p.dt

section
variable {p : TrapezoidalProfile}

/-- What never moves away is never farther than the start. -/
theorem ShortArrives.near {is : List Instruction} {vm : Vm} (h : ShortArrives p is vm) {m : ℕ} {s : Vm}
    (hrun : RunN (next (is ++ [.halt])) m vm.reset s) :
    |shortTarget p - real (position p .x s)| ≤ |real p.dx| := by
  obtain ⟨_, _, _, _, _, _, haway, _, _⟩ := h
  refine hrun.invariant_along (fun s => |shortTarget p - real (position p .x s)| ≤ |real p.dx|) ?_ ?_
  · have hstart : real (position p .x vm.reset) = real p.startX := rfl
    rw [hstart]
    unfold shortTarget
    rw [add_sub_cancel_left]
  · intro k v w _ hv hstep hnear
    exact (haway k v w hv hstep).trans hnear

theorem distance_eq (hx : OnlyX p) : real p.distance = |real p.dx| := by
  show Real.sqrt (real p.dx * real p.dx + real p.dy * real p.dy + real p.dz * real p.dz) = _
  rw [hx.1, hx.2, mul_zero, add_zero, add_zero, Real.sqrt_mul_self_eq_abs]

omit [Build] in
/-- Backwards from the start is away from the target. -/
theorem abs_back {d way : ℝ} (hd : 0 < |d|) (hway : 0 < way) : |d| < |d + way * (d / |d|)| := by
  have hsplit : d + way * (d / |d|) = d * (1 + way / |d|) := by
    field_simp
  have hpos : 0 < way / |d| := div_pos hway hd
  have hfactor : abs (1 + way / |d|) = 1 + way / |d| := abs_of_pos (by linarith)
  rw [hsplit, abs_mul, hfactor]
  exact lt_mul_of_one_lt_right hd (by linarith)

/-- **With two cycles or more** the second one moves away. -/
theorem not_arrives_two (hx : OnlyX p) (htotal : 2 ≤ total.toNat) (hd : 0 < |real p.dx|)
    (hway : 0 < real p.vPeak / p.cyclesHalf.toNat * real p.dt) (vm : Vm) : ¬ ShortArrives p (shortCode p total) vm := by
  intro h
  have hat : CodeAt (shortCode p total ++ [.halt]) 0 (shortCode p total ++ [.halt]) := .whole _
  obtain ⟨n, s, hrun, hpos⟩ := second_cycle hx htotal hat.left vm _ rfl
  have hnear := h.near hrun.run
  have haway := abs_back hd hway
  have hratio : real (Axis.ratio p .x) = real p.dx / |real p.dx| := by
    unfold Axis.ratio
    rw [real_div, distance_eq hx]
    rfl
  rw [hpos, hratio] at hnear
  refine haway.not_ge (le_of_eq_of_le ?_ hnear)
  unfold shortTarget
  congr 1
  ring

/-! ### Cycles -/

theorem toNat_cyclesHalf (p : TrapezoidalProfile) : p.cyclesHalf.toNat =
    min ⌊max (⌈real p.vPeak / real p.acceleration / real p.dt⌉ : ℝ) 1⌋₊ (2 ^ 32 - 1) := by
  unfold TrapezoidalProfile.cyclesHalf
  rw [toNat_toU32, real_max, real_ceil, real_div, real_div, real_ofNat, Nat.cast_one]

theorem cyclesHalf_pos (p : TrapezoidalProfile) : 1 ≤ p.cyclesHalf.toNat := by
  rw [toNat_cyclesHalf]
  refine le_min ?_ (by decide)
  exact Nat.le_floor (by rw [Nat.cast_one]; exact le_max_right _ _)

/-- Many cycles are a long time to the peak. -/
theorem lt_of_cyclesHalf {k : ℕ} (hk : 1 ≤ k) (h : k < p.cyclesHalf.toNat) :
    (k : ℝ) < real p.vPeak / real p.acceleration / real p.dt := by
  rw [toNat_cyclesHalf] at h
  have hfloor : k + 1 ≤ ⌊max (⌈real p.vPeak / real p.acceleration / real p.dt⌉ : ℝ) 1⌋₊ := (lt_min_iff.1 h).1
  have hmax := (Nat.le_floor_iff (le_max_of_le_right zero_le_one)).1 hfloor
  have hone : (1 : ℝ) ≤ k := by exact_mod_cast hk
  have hceil : ((k + 1 : ℕ) : ℝ) ≤ ⌈real p.vPeak / real p.acceleration / real p.dt⌉ := by
    refine (le_max_iff.1 hmax).resolve_right ?_
    rw [Nat.cast_succ]
    linarith
  have hint : (k : ℤ) < ⌈real p.vPeak / real p.acceleration / real p.dt⌉ := by
    have hle : ((k + 1 : ℕ) : ℤ) ≤ ⌈real p.vPeak / real p.acceleration / real p.dt⌉ := by exact_mod_cast hceil
    omega
  exact Int.lt_ceil.1 hint

theorem vPeak_mul_self (ha : 0 < real p.acceleration) :
    real p.vPeak * real p.vPeak = real p.distance * real p.acceleration :=
  Real.mul_self_sqrt (mul_nonneg (distance_nonneg p) ha.le)

theorem vPeak_pos (hd : 0 < real p.distance) (ha : 0 < real p.acceleration) : 0 < real p.vPeak :=
  Real.sqrt_pos.2 (mul_pos hd ha)

/-- A move of more than two cycles to its peak is longer than two of them at the peak. -/
theorem two_cycles_lt (hd : 0 < real p.distance) (ha : 0 < real p.acceleration) (hdt : 0 < real p.dt)
    (h : 2 < p.cyclesHalf.toNat) : 2 * real p.vPeak * real p.dt < real p.distance := by
  have htwo := lt_of_cyclesHalf (by decide) h
  have hpeak := vPeak_pos hd ha
  have hsq := vPeak_mul_self ha
  rw [div_div, lt_div_iff₀ (mul_pos ha hdt), Nat.cast_ofNat] at htwo
  refine lt_of_mul_lt_mul_right ?_ ha.le
  calc 2 * real p.vPeak * real p.dt * real p.acceleration
      = 2 * (real p.acceleration * real p.dt) * real p.vPeak := by ring
    _ < real p.vPeak * real p.vPeak := mul_lt_mul_of_pos_right htwo hpeak
    _ = real p.distance * real p.acceleration := hsq

/-- **Where the doubled cycles wrap to zero** the only cycle stands still. -/
theorem not_arrives_zero (hx : OnlyX p) (htotal : total.toNat = 0)
    (hfar : 2 * real p.vPeak * real p.dt < |real p.dx|) (vm : Vm) : ¬ ShortArrives p (shortCode p total) vm := by
  rintro ⟨n, last, halted, hrun, _, hhalted, _, _, hnear⟩
  have hat : CodeAt (shortCode p total ++ [.halt]) 0 (shortCode p total ++ [.halt]) := .whole _
  obtain ⟨k, s, hfirst, hip, m, h, _, hpos, _⟩ := first_cycle hx hat.left vm _ rfl
  rw [htotal, Nat.cast_zero, if_neg (by norm_num)] at hip
  have hhalt : (shortCode p total ++ [Instruction.halt])[s.ip]? = some .halt := by
    rw [hip]
    exact List.getElem?_concat_length
  have hstop : next (shortCode p total ++ [.halt]) last = none := by
    unfold next
    rw [hhalted]
  have hk : k = n :=
    Nat.le_antisymm (hfirst.run.le_of_stopped hrun hstop) (hrun.le_of_stopped hfirst.run (next_halt hhalt))
  subst hk
  rw [hrun.det hfirst.run, h.published, hpos] at hnear
  unfold shortTarget at hnear
  rw [add_sub_cancel_left] at hnear
  exact hfar.not_ge hnear

/-- Doubled, in the width of the counter. -/
theorem toNat_of_mul_two {half total : UInt32} (h : MachineInt.mul half 2 = some total) :
    total.toNat = 2 * half.toNat % 2 ^ 32 := by
  have hint : UInt32.ofInt ((half.toNat : Int) * (2 : UInt32).toNat) = total := by
    unfold MachineInt.mul MachineInt.checked at h
    split at h
    · exact Option.some.inj h
    · split at h
      · cases h
      · exact Option.some.inj h
  have htwo : ((2 : UInt32).toNat : Int) = 2 := rfl
  have hmod : (((half.toNat : Int) * 2) % 2 ^ 32).toNat = 2 * half.toNat % 2 ^ 32 := by omega
  rw [← hint, htwo, UInt32.ofInt, hmod, UInt32.toNat_ofNat', Nat.mod_mod]

/-- A short move has the program of a short move, unless its doubled cycles overflow. -/
theorem generate_short (hx : OnlyX p) (hlong : 1 / 10 ^ 9 ≤ |real p.dx|) (hfeed : 0 < real p.feedrate)
    (ha : 0 < real p.acceleration) (hshort : |real p.dx| ≤ speed p ^ 2 / real p.acceleration) :
    generateTrapezoidalProgram p = (MachineInt.mul p.cyclesHalf 2).map (shortProgram p) := by
  rw [← distance_eq hx] at hlong hshort
  have hlength : lt p.distance tolerance = false := by
    refine Bool.eq_false_iff.2 fun h => ?_
    have hlt := real_lt_iff.1 h
    rw [real_tolerance] at hlt
    exact hlt.not_ge hlong
  have hcruise : gt p.distCruise zero = false := by
    refine Bool.eq_false_iff.2 fun h => ?_
    have hlt := real_gt_iff.1 h
    rw [real_distCruise hfeed ha, real_zero] at hlt
    linarith
  exact generate_eq_short hx hlength hcruise

/-- A short program does not arrive. -/
theorem not_arrives (hx : OnlyX p) (hd : 0 < |real p.dx|) (ha : 0 < real p.acceleration) (hdt : 0 < real p.dt)
    (htotal : MachineInt.mul p.cyclesHalf 2 = some total) (vm : Vm) :
    ¬ ShortArrives p (shortCode p total) vm := by
  have hdouble := toNat_of_mul_two htotal
  have hhalf := cyclesHalf_pos p
  have hdist := distance_eq hx
  by_cases htwo : 2 ≤ total.toNat
  · have hway : 0 < real p.vPeak / p.cyclesHalf.toNat * real p.dt :=
      mul_pos (div_pos (vPeak_pos (hdist.symm ▸ hd) ha) (Nat.cast_pos.2 hhalf)) hdt
    exact not_arrives_two hx htwo hd hway vm
  · -- twice a positive number is none below two but by wrapping
    have hzero : total.toNat = 0 := by omega
    have hwrap : 2 < p.cyclesHalf.toNat := by omega
    exact not_arrives_zero hx hzero (hdist ▸ two_cycles_lt (hdist.symm ▸ hd) ha hdt hwrap) vm

end

/-- **No short move arrives**, whatever its displacement, its speed and its acceleration. -/
theorem short_never_arrives (p : TrapezoidalProfile) (hx : OnlyX p) (hlong : 1 / 10 ^ 9 ≤ |real p.dx|)
    (hfeed : 0 < real p.feedrate) (ha : 0 < real p.acceleration) (hdt : 0 < real p.dt)
    (hshort : |real p.dx| ≤ speed p ^ 2 / real p.acceleration) (vm : Vm) :
    ¬ ∃ program, generateTrapezoidalProgram p = some program ∧ ShortArrives p program.instructions vm := by
  rintro ⟨program, hprogram, harrives⟩
  rw [generate_short hx hlong hfeed ha hshort] at hprogram
  obtain ⟨total, htotal, rfl⟩ := Option.map_eq_some_iff.1 hprogram
  exact not_arrives hx (lt_of_lt_of_le (by norm_num) hlong) ha hdt htotal vm harrives

end Audesys.Cnc.Motion

/-! ## One unit -/

namespace Audesys.Cnc.Motion

open Audesys.Hal Audesys.Hal.F64 Audesys.Hal.Exact Audesys.Lib

attribute [local instance] atLeastTwo_two atLeastTwo_ten atLeastTwo_sixty

local instance checkedTriangle : Build := ⟨true⟩

/-- One unit along the first axis, which is reached and left at a speed of one. -/
noncomputable def unitMove : TrapezoidalProfile :=
  { dx := (1 : ℝ), dy := (0 : ℝ), dz := (0 : ℝ), feedrate := (60 : ℝ), acceleration := (1 : ℝ), dt := (1 : ℝ),
    startX := (0 : ℝ), startY := (0 : ℝ), startZ := (0 : ℝ) }

theorem unitMove_onlyX : OnlyX unitMove := ⟨rfl, rfl⟩

theorem unitMove_displacement : |real unitMove.dx| = 1 := abs_one

theorem unitMove_speed : speed unitMove ^ 2 / real unitMove.acceleration = 1 := by
  show ((60 : ℝ) / 60) ^ 2 / 1 = 1
  norm_num

theorem unitMove_generate :
    generateTrapezoidalProgram unitMove = (MachineInt.mul unitMove.cyclesHalf 2).map (shortProgram unitMove) := by
  refine generate_short unitMove_onlyX ?_ ?_ one_pos ?_
  · rw [unitMove_displacement]
    norm_num
  · show (0 : ℝ) < 60
    norm_num
  · rw [unitMove_displacement, unitMove_speed]

theorem unitMove_never_arrives :
    ¬ ∃ program, generateTrapezoidalProgram unitMove = some program ∧
      ShortArrives unitMove program.instructions Vm.new := by
  refine short_never_arrives unitMove unitMove_onlyX ?_ ?_ one_pos one_pos ?_ Vm.new
  · rw [unitMove_displacement]
    norm_num
  · show (0 : ℝ) < 60
    norm_num
  · rw [unitMove_displacement, unitMove_speed]

theorem unitMove_vPeak : real unitMove.vPeak = 1 := by
  have hsq := vPeak_mul_self (p := unitMove) one_pos
  have ha : real unitMove.acceleration = 1 := rfl
  rw [distance_eq unitMove_onlyX, unitMove_displacement, ha, mul_one] at hsq
  exact (mul_self_eq_one_iff.1 hsq).resolve_right fun h => by
    have hnonneg : 0 ≤ real unitMove.vPeak := Real.sqrt_nonneg _
    linarith

theorem unitMove_cyclesHalf : unitMove.cyclesHalf.toNat = 1 := by
  have ha : real unitMove.acceleration = 1 := rfl
  have hdt : real unitMove.dt = 1 := rfl
  rw [toNat_cyclesHalf, unitMove_vPeak, ha, hdt]
  norm_num

/-- **Backwards.** The unit move is compiled, runs to minus one, and does not arrive. -/
theorem unitMove_goes_back :
    (∃ program n s, generateTrapezoidalProgram unitMove = some program ∧
      RunN (next (program.instructions ++ [.halt])) n Vm.new.reset s ∧ real (position unitMove .x s) = -1) ∧
    ¬ ∃ program, generateTrapezoidalProgram unitMove = some program ∧
      ShortArrives unitMove program.instructions Vm.new := by
  have hhalf : unitMove.cyclesHalf = 1 := UInt32.toNat_inj.1 unitMove_cyclesHalf
  have htotal : MachineInt.mul unitMove.cyclesHalf 2 = some 2 := by
    rw [hhalf]
    rfl
  have hprogram : generateTrapezoidalProgram unitMove = some (shortProgram unitMove 2) := by
    rw [unitMove_generate, htotal]
    rfl
  constructor
  · have hat : CodeAt (shortCode unitMove 2 ++ [.halt]) 0 (shortCode unitMove 2 ++ [.halt]) := .whole _
    obtain ⟨n, s, hrun, hpos⟩ := second_cycle unitMove_onlyX (by decide) hat.left Vm.new _ rfl
    refine ⟨_, n, s, hprogram, hrun.run, ?_⟩
    have hratio : real (Axis.ratio unitMove .x) = 1 := by
      unfold Axis.ratio
      rw [real_div, distance_eq unitMove_onlyX, unitMove_displacement]
      exact div_one _
    have hstart : real unitMove.startX = 0 := rfl
    have hdt : real unitMove.dt = 1 := rfl
    rw [hpos, unitMove_vPeak, unitMove_cyclesHalf, hratio, hstart, hdt]
    norm_num
  · rintro ⟨program, hsome, harrives⟩
    cases hprogram.symm.trans hsome
    have hd : 0 < |real unitMove.dx| := unitMove_displacement.symm ▸ one_pos
    exact not_arrives unitMove_onlyX hd one_pos one_pos htotal Vm.new harrives

end Audesys.Cnc.Motion
