import Audesys.Cnc.Cycle
import Audesys.Hal.Reals

/-!
# `Cnc.Trapezoid` — moves with a cruise arrive

The program of a move that accelerates, cruises and decelerates, run on exact numbers. A phase of `n` cycles is `n`
passes, and the way of `n` passes is a sum in closed form; the two ramps complement one another to a cruise of their
cycles, so the whole move is as long as a cruise of all its cycles, a little more than was asked.
-/

namespace Audesys.Cnc.Motion

open Audesys.Hal Audesys.Hal.F64 Audesys.Hal.Exact Audesys.Lib

attribute [local instance] atLeastTwo_two atLeastTwo_ten atLeastTwo_sixty

variable [Build]

/-! ## Passes in closed form -/

/-- What a phase adds to the velocity, in velocity steps. -/
noncomputable def drift (isAccel isDecel : Bool) : ℝ := if isAccel then 1 else if isDecel then -1 else 0

/-- The velocities of the first `n` passes, added up. -/
noncomputable def velocitySum (v step : ℝ) (n : ℕ) : ℝ := n * v + step * (n * (n - 1) / 2)

section
variable (p : TrapezoidalProfile) (isAccel isDecel : Bool) (m : Numbers)

theorem axes_counter (t : Target.F64) : (m.axes p t).counter = m.counter := by
  unfold Numbers.axes
  rw [Numbers.axis_counter, Numbers.axis_counter, Numbers.axis_counter]

theorem axes_vel (t : Target.F64) : (m.axes p t).vel = m.vel := by
  unfold Numbers.axes
  rw [Numbers.axis_vel, Numbers.axis_vel, Numbers.axis_vel]

theorem axes_vstep (t : Target.F64) : (m.axes p t).vstep = m.vstep := by
  unfold Numbers.axes
  rw [Numbers.axis_vstep, Numbers.axis_vstep, Numbers.axis_vstep]

theorem pass_counter : real (m.pass p isAccel isDecel).counter = real m.counter - 1 := by
  show real ((m.axes p (m.vel * p.dt)).counter - ofNat 1) = _
  rw [real_sub, axes_counter, real_ofNat, Nat.cast_one]

theorem pass_vstep : (m.pass p isAccel isDecel).vstep = m.vstep := axes_vstep p m _

theorem pass_vel : real (m.pass p isAccel isDecel).vel = real m.vel + drift isAccel isDecel * real m.vstep := by
  unfold Numbers.pass Numbers.changed drift
  rw [axes_vel, axes_vstep]
  cases isAccel with
  | true =>
    show real (m.vel + m.vstep) = real m.vel + 1 * real m.vstep
    rw [real_add, one_mul]
  | false =>
    cases isDecel with
    | true =>
      show real (m.vel - m.vstep) = real m.vel + -1 * real m.vstep
      rw [real_sub, neg_one_mul, sub_eq_add_neg]
    | false =>
      show real m.vel = real m.vel + 0 * real m.vstep
      rw [zero_mul, add_zero]

theorem pass_pos (k : Axis) : (m.pass p isAccel isDecel).pos k = (m.axes p (m.vel * p.dt)).pos k := rfl

/-- **Many passes.** -/
theorem passes_eq (n : ℕ) :
    real ((Numbers.pass p isAccel isDecel)^[n] m).counter = real m.counter - n ∧
    real ((Numbers.pass p isAccel isDecel)^[n] m).vel = real m.vel + n * (drift isAccel isDecel * real m.vstep) ∧
    ((Numbers.pass p isAccel isDecel)^[n] m).vstep = m.vstep ∧
    ∀ k : Axis, real (((Numbers.pass p isAccel isDecel)^[n] m).pos k) = real (m.pos k) + if k.driven p then
      velocitySum (real m.vel) (drift isAccel isDecel * real m.vstep) n * real p.dt * real (k.ratio p) else 0 := by
  induction n with
  | zero =>
    refine ⟨?_, ?_, rfl, ?_⟩
    · rw [Nat.cast_zero, sub_zero]
      rfl
    · rw [Nat.cast_zero, zero_mul, add_zero]
      rfl
    · intro k
      unfold velocitySum
      split
      · rw [Nat.cast_zero]
        ring_nf
        rfl
      · rw [add_zero]
        rfl
  | succ n ih =>
    obtain ⟨hcounter, hvel, hvstep, hpos⟩ := ih
    rw [Function.iterate_succ_apply']
    refine ⟨?_, ?_, ?_, ?_⟩
    · rw [pass_counter, hcounter, Nat.cast_succ, sub_sub]
    · rw [pass_vel, hvel, hvstep, Nat.cast_succ]
      ring
    · rw [pass_vstep, hvstep]
    · intro k
      rw [pass_pos, Numbers.axes_pos]
      by_cases hk : k.driven p = true
      · rw [if_pos hk, if_pos hk, real_add, real_mul, real_mul, hpos, if_pos hk, hvel]
        unfold velocitySum
        rw [Nat.cast_succ]
        ring
      · rw [if_neg hk, if_neg hk, hpos, if_neg hk]

end

/-! ## Nothing goes back -/

/-- No axis moves against its displacement. -/
def Forward (p : TrapezoidalProfile) (x x' : Axis → Target.F64) : Prop :=
  ∀ k : Axis, 0 ≤ (real (x' k) - real (x k)) * real (k.delta p)

theorem Forward.refl (p : TrapezoidalProfile) (x : Axis → Target.F64) : Forward p x x := by
  intro k
  rw [sub_self, zero_mul]

theorem distance_nonneg (p : TrapezoidalProfile) : 0 ≤ real p.distance := Real.sqrt_nonneg _

/-- An axis that goes its share of a way that is not negative. -/
theorem Forward.update {p : TrapezoidalProfile} {t : Target.F64} (ht : 0 ≤ real t) (x : Axis → Target.F64) (k : Axis) :
    Forward p x (Function.update x k (x k + t * k.ratio p)) := by
  intro j
  by_cases hjk : j = k
  · subst hjk
    rw [Function.update_self, real_add, real_mul, add_sub_cancel_left]
    unfold Axis.ratio
    rw [real_div]
    have hshare : 0 ≤ real (j.delta p) / real p.distance * real (j.delta p) := by
      rw [div_mul_eq_mul_div]
      exact div_nonneg (mul_self_nonneg _) (distance_nonneg p)
    rw [mul_assoc]
    exact mul_nonneg ht hshare
  · rw [Function.update_of_ne hjk, sub_self, zero_mul]

/-! ## Loops and phases -/

section
variable {p : TrapezoidalProfile} {code : List Instruction} {b : Nat} {isAccel isDecel : Bool}

/-- **A loop** of `n + 1` cycles is as many passes, and none of them goes back as long as no velocity is negative. -/
theorem loop_leads {m : Numbers} {n : ℕ} {loopStart : UInt32}
    (hcode : CodeAt code b (passCode p isAccel isDecel loopStart)) (hstart : loopStart.toNat = b)
    (hdt : 0 ≤ real p.dt) (hcounter : real m.counter = n + 1)
    (hvel : ∀ i ≤ n, 0 ≤ real m.vel + i * (drift isAccel isDecel * real m.vstep)) :
    Leads (next code) (Steps p (Forward p)) (fun vm => vm.ip = b ∧ Shows p m vm)
      (fun vm => vm.ip = b + (passCode p isAccel isDecel loopStart).length ∧
        Shows p ((Numbers.pass p isAccel isDecel)^[n + 1] m) vm) := by
  have hpass : ∀ i ≤ n, Leads (next code) (Steps p (Forward p))
      (fun vm => vm.ip = b ∧ Shows p ((Numbers.pass p isAccel isDecel)^[i] m) vm)
      (fun vm => vm.ip = (if i < n then b else b + (passCode p isAccel isDecel loopStart).length) ∧
        Shows p ((Numbers.pass p isAccel isDecel)^[i + 1] m) vm) := by
    intro i hi
    have hmove : ∀ x (k : Axis), k.driven p = true → Forward p x
        (Function.update x k (x k + ((Numbers.pass p isAccel isDecel)^[i] m).vel * p.dt * k.ratio p)) := by
      intro x k _
      refine Forward.update ?_ x k
      rw [real_mul, (passes_eq p isAccel isDecel m i).2.1]
      exact mul_nonneg (hvel i hi) hdt
    have hgo : gt ((Numbers.pass p isAccel isDecel)^[i + 1] m).counter zero = true ↔ i < n := by
      rw [real_gt_iff, (passes_eq p isAccel isDecel m (i + 1)).1, hcounter, real_zero, Nat.cast_succ, sub_pos,
        add_lt_add_iff_right, Nat.cast_lt]
    refine (pass_leads hcode (Forward.refl p) hmove).trans (.of_imp ?_)
    rintro vm ⟨hip, h⟩
    rw [← Function.iterate_succ_apply' (Numbers.pass p isAccel isDecel)] at hip h
    rw [hip, hstart]
    exact ⟨if_congr hgo rfl rfl, h⟩
  refine .iterate (fun m vm => vm.ip = b ∧ Shows p m vm)
    (fun m vm => vm.ip = b + (passCode p isAccel isDecel loopStart).length ∧ Shows p m vm) ?_ ?_
  · intro i hi
    have h := hpass i hi.le
    rw [if_pos hi] at h
    exact h
  · have h := hpass n le_rfl
    rw [if_neg (lt_irrefl n)] at h
    exact h

/-- **A phase** of a move, from one of its points of rest to the next. -/
theorem phase_leads {n : UInt32} (hn : n ≠ 0) {pos : Axis → Target.F64}
    (hcode : CodeAt code b (phaseCode p n isAccel isDecel b)) (hb : b + 3 < 2 ^ 32) (hdt : 0 ≤ real p.dt)
    (hvel : ∀ i < n.toNat, 0 ≤ real (phaseStart p n isAccel pos).vel +
      i * (drift isAccel isDecel * real (p.acceleration * p.dt))) :
    Leads (next code) (Steps p (Forward p)) (fun vm => vm.ip = b ∧ Ready p pos vm)
      (fun vm => vm.ip = b + (phaseCode p n isAccel isDecel b).length ∧
        Ready p ((Numbers.pass p isAccel isDecel)^[n.toNat] (phaseStart p n isAccel pos)).pos vm) := by
  unfold phaseCode at hcode
  have hpos : n.toNat ≠ 0 := fun h => hn (UInt32.toNat_inj.1 h)
  obtain ⟨k, hk⟩ := Nat.exists_eq_succ_of_ne_zero hpos
  have hstart : (UInt32.ofNat (b + 3)).toNat = b + 3 := by
    rw [UInt32.toNat_ofNat', Nat.mod_eq_of_lt hb]
  have hcounter : real (phaseStart p n isAccel pos).counter = k + 1 := by
    show real (ofNat n.toNat) = _
    rw [real_ofNat, hk, Nat.cast_succ]
  have hloop := loop_leads (m := phaseStart p n isAccel pos) hcode.right hstart hdt hcounter
    fun i hi => hvel i (hk ▸ Nat.lt_succ_of_le hi)
  refine (phaseLoads_leads hcode (Forward.refl p)).trans (hloop.trans (.of_imp ?_))
  rintro vm ⟨hip, h⟩
  refine ⟨?_, ?_⟩
  · rw [hip]
    unfold phaseCode
    rw [@List.length_append _ _ (passCode p isAccel isDecel (UInt32.ofNat (b + 3))), ← Nat.add_assoc]
  · rw [hk]
    exact h.toReady

end

/-! ## The program of a move -/

section
variable (p : TrapezoidalProfile)

/-- The program up to the end of each phase. -/
noncomputable def accelCode : List Instruction :=
  startAll p ++ phaseCode p p.cyclesAccel true false (startAll p).length
noncomputable def cruiseCode : List Instruction :=
  accelCode p ++ phaseCode p p.cyclesCruise false false (accelCode p).length
noncomputable def decelCode : List Instruction :=
  cruiseCode p ++ phaseCode p p.cyclesAccel false true (cruiseCode p).length

/-- The numbers at the end of each phase. -/
noncomputable def accelPos : Axis → Target.F64 :=
  ((Numbers.pass p true false)^[p.cyclesAccel.toNat] (phaseStart p p.cyclesAccel true fun k => k.start p)).pos
noncomputable def cruisePos : Axis → Target.F64 :=
  ((Numbers.pass p false false)^[p.cyclesCruise.toNat] (phaseStart p p.cyclesCruise false (accelPos p))).pos
noncomputable def decelPos : Axis → Target.F64 :=
  ((Numbers.pass p false true)^[p.cyclesAccel.toNat] (phaseStart p p.cyclesAccel false (cruisePos p))).pos

variable {p}

theorem generate_eq (hlong : lt p.distance tolerance = false) (hcruise : gt p.distCruise zero = true)
    (haccel : p.cyclesAccel ≠ 0) (hconst : p.cyclesCruise ≠ 0) :
    ∃ program, generateTrapezoidalProgram p = some program ∧ program.instructions = decelCode p := by
  unfold generateTrapezoidalProgram emitG1
  rw [hlong, if_neg Bool.false_ne_true, if_pos hcruise]
  refine ⟨_, rfl, ?_⟩
  show emitProfilePhase (emitProfilePhase (emitProfilePhase (constantCode p ++ startCode p .x ++ loadStartYZ p) p
    p.cyclesAccel true false) p p.cyclesCruise false false) p p.cyclesAccel false true = _
  rw [loadStartYZ_eq, ← List.append_assoc, emitProfilePhase_eq _ p haccel, emitProfilePhase_eq _ p hconst,
    emitProfilePhase_eq _ p haccel]
  rfl

theorem length_axisCode_le (k : Axis) : (axisCode p k).length ≤ 4 := by
  unfold axisCode
  split
  · exact le_rfl
  · exact Nat.zero_le 4

theorem length_startCode_le (k : Axis) : (startCode p k).length ≤ 1 := by
  unfold startCode
  split
  · exact le_rfl
  · exact Nat.zero_le 1

theorem length_phaseCode_le (n : UInt32) (isAccel isDecel : Bool) (b : Nat) :
    (phaseCode p n isAccel isDecel b).length ≤ 20 := by
  have hx := length_axisCode_le (p := p) .x
  have hy := length_axisCode_le (p := p) .y
  have hz := length_axisCode_le (p := p) .z
  have hchange : (changeCode isAccel isDecel).length ≤ 1 := by
    unfold changeCode
    split
    · exact le_rfl
    · split
      · exact le_rfl
      · exact Nat.zero_le 1
  unfold phaseCode passCode
  rw [axisSteps_eq]
  simp only [List.length_append, List.length_singleton]
  have hend : (loopEnd (UInt32.ofNat (b + 3))).length = 3 := rfl
  omega

theorem length_startAll_le : (startAll p).length ≤ 6 := by
  have hx := length_startCode_le (p := p) .x
  have hy := length_startCode_le (p := p) .y
  have hz := length_startCode_le (p := p) .z
  have hthree : (constantCode p).length = 3 := rfl
  unfold startAll
  simp only [List.length_append]
  omega

/-- **The whole move**, from the reset to the instruction behind it. -/
theorem decelCode_leads (haccel : p.cyclesAccel ≠ 0) (hconst : p.cyclesCruise ≠ 0) (hdt : 0 ≤ real p.dt)
    (ha : 0 ≤ real p.acceleration) (hv : 0 ≤ real p.vTarget)
    (hramp : ∀ i < p.cyclesAccel.toNat, i * (real p.acceleration * real p.dt) ≤ real p.vTarget)
    {code : List Instruction} (hcode : CodeAt code 0 (decelCode p)) (vm : Vm) :
    Leads (next code) (Steps p (Forward p)) (fun s => s = vm.reset)
      (fun s => s.ip = (decelCode p).length ∧ Ready p (decelPos p) s) := by
  have hstart := length_startAll_le (p := p)
  have hlen₁ : (accelCode p).length = (startAll p).length + _ := List.length_append
  have hlen₂ : (cruiseCode p).length = (accelCode p).length + _ := List.length_append
  have hlen₃ : (decelCode p).length = (cruiseCode p).length + _ := List.length_append
  have hle₁ := length_phaseCode_le (p := p) p.cyclesAccel true false (startAll p).length
  have hle₂ := length_phaseCode_le (p := p) p.cyclesCruise false false (accelCode p).length
  have hcode₂ : CodeAt code 0 (cruiseCode p) := hcode.left
  have hcode₁ : CodeAt code 0 (accelCode p) := hcode₂.left
  have hstep : 0 ≤ real p.acceleration * real p.dt := mul_nonneg ha hdt
  have h₀ := startAll_leads hcode₁.left (Forward.refl p) vm
  have h₁ : Leads (next code) (Steps p (Forward p))
      (fun s => s.ip = (startAll p).length ∧ Ready p (fun k => k.start p) s)
      (fun s => s.ip = (accelCode p).length ∧ Ready p (accelPos p) s) := by
    have hat := hcode₁.right
    rw [Nat.zero_add] at hat
    rw [hlen₁]
    refine phase_leads haccel hat (by omega) hdt ?_
    -- from rest the velocity only grows
    intro i _
    show 0 ≤ real zero + i * (1 * real (p.acceleration * p.dt))
    rw [real_zero, zero_add, one_mul]
    exact mul_nonneg (Nat.cast_nonneg i) hstep
  have h₂ : Leads (next code) (Steps p (Forward p))
      (fun s => s.ip = (accelCode p).length ∧ Ready p (accelPos p) s)
      (fun s => s.ip = (cruiseCode p).length ∧ Ready p (cruisePos p) s) := by
    have hat := hcode₂.right
    rw [Nat.zero_add] at hat
    rw [hlen₂]
    refine phase_leads hconst hat (by omega) hdt ?_
    intro i _
    show 0 ≤ real p.vTarget + i * (0 * real (p.acceleration * p.dt))
    rw [zero_mul, mul_zero, add_zero]
    exact hv
  have h₃ : Leads (next code) (Steps p (Forward p))
      (fun s => s.ip = (cruiseCode p).length ∧ Ready p (cruisePos p) s)
      (fun s => s.ip = (decelCode p).length ∧ Ready p (decelPos p) s) := by
    have hat := hcode.right
    rw [Nat.zero_add] at hat
    rw [hlen₃]
    refine phase_leads haccel hat (by omega) hdt ?_
    -- and the ramp ends before the velocity is used up
    intro i hi
    show 0 ≤ real p.vTarget + i * (-1 * real (p.acceleration * p.dt))
    have h := hramp i hi
    rw [real_mul, neg_one_mul, mul_neg, ← sub_eq_add_neg, sub_nonneg]
    exact h
  exact h₀.trans (h₁.trans (h₂.trans h₃))

/-- **The length of the move.** Each driven axis goes its share of a cruise of all the cycles. -/
theorem decelPos_eq (k : Axis) (hk : k.driven p = true) :
    real (decelPos p k) = real (k.start p) +
      (p.cyclesAccel.toNat + p.cyclesCruise.toNat) * real p.vTarget * real p.dt * real (k.ratio p) := by
  unfold decelPos
  rw [(passes_eq p false true _ _).2.2.2 k, if_pos hk]
  show real (cruisePos p k) + velocitySum (real p.vTarget) (-1 * real (p.acceleration * p.dt)) _ * _ * _ = _
  unfold cruisePos
  rw [(passes_eq p false false _ _).2.2.2 k, if_pos hk]
  show real (accelPos p k) + velocitySum (real p.vTarget) (0 * real (p.acceleration * p.dt)) _ * _ * _ + _ = _
  unfold accelPos
  rw [(passes_eq p true false _ _).2.2.2 k, if_pos hk]
  show real (k.start p) + velocitySum (real zero) (1 * real (p.acceleration * p.dt)) _ * _ * _ + _ + _ = _
  unfold velocitySum
  rw [real_zero]
  ring

end

/-! ## Arrival -/

/-- The programmed speed, in units a second. -/
noncomputable def speed (p : TrapezoidalProfile) : ℝ := real p.feedrate / 60

/-- **A move arrives.** The machine halts behind the program, no step moves an axis against its displacement, and each
moving axis ends at its share of one way `T`, which is the distance or up to two cycles more. -/
def MoveArrives (p : TrapezoidalProfile) (is : List Instruction) (vm : Vm) : Prop :=
  ∃ n last halted, RunN (next (is ++ [.halt])) n vm.reset last ∧ last.ip = is.length ∧
    last.step (is ++ [.halt]) = some (halted, .halted) ∧
    (∀ m s s', RunN (next (is ++ [.halt])) m vm.reset s → next (is ++ [.halt]) s = some s' →
      Forward p (fun k => position p k s) (fun k => position p k s')) ∧
    ∃ T : ℝ, real p.distance ≤ T ∧ T < real p.distance + 2 * speed p * real p.dt ∧
      ∀ k : Axis, 1 / 10 ^ 9 < |real (k.delta p)| →
        real (position p k last) - real (k.start p) = real (k.delta p) * T / real p.distance

section
variable {p : TrapezoidalProfile}

theorem real_vTarget (hfeed : 0 < real p.feedrate) : real p.vTarget = speed p := by
  have hgt : gt p.feedrate zero = true := real_gt_iff.2 hfeed
  unfold TrapezoidalProfile.vTarget speed
  rw [if_pos hgt, real_div, real_ofNat, Nat.cast_ofNat]

theorem real_tAccel (hfeed : 0 < real p.feedrate) : real p.tAccel = speed p / real p.acceleration := by
  unfold TrapezoidalProfile.tAccel
  rw [real_div, real_vTarget hfeed]

/-- The two ramps take the square of the speed over the acceleration. -/
theorem real_distCruise (hfeed : 0 < real p.feedrate) (ha : 0 < real p.acceleration) :
    real p.distCruise = real p.distance - speed p ^ 2 / real p.acceleration := by
  unfold TrapezoidalProfile.distCruise TrapezoidalProfile.distAccel
  rw [real_sub, real_mul, real_mul, real_mul, real_mul, real_tAccel hfeed, real_ofNat, real_decimal]
  field_simp
  push_cast
  ring

theorem real_tolerance : real (tolerance : Target.F64) = 1 / 10 ^ 9 := decimal_one 9

/-- The axes that count as moving are driven. -/
theorem driven_of_moving {k : Axis} (h : 1 / 10 ^ 9 < |real (k.delta p)|) : k.driven p = true := by
  cases k with
  | x => rfl
  | y =>
    refine real_gt_iff.2 ?_
    rw [real_tolerance]
    exact h
  | z =>
    refine real_gt_iff.2 ?_
    rw [real_tolerance]
    exact h

omit [Build] in
/-- Cycles that are counted up are as long as what they stand for, or less than one longer. -/
theorem way_bounds {D v a dt : ℝ} (hv : 0 < v) (ha : 0 < a) (hdt : 0 < dt) (hrest : v ^ 2 / a < D) :
    D ≤ (⌈v / a / dt⌉₊ + ⌈(D - v ^ 2 / a) / v / dt⌉₊) * v * dt ∧
      (⌈v / a / dt⌉₊ + ⌈(D - v ^ 2 / a) / v / dt⌉₊) * v * dt < D + 2 * v * dt := by
  have hvdt : 0 < v * dt := mul_pos hv hdt
  have hsum : (v / a / dt + (D - v ^ 2 / a) / v / dt) * (v * dt) = D := by
    field_simp
    ring
  have hle₁ := Nat.le_ceil (v / a / dt)
  have hle₂ := Nat.le_ceil ((D - v ^ 2 / a) / v / dt)
  have hlt₁ := Nat.ceil_lt_add_one (div_pos (div_pos hv ha) hdt).le
  have hlt₂ := Nat.ceil_lt_add_one (div_pos (div_pos (sub_pos.2 hrest) hv) hdt).le
  rw [mul_assoc]
  constructor
  · calc D = (v / a / dt + (D - v ^ 2 / a) / v / dt) * (v * dt) := hsum.symm
      _ ≤ (⌈v / a / dt⌉₊ + ⌈(D - v ^ 2 / a) / v / dt⌉₊) * (v * dt) :=
        mul_le_mul_of_nonneg_right (add_le_add hle₁ hle₂) hvdt.le
  · calc (⌈v / a / dt⌉₊ + ⌈(D - v ^ 2 / a) / v / dt⌉₊) * (v * dt)
        < (v / a / dt + 1 + ((D - v ^ 2 / a) / v / dt + 1)) * (v * dt) :=
          mul_lt_mul_of_pos_right (add_lt_add hlt₁ hlt₂) hvdt
      _ = (v / a / dt + (D - v ^ 2 / a) / v / dt) * (v * dt) + 2 * v * dt := by ring
      _ = D + 2 * v * dt := by rw [hsum]

/-- **Moves with a cruise arrive.** -/
theorem trapezoid_arrives (p : TrapezoidalProfile) (hlong : 1 / 10 ^ 9 ≤ real p.distance) (hfeed : 0 < real p.feedrate)
    (ha : 0 < real p.acceleration) (hdt : 0 < real p.dt)
    (hcruise : speed p ^ 2 / real p.acceleration < real p.distance)
    (haccel : ⌈speed p / real p.acceleration / real p.dt⌉₊ < 2 ^ 32)
    (hconst : ⌈(real p.distance - speed p ^ 2 / real p.acceleration) / speed p / real p.dt⌉₊ < 2 ^ 32) (vm : Vm) :
    ∃ program, generateTrapezoidalProgram p = some program ∧ MoveArrives p program.instructions vm := by
  have hv : 0 < speed p := div_pos hfeed (by norm_num)
  have hvTarget := real_vTarget hfeed
  have htime : real (p.tAccel / p.dt) = speed p / real p.acceleration / real p.dt := by
    rw [real_div, real_tAccel hfeed]
  have hrest : real (p.distCruise / p.vTarget / p.dt) =
      (real p.distance - speed p ^ 2 / real p.acceleration) / speed p / real p.dt := by
    rw [real_div, real_div, real_distCruise hfeed ha, hvTarget]
  have hn : p.cyclesAccel.toNat = ⌈speed p / real p.acceleration / real p.dt⌉₊ := by
    unfold TrapezoidalProfile.cyclesAccel
    rw [toU32_ceil (htime ▸ haccel), htime]
  have hm : p.cyclesCruise.toNat = ⌈(real p.distance - speed p ^ 2 / real p.acceleration) / speed p / real p.dt⌉₊ := by
    unfold TrapezoidalProfile.cyclesCruise
    rw [toU32_ceil (hrest ▸ hconst), hrest]
  have hnpos : 0 < p.cyclesAccel.toNat := by
    rw [hn]
    exact Nat.ceil_pos.2 (div_pos (div_pos hv ha) hdt)
  have hmpos : 0 < p.cyclesCruise.toNat := by
    rw [hm]
    exact Nat.ceil_pos.2 (div_pos (div_pos (sub_pos.2 hcruise) hv) hdt)
  have hn0 : p.cyclesAccel ≠ 0 := fun h => hnpos.ne' (congrArg UInt32.toNat h)
  have hm0 : p.cyclesCruise ≠ 0 := fun h => hmpos.ne' (congrArg UInt32.toNat h)
  -- the last cycle of the ramp still has a velocity
  have hramp : ∀ i < p.cyclesAccel.toNat, i * (real p.acceleration * real p.dt) ≤ real p.vTarget := by
    intro i hi
    rw [hn] at hi
    have hlt : (i : ℝ) < speed p / real p.acceleration / real p.dt := Nat.lt_ceil.1 hi
    rw [div_div, lt_div_iff₀ (mul_pos ha hdt)] at hlt
    rw [hvTarget]
    exact hlt.le
  obtain ⟨program, hprogram, hcode⟩ := generate_eq (p := p)
    (Bool.eq_false_iff.2 fun h => (real_lt_iff.1 h).not_ge (real_tolerance.symm ▸ hlong))
    (real_gt_iff.2 (by rw [real_distCruise hfeed ha]; exact sub_pos.2 hcruise)) hn0 hm0
  refine ⟨program, hprogram, ?_⟩
  unfold MoveArrives
  rw [hcode]
  have hat : CodeAt (decelCode p ++ [.halt]) 0 (decelCode p ++ [.halt]) := .whole _
  obtain ⟨n, last, hrun, hip, hready⟩ := decelCode_leads hn0 hm0 hdt.le ha.le (hvTarget.symm ▸ hv.le) hramp hat.left vm _
    rfl
  have hhalt : (decelCode p ++ [Instruction.halt])[last.ip]? = some .halt := by
    rw [hip]
    exact List.getElem?_concat_length
  refine ⟨n, last, last.advanceIp, hrun.run, hip, step_halt hhalt, ?_, ?_⟩
  · intro m s s' hs hstep
    have hm := (hs.snoc hstep).le_of_stopped hrun.run (next_halt hhalt)
    exact hrun.related hs hstep hm
  · obtain ⟨hle, hlt⟩ := way_bounds hv ha hdt hcruise
    refine ⟨_, hle, hlt, ?_⟩
    intro k hk
    rw [hready.published, decelPos_eq k (driven_of_moving hk), hn, hm, hvTarget, add_sub_cancel_left]
    unfold Axis.ratio
    rw [real_div]
    ring

end

end Audesys.Cnc.Motion

/-! ## A move with a cruise -/

namespace Audesys.Cnc.Motion

open Audesys.Hal Audesys.Hal.F64 Audesys.Hal.Exact

attribute [local instance] atLeastTwo_two atLeastTwo_ten atLeastTwo_sixty

local instance checkedTrapezoid : Build := ⟨true⟩

/-- Ten units along the first axis, at one unit a second. -/
noncomputable def cruiseMove : TrapezoidalProfile :=
  { dx := (10 : ℝ), dy := (0 : ℝ), dz := (0 : ℝ), feedrate := (60 : ℝ), acceleration := (1 : ℝ), dt := (1 : ℝ),
    startX := (3 : ℝ), startY := (0 : ℝ), startZ := (0 : ℝ) }

theorem cruiseMove_distance : real cruiseMove.distance = 10 := by
  show Real.sqrt (10 * 10 + 0 * 0 + 0 * 0) = 10
  rw [mul_zero, add_zero, add_zero, Real.sqrt_mul_self (by norm_num)]

theorem cruiseMove_speed : speed cruiseMove = 1 := by
  show (60 : ℝ) / 60 = 1
  norm_num

theorem cruiseMove_arrives :
    ∃ program, generateTrapezoidalProgram cruiseMove = some program ∧
      MoveArrives cruiseMove program.instructions Vm.new := by
  have ha : real cruiseMove.acceleration = 1 := rfl
  have hdt : real cruiseMove.dt = 1 := rfl
  refine trapezoid_arrives cruiseMove ?_ ?_ ?_ ?_ ?_ ?_ ?_ Vm.new
  · rw [cruiseMove_distance]
    norm_num
  · show (0 : ℝ) < 60
    norm_num
  · rw [ha]
    norm_num
  · rw [hdt]
    norm_num
  · rw [cruiseMove_distance, cruiseMove_speed, ha]
    norm_num
  · rw [cruiseMove_speed, ha, hdt]
    norm_num
  · rw [cruiseMove_distance, cruiseMove_speed, ha, hdt]
    norm_num

end Audesys.Cnc.Motion
