import Audesys.Cnc.Profile
import Audesys.Hal.Machine
import Audesys.Lib.Leads

/-!
# `Cnc.Cycle` — one pass of a motion loop

What the code of a move does to the machine, said on the numbers that the move keeps: a counter, a velocity, a velocity
step and a position for each axis. A pass multiplies the velocity by the time step, moves and publishes each driven
axis by its share, changes the velocity and counts down. The positions that the rest of the system sees are the
published ones, and every contract here says what each step on its way does to them.
-/

open List

namespace Audesys.Cnc.Motion

open Audesys.Hal Audesys.Hal.F64 Audesys.Lib

variable {r : UInt8}

/-! ## Axes -/

inductive Axis where
  | x | y | z
  deriving DecidableEq

namespace Axis

def posReg : Axis → UInt8
  | x => regPosX
  | y => regPosY
  | z => regPosZ

def signal : Axis → String
  | x => "axis.0.pos"
  | y => "axis.1.pos"
  | z => "axis.2.pos"

theorem posReg_valid (k : Axis) : k.posReg.toNat < registerCount := by
  cases k
  · decide
  · decide
  · decide

theorem posReg_injective {j k : Axis} (h : j.posReg = k.posReg) : j = k := by
  cases j <;> cases k <;> first | rfl | exact absurd h (by decide)

theorem signal_injective {j k : Axis} (h : j.signal = k.signal) : j = k := by
  cases j <;> cases k <;> first | rfl | exact absurd h (by decide)

variable [Target] (p : TrapezoidalProfile)

def delta : Axis → Target.F64
  | x => p.dx
  | y => p.dy
  | z => p.dz

def start : Axis → Target.F64
  | x => p.startX
  | y => p.startY
  | z => p.startZ

variable [F64Math]

/-- The axes that a pass moves. -/
def driven : Axis → Bool
  | x => true
  | y => p.movesY
  | z => p.movesZ

/-- The share of an axis in the move. -/
def ratio (k : Axis) : Target.F64 := k.delta p / p.distance

end Axis

variable [Target]

/-- Where the system sees an axis: at its published position, and at its start before the first. -/
def position (p : TrapezoidalProfile) (k : Axis) (vm : Vm) : Target.F64 :=
  match vm.signals k.signal with
  | some (.f64 v) => v
  | _ => k.start p

/-- A step of the machine, as a step of the positions. -/
def Steps (p : TrapezoidalProfile) (Q : (Axis → Target.F64) → (Axis → Target.F64) → Prop) (vm vm' : Vm) : Prop :=
  Q (fun k => position p k vm) (fun k => position p k vm')

/-! ## The numbers of a move -/

structure Numbers where
  counter : Target.F64
  vel : Target.F64
  vstep : Target.F64
  pos : Axis → Target.F64

variable [F64Math]

/-- The constants are loaded, and the driven axes are where they are published. -/
structure Ready (p : TrapezoidalProfile) (pos : Axis → Target.F64) (vm : Vm) : Prop where
  dt : vm.get regDt = .f64 p.dt
  zero : vm.get regZero = .f64 zero
  one : vm.get regOne = .f64 (ofNat 1)
  driven : ∀ k : Axis, k.driven p = true → vm.get k.posReg = .f64 (pos k)
  published : ∀ k, position p k vm = pos k

/-- The machine holds the numbers of a move. -/
structure Shows (p : TrapezoidalProfile) (m : Numbers) (vm : Vm) : Prop extends Ready p m.pos vm where
  counter : vm.get regCounter = .f64 m.counter
  vel : vm.get regVel = .f64 m.vel
  vstep : vm.get regVstep = .f64 m.vstep

/-- And the way of this pass. -/
structure Passes (p : TrapezoidalProfile) (m : Numbers) (t : Target.F64) (vm : Vm) : Prop extends Shows p m vm where
  tstep : vm.get regTstep = .f64 t

/-! ## Registers and positions -/

section
omit [F64Math]

theorem get_set (vm : Vm) (h : r.toNat < registerCount) (v : HalValue) (r' : UInt8) :
    (vm.set r v).get r' = if r' = r then v else vm.get r' := by
  by_cases heq : r' = r
  · rw [if_pos heq, heq, Vm.get_set_self _ _ _ h]
  · rw [if_neg heq, Vm.get_set_ne _ _ heq]

/-- A register behind the instruction that wrote it. -/
theorem get_written (vm : Vm) (h : r.toNat < registerCount) (v : HalValue) :
    (vm.set r v).advanceIp.get r = v := Vm.get_set_self _ _ _ h

/-- The other registers. -/
theorem get_kept (vm : Vm) {r r' : UInt8} (h : r' ≠ r) (v : HalValue) :
    (vm.set r v).advanceIp.get r' = vm.get r' := Vm.get_set_ne _ _ h

variable {p : TrapezoidalProfile} {vm vm' : Vm}

theorem position_congr (h : vm'.signals = vm.signals) (k : Axis) : position p k vm' = position p k vm := by
  unfold position
  rw [h]

/-- A published position moves its axis and no other. -/
theorem positions_writeSignal (vm : Vm) (k : Axis) (v : Target.F64) :
    (fun j => position p j (vm.writeSignal k.signal (.f64 v))) =
      Function.update (fun j => position p j vm) k v := by
  funext j
  unfold position
  by_cases hj : j = k
  · subst hj
    have hsignal : (vm.writeSignal j.signal (.f64 v)).signals j.signal = some (.f64 v) := if_pos rfl
    rw [Function.update_self, hsignal]
  · have hsignal : (vm.writeSignal k.signal (.f64 v)).signals j.signal = vm.signals j.signal :=
      if_neg fun h => hj (Axis.signal_injective h)
    rw [Function.update_of_ne hj, hsignal]

/-- A step that publishes nothing. -/
theorem Steps.of_signals {Q : (Axis → Target.F64) → (Axis → Target.F64) → Prop} (hQ : ∀ x, Q x x)
    (h : vm'.signals = vm.signals) : Steps p Q vm vm' := by
  unfold Steps
  rw [funext (position_congr h)]
  exact hQ _

end

section
variable {p : TrapezoidalProfile} {pos : Axis → Target.F64} {m : Numbers} {t : Target.F64} {vm vm' : Vm}

/-- What the numbers depend on. -/
theorem Ready.congr (h : Ready p pos vm) (hget : ∀ r ∈ [regPosX, regPosY, regPosZ, regZero, regOne, regDt],
    vm'.get r = vm.get r) (hsignals : vm'.signals = vm.signals) : Ready p pos vm' := by
  refine ⟨?_, ?_, ?_, ?_, ?_⟩
  · rw [hget _ (by decide), h.dt]
  · rw [hget _ (by decide), h.zero]
  · rw [hget _ (by decide), h.one]
  · intro k hk
    rw [hget _ (by cases k <;> decide), h.driven k hk]
  · intro k
    rw [position_congr hsignals, h.published]

end

/-! ## The step of an axis -/

/-- The numbers with an axis moved. -/
def Numbers.moved (m : Numbers) (k : Axis) (v : Target.F64) : Numbers := { m with pos := Function.update m.pos k v }

omit [F64Math] in
theorem Numbers.moved_pos_self (m : Numbers) (k : Axis) (v : Target.F64) : (m.moved k v).pos k = v :=
  Function.update_self ..

omit [F64Math] in
theorem Numbers.moved_pos_of_ne (m : Numbers) {j k : Axis} (h : j ≠ k) (v : Target.F64) :
    (m.moved k v).pos j = m.pos j := Function.update_of_ne h ..

section
variable {p : TrapezoidalProfile} {Q : (Axis → Target.F64) → (Axis → Target.F64) → Prop} {code : List Instruction}
  {b : Nat} {m : Numbers} {t : Target.F64}

/-- **An axis moves** by its share of the way of this pass, and its position is published. -/
theorem axisStep_leads (k : Axis) (hcode : CodeAt code b (emitAxisStep (k.ratio p) k.posReg k.signal))
    (hQ : ∀ x, Q x x) (hdriven : k.driven p = true)
    (hmove : Q m.pos (m.moved k (m.pos k + t * k.ratio p)).pos) :
    Leads (next code) (Steps p Q) (fun vm => vm.ip = b ∧ Passes p m t vm)
      (fun vm => vm.ip = b + 4 ∧ Passes p (m.moved k (m.pos k + t * k.ratio p)) t vm ∧
        vm.get regRatio = .f64 (k.ratio p)) := by
  rintro vm ⟨hip, h⟩
  have hk := k.posReg_valid
  -- the four instructions
  let vm₁ := (vm.set regRatio (.f64 (k.ratio p))).advanceIp
  let vm₂ := (vm₁.set regAxisStep (.f64 (t * k.ratio p))).advanceIp
  let vm₃ := (vm₂.set k.posReg (.f64 (m.pos k + t * k.ratio p))).advanceIp
  let vm₄ := (vm₃.writeSignal k.signal (vm₃.get k.posReg)).advanceIp
  have hget₁ : ∀ r, vm₁.get r = if r = regRatio then .f64 (k.ratio p) else vm.get r :=
    get_set vm (r := regRatio) (by decide) (.f64 (k.ratio p))
  have hget₂ : ∀ r, vm₂.get r = if r = regAxisStep then .f64 (t * k.ratio p) else vm₁.get r :=
    get_set vm₁ (r := regAxisStep) (by decide) (.f64 (t * k.ratio p))
  have hget₃ : ∀ r, vm₃.get r = if r = k.posReg then .f64 (m.pos k + t * k.ratio p) else vm₂.get r :=
    get_set vm₂ hk _
  have hip₁ : vm₁.ip = b + 1 := by
    show (vm.set _ _).ip + 1 = _
    rw [Vm.set_ip, hip]
  have hip₂ : vm₂.ip = b + 2 := by
    show (vm₁.set _ _).ip + 1 = _
    rw [Vm.set_ip, hip₁]
  have hip₃ : vm₃.ip = b + 3 := by
    show (vm₂.set _ _).ip + 1 = _
    rw [Vm.set_ip, hip₂]
  have hs₁ : next code vm = some vm₁ := next_loadImm (by rw [hip]; exact hcode.head) (by decide)
  have hs₂ : next code vm₁ = some vm₂ := by
    refine next_arith (f := HalValue.mul) (by rw [hip₁]; exact hcode.tail.head) rfl (fun _ _ => rfl) (by decide)
      (by decide) (by decide) ?_
    rw [hget₁, hget₁, if_neg (by decide), if_pos rfl, h.tstep]
    rfl
  have hs₃ : next code vm₂ = some vm₃ := by
    refine next_arith (f := HalValue.add) (by rw [hip₂]; exact hcode.tail.tail.head) rfl (fun _ _ => rfl) hk
      (by decide) hk ?_
    rw [hget₂, hget₂, hget₁, if_neg (by cases k <;> decide), if_neg (by cases k <;> decide), if_pos rfl,
      h.driven k hdriven]
    rfl
  have hs₄ : next code vm₃ = some vm₄ := next_store (by rw [hip₃]; exact hcode.tail.tail.tail.head) hk
  have hsig₁ : vm₁.signals = vm.signals := Vm.set_signals ..
  have hsig₂ : vm₂.signals = vm₁.signals := Vm.set_signals ..
  have hsig₃ : vm₃.signals = vm₂.signals := Vm.set_signals ..
  have hsame : vm₃.signals = vm.signals := hsig₃.trans (hsig₂.trans hsig₁)
  -- what the last one publishes
  have hpos : (fun j => position p j vm₄) = (m.moved k (m.pos k + t * k.ratio p)).pos := by
    show (fun j => position p j (vm₃.writeSignal k.signal (vm₃.get k.posReg))) = _
    rw [hget₃, if_pos rfl, positions_writeSignal, funext (position_congr hsame), funext h.published]
    rfl
  -- what the registers hold
  have hother : ∀ r, r ≠ regRatio → r ≠ regAxisStep → r ≠ k.posReg → vm₄.get r = vm.get r := by
    intro r h₁ h₂ h₃
    show vm₃.get r = _
    rw [hget₃, if_neg h₃, hget₂, if_neg h₂, hget₁, if_neg h₁]
  refine ⟨4, vm₄, .step hs₁ (.of_signals hQ hsig₁) (.step hs₂ (.of_signals hQ hsig₂) (.step hs₃ (.of_signals hQ hsig₃)
    (.step hs₄ ?_ (.refl _)))), ?_, ⟨⟨⟨?_, ?_, ?_, ?_, ?_⟩, ?_, ?_, ?_⟩, ?_⟩, ?_⟩
  · unfold Steps
    rw [hpos, funext (position_congr hsame), funext h.published]
    exact hmove
  · show vm₃.ip + 1 = _
    rw [hip₃]
  · rw [hother _ (by decide) (by decide) (by cases k <;> decide), h.dt]
  · rw [hother _ (by decide) (by decide) (by cases k <;> decide), h.zero]
  · rw [hother _ (by decide) (by decide) (by cases k <;> decide), h.one]
  · intro j hj
    by_cases hjk : j = k
    · subst hjk
      show vm₃.get _ = _
      rw [hget₃, if_pos rfl]
      rw [m.moved_pos_self]
    · rw [hother _ (by cases j <;> decide) (by cases j <;> decide) (fun heq => hjk (Axis.posReg_injective heq)),
        h.driven j hj]
      rw [m.moved_pos_of_ne hjk]
  · intro j
    exact congrFun hpos j
  · rw [hother _ (by decide) (by decide) (by cases k <;> decide), h.counter]
    rfl
  · rw [hother _ (by decide) (by decide) (by cases k <;> decide), h.vel]
    rfl
  · rw [hother _ (by decide) (by decide) (by cases k <;> decide), h.vstep]
    rfl
  · rw [hother _ (by decide) (by decide) (by cases k <;> decide), h.tstep]
  · show vm₃.get _ = _
    rw [hget₃, if_neg (by cases k <;> decide), hget₂, if_neg (by decide), hget₁, if_pos rfl]

/-- The numbers behind the code of an axis, which is there for a driven one only. -/
def Numbers.axis (p : TrapezoidalProfile) (t : Target.F64) (m : Numbers) (k : Axis) : Numbers :=
  if k.driven p then m.moved k (m.pos k + t * k.ratio p) else m

/-- The numbers behind the code of the three axes. -/
def Numbers.axes (p : TrapezoidalProfile) (t : Target.F64) (m : Numbers) : Numbers :=
  ((m.axis p t .x).axis p t .y).axis p t .z

/-- A pass moves the driven axes by their shares. -/
theorem Numbers.axes_pos (p : TrapezoidalProfile) (t : Target.F64) (m : Numbers) (k : Axis) :
    (m.axes p t).pos k = if k.driven p then m.pos k + t * k.ratio p else m.pos k := by
  have hself : ∀ m : Numbers, (m.axis p t k).pos k = if k.driven p then m.pos k + t * k.ratio p else m.pos k := by
    intro m
    unfold Numbers.axis
    split
    · exact m.moved_pos_self k _
    · rfl
  have hother : ∀ (m : Numbers) (j : Axis), k ≠ j → (m.axis p t j).pos k = m.pos k := by
    intro m j hj
    unfold Numbers.axis
    split
    · exact m.moved_pos_of_ne hj _
    · rfl
  unfold Numbers.axes
  cases k with
  | x => rw [hother _ _ (by decide), hother _ _ (by decide), hself]
  | y => rw [hother _ _ (by decide), hself, hother _ _ (by decide)]
  | z => rw [hself, hother _ _ (by decide), hother _ _ (by decide)]

theorem Numbers.axis_counter (p : TrapezoidalProfile) (t : Target.F64) (m : Numbers) (k : Axis) :
    (m.axis p t k).counter = m.counter := by
  unfold Numbers.axis
  split <;> rfl

theorem Numbers.axis_vel (p : TrapezoidalProfile) (t : Target.F64) (m : Numbers) (k : Axis) :
    (m.axis p t k).vel = m.vel := by
  unfold Numbers.axis
  split <;> rfl

theorem Numbers.axis_vstep (p : TrapezoidalProfile) (t : Target.F64) (m : Numbers) (k : Axis) :
    (m.axis p t k).vstep = m.vstep := by
  unfold Numbers.axis
  split <;> rfl

/-- The share that was loaded last is the one of an axis. -/
def HasRatio (p : TrapezoidalProfile) (vm : Vm) : Prop := ∃ k : Axis, vm.get regRatio = .f64 (k.ratio p)

/-- The code of an axis, where it is driven. -/
def axisCode (p : TrapezoidalProfile) (k : Axis) : List Instruction :=
  if k.driven p then emitAxisStep (k.ratio p) k.posReg k.signal else []

theorem axisSteps_eq (p : TrapezoidalProfile) : axisSteps p = axisCode p .x ++ axisCode p .y ++ axisCode p .z := rfl

theorem axisCode_leads (k : Axis) (hcode : CodeAt code b (axisCode p k)) (hQ : ∀ x, Q x x)
    (hmove : ∀ x (k : Axis), k.driven p = true → Q x (Function.update x k (x k + t * k.ratio p))) :
    Leads (next code) (Steps p Q) (fun vm => vm.ip = b ∧ Passes p m t vm ∧ (k.driven p = true ∨ HasRatio p vm))
      (fun vm => vm.ip = b + (axisCode p k).length ∧ Passes p (m.axis p t k) t vm ∧ HasRatio p vm) := by
  unfold axisCode at hcode ⊢
  unfold Numbers.axis
  by_cases hk : k.driven p = true
  · rw [if_pos hk] at hcode ⊢
    rw [if_pos hk]
    rintro vm ⟨hip, h, _⟩
    obtain ⟨n, vm', hrun, hip', h', hratio⟩ := axisStep_leads k hcode hQ hk (hmove _ k hk) vm ⟨hip, h⟩
    exact ⟨n, vm', hrun, hip', h', k, hratio⟩
  · rw [if_neg hk] at hcode ⊢
    rw [if_neg hk]
    refine .of_imp ?_
    rintro vm ⟨hip, h, hratio⟩
    exact ⟨hip, h, hratio.resolve_left hk⟩

/-- **The axes move.** -/
theorem axisSteps_leads (hcode : CodeAt code b (axisSteps p)) (hQ : ∀ x, Q x x)
    (hmove : ∀ x (k : Axis), k.driven p = true → Q x (Function.update x k (x k + t * k.ratio p))) :
    Leads (next code) (Steps p Q) (fun vm => vm.ip = b ∧ Passes p m t vm)
      (fun vm => vm.ip = b + (axisSteps p).length ∧ Passes p (m.axes p t) t vm ∧ HasRatio p vm) := by
  rw [axisSteps_eq] at hcode ⊢
  have hx := axisCode_leads (m := m) .x hcode.left.left hQ hmove
  have hy := axisCode_leads (m := m.axis p t .x) .y hcode.left.right hQ hmove
  have hz := axisCode_leads (m := (m.axis p t .x).axis p t .y) .z hcode.right hQ hmove
  rw [length_append, ← Nat.add_assoc] at hz
  rw [length_append, length_append, ← Nat.add_assoc, ← Nat.add_assoc]
  refine .trans ?_ (.trans hx (.trans ?_ (.trans hy (.trans ?_ hz))))
  · refine .of_imp ?_
    rintro vm ⟨hip, h⟩
    exact ⟨hip, h, Or.inl rfl⟩
  · refine .of_imp ?_
    rintro vm ⟨hip, h, hratio⟩
    exact ⟨hip, h, Or.inr hratio⟩
  · refine .of_imp ?_
    rintro vm ⟨hip, h, hratio⟩
    exact ⟨hip, h, Or.inr hratio⟩

/-! ## The rest of a pass -/

/-- A register is written that no constant and no position is in. -/
theorem Ready.set {pos : Axis → Target.F64} {vm : Vm} (h : Ready p pos vm) (v : HalValue)
    (hr : r ∉ [regPosX, regPosY, regPosZ, regZero, regOne, regDt]) : Ready p pos (vm.set r v).advanceIp := by
  refine h.congr ?_ ?_
  · intro r' hr'
    have hne : r' ≠ r := by
      rintro rfl
      exact hr hr'
    exact Vm.get_set_ne _ _ hne
  · exact Vm.set_signals ..

/-- A register is written that no number of the move is in. -/
theorem Shows.set {vm : Vm} (h : Shows p m vm) (v : HalValue)
    (hr : r ∉ [regPosX, regPosY, regPosZ, regZero, regOne, regDt]) (hcounter : regCounter ≠ r) (hvel : regVel ≠ r)
    (hvstep : regVstep ≠ r) : Shows p m (vm.set r v).advanceIp :=
  ⟨h.toReady.set v hr, (get_kept vm hcounter v).trans h.counter, (get_kept vm hvel v).trans h.vel,
    (get_kept vm hvstep v).trans h.vstep⟩

/-- The machine goes on elsewhere. -/
theorem Shows.congr {vm vm' : Vm} (h : Shows p m vm) (hget : ∀ r, vm'.get r = vm.get r)
    (hsignals : vm'.signals = vm.signals) : Shows p m vm' :=
  ⟨h.toReady.congr (fun r _ => hget r) hsignals, (hget _).trans h.counter, (hget _).trans h.vel,
    (hget _).trans h.vstep⟩

theorem Shows.set_counter {vm : Vm} (h : Shows p m vm) (c : Target.F64) :
    Shows p { m with counter := c } (vm.set regCounter (.f64 c)).advanceIp := by
  refine ⟨h.toReady.set _ (by decide), ?_, ?_, ?_⟩
  · exact get_written vm (by decide) _
  · exact (get_kept vm (by decide) _).trans h.vel
  · exact (get_kept vm (by decide) _).trans h.vstep

theorem Shows.set_vel {vm : Vm} (h : Shows p m vm) (w : Target.F64) :
    Shows p { m with vel := w } (vm.set regVel (.f64 w)).advanceIp := by
  refine ⟨h.toReady.set _ (by decide), ?_, ?_, ?_⟩
  · exact (get_kept vm (by decide) _).trans h.counter
  · exact get_written vm (by decide) _
  · exact (get_kept vm (by decide) _).trans h.vstep

/-- The way of a pass. -/
theorem tstep_leads (hcode : CodeAt code b [.arith .mul regVel regDt regTstep]) (hQ : ∀ x, Q x x) :
    Leads (next code) (Steps p Q) (fun vm => vm.ip = b ∧ Shows p m vm)
      (fun vm => vm.ip = b + 1 ∧ Passes p m (m.vel * p.dt) vm) := by
  refine .single ?_
  rintro vm ⟨hip, h⟩
  refine ⟨(vm.set regTstep (.f64 (m.vel * p.dt))).advanceIp, ?_, .of_signals hQ (Vm.set_signals ..), ?_,
    h.set _ (by decide) (by decide) (by decide) (by decide), ?_⟩
  · refine next_arith (f := HalValue.mul) (by rw [hip]; exact hcode.head) rfl (fun _ _ => rfl) (by decide) (by decide)
      (by decide) ?_
    rw [h.vel, h.dt]
    rfl
  · rw [Vm.advanceIp_ip, Vm.set_ip, hip]
  · exact get_written vm (by decide) _

/-- **A loop ends**: the counter is one less, and above zero it goes on from the start of the loop. -/
theorem loopEnd_leads {loopStart : UInt32} (hcode : CodeAt code b (loopEnd loopStart)) (hQ : ∀ x, Q x x) :
    Leads (next code) (Steps p Q) (fun vm => vm.ip = b ∧ Shows p m vm)
      (fun vm => vm.ip = (if gt (m.counter - ofNat 1) zero then loopStart.toNat else b + 3) ∧
        Shows p { m with counter := m.counter - ofNat 1 } vm) := by
  rintro vm ⟨hip, h⟩
  let vm₁ := (vm.set regCounter (.f64 (m.counter - ofNat 1))).advanceIp
  let vm₂ := (vm₁.setFlagsZero (gt (m.counter - ofNat 1) zero)).advanceIp
  have hip₁ : vm₁.ip = b + 1 := by
    show (vm.set _ _).ip + 1 = _
    rw [Vm.set_ip, hip]
  have hip₂ : vm₂.ip = b + 2 := by
    show vm₁.ip + 1 = _
    rw [hip₁]
  have hshows : Shows p { m with counter := m.counter - ofNat 1 } vm₁ := h.set_counter _
  have hs₁ : next code vm = some vm₁ := by
    refine next_arith (f := HalValue.sub) (by rw [hip]; exact hcode.head) rfl (fun _ _ => rfl) (by decide) (by decide)
      (by decide) ?_
    rw [h.counter, h.one]
    rfl
  have hs₂ : next code vm₁ = some vm₂ := by
    rw [next_cmp (f := HalValue.gt) (by rw [hip₁]; exact hcode.tail.head) rfl (fun _ _ => rfl) (by decide) (by decide),
      hshows.counter, hshows.zero]
    rfl
  have hjump : code[vm₂.ip]? = some (.jumpIf loopStart) := by
    rw [hip₂]
    exact hcode.tail.tail.head
  have hshows₂ : Shows p { m with counter := m.counter - ofNat 1 } vm₂ :=
    hshows.congr (fun _ => rfl) rfl
  by_cases hgo : gt (m.counter - ofNat 1) zero = true
  · refine ⟨3, vm₂.setIp loopStart.toNat, .step hs₁ (.of_signals hQ (Vm.set_signals ..)) (.step hs₂ (.of_signals hQ rfl)
      (.step (next_jumpIf_taken hjump hgo) (.of_signals hQ rfl) (.refl _))), ?_, ?_⟩
    · rw [if_pos hgo, Vm.setIp_ip]
    · exact hshows₂.congr (fun _ => rfl) rfl
  · refine ⟨3, vm₂.advanceIp, .step hs₁ (.of_signals hQ (Vm.set_signals ..)) (.step hs₂ (.of_signals hQ rfl)
      (.step (next_jumpIf_through hjump (Bool.eq_false_iff.2 hgo)) (.of_signals hQ rfl) (.refl _))), ?_, ?_⟩
    · rw [if_neg hgo, Vm.advanceIp_ip, hip₂]
    · exact hshows₂.congr (fun _ => rfl) rfl

omit [F64Math] in
/-- A constant is loaded. -/
theorem load_leads {v : Target.F64} (P P' : Vm → Prop) (hcode : CodeAt code b [loadF64 r v])
    (hQ : ∀ x, Q x x) (hr : r.toNat < registerCount) (hload : ∀ vm, P vm → P' (vm.set r (.f64 v)).advanceIp) :
    Leads (next code) (Steps p Q) (fun vm => vm.ip = b ∧ P vm) (fun vm => vm.ip = b + 1 ∧ P' vm) := by
  refine .single ?_
  rintro vm ⟨hip, h⟩
  refine ⟨_, next_loadImm (by rw [hip]; exact hcode.head) hr, .of_signals hQ (Vm.set_signals ..), ?_, hload vm h⟩
  rw [Vm.advanceIp_ip, Vm.set_ip, hip]

/-! ## Passes -/

/-- What a phase does to the velocity. -/
def changeCode (isAccel isDecel : Bool) : List Instruction :=
  if isAccel then [.arith .add regVel regVstep regVel]
  else if isDecel then [.arith .sub regVel regVstep regVel]
  else []

def Numbers.changed (isAccel isDecel : Bool) (m : Numbers) : Numbers :=
  { m with vel := if isAccel then m.vel + m.vstep else if isDecel then m.vel - m.vstep else m.vel }

theorem changeCode_leads {isAccel isDecel : Bool} (hcode : CodeAt code b (changeCode isAccel isDecel))
    (hQ : ∀ x, Q x x) : Leads (next code) (Steps p Q) (fun vm => vm.ip = b ∧ Shows p m vm)
      (fun vm => vm.ip = b + (changeCode isAccel isDecel).length ∧ Shows p (m.changed isAccel isDecel) vm) := by
  cases isAccel with
  | true =>
    refine .single ?_
    rintro vm ⟨hip, h⟩
    refine ⟨(vm.set regVel (.f64 (m.vel + m.vstep))).advanceIp, ?_, .of_signals hQ (Vm.set_signals ..), ?_, h.set_vel _⟩
    · refine next_arith (f := HalValue.add) (by rw [hip]; exact hcode.head) rfl (fun _ _ => rfl) (by decide) (by decide)
        (by decide) ?_
      rw [h.vel, h.vstep]
      rfl
    · rw [Vm.advanceIp_ip, Vm.set_ip, hip]
      rfl
  | false =>
    cases isDecel with
    | true =>
      refine .single ?_
      rintro vm ⟨hip, h⟩
      refine ⟨(vm.set regVel (.f64 (m.vel - m.vstep))).advanceIp, ?_, .of_signals hQ (Vm.set_signals ..), ?_,
        h.set_vel _⟩
      · refine next_arith (f := HalValue.sub) (by rw [hip]; exact hcode.head) rfl (fun _ _ => rfl) (by decide)
          (by decide) (by decide) ?_
        rw [h.vel, h.vstep]
        rfl
      · rw [Vm.advanceIp_ip, Vm.set_ip, hip]
        rfl
    | false => exact .of_imp fun vm h => h

/-- The numbers behind a pass. -/
def Numbers.pass (p : TrapezoidalProfile) (isAccel isDecel : Bool) (m : Numbers) : Numbers :=
  let m := (m.axes p (m.vel * p.dt)).changed isAccel isDecel
  { m with counter := m.counter - ofNat 1 }

/-- The code of a pass. -/
def passCode (p : TrapezoidalProfile) (isAccel isDecel : Bool) (loopStart : UInt32) : List Instruction :=
  [.arith .mul regVel regDt regTstep] ++ axisSteps p ++ changeCode isAccel isDecel ++ loopEnd loopStart

/-- **A pass**, and where it leads. -/
theorem pass_leads {isAccel isDecel : Bool} {loopStart : UInt32}
    (hcode : CodeAt code b (passCode p isAccel isDecel loopStart)) (hQ : ∀ x, Q x x)
    (hmove : ∀ x (k : Axis), k.driven p = true → Q x (Function.update x k (x k + m.vel * p.dt * k.ratio p))) :
    Leads (next code) (Steps p Q) (fun vm => vm.ip = b ∧ Shows p m vm)
      (fun vm => vm.ip = (if gt (m.pass p isAccel isDecel).counter zero then loopStart.toNat
          else b + (passCode p isAccel isDecel loopStart).length) ∧ Shows p (m.pass p isAccel isDecel) vm) := by
  unfold passCode at hcode
  have h₁ := tstep_leads (p := p) (m := m) hcode.left.left.left hQ
  have h₂ := axisSteps_leads (m := m) hcode.left.left.right hQ hmove
  have h₃ := changeCode_leads (p := p) (m := m.axes p (m.vel * p.dt)) hcode.left.right hQ
  have h₄ := loopEnd_leads (p := p) (m := (m.axes p (m.vel * p.dt)).changed isAccel isDecel) hcode.right hQ
  refine h₁.trans (.trans h₂ (.trans ?_ (.trans h₃ (.trans ?_ (.trans h₄ ?_)))))
  · refine .of_imp ?_
    rintro vm ⟨hip, h, _⟩
    refine ⟨?_, h.toShows⟩
    rw [hip, length_append, Nat.add_assoc]
  · refine .of_imp ?_
    rintro vm ⟨hip, h⟩
    refine ⟨?_, h⟩
    simp only [hip, length_append]
    omega
  · refine .of_imp ?_
    rintro vm ⟨hip, h⟩
    refine ⟨?_, h⟩
    rw [hip]
    refine if_congr Iff.rfl rfl ?_
    unfold passCode
    rw [@length_append _ _ (loopEnd loopStart)]
    rfl

/-! ## Phases -/

/-- The numbers that a phase starts with. -/
def phaseStart (p : TrapezoidalProfile) (n : UInt32) (isAccel : Bool) (pos : Axis → Target.F64) : Numbers :=
  { counter := ofNat n.toNat, vel := if isAccel then zero else p.vTarget, vstep := p.acceleration * p.dt, pos }

/-- What a phase adds to the `b` instructions before it. -/
def phaseCode (p : TrapezoidalProfile) (n : UInt32) (isAccel isDecel : Bool) (b : Nat) : List Instruction :=
  [loadF64 regVstep (p.acceleration * p.dt)] ++ [loadF64 regVel (if isAccel then zero else p.vTarget)] ++
    [loadF64 regCounter (ofNat n.toNat)] ++ passCode p isAccel isDecel (UInt32.ofNat (b + 3))

theorem emitProfilePhase_eq (is : List Instruction) (p : TrapezoidalProfile) {n : UInt32} (hn : n ≠ 0)
    (isAccel isDecel : Bool) :
    emitProfilePhase is p n isAccel isDecel = is ++ phaseCode p n isAccel isDecel is.length := by
  unfold emitProfilePhase phaseCode passCode changeCode
  rw [if_neg hn]
  simp only [List.append_assoc, length_append, cons_append, nil_append, length_cons, length_nil]

/-- The loads of a phase. -/
theorem phaseLoads_leads {n : UInt32} {isAccel : Bool} {pos : Axis → Target.F64} {l : List Instruction}
    (hcode : CodeAt code b ([loadF64 regVstep (p.acceleration * p.dt)] ++
      [loadF64 regVel (if isAccel then zero else p.vTarget)] ++ [loadF64 regCounter (ofNat n.toNat)] ++ l))
    (hQ : ∀ x, Q x x) : Leads (next code) (Steps p Q) (fun vm => vm.ip = b ∧ Ready p pos vm)
      (fun vm => vm.ip = b + 3 ∧ Shows p (phaseStart p n isAccel pos) vm) := by
  have h₁ := load_leads (p := p) (Ready p pos)
    (fun vm => Ready p pos vm ∧ vm.get regVstep = .f64 (p.acceleration * p.dt)) hcode.left.left.left hQ (by decide)
    (fun vm h => ⟨h.set _ (by decide), get_written vm (by decide) _⟩)
  have h₂ := load_leads (p := p)
    (fun vm => Ready p pos vm ∧ vm.get regVstep = .f64 (p.acceleration * p.dt))
    (fun vm => Ready p pos vm ∧ vm.get regVstep = .f64 (p.acceleration * p.dt) ∧
      vm.get regVel = .f64 (if isAccel then zero else p.vTarget)) hcode.left.left.right hQ (by decide)
    (fun vm h => ⟨h.1.set _ (by decide), (get_kept vm (by decide) _).trans h.2, get_written vm (by decide) _⟩)
  have h₃ := load_leads (p := p)
    (fun vm => Ready p pos vm ∧ vm.get regVstep = .f64 (p.acceleration * p.dt) ∧
      vm.get regVel = .f64 (if isAccel then zero else p.vTarget))
    (Shows p (phaseStart p n isAccel pos)) hcode.left.right hQ (by decide)
    (fun vm h => ⟨h.1.set _ (by decide), get_written vm (by decide) _, (get_kept vm (by decide) _).trans h.2.2,
      (get_kept vm (by decide) _).trans h.2.1⟩)
  exact h₁.trans (h₂.trans h₃)

end

/-! ## The start of a move -/

section
variable {p : TrapezoidalProfile} {Q : (Axis → Target.F64) → (Axis → Target.F64) → Prop} {code : List Instruction}
  {b : Nat}

/-- The constants are loaded and some of the axes, and nothing is published. -/
structure Starting (p : TrapezoidalProfile) (loaded : List Axis) (vm : Vm) : Prop where
  dt : vm.get regDt = .f64 p.dt
  zero : vm.get regZero = .f64 zero
  one : vm.get regOne = .f64 (ofNat 1)
  axes : ∀ k ∈ loaded, k.driven p = true → vm.get k.posReg = .f64 (k.start p)
  silent : vm.signals = fun _ => none

/-- Another register is loaded. -/
theorem Starting.set {loaded : List Axis} {vm : Vm} (h : Starting p loaded vm) (v : HalValue)
    (hr : r ∉ [regZero, regOne, regDt]) (hax : ∀ k ∈ loaded, k.posReg ≠ r) :
    Starting p loaded (vm.set r v).advanceIp := by
  have hne : ∀ r' ∈ [regZero, regOne, regDt], r' ≠ r := by
    rintro r' hr' rfl
    exact hr hr'
  refine ⟨?_, ?_, ?_, ?_, ?_⟩
  · exact (get_kept vm (hne _ (by decide)) _).trans h.dt
  · exact (get_kept vm (hne _ (by decide)) _).trans h.zero
  · exact (get_kept vm (hne _ (by decide)) _).trans h.one
  · intro k hk hdriven
    exact (get_kept vm (hax k hk) _).trans (h.axes k hk hdriven)
  · exact (Vm.set_signals ..).trans h.silent

/-- The start of an axis. -/
theorem Starting.set_axis {loaded : List Axis} {vm : Vm} (h : Starting p loaded vm) (k : Axis) (hk : k ∉ loaded) :
    Starting p (k :: loaded) (vm.set k.posReg (.f64 (k.start p))).advanceIp := by
  have hset : Starting p loaded (vm.set k.posReg (.f64 (k.start p))).advanceIp := by
    refine h.set _ (by cases k <;> decide) ?_
    rintro j hj heq
    exact hk (Axis.posReg_injective heq ▸ hj)
  refine ⟨hset.dt, hset.zero, hset.one, ?_, hset.silent⟩
  intro j hj hdriven
  rcases mem_cons.1 hj with rfl | hj
  · exact get_written vm j.posReg_valid _
  · exact hset.axes j hj hdriven

/-- All axes are loaded. -/
theorem Starting.ready {vm : Vm} (h : Starting p [.z, .y, .x] vm) : Ready p (fun k => k.start p) vm := by
  refine ⟨h.dt, h.zero, h.one, ?_, ?_⟩
  · intro k hk
    exact h.axes k (by cases k <;> decide) hk
  · intro k
    unfold position
    rw [h.silent]

/-- The code that loads the start of an axis. -/
def startCode (p : TrapezoidalProfile) (k : Axis) : List Instruction :=
  if k.driven p then [loadF64 k.posReg (k.start p)] else []

theorem loadStartYZ_eq (p : TrapezoidalProfile) : loadStartYZ p = startCode p .y ++ startCode p .z := rfl

theorem startCode_leads (loaded : List Axis) (k : Axis) (hcode : CodeAt code b (startCode p k)) (hQ : ∀ x, Q x x)
    (hk : k ∉ loaded) : Leads (next code) (Steps p Q) (fun vm => vm.ip = b ∧ Starting p loaded vm)
      (fun vm => vm.ip = b + (startCode p k).length ∧ Starting p (k :: loaded) vm) := by
  unfold startCode at hcode ⊢
  by_cases hdriven : k.driven p = true
  · rw [if_pos hdriven] at hcode ⊢
    exact load_leads _ _ hcode hQ k.posReg_valid fun vm h => h.set_axis k hk
  · rw [if_neg hdriven]
    refine .of_imp ?_
    rintro vm ⟨hip, h⟩
    refine ⟨hip, h.dt, h.zero, h.one, ?_, h.silent⟩
    intro j hj hjdriven
    rcases mem_cons.1 hj with rfl | hj
    · exact absurd hjdriven hdriven
    · exact h.axes j hj hjdriven

/-- The constants of a program, loaded on a machine that was reset. -/
def constantCode (p : TrapezoidalProfile) : List Instruction :=
  [loadF64 regDt p.dt, loadF64 regZero zero, loadF64 regOne (ofNat 1)]

theorem constantCode_leads (hcode : CodeAt code 0 (constantCode p)) (hQ : ∀ x, Q x x) (vm : Vm) :
    Leads (next code) (Steps p Q) (fun s => s = vm.reset) (fun s => s.ip = 3 ∧ Starting p [] s) := by
  rintro _ rfl
  let v₁ := (vm.reset.set regDt (.f64 p.dt)).advanceIp
  let v₂ := (v₁.set regZero (.f64 zero)).advanceIp
  let v₃ := (v₂.set regOne (.f64 (ofNat 1))).advanceIp
  have hs₁ : next code vm.reset = some v₁ := next_loadImm hcode.head (by decide)
  have hs₂ : next code v₁ = some v₂ := by
    refine next_loadImm ?_ (by decide)
    rw [Vm.advanceIp_ip, Vm.set_ip]
    exact hcode.tail.head
  have hs₃ : next code v₂ = some v₃ := by
    refine next_loadImm ?_ (by decide)
    rw [Vm.advanceIp_ip, Vm.set_ip, Vm.advanceIp_ip, Vm.set_ip]
    exact hcode.tail.tail.head
  have hsig₁ : v₁.signals = vm.reset.signals := Vm.set_signals ..
  have hsig₂ : v₂.signals = v₁.signals := Vm.set_signals ..
  have hsig₃ : v₃.signals = v₂.signals := Vm.set_signals ..
  refine ⟨3, v₃, .step hs₁ (.of_signals hQ hsig₁) (.step hs₂ (.of_signals hQ hsig₂)
    (.step hs₃ (.of_signals hQ hsig₃) (.refl _))), ?_, ?_, ?_, ?_, ?_, ?_⟩
  · rw [Vm.advanceIp_ip, Vm.set_ip, Vm.advanceIp_ip, Vm.set_ip, Vm.advanceIp_ip, Vm.set_ip]
    rfl
  · exact (get_kept v₂ (by decide) _).trans ((get_kept v₁ (by decide) _).trans (get_written _ (by decide) _))
  · exact (get_kept v₂ (by decide) _).trans (get_written _ (by decide) _)
  · exact get_written _ (by decide) _
  · intro k hk
    cases hk
  · exact hsig₃.trans (hsig₂.trans hsig₁)

/-- What stands before the phases. -/
def startAll (p : TrapezoidalProfile) : List Instruction :=
  constantCode p ++ startCode p .x ++ startCode p .y ++ startCode p .z

/-- **A move starts** with its axes at their starts. -/
theorem startAll_leads (hcode : CodeAt code 0 (startAll p)) (hQ : ∀ x, Q x x) (vm : Vm) :
    Leads (next code) (Steps p Q) (fun s => s = vm.reset)
      (fun s => s.ip = (startAll p).length ∧ Ready p (fun k => k.start p) s) := by
  have h₀ := constantCode_leads hcode.left.left.left hQ vm
  have hx := startCode_leads [] .x hcode.left.left.right hQ (by decide)
  have hy := startCode_leads [.x] .y hcode.left.right hQ (by decide)
  have hz := startCode_leads [.y, .x] .z hcode.right hQ (by decide)
  refine h₀.trans (.trans (.trans ?_ hx) (.trans ?_ (.trans hy (.trans ?_ (.trans hz ?_)))))
  · exact .of_imp fun s h => h
  · refine .of_imp ?_
    rintro s ⟨hip, h⟩
    refine ⟨?_, h⟩
    rw [hip, length_append, ← Nat.add_assoc]
  · refine .of_imp ?_
    rintro s ⟨hip, h⟩
    refine ⟨?_, h⟩
    rw [hip, @length_append _ _ (startCode p .y), ← Nat.add_assoc]
  · refine .of_imp ?_
    rintro s ⟨hip, h⟩
    refine ⟨?_, h.ready⟩
    unfold startAll
    rw [hip, @length_append _ _ (startCode p .z), Nat.zero_add]

end

end Audesys.Cnc.Motion
