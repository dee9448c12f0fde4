import Audesys.Hal.Host
import Audesys.Hal.Steps

/-!
# `Hal.Timers` — on-delay, off-delay and pulse timers over scan histories

A timer is run once per scan, and between two runs the engine resets the machine. What survives the reset is
the timer table, and every other instruction leaves the entry alone (`Kept`), so the state of a timer is a
fold over its inputs (`timerHistory_core`). The closed forms are by induction on the history, newest scan
first: how often `IN` has been on, or off, in a row.
-/

namespace Audesys.Hal

open Audesys.Lib

variable [Target]

/-! ## Scans -/

instance (inst : Instruction) (op : Opcode) (i : UInt32) : Decidable (inst.runs op i) :=
  inferInstanceAs (Decidable (_ ∧ _))

/-- A step that goes on and does not run the function block. -/
def quiet (code : List Instruction) (op : Opcode) (i : UInt32) (vm : Vm) : Option Vm :=
  match code[vm.ip]? with
  | some inst => if inst.runs op i then none else next code vm
  | none => none

/-- **One scan** of timer `i` with the given input: the reset, the cycle time and the signals, then a run that
    executes one `TimerRun` of this timer. The scan ends with the halting instruction, or short of it at a
    breakpoint. -/
inductive TimerScan (i : UInt32) (kind : TimerKind) (pt c : UInt64) (vm : Vm) : Bool → Vm → Prop
  | mk {code : List Instruction} {signals : String → Option HalValue} {n m : Nat} {before after last vm' : Vm}
      {r : UInt8} {op2 : Operand} {rest : List Operand} {v : HalValue}
      (hbefore : RunN (quiet code .timerRun i) n ((scanStart vm signals).setCycleTime c) before)
      (hinst : code[before.ip]? = some ⟨.timerRun, .immediate (.u32 i) :: .register r :: op2 :: rest⟩)
      (hkind : Exec.timerKindOf rest.head? = kind) (hpt : presetOf op2 = some pt)
      (hin : before.readRegister r = some v) (hrun : next code before = some after)
      (hafter : RunN (quiet code .timerRun i) m after last)
      (hend : vm' = last ∨ last.step code = some (vm', .halted)) :
      TimerScan i kind pt c vm (v.beq (.bool true)) vm'

/-- The inputs of the scans of a timer so far, newest first. -/
inductive TimerHistory (i : UInt32) (kind : TimerKind) (pt c : UInt64) : List Bool → Vm → Prop
  | start {vm : Vm} : vm.timerCore i = .fresh → TimerHistory i kind pt c [] vm
  | scan {hist : List Bool} {vm vm' : Vm} {b : Bool} :
      TimerHistory i kind pt c hist vm → TimerScan i kind pt c vm b vm' → TimerHistory i kind pt c (b :: hist) vm'

/-! ## The state as a fold -/

/-- `tickTimer` on the part of the state that it reads. -/
def TimerCore.tick (t : TimerCore) (kind : TimerKind) (pt : UInt64) (b : Bool) (c : UInt64) : TimerCore :=
  (Exec.tickTimer ⟨kind, t.inVal, t.elapsedMs, t.q, pt⟩ kind pt b c).core

/-- The state after a history. -/
def coreAfter (kind : TimerKind) (pt c : UInt64) : List Bool → TimerCore
  | [] => .fresh
  | b :: hist => (coreAfter kind pt c hist).tick kind pt b c

omit [Target] in
theorem tickTimer_core (t : TimerState) (kind : TimerKind) (pt : UInt64) (b : Bool) (c : UInt64) :
    (Exec.tickTimer t kind pt b c).core = t.core.tick kind pt b c := by
  obtain ⟨kind', inVal, elapsed, q, preset⟩ := t
  cases kind <;> rfl

section
variable {code : List Instruction} {vm vm' : Vm} {op : Opcode} {i : UInt32}

theorem quiet_eq (h : quiet code op i vm = some vm') :
    next code vm = some vm' ∧ ∃ inst, code[vm.ip]? = some inst ∧ ¬ inst.runs op i := by
  unfold quiet at h
  split at h
  · rename_i inst hinst
    split at h
    · cases h
    · rename_i hruns
      exact ⟨h, inst, hinst, hruns⟩
  · cases h

/-- Quiet steps keep the cycle time and the timer. -/
theorem quiet_timer {n : Nat} (h : RunN (quiet code .timerRun i) n vm vm') :
    vm'.cycleTimeMs = vm.cycleTimeMs ∧ vm'.timerCore i = vm.timerCore i := by
  have hstep : ∀ s t, quiet code .timerRun i s = some t →
      s.cycleTimeMs = vm.cycleTimeMs ∧ s.timerCore i = vm.timerCore i →
      t.cycleTimeMs = vm.cycleTimeMs ∧ t.timerCore i = vm.timerCore i := by
    intro s t hs ⟨hcycle, htimer⟩
    obtain ⟨hnext, inst, hinst, hruns⟩ := quiet_eq hs
    have heffect := next_effect hinst hnext
    exact ⟨heffect.cycleTimeMs.trans hcycle, (heffect.timers i hruns).trans htimer⟩
  exact h.invariant hstep ⟨rfl, rfl⟩

/-- **One run of the timer.** -/
theorem timerCore_run {r : UInt8} {op2 : Operand} {rest : List Operand} {pt : UInt64} {v : HalValue}
    (hinst : code[vm.ip]? = some ⟨.timerRun, .immediate (.u32 i) :: .register r :: op2 :: rest⟩)
    (hpt : presetOf op2 = some pt) (hin : vm.readRegister r = some v) (hrun : next code vm = some vm') :
    vm'.timerCore i =
      (vm.timerCore i).tick (Exec.timerKindOf rest.head?) pt (v.beq (.bool true)) vm.cycleTimeMs := by
  rw [next_plain hinst rfl] at hrun
  obtain ⟨u, hu, rfl⟩ := Option.map_eq_some_iff.1 hrun
  have hexec : Exec.execTimerRun vm (.immediate (.u32 i) :: .register r :: op2 :: rest) = some u := hu
  rw [execTimerRun_eq, hpt] at hexec
  have hgrown := getElem?_grow_self vm.timers i.toNat (Vm.freshTimer (Exec.timerKindOf rest.head?))
  simp [hin, growTimers, hgrown] at hexec
  rw [← hexec]
  show Option.getD (Option.map TimerState.core ((List.set _ i.toNat _)[i.toNat]?)) .fresh = _
  rw [List.getElem?_set_self (length_grow _ _ _), Option.map_some, Option.getD_some, tickTimer_core]
  -- a timer that was not in the table yet is a fresh one
  have hcore : TimerState.core ((vm.timers[i.toNat]?).getD (Vm.freshTimer (Exec.timerKindOf rest.head?))) =
      vm.timerCore i := by
    unfold Vm.timerCore
    cases vm.timers[i.toNat]? <;> rfl
  rw [hcore]

/-- A halting instruction keeps the timers. -/
theorem timerCore_halt (h : vm.step code = some (vm', .halted)) : vm'.timerCore i = vm.timerCore i := by
  obtain ⟨inst, _, heffect⟩ := step_effect h
  refine heffect.timers i ?_
  rintro ⟨hop, _⟩
  rcases heffect.ends.1 rfl with hhalt | ⟨hret, _⟩
  · rw [hop] at hhalt
    cases hhalt
  · rw [hop] at hret
    cases hret

end

section
variable {i : UInt32} {kind : TimerKind} {pt c : UInt64} {vm vm' : Vm} {b : Bool} {hist : List Bool}

/-- **A scan** ticks the timer once. -/
theorem timerScan_core (h : TimerScan i kind pt c vm b vm') :
    vm'.timerCore i = (vm.timerCore i).tick kind pt b c := by
  obtain ⟨hbefore, hinst, rfl, hpt, hin, hrun, hafter, hend⟩ := h
  rename_i last _ _ _ _
  obtain ⟨hcycle, hcore⟩ := quiet_timer hbefore
  have hlast : vm'.timerCore i = last.timerCore i := by
    rcases hend with rfl | hhalt
    · rfl
    · exact timerCore_halt hhalt
  -- neither the reset nor the cycle time touches the table
  have hstart : ∀ signals, ((scanStart vm signals).setCycleTime c).timerCore i = vm.timerCore i := fun _ => rfl
  have hset : ∀ signals, ((scanStart vm signals).setCycleTime c).cycleTimeMs = c := fun _ => rfl
  rw [hlast, (quiet_timer hafter).2, timerCore_run hinst hpt hin hrun, hcore, hcycle, hstart, hset]

theorem timerHistory_core (h : TimerHistory i kind pt c hist vm) : vm.timerCore i = coreAfter kind pt c hist := by
  induction h with
  | start hfresh => exact hfresh
  | scan _ hscan ih => rw [timerScan_core hscan, ih, coreAfter]

end

/-! ## Closed forms -/

/-- How often `b` was the input in a row, up to now. -/
def trailing (b : Bool) (hist : List Bool) : Nat := (hist.takeWhile (· == b)).length

section
omit [Target]

@[simp] theorem trailing_cons_self (b : Bool) (hist : List Bool) : trailing b (b :: hist) = trailing b hist + 1 := by
  simp [trailing]

theorem trailing_cons_ne {a b : Bool} (h : a ≠ b) (hist : List Bool) : trailing b (a :: hist) = 0 := by
  simp [trailing, h]

theorem le_satAdd (pt a c : UInt64) : pt ≤ Exec.satAdd a c ↔ pt.toNat ≤ a.toNat + c.toNat := by
  have hpt := pt.toNat_lt
  unfold Exec.satAdd
  split
  · rename_i hlt
    rw [UInt64.le_iff_toNat_le, UInt64.toNat_add, Nat.mod_eq_of_lt hlt]
  · rename_i hge
    rw [UInt64.le_iff_toNat_le]
    have hmax : (UInt64.ofNat (2 ^ 64 - 1)).toNat = 2 ^ 64 - 1 := by decide
    rw [hmax]
    omega

/-- Below a preset the sum is exact. -/
theorem satAdd_toNat {pt a c : UInt64} (h : ¬ pt ≤ Exec.satAdd a c) :
    (Exec.satAdd a c).toNat = a.toNat + c.toNat := by
  rw [le_satAdd] at h
  have hpt := pt.toNat_lt
  have hlt : a.toNat + c.toNat < 2 ^ 64 := by omega
  unfold Exec.satAdd
  rw [if_pos hlt, UInt64.toNat_add, Nat.mod_eq_of_lt hlt]

end

section
variable (t : TimerCore) (pt c : UInt64)

omit [Target]

/-- The three ticks, branch by branch. -/
theorem tick_ton_off : t.tick .ton pt false c = ⟨false, 0, false⟩ := rfl

theorem tick_ton_on : t.tick .ton pt true c =
    if pt ≤ t.elapsedMs then ⟨true, t.elapsedMs, true⟩
    else if pt ≤ Exec.satAdd t.elapsedMs c then ⟨true, pt, true⟩
    else ⟨true, Exec.satAdd t.elapsedMs c, t.q⟩ := by
  unfold TimerCore.tick Exec.tickTimer
  simp only [Bool.not_true, Bool.false_eq_true, if_false]
  split
  · rfl
  · split <;> rfl

theorem tick_tof_on : t.tick .tof pt true c = ⟨true, 0, true⟩ := rfl

theorem tick_tof_off : t.tick .tof pt false c =
    if t.q then
      if pt ≤ Exec.satAdd t.elapsedMs c then ⟨false, pt, false⟩ else ⟨false, Exec.satAdd t.elapsedMs c, true⟩
    else ⟨false, t.elapsedMs, false⟩ := by
  obtain ⟨inVal, elapsed, q⟩ := t
  unfold TimerCore.tick Exec.tickTimer
  cases q with
  | false => rfl
  | true =>
    simp only [Bool.false_eq_true, if_false, if_true]
    split <;> rfl

theorem tick_tp_off : t.tick .tp pt false c =
    if t.q then ⟨false, if pt ≤ Exec.satAdd t.elapsedMs c then pt else Exec.satAdd t.elapsedMs c, false⟩
    else ⟨false, t.elapsedMs, false⟩ := by
  obtain ⟨inVal, elapsed, q⟩ := t
  unfold TimerCore.tick Exec.tickTimer
  cases q with
  | false => rfl
  | true =>
    simp
    split <;> rfl

/-- A pulse starts at a rising edge, from zero; the scan of the edge counts. -/
theorem tick_tp_on : t.tick .tp pt true c =
    if t.inVal = false ∨ t.q = true then
      if pt ≤ Exec.satAdd (if t.inVal then t.elapsedMs else 0) c then ⟨true, pt, false⟩
      else ⟨true, Exec.satAdd (if t.inVal then t.elapsedMs else 0) c, true⟩
    else ⟨true, t.elapsedMs, false⟩ := by
  obtain ⟨inVal, elapsed, q⟩ := t
  unfold TimerCore.tick Exec.tickTimer
  cases inVal with
  | false =>
    simp
    split <;> rfl
  | true =>
    cases q with
    | false => rfl
    | true =>
      simp
      split <;> rfl

end

section
omit [Target]

/-- An on-delay timer counts the cycles in which its input has been on. -/
theorem coreAfter_ton (pt c : UInt64) (hist : List Bool) :
    ((coreAfter .ton pt c hist).q = true ↔
      1 ≤ trailing true hist ∧ pt.toNat ≤ trailing true hist * c.toNat) ∧
    (coreAfter .ton pt c hist).elapsedMs.toNat = min (trailing true hist * c.toNat) pt.toNat := by
  induction hist with
  | nil => simp [coreAfter, TimerCore.fresh, trailing]
  | cons b hist ih =>
    obtain ⟨hq, het⟩ := ih
    cases b with
    | false =>
      rw [coreAfter, tick_ton_off, trailing_cons_ne (by decide)]
      simp
    | true =>
      rw [coreAfter, tick_ton_on, trailing_cons_self, Nat.add_mul, Nat.one_mul]
      split
      · -- the preset was reached before
        rename_i hreached
        rw [UInt64.le_iff_toNat_le, het] at hreached
        exact ⟨⟨fun _ => ⟨by omega, by omega⟩, fun _ => rfl⟩, by simp only [het]; omega⟩
      · rename_i hbelow
        rw [UInt64.le_iff_toNat_le, het] at hbelow
        split
        · -- it is reached in this scan
          rename_i hnow
          rw [le_satAdd, het] at hnow
          exact ⟨⟨fun _ => ⟨by omega, by omega⟩, fun _ => rfl⟩, by simp only; omega⟩
        · rename_i hnot
          have hsum := satAdd_toNat hnot
          rw [le_satAdd, het] at hnot
          refine ⟨?_, by simp only [hsum, het]; omega⟩
          rw [hq]
          constructor
          · intro h
            omega
          · intro h
            omega

/-- An off-delay timer stays on while its input has been off for less than the preset. -/
theorem coreAfter_tof (pt c : UInt64) (hist : List Bool) :
    ((coreAfter .tof pt c hist).q = true ↔
      (true ∈ hist ∧ trailing false hist * c.toNat < pt.toNat) ∨ hist.head? = some true) ∧
    ((coreAfter .tof pt c hist).q = true →
      (coreAfter .tof pt c hist).elapsedMs.toNat = trailing false hist * c.toNat) := by
  induction hist with
  | nil => simp [coreAfter, TimerCore.fresh]
  | cons b hist ih =>
    obtain ⟨hq, het⟩ := ih
    cases b with
    | true =>
      rw [coreAfter, tick_tof_on, trailing_cons_ne (by decide)]
      simp
    | false =>
      rw [coreAfter, tick_tof_off, trailing_cons_self, Nat.add_mul, Nat.one_mul]
      have hmem : true ∈ false :: hist ↔ true ∈ hist := by simp
      have hhead : (false :: hist).head? ≠ some true := by simp
      rw [hmem, or_iff_left hhead]
      split
      · -- the output was on: time runs
        rename_i hon
        have hbefore : true ∈ hist := by
          rcases hq.1 hon with ⟨h, _⟩ | h
          · exact h
          · exact List.mem_of_mem_head? h
        split
        · rename_i hnow
          rw [le_satAdd, het hon] at hnow
          exact ⟨⟨fun h => by simp at h, fun h => by omega⟩, fun h => by simp at h⟩
        · rename_i hnot
          have hsum := satAdd_toNat hnot
          rw [le_satAdd, het hon] at hnot
          exact ⟨⟨fun _ => ⟨hbefore, by omega⟩, fun _ => rfl⟩, fun _ => by rw [hsum, het hon]⟩
      · -- it was off already, and stays off
        rename_i hoff
        rw [hq] at hoff
        refine ⟨⟨fun h => by simp at h, ?_⟩, fun h => by simp at h⟩
        rintro ⟨hbefore, hlt⟩
        exact absurd (.inl ⟨hbefore, by omega⟩) hoff

/-- A pulse timer is on while its input has been on for less than the preset. -/
theorem coreAfter_tp (pt c : UInt64) (hist : List Bool) :
    ((coreAfter .tp pt c hist).q = true ↔
      1 ≤ trailing true hist ∧ trailing true hist * c.toNat < pt.toNat) ∧
    ((coreAfter .tp pt c hist).q = true →
      (coreAfter .tp pt c hist).elapsedMs.toNat = trailing true hist * c.toNat) ∧
    ((coreAfter .tp pt c hist).inVal = true ↔ 1 ≤ trailing true hist) := by
  induction hist with
  | nil => simp [coreAfter, TimerCore.fresh, trailing]
  | cons b hist ih =>
    obtain ⟨hq, het, hin⟩ := ih
    cases b with
    | false =>
      rw [coreAfter, tick_tp_off, trailing_cons_ne (by decide)]
      split <;> simp
    | true =>
      rw [coreAfter, tick_tp_on, trailing_cons_self, Nat.add_mul, Nat.one_mul]
      split
      · rename_i hpulse
        -- the time counted before this scan
        have hcount : (if (coreAfter .tp pt c hist).inVal then (coreAfter .tp pt c hist).elapsedMs else 0).toNat =
            trailing true hist * c.toNat := by
          split
          · rename_i hprev
            rw [hprev] at hpulse
            exact het (by simpa using hpulse)
          · rename_i hprev
            rw [hin] at hprev
            have hzero : trailing true hist = 0 := by omega
            rw [hzero, Nat.zero_mul]
            rfl
        generalize (if (coreAfter .tp pt c hist).inVal then (coreAfter .tp pt c hist).elapsedMs else 0) = e
          at hcount ⊢
        split
        · rename_i hnow
          rw [le_satAdd, hcount] at hnow
          exact ⟨⟨fun h => by simp at h, fun h => by omega⟩, fun h => by simp at h, by simp⟩
        · rename_i hnot
          have hsum := satAdd_toNat hnot
          rw [le_satAdd, hcount] at hnot
          exact ⟨⟨fun _ => ⟨by omega, by omega⟩, fun _ => rfl⟩, fun _ => by rw [hsum, hcount], by simp⟩
      · -- the pulse is over while the input is still on
        rename_i hover
        simp only [not_or, Bool.not_eq_false, hin, hq] at hover
        exact ⟨⟨fun h => by simp at h, fun h => by omega⟩, fun h => by simp at h, by simp⟩

end

/-! ## Timers over scan histories -/

section
variable {i : UInt32} {kind : TimerKind} {pt c : UInt64} {vm : Vm} {hist : List Bool}

/-- **On-delay and off-delay timers** over every history of scans. -/
theorem delay_timer_history (h : TimerHistory i kind pt c hist vm) :
    (kind = .ton →
      ((vm.timerCore i).q = true ↔ 1 ≤ trailing true hist ∧ pt.toNat ≤ trailing true hist * c.toNat) ∧
      (vm.timerCore i).elapsedMs.toNat = min (trailing true hist * c.toNat) pt.toNat) ∧
    (kind = .tof →
      ((vm.timerCore i).q = true ↔
        (true ∈ hist ∧ trailing false hist * c.toNat < pt.toNat) ∨ hist.head? = some true)) := by
  rw [timerHistory_core h]
  constructor
  · rintro rfl
    exact coreAfter_ton pt c hist
  · rintro rfl
    exact (coreAfter_tof pt c hist).1

/-- **Pulse timers** over every history of scans. -/
theorem pulse_timer_history (h : TimerHistory i .tp pt c hist vm) :
    ((vm.timerCore i).q = true ↔ 1 ≤ trailing true hist ∧ trailing true hist * c.toNat < pt.toNat) ∧
    ((vm.timerCore i).q = true → (vm.timerCore i).elapsedMs.toNat = trailing true hist * c.toNat) := by
  rw [timerHistory_core h]
  obtain ⟨hq, het, _⟩ := coreAfter_tp pt c hist
  exact ⟨hq, het⟩

end

end Audesys.Hal

/-! ## Two scans -/

namespace Audesys.Hal

open Audesys.Lib

local instance releaseTimers : Target := host false

/-- Load the input and run timer 0. -/
def timing (pt : UInt32) (kind : UInt8) : List Instruction :=
  [⟨.load, [.register 0, .signalName "in"]⟩, .timerRun 0 0 pt kind, .halt]

def timingStart (vm : Vm) (b : Bool) : Vm := (scanStart vm fun _ => some (.bool b)).setCycleTime 100

/-- The state after a scan of `timing` with cycle time 100. -/
def scanned (pt : UInt32) (kind : UInt8) (b : Bool) (vm : Vm) : Vm :=
  (((next (timing pt kind) (timingStart vm b)).bind (next (timing pt kind))).getD vm).advanceIp

theorem timing_scan (pt : UInt32) (kind : UInt8) (k : TimerKind) (b : Bool) (vm : Vm)
    (hkind : Exec.timerKindOf (some (.immediate (.u32 kind.toUInt32))) = k)
    (h : ((next (timing pt kind) (timingStart vm b)).bind (next (timing pt kind))).isSome) :
    TimerScan 0 k (UInt64.ofNat pt.toNat) 100 vm b (scanned pt kind b vm) := by
  obtain ⟨u, hu⟩ := Option.isSome_iff_exists.1 h
  have hscanned : scanned pt kind b vm = u.advanceIp := by
    unfold scanned
    rw [hu, Option.getD_some]
  -- the load leaves a machine at the `TimerRun`
  obtain ⟨before, hload, hrun⟩ := Option.bind_eq_some_iff.1 hu
  have hload' : before = ((timingStart vm b).set 0 (.bool b)).advanceIp := Option.some.inj (hload.symm.trans rfl)
  subst hload'
  have hinst : (timing pt kind)[((timingStart vm b).set 0 (.bool b)).advanceIp.ip]? =
      some (.timerRun 0 0 pt kind) := rfl
  have hip : u.ip = 2 := (next_effect hinst hrun).ip
  have hhalt : u.step (timing pt kind) = some (u.advanceIp, .halted) := step_halt (by rw [hip]; rfl)
  have hin : HalValue.beq (.bool b) (.bool true) = b := by cases b <;> rfl
  rw [hscanned, ← hin]
  exact @TimerScan.mk _ 0 k _ 100 vm (timing pt kind) (fun _ => some (.bool b)) 1 0 _ u u _ 0
    (.immediate (.u32 pt)) _ (.bool b) (.single rfl) rfl hkind rfl rfl hrun (.refl _) (.inr hhalt)

theorem ton_twice : TimerHistory 0 .ton 200 100 [true, true] (scanned 200 0 true (scanned 200 0 true Vm.new)) :=
  .scan (.scan (.start rfl) (timing_scan 200 0 .ton true _ rfl rfl)) (timing_scan 200 0 .ton true _ rfl rfl)

/-- Two scans of 100 ms reach a preset of 200 ms. -/
theorem ton_reaches_preset :
    ((scanned 200 0 true (scanned 200 0 true Vm.new)).timerCore 0).q = true ∧
    ((scanned 200 0 true (scanned 200 0 true Vm.new)).timerCore 0).elapsedMs.toNat = 200 := by
  obtain ⟨hq, het⟩ := (delay_timer_history ton_twice).1 rfl
  exact ⟨hq.2 (by decide), het⟩

/-- No pulse of fixed length: at the second scan, 200 ms of 500 ms after the edge, the input has fallen and
    the output is off. -/
theorem tp_pulse_not_fixed :
    ¬ ∀ (older later : List Bool) (vm : Vm), TimerHistory 0 .tp 500 100 (later ++ true :: older) vm →
      older.head? ≠ some true → (coreAfter .tp 500 100 older).q = false → (later.length + 1) * 100 < 500 →
        (vm.timerCore 0).q = true := by
  intro h
  have hfirst : TimerHistory 0 .tp 500 100 [true] (scanned 500 2 true Vm.new) :=
    .scan (.start rfl) (timing_scan 500 2 .tp true _ rfl rfl)
  have hcut : TimerHistory 0 .tp 500 100 [false, true] (scanned 500 2 false (scanned 500 2 true Vm.new)) :=
    .scan hfirst (timing_scan 500 2 .tp false _ rfl rfl)
  have hon := h [] [false] _ hcut (by decide) rfl (by decide)
  rw [timerHistory_core hcut] at hon
  exact absurd hon (by decide)

/-- Two scans with the input on: 200 ms of the pulse have passed. -/
theorem tp_pulse_runs :
    ((scanned 500 2 true (scanned 500 2 true Vm.new)).timerCore 0).q = true ∧
    ((scanned 500 2 true (scanned 500 2 true Vm.new)).timerCore 0).elapsedMs.toNat = 200 := by
  have hfirst : TimerHistory 0 .tp 500 100 [true] (scanned 500 2 true Vm.new) :=
    .scan (.start rfl) (timing_scan 500 2 .tp true _ rfl rfl)
  have htwice : TimerHistory 0 .tp 500 100 [true, true] (scanned 500 2 true (scanned 500 2 true Vm.new)) :=
    .scan hfirst (timing_scan 500 2 .tp true _ rfl rfl)
  obtain ⟨hq, het⟩ := pulse_timer_history htwice
  have hon := hq.2 (by decide)
  exact ⟨hon, het hon⟩

end Audesys.Hal
