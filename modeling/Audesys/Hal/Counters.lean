import Audesys.Hal.Host
import Audesys.Hal.Steps

/-!
# `Hal.Counters` — up and up-down counters over execution histories

A counter keeps the inputs of its last execution to see rising edges. Over any history of executions with one
kind and preset, with resets and other instructions in between, its value is a fold over the inputs; for an
up counter that is the number of rising edges, cut off at the preset. The value never passes the preset, so
the `u32` addition in front of the cut-off does not overflow.
-/

namespace Audesys.Hal

open Audesys.Lib

variable [Target]

/-! ## Histories -/

/-- The inputs `(CU, CD)` of the executions of counter `i` so far, newest first. -/
inductive CounterHistory (i : UInt32) (kind : CounterKind) (pv : UInt32) : List (Bool × Bool) → Vm → Prop
  | start {vm : Vm} : vm.counterAt i = Vm.freshCounter .ctu → CounterHistory i kind pv [] vm
  | reset {hist : List (Bool × Bool)} {vm : Vm} :
      CounterHistory i kind pv hist vm → CounterHistory i kind pv hist vm.reset
  | setCycleTime {hist : List (Bool × Bool)} {vm : Vm} (ms : UInt64) :
      CounterHistory i kind pv hist vm → CounterHistory i kind pv hist (vm.setCycleTime ms)
  | writeSignal {hist : List (Bool × Bool)} {vm : Vm} (name : String) (v : HalValue) :
      CounterHistory i kind pv hist vm → CounterHistory i kind pv hist (vm.writeSignal name v)
  | other {hist : List (Bool × Bool)} {vm vm' : Vm} {code : List Instruction} {inst : Instruction}
      {result : ExecutorResult} : CounterHistory i kind pv hist vm → code[vm.ip]? = some inst →
      ¬ inst.runs .counterRun i → vm.step code = some (vm', result) → CounterHistory i kind pv hist vm'
  | run {hist : List (Bool × Bool)} {vm vm' : Vm} {code : List Instruction} {cuReg cdReg : UInt8} {op4 : Operand}
      {rest : List Operand} {cu cd : Bool} {result : ExecutorResult} : CounterHistory i kind pv hist vm →
      code[vm.ip]? = some ⟨.counterRun, .immediate (.u32 i) :: .register cuReg :: .register cdReg ::
        .immediate (.u32 pv) :: op4 :: rest⟩ →
      Exec.counterKindOf op4 = kind → Exec.readBool vm cuReg = some cu → Exec.readBool vm cdReg = some cd →
      vm.step code = some (vm', result) → CounterHistory i kind pv ((cu, cd) :: hist) vm'

/-! ## Counting -/

/-- `b` comes after a history whose newest input was off, or before any. -/
def rises (b : Bool) (hist : List Bool) : Bool := b && !hist.headD false

def risingEdges : List Bool → Nat
  | [] => 0
  | b :: hist => if rises b hist then risingEdges hist + 1 else risingEdges hist

/-- Count up, at most to the preset, on an edge. -/
def countUp (pv : Nat) (edge : Bool) (n : Nat) : Nat := if edge then min (n + 1) pv else n

/-- Count down, at least to zero, on an edge. -/
def countDown (edge : Bool) (n : Nat) : Nat := if edge then n - 1 else n

/-- The value after a history, for each kind. -/
def counted (kind : CounterKind) (pv : Nat) : List (Bool × Bool) → Nat
  | [] => 0
  | (cu, cd) :: hist =>
    match kind with
    | .ctu => countUp pv (rises cu (hist.map Prod.fst)) (counted .ctu pv hist)
    | .ctd => countDown (rises cd (hist.map Prod.snd)) (counted .ctd pv hist)
    | .ctud => countDown (rises cd (hist.map Prod.snd))
        (countUp pv (rises cu (hist.map Prod.fst)) (counted .ctud pv hist))

section
omit [Target]

theorem countUp_le {pv n : Nat} (edge : Bool) (h : n ≤ pv) : countUp pv edge n ≤ pv := by
  unfold countUp
  split <;> omega

theorem countDown_le (edge : Bool) (n : Nat) : countDown edge n ≤ n := by
  unfold countDown
  split <;> omega

theorem counted_le (kind : CounterKind) (pv : Nat) (hist : List (Bool × Bool)) : counted kind pv hist ≤ pv := by
  induction hist with
  | nil => exact Nat.zero_le pv
  | cons p hist ih =>
    obtain ⟨cu, cd⟩ := p
    cases kind with
    | ctu => exact countUp_le _ ih
    | ctd => exact (countDown_le _ _).trans ih
    | ctud => exact (countDown_le _ _).trans (countUp_le _ ih)

/-- An up counter counts the rising edges. -/
theorem counted_ctu (pv : Nat) (hist : List (Bool × Bool)) :
    counted .ctu pv hist = min (risingEdges (hist.map Prod.fst)) pv := by
  induction hist with
  | nil => simp [counted, risingEdges]
  | cons p hist ih =>
    obtain ⟨cu, cd⟩ := p
    simp only [counted, countUp, List.map_cons, risingEdges, ih]
    split <;> omega

end

/-! ## One execution -/

/-- `(cv + 1).min(pv)`, which does not overflow below the largest preset. -/
theorem add_one_min {cv pv : UInt32} (hcv : cv.toNat ≤ pv.toNat) (hpv : pv.toNat < 2 ^ 32 - 1) :
    ∃ n : UInt32, MachineInt.add cv 1 = some n ∧ (min n pv).toNat = min (cv.toNat + 1) pv.toNat := by
  have hrange : MachineInt.InRange UInt32 ((cv.toNat : Int) + 1) := by
    constructor
    · show (0 : Int) ≤ _
      omega
    · show (cv.toNat : Int) + 1 ≤ 2 ^ 32 - 1
      omega
  refine ⟨_, MachineInt.checked_of_inRange hrange, ?_⟩
  have hsucc : (UInt32.ofInt ((cv.toNat : Int) + 1)).toNat = cv.toNat + 1 := by
    have hmod : (((cv.toNat : Int) + 1) % 2 ^ 32).toNat = cv.toNat + 1 := by omega
    rw [UInt32.ofInt, hmod, UInt32.toNat_ofNat_of_lt' (by show cv.toNat + 1 < 2 ^ 32; omega)]
  show (if UInt32.ofInt ((cv.toNat : Int) + 1) ≤ pv then UInt32.ofInt ((cv.toNat : Int) + 1) else pv).toNat = _
  split
  · rename_i hle
    rw [UInt32.le_iff_toNat_le, hsucc] at hle
    rw [hsucc, Nat.min_eq_left hle]
  · rename_i hle
    rw [UInt32.le_iff_toNat_le, hsucc] at hle
    rw [Nat.min_eq_right (by omega)]

/-- What an execution leaves: the inputs for the next edge, the value, and the outputs of the kind. -/
structure Counted (kind : CounterKind) (pv n : Nat) (cu cd : Bool) (c : CounterState) : Prop where
  cuVal : c.cuVal = cu
  cdVal : c.cdVal = cd
  cv : c.cv.toNat = n
  q : kind = .ctu → (c.q = true ↔ pv ≤ n)
  qu : kind = .ctud → (c.qu = true ↔ pv ≤ n)
  qd : kind = .ctud → (c.qd = true ↔ n = 0)

/-- The value after an execution on the edges `up` and `down`. -/
def stepCount (kind : CounterKind) (pv : Nat) (up down : Bool) (n : Nat) : Nat :=
  match kind with
  | .ctu => countUp pv up n
  | .ctd => countDown down n
  | .ctud => countDown down (countUp pv up n)

omit [Target] in
theorem counted_cons (kind : CounterKind) (pv : Nat) (cu cd : Bool) (hist : List (Bool × Bool)) :
    counted kind pv ((cu, cd) :: hist) =
      stepCount kind pv (rises cu (hist.map Prod.fst)) (rises cd (hist.map Prod.snd)) (counted kind pv hist) := by
  cases kind <;> rfl

omit [Target] in
theorem pred_toNat (x : UInt32) : (if x = 0 then 0 else x - 1 : UInt32).toNat = x.toNat - 1 := by
  split
  · rename_i hx
    rw [hx]
    rfl
  · rename_i hx
    have hpos : x.toNat ≠ 0 := fun h => hx (UInt32.toNat_inj.1 h)
    have hle : (1 : UInt32) ≤ x := by
      rw [UInt32.le_iff_toNat_le]
      show 1 ≤ x.toNat
      omega
    rw [UInt32.toNat_sub_of_le _ _ hle]
    rfl

/-- The up and the down part of an execution, on an edge. -/
def raise (edge : Bool) (c : CounterState) : Option CounterState :=
  if edge then do
    let n ← MachineInt.add c.cv 1
    some { c with cv := min n c.pv }
  else some c

def lower (edge : Bool) (c : CounterState) : CounterState :=
  if edge then { c with cv := if c.cv = 0 then 0 else c.cv - 1 } else c

theorem raise_eq {c : CounterState} (edge : Bool) (hcv : c.cv.toNat ≤ c.pv.toNat) (hpv : c.pv.toNat < 2 ^ 32 - 1) :
    ∃ x : UInt32, raise edge c = some { c with cv := x } ∧ x.toNat = countUp c.pv.toNat edge c.cv.toNat := by
  cases edge with
  | false => exact ⟨c.cv, rfl, rfl⟩
  | true =>
    obtain ⟨n, hadd, hmin⟩ := add_one_min hcv hpv
    refine ⟨min n c.pv, ?_, hmin⟩
    unfold raise
    rw [if_pos rfl, hadd]
    rfl

omit [Target] in
theorem lower_eq (edge : Bool) (c : CounterState) :
    ∃ x : UInt32, lower edge c = { c with cv := x } ∧ x.toNat = countDown edge c.cv.toNat := by
  cases edge with
  | false => exact ⟨c.cv, rfl, rfl⟩
  | true => exact ⟨_, rfl, pred_toNat c.cv⟩

/-- **One execution** of a counter below its preset. -/
theorem tickCounter_counted (c : CounterState) (kind : CounterKind) (pv : UInt32) (cu cd : Bool)
    (hcv : c.cv.toNat ≤ pv.toNat) (hpv : pv.toNat < 2 ^ 32 - 1) :
    ∃ c', Exec.tickCounter c kind pv cu cd = some c' ∧ Counted kind pv.toNat
      (stepCount kind pv.toNat (cu && !c.cuVal) (cd && !c.cdVal) c.cv.toNat) cu cd c' := by
  -- the state with the new inputs, before counting
  have hset : ∃ c₁ : CounterState, c₁ = { c with pv := pv, kind := kind, cuVal := cu, cdVal := cd } := ⟨_, rfl⟩
  obtain ⟨c₁, hc₁⟩ := hset
  have hcv₁ : c₁.cv = c.cv := by rw [hc₁]
  have hpv₁ : c₁.pv = pv := by rw [hc₁]
  obtain ⟨x, hraise, hx⟩ := @raise_eq _ c₁ (cu && !c.cuVal) (by rw [hcv₁, hpv₁]; exact hcv) (by rw [hpv₁]; exact hpv)
  rw [hcv₁, hpv₁] at hx
  cases kind with
  | ctu =>
    have htick : Exec.tickCounter c .ctu pv cu cd =
        (raise (cu && !c.cuVal) c₁).bind fun c => some { c with q := c.cv ≥ c.pv } := by
      rw [hc₁]
      rfl
    refine ⟨_, by rw [htick, hraise]; rfl, by rw [hc₁], by rw [hc₁], hx, ?_, ?_, ?_⟩
    · intro _
      rw [decide_eq_true_eq, hpv₁, ge_iff_le, UInt32.le_iff_toNat_le, hx]
      rfl
    · intro h
      cases h
    · intro h
      cases h
  | ctd =>
    obtain ⟨y, hlower, hy⟩ := lower_eq (cd && !c.cdVal) c₁
    rw [hcv₁] at hy
    have htick : Exec.tickCounter c .ctd pv cu cd =
        some { lower (cd && !c.cdVal) c₁ with q := (lower (cd && !c.cdVal) c₁).cv ≤ 0 } := by
      rw [hc₁]
      rfl
    rw [hlower] at htick
    refine ⟨_, htick, by rw [hc₁], by rw [hc₁], hy, ?_, ?_, ?_⟩ <;>
    · intro h
      cases h
  | ctud =>
    obtain ⟨y, hlower, hy⟩ := lower_eq (cd && !c.cdVal) { c₁ with cv := x }
    have htick : Exec.tickCounter c .ctud pv cu cd = (raise (cu && !c.cuVal) c₁).bind fun c' =>
        some { lower (cd && !c.cdVal) c' with
          qu := (lower (cd && !c.cdVal) c').cv ≥ (lower (cd && !c.cdVal) c').pv
          qd := (lower (cd && !c.cdVal) c').cv ≤ 0
          q := (lower (cd && !c.cdVal) c').cv ≥ (lower (cd && !c.cdVal) c').pv } := by
      rw [hc₁]
      rfl
    rw [hraise, Option.bind_some, hlower] at htick
    have hy' : y.toNat = stepCount .ctud pv.toNat (cu && !c.cuVal) (cd && !c.cdVal) c.cv.toNat := by
      rw [hy, hx]
      rfl
    refine ⟨_, htick, by rw [hc₁], by rw [hc₁], hy', ?_, ?_, ?_⟩
    · intro h
      cases h
    · intro _
      rw [decide_eq_true_eq, hpv₁, ge_iff_le, UInt32.le_iff_toNat_le, hy']
    · intro _
      rw [decide_eq_true_eq, UInt32.le_iff_toNat_le, hy']
      exact Nat.le_zero

/-! ## Counters over histories -/

section
variable {code : List Instruction} {vm vm' : Vm} {i pv : UInt32} {cuReg cdReg : UInt8} {op4 : Operand}
  {rest : List Operand} {cu cd : Bool}

theorem execPlain_counterRun (hcu : Exec.readBool vm cuReg = some cu) (hcd : Exec.readBool vm cdReg = some cd) :
    Exec.execPlain vm ⟨.counterRun, .immediate (.u32 i) :: .register cuReg :: .register cdReg ::
        .immediate (.u32 pv) :: op4 :: rest⟩ =
      (Exec.tickCounter (vm.counterAt i) (Exec.counterKindOf op4) pv cu cd).bind fun c =>
        some { vm with counters := (Vm.grow vm.counters i.toNat (Vm.freshCounter .ctu)).set i.toNat c } := by
  have hread : ∀ r, Exec.readBool
      { vm with counters := Vm.grow vm.counters i.toNat (Vm.freshCounter .ctu) } r = Exec.readBool vm r :=
    fun _ => rfl
  simp only [Exec.execPlain, Exec.execCounterRun, hread, hcu, hcd, getElem?_grow_self, Option.bind_eq_bind, Option.bind_some]
  rfl

/-- The state of the counter after it was run. -/
theorem counterAt_run {result : ExecutorResult} (hinst : code[vm.ip]? = some ⟨.counterRun, .immediate (.u32 i) ::
      .register cuReg :: .register cdReg :: .immediate (.u32 pv) :: op4 :: rest⟩)
    (hcu : Exec.readBool vm cuReg = some cu) (hcd : Exec.readBool vm cdReg = some cd)
    (hstep : vm.step code = some (vm', result)) :
    Exec.tickCounter (vm.counterAt i) (Exec.counterKindOf op4) pv cu cd = some (vm'.counterAt i) := by
  rw [step_plain hinst rfl, Option.map_eq_some_iff] at hstep
  obtain ⟨u, hu, heq⟩ := hstep
  cases heq
  rw [execPlain_counterRun hcu hcd] at hu
  obtain ⟨c, hc, hset⟩ := Option.bind_eq_some_iff.1 hu
  cases hset
  rw [hc]
  show some c = some (Option.getD (List.set _ i.toNat c)[i.toNat]? _)
  rw [List.getElem?_set_self (length_grow _ _ _), Option.getD_some]

/-- The state of a counter after a history. -/
structure CounterInv (kind : CounterKind) (pv : Nat) (hist : List (Bool × Bool)) (c : CounterState) : Prop where
  cuVal : c.cuVal = (hist.map Prod.fst).headD false
  cdVal : c.cdVal = (hist.map Prod.snd).headD false
  cv : c.cv.toNat = counted kind pv hist
  outputs : hist ≠ [] → Counted kind pv (counted kind pv hist) c.cuVal c.cdVal c

theorem counterHistory_inv {kind : CounterKind} {hist : List (Bool × Bool)} (h : CounterHistory i kind pv hist vm)
    (hpv : pv.toNat < 2 ^ 32 - 1) : CounterInv kind pv.toNat hist (vm.counterAt i) := by
  induction h with
  | start hfresh =>
    rw [hfresh]
    exact ⟨rfl, rfl, rfl, fun h => absurd rfl h⟩
  | reset _ ih => exact ih
  | setCycleTime _ _ ih => exact ih
  | writeSignal _ _ _ ih => exact ih
  | other _ hinst hruns hstep ih =>
    obtain ⟨inst', hinst', heffect⟩ := step_effect hstep
    rw [hinst] at hinst'
    cases hinst'
    rw [heffect.counters i hruns]
    exact ih
  | @run hist vm vm' code cuReg cdReg op4 rest cu cd result _ hinst hkind hcu hcd hstep ih =>
    have hle : (vm.counterAt i).cv.toNat ≤ pv.toNat := by
      rw [ih.cv]
      exact counted_le _ _ _
    obtain ⟨c', hc', hcounted⟩ := tickCounter_counted (vm.counterAt i) kind pv cu cd hle hpv
    have htick := counterAt_run hinst hcu hcd hstep
    rw [hkind, hc', Option.some.injEq] at htick
    rw [htick, ih.cuVal, ih.cdVal, ih.cv] at hcounted
    -- the edges that the stored inputs show are the edges of the history
    have hcount : stepCount kind pv.toNat (cu && !(hist.map Prod.fst).headD false)
        (cd && !(hist.map Prod.snd).headD false) (counted kind pv.toNat hist) =
        counted kind pv.toNat ((cu, cd) :: hist) := (counted_cons kind pv.toNat cu cd hist).symm
    rw [hcount] at hcounted
    refine ⟨hcounted.cuVal, hcounted.cdVal, hcounted.cv, ?_⟩
    intro _
    rw [hcounted.cuVal, hcounted.cdVal]
    exact hcounted

/-- **Counters** over every history of executions. -/
theorem counter_history {kind : CounterKind} {hist : List (Bool × Bool)} (h : CounterHistory i kind pv hist vm)
    (hpv : pv.toNat < 2 ^ 32 - 1) :
    (kind = .ctu →
      (vm.counterAt i).cv.toNat = min (risingEdges (hist.map Prod.fst)) pv.toNat ∧
      (hist ≠ [] → ((vm.counterAt i).q = true ↔ pv.toNat ≤ (vm.counterAt i).cv.toNat))) ∧
    (kind = .ctud →
      (vm.counterAt i).cv.toNat = counted .ctud pv.toNat hist ∧
      (hist ≠ [] → ((vm.counterAt i).qu = true ↔ pv.toNat ≤ (vm.counterAt i).cv.toNat) ∧
        ((vm.counterAt i).qd = true ↔ (vm.counterAt i).cv.toNat = 0))) := by
  have hinv := counterHistory_inv h hpv
  constructor
  · rintro rfl
    refine ⟨?_, ?_⟩
    · rw [hinv.cv, counted_ctu]
    · intro hne
      rw [hinv.cv]
      exact (hinv.outputs hne).q rfl
  · rintro rfl
    refine ⟨hinv.cv, ?_⟩
    intro hne
    rw [hinv.cv]
    exact ⟨(hinv.outputs hne).qu rfl, (hinv.outputs hne).qd rfl⟩

end

end Audesys.Hal

/-! ## A rising edge -/

namespace Audesys.Hal

open Audesys.Lib

local instance releaseCounters : Target := host false

/-- Run counter 0 as an up counter with preset 2 on the input `cu`. -/
def counting (cu : Bool) : List Instruction := [.loadImm 0 (.bool cu), .counterRun 0 0 1 2 0, .halt]

/-- One scan. -/
theorem counting_scan {hist : List (Bool × Bool)} {vm vm' : Vm} (h : CounterHistory 0 .ctu 2 hist vm) (cu : Bool)
    (hstep : Vm.step (counting cu) (vm.reset.set 0 (.bool cu)).advanceIp = some (vm', .cont)) :
    CounterHistory 0 .ctu 2 ((cu, false) :: hist) vm' := by
  have hload : CounterHistory 0 .ctu 2 hist (vm.reset.set 0 (.bool cu)).advanceIp :=
    @CounterHistory.other _ 0 .ctu 2 hist _ _ (counting cu) (.loadImm 0 (.bool cu)) .cont h.reset rfl
      (by rintro ⟨h, _⟩; cases h) rfl
  exact .run hload (show (counting cu)[1]? = some (.counterRun 0 0 1 2 0) from rfl) rfl rfl rfl hstep

/-- Two edges, with a scan without input between them, reach a preset of two. -/
theorem counting_reaches_preset : ∃ vm, CounterHistory 0 .ctu 2 [(true, false), (false, false), (true, false)] vm ∧
    (vm.counterAt 0).cv.toNat = 2 ∧ (vm.counterAt 0).q = true := by
  have hstart : CounterHistory 0 .ctu 2 [] Vm.new := .start rfl
  have hhist := counting_scan (counting_scan (counting_scan hstart true rfl) false rfl) true rfl
  obtain ⟨hcv, hq⟩ := (counter_history hhist (by decide)).1 rfl
  exact ⟨_, hhist, hcv, (hq (by decide)).2 (Nat.le_of_eq hcv.symm)⟩

end Audesys.Hal
