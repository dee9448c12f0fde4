import Audesys.Ld.Cycle
import Audesys.Lib.Trace

/-!
# `Ld.EdgePulse` — edge contacts over a run of scan cycles

An edge contact should pass power for one cycle after its variable has changed. In the code the previous values
do not outlive a cycle: within one, the first contact on a variable finds no previous value and records the
current one, and the others find that. `edge_pulse_iff` says for which evaluations of a run this comes to the
same.
-/

namespace Audesys.Ld

open Audesys.Lib

variable {snapshot : InputSnapshot} {v : String} {curr : Bool} {es : EdgeState}
variable {fuel : Nat}

/-! ## Runs of cycles -/

/-- The rungs, and the cycles so far with the stores they started from, newest first. -/
structure Ladder where
  rungs : List RungDef
  cycles : List (VarStore × List Evaluation)

/-- One call of `evaluate_cycle` on any store. -/
def Ladder.scan (l : Ladder) (call : Nat × VarStore) : Option Ladder := do
  let r ← evaluateCycle call.1 l.rungs call.2
  some ⟨r.rungs, (call.2, r.evaluations) :: l.cycles⟩

/-- The value of a variable in the newest cycle; false before the first. -/
def valueIn (v : String) : List (VarStore × List Evaluation) → Bool
  | [] => false
  | (vars, _) :: _ => vars.getBool v

/-- `P` of each evaluation, with the values of the variable in the cycle before and in this one. -/
def EachEvaluation (P : Bool → Bool → Evaluation → Prop) (v : String) : List (VarStore × List Evaluation) → Prop
  | [] => True
  | (vars, evs) :: past => (∀ ev ∈ evs, P (valueIn v past) (vars.getBool v) ev) ∧ EachEvaluation P v past

/-- An edge contact on `v` passes power on its edge alone. -/
def Pulse (v : String) (prev curr : Bool) (ev : Evaluation) : Prop :=
  (ev.contact = .posEdge v → (ev.passes = true ↔ curr = true ∧ prev = false)) ∧
  (ev.contact = .negEdge v → (ev.passes = true ↔ curr = false ∧ prev = true))

/-- The cases the code gets right. A rising contact with a true variable is the first to ask for it in this cycle
exactly if the variable has just risen; a falling contact is not asked about a variable that has just fallen. -/
def PulseCase (v : String) (prev curr : Bool) (ev : Evaluation) : Prop :=
  (ev.contact = .posEdge v → curr = true → (ev.before.prev v = none ↔ prev = false)) ∧
  (ev.contact = .negEdge v → ¬ (curr = false ∧ prev = true))

/-- No coil writes the variable. -/
def Unwritten (v : String) (rungs : List RungDef) : Prop := ∀ rung ∈ rungs, ∀ coil ∈ rung.coils, coil.var ≠ v

/-! ## Within a cycle -/

/-- The edge state knows nothing of the variable, or its current value. -/
def Recorded (v : String) (curr : Bool) (es : EdgeState) : Prop := es.prev v = none ∨ es.prev v = some curr

/-- What is known of an evaluation, from the code. -/
structure Asked (v : String) (curr : Bool) (ev : Evaluation) : Prop where
  recorded : Recorded v curr ev.before
  rising : ev.contact = .posEdge v → ev.passes = (!(ev.before.prev v).getD false && curr)
  falling : ev.contact = .negEdge v → ev.passes = ((ev.before.prev v).getD false && !curr)

theorem Recorded.record (h : Recorded v curr es) {var : String} (hcurr : snapshot.getBool v = curr) :
    Recorded v curr (es.record var (snapshot.getBool var)) := by
  unfold Recorded
  rw [EdgeState.record_prev]
  by_cases hv : v = var
  · rw [if_pos hv, ← hv, hcurr]
    exact .inr rfl
  · rw [if_neg hv]
    exact h

theorem Recorded.contactPower (h : Recorded v curr es) (contact : Contact) (hcurr : snapshot.getBool v = curr) :
    Recorded v curr (contactPower contact snapshot es).2 := by
  cases contact with
  | no _ => exact h
  | nc _ => exact h
  | posEdge _ => exact h.record hcurr
  | negEdge _ => exact h.record hcurr

/-- The answer of a contact, its variable being `curr`. -/
theorem Recorded.asked (h : Recorded v curr es) (contact : Contact) (hcurr : snapshot.getBool v = curr) :
    Asked v curr ⟨contact, es, (Ld.contactPower contact snapshot es).1⟩ where
  recorded := h
  rising := by
    intro heq
    cases heq
    rw [← hcurr]
    rfl
  falling := by
    intro heq
    cases heq
    rw [← hcurr]
    rfl

/-- What the loops keep while the variable stays as it is. -/
def Flow.Keeps (v : String) (curr : Bool) (f : Flow) : Prop :=
  Recorded v curr f.edgeState ∧ ∀ ev ∈ f.evaluations, Asked v curr ev

theorem Flow.Keeps.edge {f : Flow} (h : f.Keeps v curr)
    (hcurr : snapshot.getBool v = curr) (e : ContactEdge) : (f.edge snapshot e).Keeps v curr := by
  refine ⟨h.1.contactPower e.contact hcurr, ?_⟩
  intro ev hev
  rcases List.mem_append.1 hev with hold | hnew
  · exact h.2 ev hold
  · rw [List.mem_singleton] at hnew
    rw [hnew]
    exact h.1.asked e.contact hcurr

theorem Flow.Keeps.node {f : Flow} (h : f.Keeps v curr)
    (hcurr : snapshot.getBool v = curr) (net : ContactNetwork) (n : NodeId) : (f.node net snapshot n).Keeps v curr := by
  unfold Flow.node
  split
  · exact List.foldlRecOn _ _ h fun _ hf e _ => hf.edge hcurr e
  · exact h

theorem Flow.Keeps.flow {f : Flow} (h : f.Keeps v curr)
    (hcurr : snapshot.getBool v = curr) (net : ContactNetwork) : (net.flow snapshot f).Keeps v curr :=
  List.foldlRecOn _ _ h fun _ hf n _ => hf.node hcurr net n

/-- **One evaluation of a network.** -/
theorem evaluatePowerFlow_keeps {net : ContactNetwork} {r : FlowResult} (hcurr : snapshot.getBool v = curr)
    (h : Recorded v curr es) (heval : evaluatePowerFlow fuel net snapshot es = some r) :
    Recorded v curr r.edgeState ∧ ∀ ev ∈ r.evaluations, Asked v curr ev := by
  unfold evaluatePowerFlow at heval
  simp only [Option.bind_eq_bind, Option.bind_eq_some_iff] at heval
  obtain ⟨rail, _, out, _, net', _, heq⟩ := heval
  cases heq
  have hstart : (Flow.start rail es).Keeps v curr := by
    refine ⟨h, ?_⟩
    intro ev hev
    cases hev
  exact hstart.flow hcurr net'

/-- Coils of other variables leave this one alone. -/
theorem setCoils_getBool (vars : VarStore) (states : List CoilState) (h : ∀ cs ∈ states, cs.coilId ≠ v) :
    (vars.setCoils states).getBool v = vars.getBool v := by
  unfold VarStore.setCoils
  refine List.foldlRecOn (motive := fun s : VarStore => s.getBool v = vars.getBool v) states _ rfl ?_
  intro s hs cs hcs
  rw [← hs]
  rw [VarStore.getBool_setBool, if_neg (h cs hcs).symm]

/-- What the rungs keep: the variable, the coils, and what is known of the evaluations. -/
structure Scan.Keeps (v : String) (curr : Bool) (s : Scan) : Prop where
  vars : s.vars.getBool v = curr
  snapshot : s.snapshot.getBool v = curr
  recorded : Recorded v curr s.edgeState
  asked : ∀ ev ∈ s.evaluations, Asked v curr ev
  unwritten : Unwritten v s.rungs

/-- **One rung.** -/
theorem Scan.Keeps.rung {s s' : Scan} (h : s.Keeps v curr) {rung : RungDef}
    (hrung : ∀ coil ∈ rung.coils, coil.var ≠ v) (hs : s.rung fuel rung = some s') : s'.Keeps v curr := by
  unfold Scan.rung at hs
  rw [Option.bind_eq_bind, Option.bind_eq_some_iff] at hs
  obtain ⟨r, heval, heq⟩ := hs
  cases heq
  obtain ⟨hrecorded, hasked⟩ := evaluatePowerFlow_keeps h.snapshot h.recorded heval
  have hvars : (s.vars.setCoils (rung.coils.map (coilState r.power s.vars))).getBool v = curr := by
    rw [setCoils_getBool, h.vars]
    intro cs hcs
    obtain ⟨coil, hcoil, rfl⟩ := List.mem_map.1 hcs
    exact hrung coil hcoil
  refine ⟨hvars, hvars, hrecorded, ?_, ?_⟩
  · intro ev hev
    rcases List.mem_append.1 hev with hold | hnew
    · exact h.asked ev hold
    · exact hasked ev hnew
  · intro rung' hrung' coil hcoil
    rcases List.mem_append.1 hrung' with hold | hnew
    · exact h.unwritten rung' hold coil hcoil
    · rw [List.mem_singleton] at hnew
      rw [hnew] at hcoil
      exact hrung coil hcoil

theorem Scan.Keeps.rungs {rungs : List RungDef} (hrungs : Unwritten v rungs)
    {s s' : Scan} (h : s.Keeps v curr) (hs : rungs.foldlM (Scan.rung fuel) s = some s') : s'.Keeps v curr := by
  induction rungs generalizing s with
  | nil =>
    cases hs
    exact h
  | cons rung rungs ih =>
    rw [List.foldlM_cons, Option.bind_eq_bind, Option.bind_eq_some_iff] at hs
    obtain ⟨t, ht, hs⟩ := hs
    refine ih ?_ (h.rung (hrungs rung List.mem_cons_self) ht) hs
    intro rung' hrung'
    exact hrungs rung' (List.mem_cons_of_mem _ hrung')

/-- **One cycle.** -/
theorem evaluateCycle_asked {rungs : List RungDef} (hrungs : Unwritten v rungs)
    {vars : VarStore} {r : CycleResult} (h : evaluateCycle fuel rungs vars = some r) :
    Unwritten v r.rungs ∧ ∀ ev ∈ r.evaluations, Asked v (vars.getBool v) ev := by
  unfold evaluateCycle at h
  rw [Option.bind_eq_bind, Option.bind_eq_some_iff] at h
  obtain ⟨s, hs, heq⟩ := h
  cases heq
  have hstart : (Scan.start vars).Keeps v (vars.getBool v) := by
    refine ⟨rfl, rfl, .inl rfl, ?_, ?_⟩
    · intro ev hev
      cases hev
    · intro rung hrung
      cases hrung
  have hend := hstart.rungs hrungs hs
  exact ⟨hend.unwritten, hend.asked⟩

/-! ## Over a run -/

/-- An evaluation is right in the cases of `PulseCase`. -/
theorem Asked.pulse_iff {ev : Evaluation} (h : Asked v curr ev) (prev : Bool) :
    Pulse v prev curr ev ↔ PulseCase v prev curr ev := by
  unfold Pulse PulseCase
  refine and_congr ?_ ?_
  · refine imp_congr_right ?_
    intro hcontact
    rw [h.rising hcontact]
    rcases h.recorded with hnone | hsome
    · rw [hnone]
      cases curr <;> simp
    · rw [hsome]
      cases curr <;> simp
  · refine imp_congr_right ?_
    intro hcontact
    rw [h.falling hcontact]
    rcases h.recorded with hnone | hsome
    · rw [hnone]
      simp
    · rw [hsome]
      cases curr <;> simp

/-- What a run keeps. -/
def Ladder.Keeps (v : String) (l : Ladder) : Prop :=
  Unwritten v l.rungs ∧ EachEvaluation (fun _ => Asked v) v l.cycles

theorem Ladder.keeps_scan (l : Ladder) (call : Nat × VarStore) (l' : Ladder) (h : l.scan call = some l')
    (hl : l.Keeps v) : l'.Keeps v := by
  unfold Ladder.scan at h
  rw [Option.bind_eq_bind, Option.bind_eq_some_iff] at h
  obtain ⟨r, hr, heq⟩ := h
  cases heq
  obtain ⟨hunwritten, hasked⟩ := evaluateCycle_asked hl.1 hr
  exact ⟨hunwritten, hasked, hl.2⟩

theorem EachEvaluation.congr {P Q : Bool → Bool → Evaluation → Prop} {R : Bool → Bool → Evaluation → Prop}
    (hPQ : ∀ prev curr ev, R prev curr ev → (P prev curr ev ↔ Q prev curr ev))
    {cycles : List (VarStore × List Evaluation)} (h : EachEvaluation R v cycles) :
    EachEvaluation P v cycles ↔ EachEvaluation Q v cycles := by
  induction cycles with
  | nil => exact Iff.rfl
  | cons cycle past ih =>
    refine and_congr ?_ (ih h.2)
    refine forall₂_congr ?_
    intro ev hev
    exact hPQ _ _ ev (h.1 ev hev)

/-- **Edge contacts over a run** of cycles with any stores, for a variable that no coil writes: they all are
one-cycle pulses exactly if each of their evaluations is one of the cases of `PulseCase`. -/
theorem edge_pulse_iff {v : String} {rungs : List RungDef} (hrungs : Unwritten v rungs)
    {calls : List (Nat × VarStore)} {l : Ladder} (hrun : Trace Ladder.scan ⟨rungs, []⟩ calls l) :
    EachEvaluation (Pulse v) v l.cycles ↔ EachEvaluation (PulseCase v) v l.cycles := by
  have hkeeps : l.Keeps v := Trace.invariant Ladder.keeps_scan hrun ⟨hrungs, trivial⟩
  exact hkeeps.2.congr fun prev _ _ hasked => hasked.pulse_iff prev

/-! ## A level instead of a pulse -/

/-- A rung with a rising contact between the rail and the output. -/
def risingRung : RungDef :=
  ⟨"r", ⟨2, [⟨0, 1, .posEdge "x"⟩], some 0, some 1, [[0], []], [], true⟩, [⟨"q", .out⟩]⟩

/-- The rung when it has been evaluated once. -/
def sortedRung : RungDef :=
  ⟨"r", ⟨2, [⟨0, 1, .posEdge "x"⟩], some 0, some 1, [[0], []], [0, 1], false⟩, [⟨"q", .out⟩]⟩

def storeX (value : Bool) : VarStore := ⟨fun var => if var = "x" then some value else none⟩

theorem risingRung_unwritten : Unwritten "x" [risingRung] := by
  intro rung hrung coil hcoil
  rw [List.mem_singleton] at hrung
  rw [hrung] at hcoil
  rw [List.mem_singleton.1 hcoil]
  decide

/-- The contact passes whatever its variable is, as there is no previous value. -/
theorem rising_scan (past : List (VarStore × List Evaluation)) (value : Bool) {rung : RungDef}
    (h : rung = risingRung ∨ rung = sortedRung) : Ladder.scan ⟨[rung], past⟩ (2, storeX value) =
      some ⟨[sortedRung], (storeX value, [⟨.posEdge "x", .new, value⟩]) :: past⟩ := by
  rcases h with rfl | rfl
  · cases value <;> rfl
  · cases value <;> rfl

theorem rising_run (first second : Bool) :
    Trace Ladder.scan ⟨[risingRung], []⟩ [(2, storeX first), (2, storeX second)]
      ⟨[sortedRung], [(storeX second, [⟨.posEdge "x", .new, second⟩]), (storeX first, [⟨.posEdge "x", .new, first⟩])]⟩ :=
  .cons (rising_scan [] first (.inl rfl)) (.cons (rising_scan _ second (.inr rfl)) (.nil _))

/-- A variable that stays true lets power through in every cycle. -/
theorem rising_twice :
    Unwritten "x" [risingRung] ∧ ∃ l, Trace Ladder.scan ⟨[risingRung], []⟩ [(2, storeX true), (2, storeX true)] l ∧
      ¬ EachEvaluation (Pulse "x") "x" l.cycles := by
  refine ⟨risingRung_unwritten, _, rising_run true true, ?_⟩
  intro h
  have hpulse := h.1 _ List.mem_cons_self
  have hedge := (hpulse.1 rfl).1 rfl
  cases hedge.2

/-- One that has just become true is seen as it should be. -/
theorem rising_once :
    ∃ l, Trace Ladder.scan ⟨[risingRung], []⟩ [(2, storeX false), (2, storeX true)] l ∧
      EachEvaluation (Pulse "x") "x" l.cycles := by
  refine ⟨_, rising_run false true, ?_⟩
  refine (edge_pulse_iff risingRung_unwritten (rising_run false true)).2 ⟨?_, ?_, trivial⟩
  · intro ev hev
    rw [List.mem_singleton.1 hev]
    constructor
    · intro _ _
      exact iff_of_true rfl rfl
    · intro h
      cases h
  · intro ev hev
    rw [List.mem_singleton.1 hev]
    constructor
    · intro _ h
      exact absurd h (by decide)
    · intro h
      cases h

end Audesys.Ld
