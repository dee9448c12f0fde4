import Audesys.Hal.Host
import Audesys.Il.Accumulator
import Audesys.Ld.Cycle
import Audesys.Ld.Rung
import Audesys.Ld.Serial

/-!
# `Ld.Ladder` — compiled ladders and the scan cycle

A ladder goes through its text, Instruction List and the virtual machine, or through `evaluate_cycle`. In the
compiled code only `OUT` coils reach the signals: `S` and `R` write the copy of their variable in a register, which
nothing reads again. A ladder and its prefixes agree with the scan cycle exactly if no rung has a latching coil that
would change its variable (`ladder_iff`).
-/

open List

namespace Audesys.Ld

open Audesys.Lib Audesys.Hal

/-! ## The scan cycle of a rung -/

def SeriesContact.contact (c : SeriesContact) : Contact := if c.normallyOpen then .no c.var else .nc c.var

def RungCoil.coil (c : RungCoil) : Coil :=
  ⟨c.var, match c.kind with
    | .out => .out
    | .set => .set
    | .reset => .reset⟩

/-- The definition of a rung, its network built by `build_serial_network`. -/
def Rung.define (rung : Rung) : Option RungDef := do
  let network ← buildSerialNetwork (rung.contacts.map SeriesContact.contact)
  some ⟨rung.id, network, rung.coils.map RungCoil.coil⟩

/-- `evaluate_cycle` on the rungs. -/
def ladderCycle (fuel : Nat) (rungs : List Rung) (vars : VarStore) : Option CycleResult := do
  let defs ← rungs.mapM Rung.define
  evaluateCycle fuel defs vars

/-- Whether a contact is closed. -/
def SeriesContact.closed (vars : VarStore) (c : SeriesContact) : Bool := c.contact.isClosed vars.snapshot

/-- Whether all contacts of a rung are closed. -/
def Rung.power (rung : Rung) (vars : VarStore) : Bool := rung.contacts.all (SeriesContact.closed vars)

/-- The store behind a rung. -/
def Rung.scan (vars : VarStore) (rung : Rung) : VarStore :=
  vars.setCoils (rung.coils.map fun c => coilState (rung.power vars) vars c.coil)

theorem SeriesContact.isLevel (c : SeriesContact) : c.contact.IsLevel := by
  unfold SeriesContact.contact
  split <;> trivial

/-- **One rung** of the scan cycle. -/
theorem Scan.rung_eq (rung : Rung) :
    ∃ d, rung.define = some d ∧ ∀ fuel, rung.contacts.length < fuel → ∀ s : Scan, s.snapshot = s.vars.snapshot →
      ∃ s', s.rung fuel d = some s' ∧ s'.vars = rung.scan s.vars ∧ s'.snapshot = s'.vars.snapshot := by
  have hlevel : ∀ c ∈ rung.contacts.map SeriesContact.contact, c.IsLevel := by
    intro c hc
    obtain ⟨c, _, rfl⟩ := mem_map.1 hc
    exact c.isLevel
  obtain ⟨net, hnet, hpower⟩ := serial_power hlevel
  refine ⟨⟨rung.id, net, rung.coils.map RungCoil.coil⟩, ?_, ?_⟩
  · unfold Rung.define
    rw [hnet]
    rfl
  intro fuel hfuel s hsnapshot
  rw [length_map] at hpower
  obtain ⟨r, heval, hr⟩ := hpower fuel hfuel s.snapshot s.edgeState
  have hclosed : r.power = rung.power s.vars := by
    rw [hr, hsnapshot, all_map]
    rfl
  have hstates : (rung.coils.map RungCoil.coil).map (coilState r.power s.vars) =
      rung.coils.map fun c => coilState (rung.power s.vars) s.vars c.coil := by
    rw [map_map, hclosed]
    rfl
  unfold Scan.rung
  rw [heval]
  refine ⟨_, rfl, ?_, rfl⟩
  show s.vars.setCoils ((rung.coils.map RungCoil.coil).map (coilState r.power s.vars)) = _
  rw [hstates]
  rfl

/-- **The scan cycle** goes through the rungs one after the other. -/
theorem ladderCycle_eq {fuel : Nat} {rungs : List Rung} (hfuel : ∀ rung ∈ rungs, rung.contacts.length < fuel)
    (vars : VarStore) :
    ∃ result, ladderCycle fuel rungs vars = some result ∧ result.vars = rungs.foldl Rung.scan vars := by
  have hgen : ∃ defs, rungs.mapM Rung.define = some defs ∧ ∀ s : Scan, s.snapshot = s.vars.snapshot →
      ∃ s', defs.foldlM (Scan.rung fuel) s = some s' ∧ s'.vars = rungs.foldl Rung.scan s.vars := by
    induction rungs with
    | nil => exact ⟨[], rfl, fun s _ => ⟨s, rfl, rfl⟩⟩
    | cons rung rungs ih =>
      obtain ⟨d, hd, hstep⟩ := Scan.rung_eq rung
      obtain ⟨defs, hdefs, hrest⟩ := ih fun r hr => hfuel r (mem_cons_of_mem _ hr)
      refine ⟨d :: defs, ?_, ?_⟩
      · rw [mapM_cons, hd, hdefs]
        rfl
      · intro s hs
        obtain ⟨s₁, hs₁, hvars₁, hsnapshot₁⟩ := hstep fuel (hfuel rung mem_cons_self) s hs
        obtain ⟨s', hs', hvars'⟩ := hrest s₁ hsnapshot₁
        refine ⟨s', ?_, ?_⟩
        · rw [foldlM_cons, hs₁]
          exact hs'
        · rw [hvars', hvars₁]
          rfl
  obtain ⟨defs, hdefs, hrun⟩ := hgen
  obtain ⟨s, hs, hvars⟩ := hrun (.start vars) rfl
  unfold ladderCycle evaluateCycle
  rw [hdefs, Option.bind_eq_bind, Option.bind_some, hs]
  exact ⟨_, rfl, hvars⟩

/-! ## What a rung does to a variable -/

/-- The last coil of a variable. -/
def lastCoil (y : String) : List RungCoil → Option Compiler.CoilKind
  | [] => none
  | c :: rest => (lastCoil y rest).or (if c.var = y then some c.kind else none)

/-- Whether a variable has an `OUT` coil. -/
def hasOut (y : String) (coils : List RungCoil) : Bool := coils.any fun c => decide (c.kind = .out) && decide (c.var = y)

theorem lastCoil_cons (y : String) (c : RungCoil) (coils : List RungCoil) :
    lastCoil y (c :: coils) = (lastCoil y coils).or (if c.var = y then some c.kind else none) := rfl

theorem hasOut_cons (y : String) (c : RungCoil) (coils : List RungCoil) :
    hasOut y (c :: coils) = (decide (c.kind = .out) && decide (c.var = y) || hasOut y coils) := rfl

/-- What a coil makes of its variable. -/
def Compiler.CoilKind.energized (power old : Bool) : Compiler.CoilKind → Bool
  | .out => power
  | .set => power || old
  | .reset => !power && old

/-- The store with the `OUT` coils of a rung alone. -/
def Rung.outputs (vars : VarStore) (rung : Rung) : VarStore :=
  rung.coils.foldl (fun vars' c => if c.kind = .out then vars'.setBool c.var (rung.power vars) else vars') vars

theorem coilState_eq (power : Bool) (vars : VarStore) (c : RungCoil) :
    (coilState power vars c.coil).coilId = c.var ∧
      (coilState power vars c.coil).energized = c.kind.energized power (vars.getBool c.var) := by
  obtain ⟨kind, y⟩ := c
  refine ⟨rfl, ?_⟩
  cases kind with
  | out => rfl
  | set => cases power <;> rfl
  | reset => cases power <;> rfl

theorem coils_getBool (power : Bool) (vars : VarStore) (coils : List RungCoil) (vars' : VarStore) (y : String) :
    (vars'.setCoils (coils.map fun c => coilState power vars c.coil)).getBool y =
      match lastCoil y coils with
      | some kind => kind.energized power (vars.getBool y)
      | none => vars'.getBool y := by
  induction coils generalizing vars' with
  | nil => rfl
  | cons c coils ih =>
    obtain ⟨hid, henergized⟩ := coilState_eq power vars c
    show ((vars'.setBool _ _).setCoils _).getBool y = _
    rw [ih, hid, henergized, VarStore.getBool_setBool, lastCoil_cons]
    cases lastCoil y coils with
    | some kind => rfl
    | none =>
      by_cases hy : c.var = y
      · subst hy
        simp
      · simp [hy, Ne.symm hy]

theorem Rung.scan_getBool (vars : VarStore) (rung : Rung) (y : String) :
    (rung.scan vars).getBool y =
      match lastCoil y rung.coils with
      | some kind => kind.energized (rung.power vars) (vars.getBool y)
      | none => vars.getBool y :=
  coils_getBool _ _ _ _ _

theorem Rung.outputs_getBool (vars : VarStore) (rung : Rung) (y : String) :
    (rung.outputs vars).getBool y = if hasOut y rung.coils then rung.power vars else vars.getBool y := by
  unfold Rung.outputs
  -- the power stays that of the whole rung
  generalize rung.power vars = power
  suffices hgen : ∀ (coils : List RungCoil) (vars : VarStore),
      (coils.foldl (fun vars' c => if c.kind = .out then vars'.setBool c.var power else vars') vars).getBool y =
        if hasOut y coils then power else vars.getBool y from hgen _ _
  intro coils
  induction coils with
  | nil => exact fun vars => rfl
  | cons c coils ih =>
    intro vars
    rw [foldl_cons, ih]
    rw [hasOut_cons]
    by_cases hout : c.kind = .out
    · rw [if_pos hout, VarStore.getBool_setBool]
      by_cases hy : y = c.var
      · simp [hout, hy]
      · simp [hy, Ne.symm hy]
    · simp [hout]

/-- The last coil of a variable is an `OUT` coil only where there is one. -/
theorem hasOut_of_lastCoil {y : String} {coils : List RungCoil} (h : hasOut y coils = false) : lastCoil y coils ≠ some .out := by
  induction coils with
  | nil => nofun
  | cons c coils ih =>
    rw [hasOut_cons, Bool.or_eq_false_iff] at h
    rw [lastCoil_cons]
    intro hlast
    rcases Option.or_eq_some_iff.1 hlast with hrest | ⟨_, hc⟩
    · exact ih h.2 hrest
    · split at hc
      · rename_i hy
        rw [Option.some.injEq] at hc
        rw [hc, hy] at h
        exact absurd h.1 (by simp)
      · cases hc

theorem hasOut_of_none {y : String} {coils : List RungCoil} (h : lastCoil y coils = none) : hasOut y coils = false := by
  induction coils with
  | nil => rfl
  | cons c coils ih =>
    rw [lastCoil_cons, Option.or_eq_none_iff] at h
    have hy : ¬ c.var = y := by
      intro hy
      rw [if_pos hy] at h
      cases h.2
    rw [hasOut_cons, ih h.1, decide_eq_false hy, Bool.and_false, Bool.or_false]

/-! ## Latches without effect -/

/-- No latching coil that comes last for its variable gives it another value than the `OUT` coils of the rung, or,
where there is none, than it had. -/
def Rung.Harmless (rung : Rung) (vars : VarStore) : Prop :=
  ∀ y, match lastCoil y rung.coils with
    | some .set =>
      if hasOut y rung.coils then vars.getBool y = true → rung.power vars = true
      else rung.power vars = true → vars.getBool y = true
    | some .reset =>
      if hasOut y rung.coils then rung.power vars = false ∧ vars.getBool y = false
      else rung.power vars = true → vars.getBool y = false
    | _ => True

/-- Every rung, from the store that the scan cycle has there. -/
def Undisturbed (vars : VarStore) : List Rung → Prop
  | [] => True
  | rung :: rest => rung.Harmless vars ∧ Undisturbed (rung.scan vars) rest

/-- **A harmless rung** is one whose `OUT` coils tell all. -/
theorem Rung.harmless_iff (rung : Rung) (vars : VarStore) :
    rung.Harmless vars ↔ ∀ y, (rung.outputs vars).getBool y = (rung.scan vars).getBool y := by
  refine forall_congr' fun y => ?_
  rw [rung.outputs_getBool, rung.scan_getBool]
  cases hlast : lastCoil y rung.coils with
  | none =>
    rw [hasOut_of_none hlast]
    simp
  | some kind =>
    cases kind with
    | out =>
      cases hout : hasOut y rung.coils with
      | true => simp [Compiler.CoilKind.energized]
      | false => exact absurd hlast (hasOut_of_lastCoil hout)
    | set =>
      cases hasOut y rung.coils <;> cases rung.power vars <;> cases vars.getBool y <;>
        simp [Compiler.CoilKind.energized]
    | reset =>
      cases hasOut y rung.coils <;> cases rung.power vars <;> cases vars.getBool y <;>
        simp [Compiler.CoilKind.energized]

/-! ## All rungs -/

/-- Stores that no `get_bool` tells apart. -/
def VarStore.Same (vars vars' : VarStore) : Prop := ∀ x, vars.getBool x = vars'.getBool x

theorem Rung.power_congr {vars vars' : VarStore} (h : vars.Same vars') (rung : Rung) :
    rung.power vars = rung.power vars' := by
  have hclosed : ∀ c : SeriesContact, c.closed vars = c.closed vars' := by
    intro c
    obtain ⟨normallyOpen, x⟩ := c
    cases normallyOpen with
    | true => exact h x
    | false => exact congrArg not (h x)
  unfold Rung.power
  rw [funext hclosed]

theorem Rung.outputs_congr {vars vars' : VarStore} (h : vars.Same vars') (rung : Rung) :
    (rung.outputs vars).Same (rung.outputs vars') := by
  intro y
  rw [rung.outputs_getBool, rung.outputs_getBool, rung.power_congr h, h y]

/-- **The rungs one after the other**: the stores agree after each of them if all are harmless, and only then. -/
theorem undisturbed_iff {rungs : List Rung} {vars vars' : VarStore} (h : vars.Same vars') :
    (∀ n, ((rungs.take n).foldl Rung.outputs vars).Same ((rungs.take n).foldl Rung.scan vars')) ↔
      Undisturbed vars' rungs := by
  induction rungs generalizing vars vars' with
  | nil =>
    constructor
    · exact fun _ => trivial
    · intro _ n
      rw [take_nil]
      exact h
  | cons rung rungs ih =>
    have hcongr := rung.outputs_congr h
    have hafter : rung.Harmless vars' ↔ (rung.outputs vars).Same (rung.scan vars') := by
      rw [rung.harmless_iff]
      refine forall_congr' fun y => ?_
      rw [hcongr y]
    constructor
    · intro hall
      have hfirst : (rung.outputs vars).Same (rung.scan vars') := hall 1
      exact ⟨hafter.2 hfirst, (ih hfirst).1 fun n => hall (n + 1)⟩
    · rintro ⟨hharmless, hrest⟩ n
      cases n with
      | zero => exact h
      | succ n => exact (ih (hafter.1 hharmless)).2 hrest n

/-- The variables that have a coil. -/
def coilVars (rungs : List Rung) : List String := rungs.flatMap fun rung => rung.coils.map RungCoil.var

theorem no_coil {y : String} {coils : List RungCoil} (h : y ∉ coils.map RungCoil.var) :
    lastCoil y coils = none ∧ hasOut y coils = false := by
  have hlast : lastCoil y coils = none := by
    induction coils with
    | nil => rfl
    | cons c coils ih =>
      rw [map_cons, mem_cons, not_or] at h
      rw [lastCoil_cons, ih h.2, if_neg (Ne.symm h.1)]
      rfl
  exact ⟨hlast, hasOut_of_none hlast⟩

/-- Variables without a coil stay as they are, on both sides. -/
theorem foldl_no_coil {rungs : List Rung} {y : String} (h : y ∉ coilVars rungs) (vars : VarStore) :
    (rungs.foldl Rung.outputs vars).getBool y = vars.getBool y ∧ (rungs.foldl Rung.scan vars).getBool y = vars.getBool y := by
  suffices hgen : ∀ vars', (rungs.foldl Rung.outputs vars).getBool y = vars.getBool y ∧
      (rungs.foldl Rung.scan vars').getBool y = vars'.getBool y from hgen vars
  induction rungs generalizing vars with
  | nil => exact fun vars' => ⟨rfl, rfl⟩
  | cons rung rungs ih =>
    intro vars'
    have hsplit : y ∉ rung.coils.map RungCoil.var ∧ y ∉ coilVars rungs := by
      rw [← not_or, ← mem_append]
      exact h
    obtain ⟨hlast, hout⟩ := no_coil hsplit.1
    obtain ⟨hleft, hright⟩ := ih hsplit.2 (rung.outputs vars) (rung.scan vars')
    rw [foldl_cons, foldl_cons, hleft, hright, rung.outputs_getBool, rung.scan_getBool, hlast, hout]
    exact ⟨rfl, rfl⟩

/-! ## The compiled code -/

section
variable [Target]

/-- The table of signals that holds a store. -/
def VarStore.table (vars : VarStore) : String → Option HalValue := fun x => (vars.values x).map HalValue.bool

theorem table_getD (vars : VarStore) (x : String) : (vars.table x).getD (.bool false) = .bool (vars.getBool x) := by
  unfold VarStore.table VarStore.getBool
  cases vars.values x <;> rfl

theorem run_append (σ : Il.Accumulator) (a b : List Il.ILStatement) :
    σ.run (a ++ b) = (σ.run a).bind fun σ' => σ'.run b := by
  induction a generalizing σ with
  | nil => rfl
  | cons s a ih =>
    show (σ.step s).bind (fun σ' => σ'.run (a ++ b)) = ((σ.step s).bind fun σ' => σ'.run a).bind fun σ' => σ'.run b
    rw [Option.bind_assoc]
    exact congrArg _ (funext fun σ' => ih σ')

/-- The contacts behind the first one. -/
theorem run_rest (vars : VarStore) (rest : List SeriesContact) (power : Bool) :
    Il.Accumulator.run ⟨.bool power, vars.table⟩ (rest.map SeriesContact.and) =
      some ⟨.bool (power && rest.all (SeriesContact.closed vars)), vars.table⟩ := by
  induction rest generalizing power with
  | nil =>
    rw [all_nil, Bool.and_true]
    rfl
  | cons c rest ih =>
    have hstep : Il.Accumulator.step ⟨.bool power, vars.table⟩ c.and = some ⟨.bool (power && c.closed vars), vars.table⟩ := by
      obtain ⟨normallyOpen, x⟩ := c
      cases normallyOpen with
      | true =>
        show some (Il.Accumulator.mk (HalValue.bitand (.bool power) ((vars.table x).getD (.bool false))) _) = _
        rw [table_getD]
        rfl
      | false =>
        show some (Il.Accumulator.mk (HalValue.bitand (.bool power) ((vars.table x).getD (.bool false)).not) _) = _
        rw [table_getD]
        rfl
    rw [map_cons, Il.Accumulator.run, hstep, Option.bind_some, ih, all_cons, Bool.and_assoc]

/-- The coils, without the latches. -/
theorem run_coils (coils : List RungCoil) (power : Bool) (vars : VarStore) :
    Il.Accumulator.run ⟨.bool power, vars.table⟩ ((coils.map RungCoil.stmt).filter fun s => !s.isLatch) =
      some ⟨.bool power,
        (coils.foldl (fun vars c => if c.kind = .out then vars.setBool c.var power else vars) vars).table⟩ := by
  induction coils generalizing vars with
  | nil => rfl
  | cons c coils ih =>
    obtain ⟨kind, y⟩ := c
    cases kind with
    | out =>
      have hstored : (fun x => if x = y then some (HalValue.bool power) else vars.table x) = (vars.setBool y power).table := by
        funext x
        show _ = (Function.update vars.values y (some power) x).map HalValue.bool
        rw [Function.update_apply]
        split <;> rfl
      show Il.Accumulator.run ⟨.bool power, fun x => if x = y then some (.bool power) else vars.table x⟩ _ = _
      rw [hstored]
      exact ih (vars.setBool y power)
    | set => exact ih vars
    | reset => exact ih vars

/-- **One rung** on the reference machine, without the latches. -/
theorem run_rung (cr : HalValue) (vars : VarStore) (rung : Rung) :
    Il.Accumulator.run ⟨cr, vars.table⟩ (rung.stmts.filter fun s => !s.isLatch) =
      some ⟨.bool (rung.power vars), (rung.outputs vars).table⟩ := by
  obtain ⟨id, first, rest, coils⟩ := rung
  have hload : Il.Accumulator.step ⟨cr, vars.table⟩ first.load = some ⟨.bool (first.closed vars), vars.table⟩ := by
    obtain ⟨normallyOpen, x⟩ := first
    cases normallyOpen with
    | true =>
      show some (Il.Accumulator.mk ((vars.table x).getD (.bool false)) _) = _
      rw [table_getD]
      rfl
    | false =>
      show some (Il.Accumulator.mk ((vars.table x).getD (.bool false)).not _) = _
      rw [table_getD]
      rfl
  have hfirst : (!first.load.isLatch) = true := by
    unfold SeriesContact.load
    split <;> rfl
  have hrest : (rest.map SeriesContact.and).filter (fun s => !s.isLatch) = rest.map SeriesContact.and := by
    rw [filter_eq_self]
    intro s hs
    obtain ⟨c, _, rfl⟩ := mem_map.1 hs
    unfold SeriesContact.and
    split <;> rfl
  show Il.Accumulator.run _ (List.filter _ (first.load :: (rest.map SeriesContact.and ++ coils.map RungCoil.stmt))) = _
  rw [filter_cons, if_pos hfirst, filter_append, hrest, Il.Accumulator.run, hload, Option.bind_some,
    run_append, run_rest, Option.bind_some, run_coils]
  rfl

theorem run_ladder (rungs : List Rung) (cr : HalValue) (vars : VarStore) :
    ∃ cr', Il.Accumulator.run ⟨cr, vars.table⟩ ((rungs.flatMap Rung.stmts).filter fun s => !s.isLatch) =
      some ⟨cr', (rungs.foldl Rung.outputs vars).table⟩ := by
  induction rungs generalizing cr vars with
  | nil => exact ⟨cr, rfl⟩
  | cons rung rungs ih =>
    obtain ⟨cr', hrun⟩ := ih (.bool (rung.power vars)) (rung.outputs vars)
    refine ⟨cr', ?_⟩
    rw [flatMap_cons, filter_append, run_append, run_rung, Option.bind_some, hrun]
    rfl

omit [Target] in
/-- Every statement of a ladder renews its operand or is a latch. -/
theorem ladder_stmt {rungs : List Rung} {s : Il.ILStatement} (hs : s ∈ rungs.flatMap Rung.stmts) :
    (s.isLatch = true ∨ s.IsStraight ∧ s.reuses? = none) ∧ ∀ x, s.var? = some x → ∃ rung ∈ rungs, x ∈ rung.names := by
  obtain ⟨rung, hrung, hs⟩ := mem_flatMap.1 hs
  have hcontact : ∀ c ∈ rung.contacts, c.var ∈ rung.names :=
    fun c hc => mem_append_left _ (mem_map_of_mem hc)
  have hcoil : ∀ c ∈ rung.coils, c.var ∈ rung.names := fun c hc => mem_append_right _ (mem_map_of_mem hc)
  suffices hvar : ∃ x ∈ rung.names, (s.isLatch = true ∨ s.IsStraight ∧ s.reuses? = none) ∧ s.var? = some x by
    obtain ⟨x, hx, hkind, hsome⟩ := hvar
    refine ⟨hkind, ?_⟩
    intro x' hx'
    rw [hsome] at hx'
    cases hx'
    exact ⟨rung, hrung, hx⟩
  rcases mem_cons.1 hs with rfl | hs
  · refine ⟨rung.first.var, hcontact _ mem_cons_self, ?_⟩
    unfold SeriesContact.load
    split
    · exact ⟨.inr ⟨trivial, rfl⟩, rfl⟩
    · exact ⟨.inr ⟨trivial, rfl⟩, rfl⟩
  rcases mem_append.1 hs with hs | hs
  · obtain ⟨c, hc, rfl⟩ := mem_map.1 hs
    refine ⟨c.var, hcontact _ (mem_cons_of_mem _ hc), ?_⟩
    unfold SeriesContact.and
    split
    · exact ⟨.inr ⟨trivial, rfl⟩, rfl⟩
    · exact ⟨.inr ⟨trivial, rfl⟩, rfl⟩
  · obtain ⟨c, hc, rfl⟩ := mem_map.1 hs
    refine ⟨c.var, hcoil c hc, ?_⟩
    obtain ⟨kind, x⟩ := c
    cases kind with
    | out => exact ⟨.inr ⟨trivial, rfl⟩, rfl⟩
    | set => exact ⟨.inl rfl, rfl⟩
    | reset => exact ⟨.inl rfl, rfl⟩

/-! ## Agreement -/

variable [CaseMap]

/-- The compiled ladder runs to a halt, and there the signals of all coils, an unset one false, are what the scan cycle
computes from the same store. -/
def Agrees (rungs : List Rung) (vars : VarStore) : Prop :=
  ∀ il, Compiler.ldCompile (ladderText rungs) = .ok il → ∃ program, Il.ilCompile il = some program ∧
    ∀ fuel, (∀ rung ∈ rungs, rung.contacts.length < fuel) → ∃ result, ladderCycle fuel rungs vars = some result ∧
      ∀ vm, ∃ vm', Il.RunsTo program (Il.started vm vars.table) vm' ∧
        ∀ y ∈ coilVars rungs, (vm'.readSignal y).getD (.bool false) = .bool (result.vars.getBool y)

/-- **The compiled ladder** leaves what the `OUT` coils tell. -/
theorem ladder_run {rungs : List Rung} (h : WellNamed rungs) :
    ∃ program, Il.ilCompile (ladderIl rungs) = some program ∧ ∀ (vars : VarStore) (vm : Vm),
      ∃ vm', HaltsAt program.instructions (Il.started vm vars.table) vm' ∧
        vm'.signals = (rungs.foldl Rung.outputs vars).table := by
  obtain ⟨names, hlen, hnames⟩ := h.ten
  have hten : Il.AtMostTen (rungs.flatMap Rung.stmts) := by
    refine ⟨names, hlen, ?_⟩
    intro s hs x hx
    obtain ⟨rung, hrung, hin⟩ := (ladder_stmt hs).2 x hx
    exact hnames rung hrung x hin
  obtain ⟨regs, hregs, hcompile⟩ := Il.compileAst_eq hten
  have hprogram : Il.ilCompile (ladderIl rungs) =
      some { HalProgram.new "il_program" (Il.linked regs (rungs.flatMap Rung.stmts)) with
        signals := Il.signalBindings [] (Il.linked regs (rungs.flatMap Rung.stmts)) } := by
    unfold Il.ilCompile
    rw [parse_ladder h, hcompile]
    rfl
  refine ⟨_, hprogram, ?_⟩
  intro vars vm
  obtain ⟨vm₁, hnext, hip, hholds, _⟩ := Il.first_run hregs vm vars.table
  have hcode := (Il.program_codeAt regs (rungs.flatMap Rung.stmts)).2.left
  rw [← hip] at hcode
  obtain ⟨copies, hreach⟩ := Il.latched_run hregs _ (fun s hs => ⟨hs, (ladder_stmt hs).1⟩) hholds hcode
  obtain ⟨cr, hrun⟩ := run_ladder rungs (.s32 0) vars
  rw [show Il.Accumulator.init vars.table = ⟨.s32 0, vars.table⟩ from rfl, hrun] at hreach
  exact Il.halts_of_reaches hnext hip hreach

theorem agrees_iff {rungs : List Rung} (h : WellNamed rungs) (vars : VarStore) :
    Agrees rungs vars ↔ (rungs.foldl Rung.outputs vars).Same (rungs.foldl Rung.scan vars) := by
  obtain ⟨program, hprogram, hrun⟩ := ladder_run h
  -- only coils make a difference
  have hcoils : (rungs.foldl Rung.outputs vars).Same (rungs.foldl Rung.scan vars) ↔
      ∀ y ∈ coilVars rungs, (rungs.foldl Rung.outputs vars).getBool y = (rungs.foldl Rung.scan vars).getBool y := by
    constructor
    · exact fun hsame y _ => hsame y
    · intro hsame y
      by_cases hy : y ∈ coilVars rungs
      · exact hsame y hy
      · obtain ⟨hleft, hright⟩ := foldl_no_coil hy vars
        rw [hleft, hright]
  have hread : ∀ {vm' : Vm}, vm'.signals = (rungs.foldl Rung.outputs vars).table → ∀ y,
      (vm'.readSignal y).getD (.bool false) = .bool ((rungs.foldl Rung.outputs vars).getBool y) := by
    intro vm' hsignals y
    rw [← table_getD, ← hsignals]
    rfl
  rw [hcoils]
  constructor
  · intro hagree y hy
    have hne : rungs ≠ [] := by
      rintro rfl
      cases hy
    obtain ⟨program', hprogram', hrest⟩ := hagree _ (ldCompile_ladder h hne)
    rw [hprogram] at hprogram'
    cases hprogram'
    obtain ⟨fuel, hfuel⟩ : ∃ fuel, ∀ rung ∈ rungs, rung.contacts.length < fuel :=
      ⟨(rungs.map Rung.contacts).flatten.length + 1, fun rung hrung =>
        Nat.lt_succ_of_le (sublist_flatten_of_mem (mem_map_of_mem hrung)).length_le⟩
    obtain ⟨result, hresult, hall⟩ := hrest fuel hfuel
    obtain ⟨result', hresult', hvars⟩ := ladderCycle_eq hfuel vars
    rw [hresult] at hresult'
    cases hresult'
    obtain ⟨vm', hruns, hsignal⟩ := hall Vm.new
    obtain ⟨vm'', hhalts, hsignals⟩ := hrun vars Vm.new
    rw [((runToHalt_iff _ _ _).1 hruns).det hhalts] at hsignal
    have hy' := hsignal y hy
    rw [hread hsignals, hvars] at hy'
    exact HalValue.bool.inj hy'
  · intro hsame il hil
    have hne : rungs ≠ [] := by
      rintro rfl
      rw [ldCompile_nil] at hil
      cases hil
    rw [ldCompile_ladder h hne] at hil
    cases hil
    refine ⟨program, hprogram, ?_⟩
    intro fuel hfuel
    obtain ⟨result, hresult, hvars⟩ := ladderCycle_eq hfuel vars
    refine ⟨result, hresult, ?_⟩
    intro vm
    obtain ⟨vm', hhalts, hsignals⟩ := hrun vars vm
    refine ⟨vm', (runToHalt_iff _ _ _).2 hhalts, ?_⟩
    intro y hy
    rw [hread hsignals, hvars, hsame y hy]

omit [Target] in
theorem WellNamed.take {rungs : List Rung} (h : WellNamed rungs) (n : Nat) : WellNamed (rungs.take n) where
  ten := by
    obtain ⟨names, hlen, hnames⟩ := h.ten
    exact ⟨names, hlen, fun rung hrung => hnames rung (mem_of_mem_take hrung)⟩
  name rung hrung := h.name rung (mem_of_mem_take hrung)
  upper rung hrung := h.upper rung (mem_of_mem_take hrung)

/-- **Compiled ladders and the scan cycle** agree where no rung has a latching coil that changes its variable, and
they agree after every rung exactly there. -/
theorem ladder_iff {rungs : List Rung} (h : WellNamed rungs) (vars : VarStore) :
    (Undisturbed vars rungs → Agrees rungs vars) ∧
      ((∀ n, Agrees (rungs.take n) vars) ↔ Undisturbed vars rungs) := by
  have hiff : (∀ n, Agrees (rungs.take n) vars) ↔ Undisturbed vars rungs := by
    rw [← undisturbed_iff fun x => rfl]
    exact forall_congr' fun n => agrees_iff (h.take n) vars
  refine ⟨?_, hiff⟩
  intro hundisturbed
  have hall := hiff.2 hundisturbed rungs.length
  rw [take_length] at hall
  exact hall

end

end Audesys.Ld

/-! ## Two ladders -/

namespace Audesys.Ld

open Audesys.Lib Audesys.Hal

local instance releaseLadder : Target := host false

local instance asciiCase : CaseMap := .ascii

/-- `X` is on. -/
def pressed : VarStore := ⟨fun x => some (decide (x = "X"))⟩

/-- `NO X`, `SET Y`. -/
def setRung : Rung := ⟨"1", ⟨true, "X"⟩, [], [⟨.set, "Y"⟩]⟩

def isAsciiName (x : String) : Bool :=
  !x.toList.isEmpty && x.toList.all fun c => !isWhitespace c && decide (c.toUpper = c) && decide (c ≠ '(')

/-- Names for `WellNamed`. -/
theorem wellNamed_of_ascii {rungs : List Rung} (names : List String) (hlen : names.length ≤ 10)
    (hnames : ∀ rung ∈ rungs, ∀ x ∈ rung.names, x ∈ names) (hchars : names.all isAsciiName = true) : WellNamed rungs := by
  have hname : ∀ x ∈ names, x.toList ≠ [] ∧ ∀ c ∈ x.toList, isWhitespace c = false ∧ c.toUpper = c ∧ c ≠ '(' := by
    intro x hx
    simpa [isAsciiName, and_assoc] using all_eq_true.1 hchars x hx
  refine ⟨⟨names, hlen, hnames⟩, ?_, ?_⟩
  · intro rung hrung x hx
    obtain ⟨hne, hall⟩ := hname x (hnames rung hrung x hx)
    exact ⟨⟨hne, fun c hc => (hall c hc).1⟩, fun hin => (hall _ hin).2.2 rfl⟩
  · intro rung hrung x hx c hc
    rw [show CaseMap.upper c = [c.toUpper] from rfl, ((hname x (hnames rung hrung x hx)).2 c hc).2.1]

/-- The coil is set in the scan cycle, and its signal stays off in the compiled code. -/
theorem setRung_disagrees : WellNamed [setRung] ∧ ¬ Agrees [setRung] pressed := by
  have hnamed : WellNamed [setRung] := wellNamed_of_ascii ["X", "Y"] (by decide) (by decide) (by decide)
  refine ⟨hnamed, ?_⟩
  rw [agrees_iff hnamed]
  intro hsame
  exact absurd (hsame "Y") (by decide)

/-- `NO X`, `NC Z`, `OUT Y`; then `NO Y`, `RESET L`. -/
def outRungs : List Rung :=
  [⟨"1", ⟨true, "X"⟩, [⟨false, "Z"⟩], [⟨.out, "Y"⟩]⟩, ⟨"2", ⟨true, "Y"⟩, [], [⟨.reset, "L"⟩]⟩]

/-- `L` was off before, so nothing is to be reset. -/
theorem outRungs_agree : Agrees outRungs pressed := by
  refine (ladder_iff (wellNamed_of_ascii ["X", "Y", "Z", "L"] (by decide) (by decide) (by decide)) pressed).1 ?_
  refine ⟨?_, ?_, trivial⟩
  · intro y
    by_cases hy : "Y" = y
    · simp [lastCoil, hy]
    · simp [lastCoil, hy]
  · intro y
    by_cases hy : "L" = y
    · subst hy
      exact fun _ => rfl
    · simp [lastCoil, hy]

end Audesys.Ld
