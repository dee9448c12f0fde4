import Audesys.Ld.Network

/-!
# `Ld.Cycle` — one scan cycle over the rungs

`evaluate_cycle` evaluates the rungs from top to bottom: power flow, then the coils, then the store. Each call
starts with an empty `EdgeState`. The networks keep the orders they cached, so the rungs are part of the
result.
-/

namespace Audesys.Ld

/-! ## Coils -/

inductive CoilKind where
  | out | set | reset | negated
  deriving DecidableEq

structure Coil where
  var : String
  kind : CoilKind
  deriving DecidableEq

inductive CoilType where
  | normal | negated | set | reset
  deriving DecidableEq

inductive ContactType where
  | no | nc
  deriving DecidableEq

/-! ## States of a rung -/

structure ContactState where
  contactId : String
  contactType : ContactType
  isClosed : Bool
  deriving DecidableEq

structure CoilState where
  coilId : String
  coilType : CoilType
  energized : Bool
  deriving DecidableEq

structure RungState where
  rungId : String
  contactStates : List ContactState
  coilStates : List CoilState
  deriving DecidableEq

structure PowerFlowResult where
  rungStates : List RungState
  poweredCoils : List String
  deriving DecidableEq

/-- The variables of the program, across cycles. -/
structure VarStore where
  values : String → Option Bool

namespace VarStore

def getBool (vars : VarStore) (var : String) : Bool := (vars.values var).getD false

def setBool (vars : VarStore) (var : String) (value : Bool) : VarStore :=
  ⟨Function.update vars.values var (some value)⟩

theorem getBool_setBool (vars : VarStore) (var : String) (value : Bool) (v : String) :
    (vars.setBool var value).getBool v = if v = var then value else vars.getBool v := by
  show (Function.update vars.values var (some value) v).getD false = _
  rw [Function.update_apply]
  split
  · rfl
  · rfl

def snapshot (vars : VarStore) : InputSnapshot := ⟨vars.values⟩

/-- Store the states of the coils of a rung. -/
def setCoils (vars : VarStore) (states : List CoilState) : VarStore :=
  states.foldl (fun vars cs => vars.setBool cs.coilId cs.energized) vars

end VarStore

structure RungDef where
  id : String
  network : ContactNetwork
  coils : List Coil
  deriving DecidableEq

/-! ## The cycle -/

def contactState (snapshot : InputSnapshot) (edge : ContactEdge) : ContactState :=
  let contactType := match edge.contact with
    | .no _ | .posEdge _ => .no
    | .nc _ | .negEdge _ => .nc
  ⟨edge.contact.varName, contactType, edge.contact.isClosed snapshot⟩

def Coil.energized (coil : Coil) (power : Bool) (vars : VarStore) : Bool :=
  match coil.kind with
  | .out => power
  | .negated => !power
  | .set => if power then true else vars.getBool coil.var
  | .reset => if power then false else vars.getBool coil.var

def coilState (power : Bool) (vars : VarStore) (coil : Coil) : CoilState :=
  let coilType := match coil.kind with
    | .out => .normal
    | .negated => .negated
    | .set => .set
    | .reset => .reset
  ⟨coil.var, coilType, coil.energized power vars⟩

/-- What `evaluate_cycle` carries from rung to rung. -/
structure Scan where
  vars : VarStore
  snapshot : InputSnapshot
  edgeState : EdgeState
  rungStates : List RungState
  poweredCoils : List String
  rungs : List RungDef
  evaluations : List Evaluation

def Scan.start (vars : VarStore) : Scan := ⟨vars, vars.snapshot, .new, [], [], [], []⟩

/-- One rung. -/
def Scan.rung (fuel : Nat) (s : Scan) (rung : RungDef) : Option Scan := do
  let r ← evaluatePowerFlow fuel rung.network s.snapshot s.edgeState
  let coilStates := rung.coils.map (coilState r.power s.vars)
  let vars := s.vars.setCoils coilStates
  some
    { vars
      snapshot := vars.snapshot
      edgeState := r.edgeState
      rungStates := s.rungStates ++ [⟨rung.id, r.network.edges.map (contactState s.snapshot), coilStates⟩]
      poweredCoils := s.poweredCoils ++ (coilStates.filter CoilState.energized).map CoilState.coilId
      rungs := s.rungs ++ [{ rung with network := r.network }]
      evaluations := s.evaluations ++ r.evaluations }

structure CycleResult where
  result : PowerFlowResult
  vars : VarStore
  rungs : List RungDef
  evaluations : List Evaluation

/-- `evaluate_cycle`. The edge state that `advance_cycle` completes is dropped at the end. -/
def evaluateCycle (fuel : Nat) (rungs : List RungDef) (vars : VarStore) : Option CycleResult := do
  let s ← rungs.foldlM (Scan.rung fuel) (.start vars)
  some ⟨⟨s.rungStates, s.poweredCoils⟩, s.vars, s.rungs, s.evaluations⟩

end Audesys.Ld
