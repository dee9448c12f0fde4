import Audesys.Hal.Symbolic
import Audesys.Hal.Host

/-!
# `Cnc.Config` — axis groups and the names of their signals

What the generators of the axis-group crate read of a configuration (`config.rs`), and how they name signals: the
signals of an axis by the group, the index of the axis and a suffix. A suffix has no dot in it, so from the name of
a signal one reads off both parts (`signal_inj`).
-/

namespace Audesys.Cnc

open Audesys.Hal

/-! ## Signal names -/

/-- `format!("{}.{}", prefix, suffix)`. -/
def signal (pfx suffix : String) : String := pfx ++ "." ++ suffix

/-- `format!("{}_{}", prefix.replace('.', "_"), suffix)`. -/
def programVar (pfx suffix : String) : String :=
  String.ofList (pfx.toList.map fun c => if c = '.' then '_' else c) ++ "_" ++ suffix

/-- The binding of an axis signal. -/
def axisBinding (pfx suffix : String) (direction : Direction) (halPinType : HalPinType) : SignalBinding :=
  ⟨signal pfx suffix, programVar pfx suffix, direction, halPinType⟩

def Dotless (s : String) : Prop := s.toList.all (fun c => c != '.') = true

instance (s : String) : Decidable (Dotless s) := inferInstanceAs (Decidable (_ = _))

theorem Dotless.not_mem {s : String} (h : Dotless s) : '.' ∉ s.toList := by
  intro hmem
  have hne := List.all_eq_true.1 h '.' hmem
  exact absurd hne (by decide)

/-- The last dot of a text is where it is. -/
theorem append_dot_inj {p q a b : List Char} (ha : '.' ∉ a) (hb : '.' ∉ b) (h : p ++ '.' :: a = q ++ '.' :: b) :
    p = q ∧ a = b := by
  rcases List.append_eq_append_iff.1 h with ⟨m, hq, hm⟩ | ⟨m, hp, hm⟩
  · cases m with
    | nil =>
      rw [List.append_nil] at hq
      rw [List.nil_append, List.cons.injEq] at hm
      exact ⟨hq.symm, hm.2⟩
    | cons c m =>
      -- a dot of the second name would stand in the first suffix
      rw [List.cons_append, List.cons.injEq] at hm
      refine absurd ?_ ha
      rw [hm.2]
      exact List.mem_append_right _ (List.mem_cons_self ..)
  · cases m with
    | nil =>
      rw [List.append_nil] at hp
      rw [List.nil_append, List.cons.injEq] at hm
      exact ⟨hp, hm.2.symm⟩
    | cons c m =>
      rw [List.cons_append, List.cons.injEq] at hm
      refine absurd ?_ hb
      rw [hm.2]
      exact List.mem_append_right _ (List.mem_cons_self ..)

theorem signal_toList (pfx suffix : String) : (signal pfx suffix).toList = pfx.toList ++ '.' :: suffix.toList := by
  unfold signal
  rw [String.toList_append, String.toList_append, List.append_assoc]
  rfl

/-- The name of a signal tells the prefix and the suffix. -/
theorem signal_inj {p q a b : String} (ha : Dotless a) (hb : Dotless b) : signal p a = signal q b ↔ p = q ∧ a = b := by
  constructor
  · intro h
    have hlist := congrArg String.toList h
    rw [signal_toList, signal_toList] at hlist
    obtain ⟨hp, hab⟩ := append_dot_inj ha.not_mem hb.not_mem hlist
    exact ⟨String.toList_inj.1 hp, String.toList_inj.1 hab⟩
  · rintro ⟨rfl, rfl⟩
    rfl

theorem signal_ne {p q a b : String} (ha : Dotless a) (hb : Dotless b) (hab : a ≠ b) : signal p a ≠ signal q b := by
  intro h
  exact hab ((signal_inj ha hb).1 h).2

/-! ## Configurations -/

variable [Target]

/-- The literals of the generators besides `0.0`, which the format has, and `as f64` on a `u8`. -/
class F64Literals where
  one : Target.F64
  ofU8 : UInt8 → Target.F64

variable [F64Literals]

/-- `0.0`, `1.0` and `-1.0`. -/
def f0 : Target.F64 := FloatFormat.zero
def f1 : Target.F64 := F64Literals.one
def fm1 : Target.F64 := FloatFormat.neg f1

inductive HomeDirection where
  | positive | negative
  deriving DecidableEq

def HomeDirection.multiplier : HomeDirection → Target.F64
  | .positive => f1
  | .negative => fm1

structure AxisConfig where
  index : UInt8
  softLimitMin : Target.F64
  softLimitMax : Target.F64
  softLimitEnable : Bool
  backlashDistance : Target.F64
  backlashEnable : Bool
  homeSearchVel : Target.F64
  homeLatchVel : Target.F64
  homeOffset : Target.F64
  homeDirection : HomeDirection

structure AxisGroupConfig where
  name : String
  axes : List AxisConfig

def AxisGroupConfig.signalPrefix (cfg : AxisGroupConfig) (axisIndex : UInt8) : String :=
  "group." ++ cfg.name ++ ".axis." ++ toString axisIndex.toNat

/-- A flag that is set: `true`, or a double other than zero. -/
def isSet : HalValue → Bool
  | .bool b => b
  | .f64 x => decide (x ≠ f0)
  | _ => false

/-! ## Doubles -/

/-- Doubles taken as exact: a linear order without NaN, in which a copy by adding zero and a product with one are what
they should be. -/
structure ExactF64 [LinearOrder Target.F64] : Prop where
  partialCmp_eq : ∀ a b : Target.F64, FloatFormat.partialCmp a b = some (compare a b)
  beq_eq : ∀ a b : Target.F64, FloatFormat.beq a b = decide (a = b)
  add_zero : ∀ a : Target.F64, FloatFormat.add a f0 = a
  mul_one : ∀ a : Target.F64, FloatFormat.mul a f1 = a
  zero_lt_one : (f0 : Target.F64) < f1

/-- What holds of the literals on every machine. -/
structure LiteralLaws : Prop where
  zero_add_zero : FloatFormat.add (f0 : Target.F64) f0 = f0
  one_add_zero : FloatFormat.add (f1 : Target.F64) f0 = f1
  ofU8_zero : F64Literals.ofU8 0 = (f0 : Target.F64)
  ofU8_one : F64Literals.ofU8 1 = (f1 : Target.F64)
  ofU8_inj : ∀ m n, F64Literals.ofU8 m = (F64Literals.ofU8 n : Target.F64) → m = n

end Audesys.Cnc

/-! ## Two machines -/

namespace Audesys.Cnc

open Audesys.Hal

/-- The literals on an IEEE machine. -/
@[reducible] def hostLiterals (overflowChecks : Bool) : @F64Literals (host overflowChecks) :=
  letI := host overflowChecks
  { one := (0x3FF0000000000000 : UInt64), ofU8 := fun n => (Float.ofNat n.toNat).toBits }

/-- Whole numbers as a format: what an IEEE format does on small whole numbers, without its bounds. -/
@[reducible] def wholeFormat : FloatFormat Int where
  zero := 0
  add := (· + ·)
  sub := (· - ·)
  mul := (· * ·)
  div := Int.tdiv
  rem := Int.tmod
  neg := (- ·)
  partialCmp a b := some (compare a b)
  beq a b := decide (a = b)
  toLeBytes a := MachineInt.leBytes 8 (a % 2 ^ 64).toNat
  ofLeBytes bs := MachineInt.leNat bs
  decEq := inferInstance

/-- A release build that computes with whole numbers. -/
@[reducible] def whole : Target where
  overflowChecks := false
  F32 := Int
  F64 := Int
  f32 := wholeFormat
  f64 := wholeFormat
  narrow a := a

@[reducible] def wholeLiterals : @F64Literals whole :=
  letI := whole
  { one := (1 : Int), ofU8 := fun n => (n.toNat : Int) }

local instance wholeTarget : Target := whole
local instance wholeTargetLiterals : F64Literals := wholeLiterals
local instance wholeOrder : LinearOrder Target.F64 := inferInstanceAs (LinearOrder Int)

theorem exactF64_whole : ExactF64 := ⟨fun _ _ => rfl, fun _ _ => rfl, Int.add_zero, Int.mul_one, Int.one_pos⟩

theorem literalLaws_whole : LiteralLaws :=
  ⟨rfl, rfl, rfl, rfl, fun _ _ h => UInt8.toNat_inj.1 (Int.ofNat.inj h)⟩

end Audesys.Cnc
