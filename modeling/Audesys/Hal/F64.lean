import Audesys.Hal.Value

/-!
# `Hal.F64` — doubles as the compilers compute with them

The motion compilers compute with `f64` while they compile: the operators of the format, and the functions of the
standard library. The functions are parameters, like the format itself.
-/

namespace Audesys.Hal

/-- What `f64` has besides its operators. `decimal m e` is the literal `m · 10⁻ᵉ`, and with no decimals also what
`as f64` makes of an integer. -/
class F64Math [Target] where
  decimal : Nat → Nat → Target.F64
  /-- `as u32`: towards zero, and saturating. -/
  toU32 : Target.F64 → UInt32
  abs : Target.F64 → Target.F64
  ceil : Target.F64 → Target.F64
  sqrt : Target.F64 → Target.F64
  min : Target.F64 → Target.F64 → Target.F64
  max : Target.F64 → Target.F64 → Target.F64
  hypot : Target.F64 → Target.F64 → Target.F64
  atan2 : Target.F64 → Target.F64 → Target.F64
  acos : Target.F64 → Target.F64
  cos : Target.F64 → Target.F64
  sin : Target.F64 → Target.F64
  /-- `std::f64::consts::PI`. -/
  pi : Target.F64
  /-- `{}` in a format string. -/
  display : Target.F64 → String

namespace F64

variable [Target]

scoped instance : Add Target.F64 := ⟨FloatFormat.add⟩
scoped instance : Sub Target.F64 := ⟨FloatFormat.sub⟩
scoped instance : Mul Target.F64 := ⟨FloatFormat.mul⟩
scoped instance : Div Target.F64 := ⟨FloatFormat.div⟩
scoped instance : Neg Target.F64 := ⟨FloatFormat.neg⟩

/-- `0.0`. -/
def zero : Target.F64 := FloatFormat.zero

/-- `a < b`; false when one of the two is not a number. -/
def lt (a b : Target.F64) : Bool := FloatFormat.partialCmp a b == some .lt

/-- `a > b`. -/
def gt (a b : Target.F64) : Bool := FloatFormat.partialCmp a b == some .gt

/-- `a >= b`. -/
def ge (a b : Target.F64) : Bool := FloatFormat.partialCmp a b == some .gt || FloatFormat.partialCmp a b == some .eq

/-- `a != b`. -/
def ne (a b : Target.F64) : Bool := !FloatFormat.beq a b

/-- `n as f64`. -/
def ofNat [F64Math] (n : Nat) : Target.F64 := F64Math.decimal n 0

/-- Coordinates taken as exact numbers: `==` is equality, with one zero and nothing that is not a number. -/
def ExactEq : Prop := ∀ a b : Target.F64, FloatFormat.beq a b = decide (a = b)

theorem ne_eq_true (h : ExactEq) {a b : Target.F64} : ne a b = true ↔ a ≠ b := by
  unfold ne
  rw [h a b, Bool.not_eq_true', decide_eq_false_iff_not]

end F64

/-! ## Fractions -/

/-- Fractions as a format. They have no encoding of fixed width, and nothing here reads one. -/
@[reducible] def fractionFormat : FloatFormat Rat where
  zero := 0
  add := (· + ·)
  sub := (· - ·)
  mul := (· * ·)
  div := (· / ·)
  rem a b := a - b * (if a / b < 0 then (a / b).ceil else (a / b).floor)
  neg := (- ·)
  partialCmp a b := if a < b then some .lt else if b < a then some .gt else some .eq
  beq a b := decide (a = b)
  toLeBytes _ := []
  ofLeBytes _ := 0
  decEq := inferInstance

/-- A build that computes with fractions. -/
@[reducible] def fractions : Target where
  overflowChecks := true
  F32 := Rat
  F64 := Rat
  f32 := fractionFormat
  f64 := fractionFormat
  narrow a := a

/-- The least number whose square is at least `n`. -/
def rootUp (n : Nat) : Nat := ((List.range (n + 1)).find? fun k => decide (n ≤ k * k)).getD 0

/-- The square root of the square of a fraction. -/
def fractionSqrt (a : Rat) : Rat := rootUp a.num.toNat / rootUp a.den

/-- The functions on fractions. The circular ones have no values among the fractions; arcs are not computed on this
machine. -/
@[reducible] def fractionMath : @F64Math fractions :=
  letI := fractions
  { decimal := fun m e => (m : Rat) / ((10 ^ e : Nat) : Rat)
    toU32 := fun (a : Rat) => .ofNat (Nat.min a.floor.toNat (2 ^ 32 - 1))
    abs := fun (a : Rat) => if a < 0 then -a else a
    ceil := fun (a : Rat) => (a.ceil : Rat)
    sqrt := fractionSqrt
    min := fun (a b : Rat) => if b < a then b else a
    max := fun (a b : Rat) => if a < b then b else a
    hypot := fun (a b : Rat) => fractionSqrt (a * a + b * b)
    atan2 := fun _ _ => (0 : Rat)
    acos := fun _ => (0 : Rat)
    cos := fun _ => (0 : Rat)
    sin := fun _ => (0 : Rat)
    pi := (355 / 113 : Rat)
    display := fun (a : Rat) => toString a }

end Audesys.Hal
