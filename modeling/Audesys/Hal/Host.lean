import Audesys.Hal.Value

/-!
# `Hal.Host` — the IEEE formats on bit patterns

A concrete `Target`: floats are their bit patterns, computed on by the machine's own operations. `%` on
floats is Rust's `fmod` (truncated, the sign of the dividend), which is exact, so it is computed on the
decoded mantissas.
-/

namespace Audesys.Hal

/-- Field widths of a binary interchange format. -/
structure Layout where
  fracBits : Nat
  expBits : Nat

namespace Layout

def bias (l : Layout) : Int := 2 ^ (l.expBits - 1) - 1 + l.fracBits

def frac (l : Layout) (bits : Nat) : Nat := bits % 2 ^ l.fracBits
def expo (l : Layout) (bits : Nat) : Nat := bits / 2 ^ l.fracBits % 2 ^ l.expBits
def negative (l : Layout) (bits : Nat) : Bool := bits / 2 ^ (l.fracBits + l.expBits) % 2 == 1

/-- The mantissa with its hidden bit. -/
def mantissa (l : Layout) (bits : Nat) : Nat :=
  if l.expo bits = 0 then l.frac bits else l.frac bits + 2 ^ l.fracBits

/-- The exponent that goes with `mantissa`. -/
def exponent (l : Layout) (bits : Nat) : Int := max (l.expo bits) 1 - l.bias

def special (l : Layout) (bits : Nat) : Bool := l.expo bits == 2 ^ l.expBits - 1

/-- The remainder of two finite numbers as `r * 2 ^ e`, without the sign. -/
def remParts (l : Layout) (x y : Nat) : Nat × Int :=
  let e := min (l.exponent x) (l.exponent y)
  (l.mantissa x * 2 ^ (l.exponent x - e).toNat % (l.mantissa y * 2 ^ (l.exponent y - e).toNat), e)

end Layout

def binary32 : Layout := ⟨23, 8⟩
def binary64 : Layout := ⟨52, 11⟩

/-- `a % b` on `f32`. -/
def rem32 (a b : UInt32) : UInt32 :=
  let x := a.toNat
  let y := b.toNat
  if binary32.special x || (binary32.special y && binary32.frac y != 0) || binary32.mantissa y == 0 then
    (0.0 / 0.0 : Float32).toBits
  else if binary32.special y then a
  else
    let (r, e) := binary32.remParts x y
    let f := (Float32.ofNat r).scaleB e
    (if binary32.negative x then -f else f).toBits

/-- `a % b` on `f64`. -/
def rem64 (a b : UInt64) : UInt64 :=
  let x := a.toNat
  let y := b.toNat
  if binary64.special x || (binary64.special y && binary64.frac y != 0) || binary64.mantissa y == 0 then
    (0.0 / 0.0 : Float).toBits
  else if binary64.special y then a
  else
    let (r, e) := binary64.remParts x y
    let f := (Float.ofNat r).scaleB e
    (if binary64.negative x then -f else f).toBits

@[reducible] def ieee32 : FloatFormat UInt32 where
  zero := 0
  add a b := (Float32.ofBits a + Float32.ofBits b).toBits
  sub a b := (Float32.ofBits a - Float32.ofBits b).toBits
  mul a b := (Float32.ofBits a * Float32.ofBits b).toBits
  div a b := (Float32.ofBits a / Float32.ofBits b).toBits
  rem := rem32
  neg a := (-Float32.ofBits a).toBits
  partialCmp a b :=
    if Float32.ofBits a < Float32.ofBits b then some .lt
    else if Float32.ofBits b < Float32.ofBits a then some .gt
    else if Float32.ofBits a == Float32.ofBits b then some .eq
    else none
  beq a b := Float32.ofBits a == Float32.ofBits b
  toLeBytes a := MachineInt.leBytes 4 a.toNat
  ofLeBytes bs := UInt32.ofNat (MachineInt.leNat bs)
  decEq := inferInstance

@[reducible] def ieee64 : FloatFormat UInt64 where
  zero := 0
  add a b := (Float.ofBits a + Float.ofBits b).toBits
  sub a b := (Float.ofBits a - Float.ofBits b).toBits
  mul a b := (Float.ofBits a * Float.ofBits b).toBits
  div a b := (Float.ofBits a / Float.ofBits b).toBits
  rem := rem64
  neg a := (-Float.ofBits a).toBits
  partialCmp a b :=
    if Float.ofBits a < Float.ofBits b then some .lt
    else if Float.ofBits b < Float.ofBits a then some .gt
    else if Float.ofBits a == Float.ofBits b then some .eq
    else none
  beq a b := Float.ofBits a == Float.ofBits b
  toLeBytes a := MachineInt.leBytes 8 a.toNat
  ofLeBytes bs := UInt64.ofNat (MachineInt.leNat bs)
  decEq := inferInstance

/-- The runtime on an IEEE machine, with or without overflow checks. -/
@[reducible] def host (overflowChecks : Bool) : Target where
  overflowChecks := overflowChecks
  F32 := UInt32
  F64 := UInt64
  f32 := ieee32
  f64 := ieee64
  narrow a := (Float.ofBits a).toFloat32.toBits

end Audesys.Hal
