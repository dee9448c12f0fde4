import Audesys.Hal.F64
import Mathlib

/-!
# `Hal.Reals` — doubles taken as exact numbers

Statements about the arithmetic of the motion compilers, apart from its rounding, are statements about a build whose
doubles are the real numbers: every operator and every function of the standard library is the exact one. The fractions
are among them, and roots and circular functions have their values.
-/

namespace Audesys.Hal

/-- Real numbers as a format. They have no encoding of fixed width, and nothing here reads one. -/
@[reducible] noncomputable def realFormat : FloatFormat ℝ where
  zero := 0
  add := (· + ·)
  sub := (· - ·)
  mul := (· * ·)
  div := (· / ·)
  rem a b := a - b * (if a / b < 0 then (⌈a / b⌉ : ℝ) else (⌊a / b⌋ : ℝ))
  neg := (- ·)
  partialCmp a b := if a < b then some .lt else if b < a then some .gt else some .eq
  beq a b := decide (a = b)
  toLeBytes _ := []
  ofLeBytes _ := 0
  decEq := inferInstance

namespace Exact

/-! The numerals of definitions over the reals are made with these instances. -/

theorem atLeastTwo_two : Nat.AtLeastTwo 2 := ⟨le_rfl⟩

theorem atLeastTwo_ten : Nat.AtLeastTwo 10 := ⟨by decide⟩

theorem atLeastTwo_sixty : Nat.AtLeastTwo 60 := ⟨by decide⟩

/-- A build whose doubles are real numbers, with or without the checks for overflow of its machine integers. -/
class Build where
  overflowChecks : Bool

variable [Build]

@[reducible] noncomputable scoped instance reals : Target where
  overflowChecks := Build.overflowChecks
  F32 := ℝ
  F64 := ℝ
  f32 := realFormat
  f64 := realFormat
  narrow a := a

/-- The functions on real numbers. A real number has no text. -/
@[reducible] noncomputable scoped instance realMath : F64Math where
  decimal m e := (m : ℝ) / 10 ^ e
  toU32 := fun (a : ℝ) => .ofNat (Nat.min ⌊a⌋₊ (2 ^ 32 - 1))
  abs := (abs : ℝ → ℝ)
  ceil := fun (a : ℝ) => (⌈a⌉ : ℝ)
  sqrt := Real.sqrt
  min := (Min.min : ℝ → ℝ → ℝ)
  max := (Max.max : ℝ → ℝ → ℝ)
  hypot := fun (a b : ℝ) => Real.sqrt (a * a + b * b)
  atan2 := fun (b a : ℝ) => Complex.arg ⟨a, b⟩
  acos := Real.arccos
  cos := Real.cos
  sin := Real.sin
  pi := Real.pi
  display _ := ""

/-! ## Literals -/

theorem decimal_one (e : Nat) : (F64Math.decimal 1 e : Target.F64) = (1 / 10 ^ e : ℝ) := by
  show ((1 : ℕ) : ℝ) / 10 ^ e = 1 / 10 ^ e
  rw [Nat.cast_one]

theorem ofNat_eq (n : Nat) : (F64.ofNat n : Target.F64) = (n : ℝ) := by
  show (n : ℝ) / 10 ^ 0 = n
  rw [pow_zero, div_one]

/-! ## The number that a double is -/

/-- The number that a double is. -/
def real (a : Target.F64) : ℝ := a

section
open F64
variable (a b : Target.F64)

@[simp] theorem real_add : real (a + b) = real a + real b := rfl
@[simp] theorem real_sub : real (a - b) = real a - real b := rfl
@[simp] theorem real_mul : real (a * b) = real a * real b := rfl
@[simp] theorem real_div : real (a / b) = real a / real b := rfl
@[simp] theorem real_zero : real zero = 0 := rfl
@[simp] theorem real_abs : real (F64Math.abs a) = |real a| := rfl
@[simp] theorem real_ceil : real (F64Math.ceil a) = ⌈real a⌉ := rfl
@[simp] theorem real_max : real (F64Math.max a b) = max (real a) (real b) := rfl
@[simp] theorem real_ofNat (n : Nat) : real (ofNat n) = n := ofNat_eq n
@[simp] theorem real_decimal (m e : Nat) : real (F64Math.decimal m e) = m / 10 ^ e := rfl

end

/-! ## Comparisons -/

theorem lt_iff {a b : ℝ} : F64.lt (a : Target.F64) b = true ↔ a < b := by
  show ((if a < b then some Ordering.lt else if b < a then some .gt else some .eq) == some Ordering.lt) = true ↔ a < b
  split
  · next h => exact iff_of_true rfl h
  · next h =>
    split
    · exact iff_of_false Bool.false_ne_true h
    · exact iff_of_false Bool.false_ne_true h

theorem gt_iff {a b : ℝ} : F64.gt (a : Target.F64) b = true ↔ b < a := by
  show ((if a < b then some Ordering.lt else if b < a then some .gt else some .eq) == some Ordering.gt) = true ↔ b < a
  split
  · next h => exact iff_of_false Bool.false_ne_true h.not_gt
  · split
    · next h => exact iff_of_true rfl h
    · next h => exact iff_of_false Bool.false_ne_true h

theorem real_lt_iff {a b : Target.F64} : F64.lt a b = true ↔ real a < real b := lt_iff

theorem real_gt_iff {a b : Target.F64} : F64.gt a b = true ↔ real b < real a := gt_iff

/-- `as u32`. -/
theorem toNat_toU32 (a : Target.F64) : (F64Math.toU32 a).toNat = min ⌊real a⌋₊ (2 ^ 32 - 1) := by
  show (UInt32.ofNat (Nat.min ⌊real a⌋₊ (2 ^ 32 - 1))).toNat = _
  rw [UInt32.toNat_ofNat']
  exact Nat.mod_eq_of_lt (Nat.lt_of_le_of_lt (Nat.min_le_right _ _) (by decide))

/-- Cycles are counted up, and are exact as long as they fit. -/
theorem toU32_ceil {a : Target.F64} (h : ⌈real a⌉₊ < 2 ^ 32) : (F64Math.toU32 (F64Math.ceil a)).toNat = ⌈real a⌉₊ := by
  rw [toNat_toU32, real_ceil, ← Int.floor_toNat, Int.floor_intCast, Int.ceil_toNat]
  exact Nat.min_eq_left (Nat.le_sub_one_of_lt h)

end Exact

end Audesys.Hal
