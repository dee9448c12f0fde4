import Mathlib

/-!
# `Lib.Turn` — turns in the plane

Directions are nonzero complex numbers. The counter-clockwise turn that takes one direction to another is a number in
`[0, 2π)`, computed from the two arguments; whether it is less or more than half a turn is the sign of a product of
coordinates, which no argument enters.
-/

namespace Audesys.Turn

open Complex

/-- Twice the signed area between two directions: positive where the second lies to the left of the first. -/
def cross (u v : ℂ) : ℝ := u.re * v.im - u.im * v.re

/-- The counter-clockwise turn from `u` to `v`. -/
noncomputable def turn (u v : ℂ) : ℝ :=
  if v.arg - u.arg < 0 then v.arg - u.arg + 2 * Real.pi else v.arg - u.arg

/-- The ends of a segment turn about a point the way the point lies beside the segment. -/
theorem cross_sub_sub (a b c : ℂ) : cross (a - c) (b - c) = cross (b - a) (c - a) := by
  unfold cross
  simp only [sub_re, sub_im]
  ring

/-- Two directions with an area between them are directions. -/
theorem ne_zero_of_cross {u v : ℂ} (h : cross u v ≠ 0) : u ≠ 0 ∧ v ≠ 0 := by
  constructor
  · rintro rfl
    refine h ?_
    unfold cross
    rw [zero_re, zero_im, zero_mul, zero_mul, sub_zero]
  · rintro rfl
    refine h ?_
    unfold cross
    rw [zero_re, zero_im, mul_zero, mul_zero, sub_zero]

/-! ## The sine of a turn -/

/-- The arguments give the turn up to a whole one, so they give its sine. -/
theorem sin_turn (u v : ℂ) : Real.sin (turn u v) = Real.sin (v.arg - u.arg) := by
  unfold turn
  split
  · exact Real.sin_add_two_pi _
  · rfl

/-- **The sine of a turn** is the area between the directions, over their lengths. -/
theorem sin_turn_mul {u v : ℂ} (hu : u ≠ 0) (hv : v ≠ 0) : Real.sin (turn u v) * (‖u‖ * ‖v‖) = cross u v := by
  have hnu : ‖u‖ ≠ 0 := norm_ne_zero_iff.2 hu
  have hnv : ‖v‖ ≠ 0 := norm_ne_zero_iff.2 hv
  rw [sin_turn, Real.sin_sub, sin_arg, sin_arg, cos_arg hu, cos_arg hv]
  unfold cross
  field_simp

/-! ## The range of a turn -/

theorem turn_nonneg (u v : ℂ) : 0 ≤ turn u v := by
  unfold turn
  split
  · -- the arguments are less than a whole turn apart
    have hv := neg_pi_lt_arg v
    have hu := arg_le_pi u
    linarith
  · next h => exact not_lt.1 h

theorem turn_lt_two_pi (u v : ℂ) : turn u v < 2 * Real.pi := by
  unfold turn
  split
  · next h => linarith
  · have hv := arg_le_pi v
    have hu := neg_pi_lt_arg u
    linarith

/-! ## Half a turn -/

/-- **Less than half a turn.** A direction to the left is reached counter-clockwise within half a turn. -/
theorem turn_lt_pi {u v : ℂ} (h : 0 < cross u v) : turn u v < Real.pi := by
  obtain ⟨hu, hv⟩ := ne_zero_of_cross h.ne'
  by_contra hge
  have hle : Real.pi ≤ turn u v := not_lt.1 hge
  -- beyond half a turn no sine is positive
  have hsin : Real.sin (turn u v - 2 * Real.pi) ≤ 0 :=
    Real.sin_nonpos_of_nonpos_of_neg_pi_le (by linarith [turn_lt_two_pi u v]) (by linarith)
  rw [Real.sin_sub_two_pi] at hsin
  have hcross := sin_turn_mul hu hv
  have hprod : 0 < ‖u‖ * ‖v‖ := mul_pos (norm_pos_iff.2 hu) (norm_pos_iff.2 hv)
  have hnonpos : Real.sin (turn u v) * (‖u‖ * ‖v‖) ≤ 0 := mul_nonpos_of_nonpos_of_nonneg hsin hprod.le
  linarith

/-- **More than half a turn.** A direction to the right is reached counter-clockwise beyond half a turn. -/
theorem pi_lt_turn {u v : ℂ} (h : cross u v < 0) : Real.pi < turn u v := by
  obtain ⟨hu, hv⟩ := ne_zero_of_cross h.ne
  by_contra hle
  have hge : turn u v ≤ Real.pi := not_lt.1 hle
  have hsin : 0 ≤ Real.sin (turn u v) := Real.sin_nonneg_of_nonneg_of_le_pi (turn_nonneg u v) hge
  have hcross := sin_turn_mul hu hv
  have hprod : 0 < ‖u‖ * ‖v‖ := mul_pos (norm_pos_iff.2 hu) (norm_pos_iff.2 hv)
  have hnonneg : 0 ≤ Real.sin (turn u v) * (‖u‖ * ‖v‖) := mul_nonneg hsin hprod.le
  linarith

end Audesys.Turn
