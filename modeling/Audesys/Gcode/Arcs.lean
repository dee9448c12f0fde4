import Audesys.Gcode.Compiler
import Audesys.Hal.Reals
import Audesys.Lib.Turn

/-!
# `Gcode.Arcs` — the side of the centre of an arc

An arc in R format gives its radius and no centre. Two centres have that radius, one on either side of the chord, and
the word and the sign of the radius say which is meant: a positive radius is the arc of at most half a turn. Lengths and
angles are exact here.
-/

namespace Audesys.Gcode

open Audesys.Hal Audesys.Hal.F64 Audesys.Hal.Exact Audesys.Turn Audesys.Cnc.Motion

variable {r : ℝ}

attribute [local instance] atLeastTwo_two atLeastTwo_ten atLeastTwo_sixty

variable [Build]

/-! ## What is programmed -/

/-- Where a state stands in a plane: G18 is ZX and G19 is YZ, so that the third axis points at the reader. -/
noncomputable def inPlane (plane : Nat) (state : ModalState) : ℂ :=
  if plane = 18 then ⟨state.currentZ, state.currentX⟩
  else if plane = 19 then ⟨state.currentY, state.currentZ⟩
  else ⟨state.currentX, state.currentY⟩

omit [Build] in
/-- **An arc bends the programmed way.** The centre is to the right of the chord for G2 with a positive radius and for
G3 with a negative one, and to its left for the other two; a positive radius sweeps half a turn at most, and a negative
one more. -/
structure Bends (gCode : Nat) (r : ℝ) (start stop center : ℂ) (sweep : ℝ) : Prop where
  right : (gCode = 2 ∧ 0 < r) ∨ (gCode = 3 ∧ r < 0) → cross (stop - start) (center - start) < 0
  left : (gCode = 3 ∧ 0 < r) ∨ (gCode = 2 ∧ r < 0) → 0 < cross (stop - start) (center - start)
  short : 0 < r → |sweep| ≤ Real.pi
  long : r < 0 → Real.pi < |sweep|

/-! ## The axes of the plane -/

noncomputable def ArcAxes.start (axes : ArcAxes) : ℂ := ⟨axes.startA, axes.startB⟩
noncomputable def ArcAxes.stop (axes : ArcAxes) : ℂ := ⟨axes.endA, axes.endB⟩

/-- A centre as a point. -/
noncomputable def point (center : Target.F64 × Target.F64) : ℂ := ⟨center.1, center.2⟩

/-- The three planes have axes, and the axes are those of the plane. -/
theorem exists_arcAxes {prev : ModalState} (next : ModalState)
    (hplane : prev.plane = 17 ∨ prev.plane = 18 ∨ prev.plane = 19) :
    ∃ axes, arcAxes prev next = some axes ∧ axes.start = inPlane prev.plane prev ∧
      axes.stop = inPlane prev.plane next := by
  unfold arcAxes inPlane
  rcases hplane with h | h | h
  · rw [h]
    exact ⟨_, rfl, rfl, rfl⟩
  · rw [h]
    exact ⟨_, rfl, rfl, rfl⟩
  · rw [h]
    exact ⟨_, rfl, rfl, rfl⟩

/-! ## The centre -/

/-- The distance of the centre from the chord. -/
noncomputable def centerOffset (r length : ℝ) : ℝ := Real.sqrt (max (|r| * |r| - length / 2 * (length / 2)) 0)

/-- The side that the sign of a radius takes. -/
noncomputable def radiusSign (r : ℝ) : ℝ := if 0 < r then 1 else -1

/-- The centre of an arc from a radius: from the middle of the chord, across it. -/
noncomputable def radiusCenter (r : ℝ) (start stop : ℂ) : ℝ × ℝ :=
  let length := ‖stop - start‖
  ((start.re + stop.re) / 2 + radiusSign r * (-(stop.im - start.im) / length) * centerOffset r length,
    (start.im + stop.im) / 2 + radiusSign r * ((stop.re - start.re) / length) * centerOffset r length)

/-- An R format gives no offsets. -/
def InRFormat (cmd : GCodeCommand) (r : ℝ) : Prop := cmd.i = none ∧ cmd.j = none ∧ cmd.k = none ∧ cmd.r = some r

theorem tolerance_eq : (tolerance : Target.F64) = (1 / 10 ^ 9 : ℝ) := decimal_one 9

theorem chordLen_eq (axes : ArcAxes) : F64Math.sqrt ((axes.endA - axes.startA) * (axes.endA - axes.startA) +
        (axes.endB - axes.startB) * (axes.endB - axes.startB)) = ‖axes.stop - axes.start‖ := by
  rw [Complex.norm_def, Complex.normSq_apply]
  rfl

theorem hypot_eq (axes : ArcAxes) :
    F64Math.hypot (axes.endA - axes.startA) (axes.endB - axes.startB) = ‖axes.stop - axes.start‖ := chordLen_eq axes

/-- A chord below the tolerance has no centre. -/
theorem calculateArcCenter_short {cmd : GCodeCommand} (h : InRFormat cmd r) {axes : ArcAxes} (plane : Nat)
    (hshort : ‖axes.stop - axes.start‖ < 1 / 10 ^ 9) :
    calculateArcCenter axes cmd plane = .error (.unsupported "zero-length arc with R") := by
  obtain ⟨hi, hj, hk, hr⟩ := h
  unfold calculateArcCenter
  rw [hi, hj, hk, hr]
  refine (if_neg Bool.false_ne_true).trans (if_pos ?_)
  rw [chordLen_eq, tolerance_eq]
  exact lt_iff.2 hshort

theorem ite_eq_radiusSign (r : ℝ) : (if gt (r : Target.F64) zero then ofNat 1 else -ofNat 1) = radiusSign r := by
  unfold radiusSign
  have hzero : (zero : Target.F64) = (0 : ℝ) := rfl
  rw [hzero, ofNat_eq, Nat.cast_one]
  by_cases h : 0 < r
  · rw [if_pos (gt_iff.2 h), if_pos h]
  · rw [if_neg (fun hgt => h (gt_iff.1 hgt)), if_neg h]

/-- A longer chord has one, where half of it is less than the radius. -/
theorem calculateArcCenter_long {cmd : GCodeCommand} (h : InRFormat cmd r) {axes : ArcAxes} (plane : Nat)
    (hlong : 1 / 10 ^ 9 ≤ ‖axes.stop - axes.start‖) (hradius : ‖axes.stop - axes.start‖ / 2 < |r|) :
    calculateArcCenter axes cmd plane = .ok (radiusCenter r axes.start axes.stop) := by
  obtain ⟨hi, hj, hk, hr⟩ := h
  unfold calculateArcCenter
  rw [hi, hj, hk, hr]
  refine (if_neg Bool.false_ne_true).trans ?_
  show (if _ then _ else if _ then _ else _) = _
  simp only [ite_eq_radiusSign]
  simp only [chordLen_eq, tolerance_eq, ofNat_eq, Nat.cast_ofNat]
  rw [if_neg, if_neg]
  · rfl
  · intro hlt
    have hsmall : |r| < ‖axes.stop - axes.start‖ / 2 - 1 / 10 ^ 9 := lt_iff.1 hlt
    linarith
  · intro hlt
    exact (lt_iff.1 hlt).not_ge hlong

/-! ## Where the centre is -/

section
omit [Build]

theorem centerOffset_pos {r length : ℝ} (hlength : 0 < length) (h : length / 2 < |r|) :
    0 < centerOffset r length := by
  refine Real.sqrt_pos.2 (lt_max_of_lt_left (sub_pos.2 ?_))
  exact mul_self_lt_mul_self (by linarith) h

theorem centerOffset_mul_self {r length : ℝ} (hlength : 0 < length) (h : length / 2 < |r|) :
    centerOffset r length * centerOffset r length = r * r - length / 2 * (length / 2) := by
  have hpos : 0 ≤ |r| * |r| - length / 2 * (length / 2) :=
    sub_nonneg.2 (mul_self_le_mul_self (by linarith) h.le)
  unfold centerOffset
  rw [max_eq_left hpos, Real.mul_self_sqrt hpos, abs_mul_abs_self]

theorem norm_mul_self (z : ℂ) : ‖z‖ * ‖z‖ = z.re * z.re + z.im * z.im := by
  rw [Complex.norm_mul_self_eq_normSq, Complex.normSq_apply]

theorem radiusSign_mul_self (r : ℝ) : radiusSign r * radiusSign r = 1 := by
  unfold radiusSign
  split
  · exact one_mul 1
  · rw [neg_mul_neg, one_mul]

end

/-- The way from the start to the centre, in multiples of the chord: half of it along, and so much of it across. -/
noncomputable def across (r length : ℝ) : ℝ := radiusSign r * centerOffset r length / length

section
omit [Build]

theorem radiusCenter_sub_start (r : ℝ) (start stop : ℂ) :
    (⟨(radiusCenter r start stop).1, (radiusCenter r start stop).2⟩ : ℂ) - start =
      ⟨(stop - start).re / 2 - across r ‖stop - start‖ * (stop - start).im,
        (stop - start).im / 2 + across r ‖stop - start‖ * (stop - start).re⟩ := by
  unfold radiusCenter across
  apply Complex.ext
  · simp only [Complex.sub_re, Complex.sub_im]
    ring
  · simp only [Complex.sub_re, Complex.sub_im]
    ring

/-- **The side of the centre.** It is as far from the chord as the radius asks, on the side of the sign. -/
theorem cross_radiusCenter (r : ℝ) {start stop : ℂ} (hlength : 0 < ‖stop - start‖) :
    cross (stop - start) (⟨(radiusCenter r start stop).1, (radiusCenter r start stop).2⟩ - start) =
      radiusSign r * centerOffset r ‖stop - start‖ * ‖stop - start‖ := by
  rw [radiusCenter_sub_start]
  unfold cross
  calc (stop - start).re * ((stop - start).im / 2 + across r ‖stop - start‖ * (stop - start).re) -
        (stop - start).im * ((stop - start).re / 2 - across r ‖stop - start‖ * (stop - start).im)
      = across r ‖stop - start‖ * (‖stop - start‖ * ‖stop - start‖) := by rw [norm_mul_self]; ring
    _ = radiusSign r * centerOffset r ‖stop - start‖ * ‖stop - start‖ := by
        unfold across
        field_simp

/-- The centre is at the radius from the start. -/
theorem norm_radiusCenter_sub_start {start stop : ℂ} (hlength : 0 < ‖stop - start‖)
    (h : ‖stop - start‖ / 2 < |r|) :
    ‖(⟨(radiusCenter r start stop).1, (radiusCenter r start stop).2⟩ : ℂ) - start‖ = |r| := by
  have hacross : across r ‖stop - start‖ * ‖stop - start‖ = radiusSign r * centerOffset r ‖stop - start‖ := by
    unfold across
    field_simp
  have hsign := radiusSign_mul_self r
  have hoffset := centerOffset_mul_self hlength h
  have hchord := norm_mul_self (stop - start)
  rw [radiusCenter_sub_start, Complex.norm_def, Complex.normSq_apply, ← Real.sqrt_mul_self_eq_abs]
  congr 1
  calc ((stop - start).re / 2 - across r ‖stop - start‖ * (stop - start).im) *
          ((stop - start).re / 2 - across r ‖stop - start‖ * (stop - start).im) +
        ((stop - start).im / 2 + across r ‖stop - start‖ * (stop - start).re) *
          ((stop - start).im / 2 + across r ‖stop - start‖ * (stop - start).re)
      = ‖stop - start‖ * ‖stop - start‖ / 4 +
          (across r ‖stop - start‖ * ‖stop - start‖) * (across r ‖stop - start‖ * ‖stop - start‖) := by
        linear_combination
          (-(1 / 4 : ℝ) - across r ‖stop - start‖ * across r ‖stop - start‖) * hchord
    _ = ‖stop - start‖ * ‖stop - start‖ / 4 +
          radiusSign r * radiusSign r * (centerOffset r ‖stop - start‖ * centerOffset r ‖stop - start‖) := by
        rw [hacross]
        ring
    _ = r * r := by
        rw [hsign, hoffset]
        ring

end

/-! ## The sweep -/

/-- A chord below the full-circle tolerance is taken for a whole turn. -/
theorem arcSweep_full {axes : ArcAxes} (center : Target.F64 × Target.F64)
    (h : ‖axes.stop - axes.start‖ < 1 / 10 ^ 6) : arcSweep 3 axes center = (2 * Real.pi : ℝ) := by
  unfold arcSweep
  rw [if_pos, if_neg (by decide), ofNat_eq, Nat.cast_ofNat]
  · rfl
  · rw [hypot_eq, decimal_one]
    exact lt_iff.2 h

/-- Otherwise G3 sweeps the turn from the start to the end, seen from the centre. -/
theorem arcSweep_turn {axes : ArcAxes} (center : Target.F64 × Target.F64)
    (h : 1 / 10 ^ 6 ≤ ‖axes.stop - axes.start‖) :
    arcSweep 3 axes center = turn (axes.start - point center) (axes.stop - point center) := by
  unfold arcSweep
  rw [if_neg, if_neg (by decide)]
  · rw [ofNat_eq, Nat.cast_ofNat]
    unfold turn
    refine if_congr ?_ rfl rfl
    exact lt_iff
  · rw [hypot_eq, decimal_one]
    intro hlt
    exact (lt_iff.1 hlt).not_ge h

/-! ## What is emitted -/

/-- An arc with a centre is emitted where its radius is not below the tolerance. -/
theorem exists_emitArc_iff {g : Nat} {prev next : ModalState} {cmd : GCodeCommand} {axes : ArcAxes}
    {center : Target.F64 × Target.F64} (haxes : arcAxes prev next = some axes)
    (hcenter : calculateArcCenter axes cmd prev.plane = .ok center) :
    (∃ code, emitArc g prev next cmd = .ok code) ↔ 1 / 10 ^ 9 ≤ ‖point center - axes.start‖ := by
  have hradius : arcRadius axes center = ‖point center - axes.start‖ := by
    rw [norm_sub_rev, Complex.norm_def, Complex.normSq_apply]
    rfl
  unfold emitArc
  rw [haxes]
  show (∃ code, (calculateArcCenter axes cmd prev.plane >>= _) = _) ↔ _
  rw [hcenter]
  show (∃ code, (if lt (arcRadius axes center) tolerance then _ else _) = _) ↔ _
  rw [hradius, tolerance_eq]
  by_cases h : ‖point center - axes.start‖ < 1 / 10 ^ 9
  · rw [if_pos (lt_iff.2 h)]
    refine iff_of_false ?_ h.not_ge
    rintro ⟨_, hcode⟩
    cases hcode
  · rw [if_neg fun hlt => h (lt_iff.1 hlt)]
    refine iff_of_true ?_ (not_lt.1 h)
    split
    · exact ⟨_, rfl⟩
    · exact ⟨_, rfl⟩

/-! ## The programmed way -/

/-- The arc that the code gives, where it gives one, bends the programmed way. -/
def ArcBends (g : Nat) (prev next : ModalState) (cmd : GCodeCommand) (r : ℝ) : Prop :=
  ∀ axes center code, arcAxes prev next = some axes → calculateArcCenter axes cmd prev.plane = .ok center →
    emitArc g prev next cmd = .ok code →
    Bends g r (inPlane prev.plane prev) (inPlane prev.plane next) (point center) (arcSweep g axes center)

/-- The centre that the code takes is to the left for a positive radius. -/
theorem left_of_pos {start stop : ℂ} (hlength : 0 < ‖stop - start‖) (hradius : ‖stop - start‖ / 2 < |r|)
    (hr : 0 < r) : 0 < cross (stop - start) (point (radiusCenter r start stop) - start) := by
  have hside := cross_radiusCenter r hlength
  unfold radiusSign at hside
  rw [if_pos hr, one_mul] at hside
  refine lt_of_lt_of_eq ?_ hside.symm
  exact mul_pos (centerOffset_pos hlength hradius) hlength

/-- And to the right for a negative one. -/
theorem right_of_neg {start stop : ℂ} (hlength : 0 < ‖stop - start‖) (hradius : ‖stop - start‖ / 2 < |r|)
    (hr : r < 0) : cross (stop - start) (point (radiusCenter r start stop) - start) < 0 := by
  have hside := cross_radiusCenter r hlength
  unfold radiusSign at hside
  rw [if_neg hr.not_gt, neg_one_mul] at hside
  refine lt_of_eq_of_lt hside ?_
  exact mul_neg_of_neg_of_pos (neg_neg_of_pos (centerOffset_pos hlength hradius)) hlength

/-- **G2 bends the wrong way.** The centre has no regard to the word, and it is the one of G3. -/
theorem not_bends_two {r sweep : ℝ} {start stop : ℂ} (hlength : 0 < ‖stop - start‖)
    (hradius : ‖stop - start‖ / 2 < |r|) : ¬ Bends 2 r start stop (point (radiusCenter r start stop)) sweep := by
  intro h
  have hne : r ≠ 0 := abs_pos.1 (lt_of_le_of_lt (half_pos hlength).le hradius)
  rcases lt_or_gt_of_ne hne with hr | hr
  · exact (h.left (Or.inr ⟨rfl, hr⟩)).not_gt (right_of_neg hlength hradius hr)
  · exact (h.right (Or.inl ⟨rfl, hr⟩)).not_gt (left_of_pos hlength hradius hr)

/-- The sweep of G3 with a positive radius. -/
theorem arcSweep_short {axes : ArcAxes} (hchord : 1 / 10 ^ 6 ≤ ‖axes.stop - axes.start‖)
    (hradius : ‖axes.stop - axes.start‖ / 2 < |r|) (hr : 0 < r) :
    abs (α := ℝ) (arcSweep 3 axes (radiusCenter r axes.start axes.stop)) ≤ Real.pi := by
  have hlength : 0 < ‖axes.stop - axes.start‖ := lt_of_lt_of_le (by norm_num) hchord
  rw [arcSweep_turn _ hchord, abs_of_nonneg (turn_nonneg _ _)]
  refine (turn_lt_pi ?_).le
  rw [cross_sub_sub]
  exact left_of_pos hlength hradius hr

/-- The sweep of G3 with a negative radius. -/
theorem arcSweep_long {axes : ArcAxes} (hlength : 0 < ‖axes.stop - axes.start‖)
    (hradius : ‖axes.stop - axes.start‖ / 2 < |r|) (hr : r < 0) :
    Real.pi < abs (α := ℝ) (arcSweep 3 axes (radiusCenter r axes.start axes.stop)) := by
  by_cases hchord : ‖axes.stop - axes.start‖ < 1 / 10 ^ 6
  · rw [arcSweep_full _ hchord, abs_of_pos Real.two_pi_pos]
    linarith [Real.pi_pos]
  · rw [arcSweep_turn _ (not_lt.1 hchord), abs_of_nonneg (turn_nonneg _ _)]
    apply pi_lt_turn
    rw [cross_sub_sub]
    exact right_of_neg hlength hradius hr

/-- **G3 bends the programmed way**, but for a chord that is taken for a whole turn where half of one is asked. -/
theorem bends_three_iff {axes : ArcAxes} (hlength : 0 < ‖axes.stop - axes.start‖)
    (hradius : ‖axes.stop - axes.start‖ / 2 < |r|) :
    Bends 3 r axes.start axes.stop (point (radiusCenter r axes.start axes.stop))
        (arcSweep 3 axes (radiusCenter r axes.start axes.stop)) ↔
      r < 0 ∨ 1 / 10 ^ 6 ≤ ‖axes.stop - axes.start‖ := by
  constructor
  · intro h
    by_contra hcase
    obtain ⟨hnonneg, hfull⟩ := not_or.1 hcase
    have hne : r ≠ 0 := abs_pos.1 (lt_of_le_of_lt (half_pos hlength).le hradius)
    have hsweep := h.short (lt_of_le_of_ne (not_lt.1 hnonneg) hne.symm)
    rw [arcSweep_full _ (not_le.1 hfull), abs_of_pos Real.two_pi_pos] at hsweep
    linarith [Real.pi_pos]
  · intro hcase
    constructor
    · rintro (⟨h, _⟩ | ⟨_, hr⟩)
      · cases h
      · exact right_of_neg hlength hradius hr
    · rintro (⟨_, hr⟩ | ⟨h, _⟩)
      · exact left_of_pos hlength hradius hr
      · cases h
    · intro hr
      exact arcSweep_short (hcase.resolve_left hr.not_gt) hradius hr
    · intro hr
      exact arcSweep_long hlength hradius hr

/-- Which arcs are emitted: those with a chord and a radius above the tolerance. -/
theorem exists_emitArc_radius_iff {g : Nat} {prev next : ModalState} {cmd : GCodeCommand} {axes : ArcAxes}
    (haxes : arcAxes prev next = some axes) (hformat : InRFormat cmd r)
    (hlength : 0 < ‖axes.stop - axes.start‖) (hradius : ‖axes.stop - axes.start‖ / 2 < |r|) :
    (∃ code, emitArc g prev next cmd = .ok code) ↔
      1 / 10 ^ 9 ≤ ‖axes.stop - axes.start‖ ∧ 1 / 10 ^ 9 ≤ |r| := by
  by_cases hshort : ‖axes.stop - axes.start‖ < 1 / 10 ^ 9
  · refine iff_of_false ?_ fun h => hshort.not_ge h.1
    rintro ⟨code, hcode⟩
    unfold emitArc at hcode
    rw [haxes] at hcode
    change (calculateArcCenter axes cmd prev.plane >>= _) = _ at hcode
    rw [calculateArcCenter_short hformat _ hshort] at hcode
    cases hcode
  · have hlong := not_lt.1 hshort
    rw [exists_emitArc_iff haxes (calculateArcCenter_long hformat prev.plane hlong hradius)]
    have hnorm : ‖point (radiusCenter r axes.start axes.stop) - axes.start‖ = |r| :=
      norm_radiusCenter_sub_start hlength hradius
    rw [hnorm]
    exact (and_iff_right hlong).symm

/-- **When an arc bends the programmed way.** For every start, end, plane and radius: an arc is emitted unless its chord
or its radius is below the tolerance, and an emitted arc is the programmed one exactly if the word is G3 and the chord
is not so short that a positive radius is taken for a whole turn. -/
theorem arc_bends_iff {g : Nat} {prev next : ModalState} {cmd : GCodeCommand} {r : ℝ} (hg : g = 2 ∨ g = 3)
    (hplane : prev.plane = 17 ∨ prev.plane = 18 ∨ prev.plane = 19) (hformat : InRFormat cmd r)
    (hchord : 0 < ‖inPlane prev.plane next - inPlane prev.plane prev‖)
    (hradius : ‖inPlane prev.plane next - inPlane prev.plane prev‖ / 2 < |r|) :
    ((∃ code, emitArc g prev next cmd = .ok code) ↔
      1 / 10 ^ 9 ≤ ‖inPlane prev.plane next - inPlane prev.plane prev‖ ∧ 1 / 10 ^ 9 ≤ |r|) ∧
    (ArcBends g prev next cmd r ↔
      ‖inPlane prev.plane next - inPlane prev.plane prev‖ < 1 / 10 ^ 9 ∨ |r| < 1 / 10 ^ 9 ∨
        (g = 3 ∧ (r < 0 ∨ 1 / 10 ^ 6 ≤ ‖inPlane prev.plane next - inPlane prev.plane prev‖))) := by
  obtain ⟨axes, haxes, hstart, hstop⟩ := exists_arcAxes next hplane
  unfold ArcBends
  rw [← hstart, ← hstop] at hchord hradius ⊢
  have hemitted := exists_emitArc_radius_iff (g := g) haxes hformat hchord hradius
  refine ⟨hemitted, ?_⟩
  by_cases hlarge : 1 / 10 ^ 9 ≤ ‖axes.stop - axes.start‖ ∧ 1 / 10 ^ 9 ≤ |r|
  · -- the arc is emitted, and its centre is the one at the radius
    obtain ⟨code, hcode⟩ := hemitted.2 hlarge
    have hok := calculateArcCenter_long hformat prev.plane hlarge.1 hradius
    rw [or_iff_right hlarge.1.not_gt, or_iff_right hlarge.2.not_gt]
    constructor
    · intro h
      have hbends := h axes _ code haxes hok hcode
      rcases hg with rfl | rfl
      · exact absurd hbends (not_bends_two hchord hradius)
      · exact ⟨rfl, (bends_three_iff hchord hradius).1 hbends⟩
    · rintro ⟨rfl, hcase⟩ axes' center code haxes' hcenter _
      cases haxes.symm.trans haxes'
      cases hok.symm.trans hcenter
      exact (bends_three_iff hchord hradius).2 hcase
  · refine iff_of_true ?_ ?_
    · intro _ _ code _ _ hcode
      exact absurd (hemitted.1 ⟨code, hcode⟩) hlarge
    · rcases not_and_or.1 hlarge with h | h
      · exact Or.inl (not_le.1 h)
      · exact Or.inr (Or.inl (not_le.1 h))

end Audesys.Gcode

/-! ## A half circle and less -/

namespace Audesys.Gcode

open Audesys.Hal Audesys.Hal.F64 Audesys.Hal.Exact Audesys.Turn

attribute [local instance] atLeastTwo_two atLeastTwo_ten atLeastTwo_sixty

local instance checkedArcs : Build := ⟨true⟩

/-- Two to the right at a radius of two: `G2 X2 R2` and `G3 X2 R2`. -/
noncomputable def arcOfTwo (g : Nat) : GCodeCommand :=
  { kind := .motion, gCode := some g, mCode := none, x := some (2 : ℝ), y := none, z := none, i := none, j := none,
    k := none, r := some (2 : ℝ), f := none, s := none, p := none, t := none, line := 1 }

/-- The origin, in the plane of the first two axes. -/
noncomputable def origin : ModalState := .new

theorem origin_plane : origin.plane = 17 := rfl

theorem arcOfTwo_chord (g : Nat) :
    ‖inPlane origin.plane (origin.advance (arcOfTwo g)) - inPlane origin.plane origin‖ = 2 := by
  have hchord : inPlane origin.plane (origin.advance (arcOfTwo g)) - inPlane origin.plane origin = ((2 : ℝ) : ℂ) := by
    apply Complex.ext
    · show (2 : ℝ) - 0 = 2
      exact sub_zero 2
    · show (0 : ℝ) - 0 = 0
      exact sub_zero 0
  rw [hchord, Complex.norm_real, Real.norm_ofNat]

theorem arcOfTwo_radius (g : Nat) :
    ‖inPlane origin.plane (origin.advance (arcOfTwo g)) - inPlane origin.plane origin‖ / 2 < |(2 : ℝ)| := by
  rw [arcOfTwo_chord, abs_two]
  norm_num

/-- `G3 X2 R2` bends the programmed way. -/
theorem arc_bends_counterclockwise : ArcBends 3 origin (origin.advance (arcOfTwo 3)) (arcOfTwo 3) 2 := by
  have hchord := arcOfTwo_chord 3
  have hpos : 0 < ‖inPlane origin.plane (origin.advance (arcOfTwo 3)) - inPlane origin.plane origin‖ :=
    lt_of_lt_of_eq two_pos hchord.symm
  have hformat : InRFormat (arcOfTwo 3) 2 := ⟨rfl, rfl, rfl, rfl⟩
  refine (arc_bends_iff (Or.inr rfl) (Or.inl origin_plane) hformat hpos (arcOfTwo_radius 3)).2.2 ?_
  refine Or.inr (Or.inr ⟨rfl, Or.inr ?_⟩)
  rw [hchord]
  norm_num

/-- **`G2 X2 R2`** is emitted with the centre on the left of its chord, five sixths of the circle for one sixth. -/
theorem clockwise_arc_wrong :
    (∃ code, emitArc 2 origin (origin.advance (arcOfTwo 2)) (arcOfTwo 2) = .ok code) ∧
      ¬ ArcBends 2 origin (origin.advance (arcOfTwo 2)) (arcOfTwo 2) 2 := by
  obtain ⟨axes, haxes, hstart, hstop⟩ := exists_arcAxes (origin.advance (arcOfTwo 2)) (Or.inl origin_plane)
  have hlength : ‖axes.stop - axes.start‖ = 2 := by
    rw [hstart, hstop]
    exact arcOfTwo_chord 2
  have hlong : 1 / 10 ^ 9 ≤ ‖axes.stop - axes.start‖ := by
    rw [hlength]
    norm_num
  have hradius : ‖axes.stop - axes.start‖ / 2 < |(2 : ℝ)| := by
    rw [hlength, abs_two]
    norm_num
  have hpos : 0 < ‖axes.stop - axes.start‖ := lt_of_lt_of_eq two_pos hlength.symm
  have hlarge : (1 : ℝ) / 10 ^ 9 ≤ |2| := by
    rw [abs_two]
    norm_num
  have hformat : InRFormat (arcOfTwo 2) 2 := ⟨rfl, rfl, rfl, rfl⟩
  have hemitted := (exists_emitArc_radius_iff (g := 2) haxes hformat hpos hradius).2 ⟨hlong, hlarge⟩
  refine ⟨hemitted, ?_⟩
  intro h
  obtain ⟨code, hcode⟩ := hemitted
  have hbends := h axes _ code haxes (calculateArcCenter_long hformat origin.plane hlong hradius) hcode
  rw [← hstart, ← hstop] at hbends
  exact not_bends_two hpos hradius hbends

end Audesys.Gcode
