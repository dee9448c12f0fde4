import Audesys.Hal.Host
import Mathlib.Algebra.Order.Field.Rat
import Mathlib.Tactic.FieldSimp
import Mathlib.Tactic.IntervalCases

/-!
# `Hal.Numbers` — the numbers that bit patterns are

A bit pattern of a binary interchange format is a number, an infinity or no number. Read as a double, the pattern of a
64-bit integer is another number, unless the integer is zero (`number_pattern_iff`).
-/

namespace Audesys.Hal

namespace Layout

/-- `m · 2ᵉ`. -/
def scaled (m e : Int) : Rat := mkRat (m * 2 ^ e.toNat) (2 ^ (-e).toNat)

/-- The number that a pattern is, where it is one. -/
def number (l : Layout) (bits : Nat) : Option Rat :=
  if l.special bits then none
  else some (scaled (if l.negative bits then -l.mantissa bits else l.mantissa bits) (l.exponent bits))

theorem scaled_eq_intCast_iff (m e n : Int) : scaled m e = n ↔ m * 2 ^ e.toNat = n * 2 ^ (-e).toNat := by
  unfold scaled
  rw [Rat.mkRat_eq_div, div_eq_iff (by positivity)]
  exact_mod_cast Iff.rfl

end Layout

/-! ## Integers read as doubles -/

section
variable {e fr : Nat}

theorem double_ne_of_lt {m : Nat} (hfr : fr < 2 ^ 52) (hbig : 1075 < e) (hlt : e ≤ 2046)
    (hm : m = e * 2 ^ 52 + fr ∨ m = 2 ^ 63 - (e * 2 ^ 52 + fr)) : (2 ^ 52 + fr) * 2 ^ (e - 1075) ≠ m := by
  rcases Nat.lt_or_ge 1085 e with hmore | hless
  · have hpow : 2 ^ 11 ≤ 2 ^ (e - 1075) := Nat.pow_le_pow_right (by decide) (by omega)
    have hprod : 2 ^ 52 * 2 ^ 11 ≤ (2 ^ 52 + fr) * 2 ^ (e - 1075) := Nat.mul_le_mul (Nat.le_add_right _ _) hpow
    omega
  · interval_cases e <;> norm_num <;> omega

/-- Up to exponent 1084 the number of a pattern is less than the pattern, from 1086 on it is more, and in between it is
not the same. -/
theorem double_ne_pattern (hfr : fr < 2 ^ 52) (he : 1 ≤ e) (hlt : e ≤ 2046) :
    (2 ^ 52 + fr) * 2 ^ (e - 1075) ≠ (e * 2 ^ 52 + fr) * 2 ^ (1075 - e) := by
  rcases Nat.lt_or_ge 1075 e with hbig | hsmall
  · rw [Nat.sub_eq_zero_of_le (Nat.le_of_lt hbig), Nat.pow_zero, Nat.mul_one]
    exact double_ne_of_lt hfr hbig hlt (.inl rfl)
  · rw [Nat.sub_eq_zero_of_le hsmall, Nat.pow_zero, Nat.mul_one]
    rcases Nat.lt_or_ge 1 e with htwo | hone
    · have hprod : e * 2 ^ 52 + fr ≤ (e * 2 ^ 52 + fr) * 2 ^ (1075 - e) :=
        Nat.le_mul_of_pos_right _ (Nat.two_pow_pos _)
      omega
    · have hpow : 2 ^ 1 ≤ 2 ^ (1075 - e) := Nat.pow_le_pow_right (by decide) (by omega)
      have hprod : (e * 2 ^ 52 + fr) * 2 ^ 1 ≤ (e * 2 ^ 52 + fr) * 2 ^ (1075 - e) := Nat.mul_le_mul_left _ hpow
      omega

/-- The same for the patterns of negative integers, of which the first bit is the sign. -/
theorem double_ne_complement (hfr : fr < 2 ^ 52) (he : 1 ≤ e) (hlt : e ≤ 2046) :
    (2 ^ 52 + fr) * 2 ^ (e - 1075) ≠ (2 ^ 63 - (e * 2 ^ 52 + fr)) * 2 ^ (1075 - e) := by
  rcases Nat.lt_or_ge 1075 e with hbig | hsmall
  · rw [Nat.sub_eq_zero_of_le (Nat.le_of_lt hbig), Nat.pow_zero, Nat.mul_one]
    exact double_ne_of_lt hfr hbig hlt (.inr rfl)
  · rw [Nat.sub_eq_zero_of_le hsmall, Nat.pow_zero, Nat.mul_one]
    have hprod : 2 ^ 63 - (e * 2 ^ 52 + fr) ≤ (2 ^ 63 - (e * 2 ^ 52 + fr)) * 2 ^ (1075 - e) :=
      Nat.le_mul_of_pos_right _ (Nat.two_pow_pos _)
    omega

end

section
variable {bits : Nat}

/-- A pattern without its sign is its exponent and its fraction. -/
theorem double_parts (bits : Nat) :
    bits % 2 ^ 63 = binary64.expo bits * 2 ^ 52 + binary64.frac bits ∧ binary64.frac bits < 2 ^ 52 ∧
      binary64.expo bits < 2 ^ 11 ∧ binary64.negative bits = (bits / 2 ^ 63 % 2 == 1) := by
  have hexpo : binary64.expo bits = bits / 2 ^ 52 % 2 ^ 11 := rfl
  have hfrac : binary64.frac bits = bits % 2 ^ 52 := rfl
  rw [hexpo, hfrac]
  refine ⟨?_, ?_, ?_, rfl⟩
  · omega
  · omega
  · omega

/-- The equation between a pattern's number and an integer, without fractions. -/
theorem number_eq_intCast {n : Int} (h : binary64.number bits = some (n : Rat)) :
    binary64.expo bits ≤ 2046 ∧
      (if binary64.negative bits then -(binary64.mantissa bits : Int) else binary64.mantissa bits) *
        2 ^ (max (binary64.expo bits) 1 - 1075) = n * 2 ^ (1075 - max (binary64.expo bits) 1) := by
  obtain ⟨-, -, hlt, -⟩ := double_parts bits
  unfold Layout.number at h
  cases hspecial : binary64.special bits with
  | true =>
    rw [hspecial] at h
    cases h
  | false =>
    have hne : binary64.expo bits ≠ 2 ^ 11 - 1 := beq_eq_false_iff_ne.1 hspecial
    rw [hspecial, if_neg Bool.false_ne_true, Option.some.injEq, Layout.scaled_eq_intCast_iff] at h
    have hexponent : binary64.exponent bits = (max (binary64.expo bits) 1 : Nat) - 1075 := by
      have hbias : binary64.bias = 1075 := by decide
      unfold Layout.exponent
      rw [hbias, Nat.cast_max]
    have hup : (binary64.exponent bits).toNat = max (binary64.expo bits) 1 - 1075 := by omega
    have hdown : (-binary64.exponent bits).toNat = 1075 - max (binary64.expo bits) 1 := by omega
    rw [hup, hdown] at h
    exact ⟨by omega, h⟩

/-- Patterns with the exponent zero are numbers below one. -/
theorem eq_zero_of_subnormal {fr n k : Nat} (hfr : fr < 2 ^ 52) (hk : 52 ≤ k) (h : fr = n * 2 ^ k) : n = 0 := by
  by_contra hne
  have hpow : 2 ^ 52 ≤ 2 ^ k := Nat.pow_le_pow_right (by decide) hk
  have hle : 2 ^ k ≤ n * 2 ^ k := Nat.le_mul_of_pos_left _ (Nat.pos_of_ne_zero hne)
  rw [← h] at hle
  exact absurd (hpow.trans hle) (Nat.not_le.2 hfr)

/-- **Only zero** is the integer that its pattern is as a double. -/
theorem number_pattern_iff {n : Int} (hbits : bits < 2 ^ 64) (hn : n = bits ∨ 2 ^ 63 ≤ bits ∧ n = bits - 2 ^ 64) :
    binary64.number bits = some (n : Rat) ↔ n = 0 := by
  constructor
  · intro h
    obtain ⟨hexpo, heq⟩ := number_eq_intCast h
    obtain ⟨hparts, hfrac, -, hsign⟩ := double_parts bits
    have habs : binary64.mantissa bits * 2 ^ (max (binary64.expo bits) 1 - 1075) =
        n.natAbs * 2 ^ (1075 - max (binary64.expo bits) 1) := by
      have hnat := congrArg Int.natAbs heq
      rw [Int.natAbs_mul, Int.natAbs_mul, Int.natAbs_pow, Int.natAbs_pow] at hnat
      rw [show (2 : Int).natAbs = 2 from rfl] at hnat
      rw [← hnat]
      split
      · rw [Int.natAbs_neg, Int.natAbs_natCast]
      · rw [Int.natAbs_natCast]
    by_contra hne
    rcases Nat.eq_zero_or_pos (binary64.expo bits) with hzero | hexpo'
    · have hmantissa : binary64.mantissa bits = binary64.frac bits := if_pos hzero
      rw [hmantissa, hzero, Nat.max_eq_right (Nat.zero_le 1)] at habs
      have hfr : binary64.frac bits = n.natAbs * 2 ^ (1075 - 1) := (Nat.mul_one _).symm.trans habs
      exact hne (Int.natAbs_eq_zero.1 (eq_zero_of_subnormal hfrac (by decide) hfr))
    · have hmantissa : binary64.mantissa bits = 2 ^ 52 + binary64.frac bits :=
        (if_neg (Nat.ne_of_gt hexpo')).trans (Nat.add_comm _ _)
      rw [hmantissa, Nat.max_eq_left hexpo'] at habs heq
      rcases Nat.lt_or_ge bits (2 ^ 63) with hpos | hneg
      · have hn' : n.natAbs = binary64.expo bits * 2 ^ 52 + binary64.frac bits := by omega
        rw [hn'] at habs
        exact double_ne_pattern hfrac hexpo' hexpo habs
      · rcases hn with hn | ⟨-, hn⟩
        · -- the integer is positive, and the double has its first bit as sign
          have hminus : binary64.negative bits = true := by
            rw [hsign, beq_iff_eq]
            omega
          have hpow : (0 : Int) < 2 ^ (binary64.expo bits - 1075) := Int.pow_pos (by decide)
          have hpow' : (0 : Int) < 2 ^ (1075 - binary64.expo bits) := Int.pow_pos (by decide)
          have hright : 0 < n * 2 ^ (1075 - binary64.expo bits) := Int.mul_pos (by omega) hpow'
          have hleft : 0 < ((2 ^ 52 + binary64.frac bits : Nat) : Int) * 2 ^ (binary64.expo bits - 1075) :=
            Int.mul_pos (by omega) hpow
          rw [hminus, if_pos rfl, Int.neg_mul] at heq
          omega
        · have hn' : n.natAbs = 2 ^ 63 - (binary64.expo bits * 2 ^ 52 + binary64.frac bits) := by omega
          rw [hn'] at habs
          exact double_ne_complement hfrac hexpo' hexpo habs
  · rintro rfl
    have hzero : bits = 0 := by omega
    rw [hzero]
    decide +kernel

end

end Audesys.Hal
