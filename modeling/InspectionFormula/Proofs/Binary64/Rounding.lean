import Mathlib.Algebra.Ring.Nat
import InspectionFormula.Binary64.Basic

/-!
# Laws of rounding

A quotient is rounded alike however it is scaled, and a number in units is
rounded to itself.
-/

namespace InspectionFormula

theorem roundDiv_mul_right (numerator denominator : Nat) {scale : Nat} (positive : 0 < scale) :
    roundDiv (numerator * scale) (denominator * scale) = roundDiv numerator denominator := by
  have scaled (left right : Nat) : 2 * (left * scale) < right * scale ↔ 2 * left < right := by
    rw [← Nat.mul_assoc, Nat.mul_lt_mul_right positive]
  have scaledBack (left right : Nat) :
      right * scale < 2 * (left * scale) ↔ right < 2 * left := by
    rw [← Nat.mul_assoc, Nat.mul_lt_mul_right positive]
  simp only [roundDiv, Nat.mul_div_mul_right _ _ positive, Nat.mul_mod_mul_right, scaled,
    scaledBack]

theorem roundDiv_mul_self (quotient : Nat) {denominator : Nat} (positive : 0 < denominator) :
    roundDiv (quotient * denominator) denominator = quotient := by
  simp [roundDiv, Nat.mul_div_cancel _ positive, positive]

theorem roundDiv_le (numerator denominator : Nat) :
    roundDiv numerator denominator ≤ numerator / denominator + 1 := by
  simp only [roundDiv]
  split
  · omega
  · split <;> omega

namespace Binary64

theorem magnitudeOfRatio_mul_right (numerator denominator : Nat) {scale : Nat}
    (positive : 0 < scale) :
    magnitudeOfRatio (numerator * scale) (denominator * scale) =
      magnitudeOfRatio numerator denominator := by
  have spacing : spacingBits (numerator * scale) (denominator * scale) =
      spacingBits numerator denominator := by
    rw [spacingBits, Nat.mul_div_mul_right _ _ positive, spacingBits]
  simp only [magnitudeOfRatio, spacing]
  rw [Nat.mul_right_comm denominator scale, roundDiv_mul_right _ _ positive]

/-- Rounding is scale-free. -/
theorem ofRatio_mul_right (negative : Bool) (numerator denominator : Nat) {scale : Nat}
    (positive : 0 < scale) :
    ofRatio negative (numerator * scale) (denominator * scale) =
      ofRatio negative numerator denominator := by
  simp only [ofRatio, magnitudeOfRatio_mul_right _ _ positive]

theorem spacingBits_mul_pow {significand : Nat} (exponent : Nat) (least : 2 ^ 52 ≤ significand)
    (most : significand < 2 ^ 53) :
    spacingBits (significand * 2 ^ exponent) 1 = exponent := by
  have positive : significand * 2 ^ exponent ≠ 0 :=
    Nat.mul_ne_zero (by omega) (Nat.ne_of_gt (Nat.two_pow_pos exponent))
  have leading : (significand * 2 ^ exponent).log2 = 52 + exponent := by
    rw [Nat.log2_eq_iff positive]
    constructor
    · rw [Nat.pow_add]
      exact Nat.mul_le_mul_right _ least
    · rw [Nat.add_right_comm, Nat.pow_add]
      exact Nat.mul_lt_mul_of_pos_right most (Nat.two_pow_pos exponent)
  rw [spacingBits, Nat.div_one, leading, Nat.add_sub_cancel_left]

theorem magnitudeOfRatio_one (units : Nat) :
    magnitudeOfRatio units 1 =
      Min.min (spacingBits units 1 * 2 ^ 52 + roundDiv units (2 ^ spacingBits units 1))
        infinityMagnitude := by
  simp only [magnitudeOfRatio, Nat.one_mul, Nat.pow_eq]

theorem spacingBits_of_lt {units : Nat} (small : units < 2 ^ 53) : spacingBits units 1 = 0 := by
  by_cases zero : units = 0
  · subst zero
    rfl
  · have leading := (Nat.log2_lt zero).2 small
    rw [spacingBits, Nat.div_one]
    omega

/-- A finite magnitude is the one nearest the units that it stands for. -/
theorem magnitudeOfRatio_unitsOfMagnitude {magnitude : Nat}
    (finite : magnitude < infinityMagnitude) :
    magnitudeOfRatio (unitsOfMagnitude magnitude) 1 = magnitude := by
  rw [magnitudeOfRatio_one]
  unfold unitsOfMagnitude
  simp only [Nat.pow_eq]
  split
  · next small =>
      have below : magnitude < 2 ^ 53 := by omega
      have whole := roundDiv_mul_self magnitude Nat.one_pos
      rw [Nat.mul_one] at whole
      rw [spacingBits_of_lt below, Nat.zero_mul, Nat.zero_add, Nat.pow_zero, whole]
      omega
  · next large =>
      have least : 2 ^ 52 ≤ 2 ^ 52 + magnitude % 2 ^ 52 := Nat.le_add_right _ _
      have most : 2 ^ 52 + magnitude % 2 ^ 52 < 2 ^ 53 := by omega
      rw [spacingBits_mul_pow _ least most, roundDiv_mul_self _ (Nat.two_pow_pos _)]
      omega

end Binary64

end InspectionFormula
