import InspectionFormula.Binary64.Arithmetic
import InspectionFormula.Proofs.Binary64.Rounding

/-!
# Overflow

Rounding respects the order, so the exact results that round to infinity are
those from one on, half a spacing above the greatest finite number.
-/

namespace InspectionFormula

theorem le_roundDiv (numerator denominator : Nat) :
    numerator / denominator ≤ roundDiv numerator denominator := by
  simp only [roundDiv]
  split_ifs <;> omega

theorem roundDiv_mono {left right : Nat} (denominator : Nat) (ordered : left ≤ right) :
    roundDiv left denominator ≤ roundDiv right denominator := by
  rcases Nat.lt_or_eq_of_le (Nat.div_le_div_right ordered : left / denominator ≤ _) with
    less | same
  · calc
      roundDiv left denominator ≤ left / denominator + 1 := roundDiv_le left denominator
      _ ≤ right / denominator := less
      _ ≤ roundDiv right denominator := le_roundDiv right denominator
  · have remainders : left % denominator ≤ right % denominator := by
      have splitLeft := Nat.div_add_mod left denominator
      have splitRight := Nat.div_add_mod right denominator
      rw [same] at splitLeft
      omega
    simp only [roundDiv, same]
    split_ifs <;> omega

namespace Binary64

variable {left right number : Binary64}

/-- On its grid a quotient has no more bits than a significand. -/
theorem div_spacing_lt (numerator denominator : Nat) :
    numerator / (denominator * 2 ^ spacingBits numerator denominator) < 2 ^ 53 := by
  rw [← Nat.div_div_eq_div_mul, Nat.div_lt_iff_lt_mul (Nat.two_pow_pos _), ← Nat.pow_add]
  apply Nat.lt_of_lt_of_le Nat.lt_log2_self
  apply Nat.pow_le_pow_right Nat.two_pos
  rw [spacingBits]
  omega

theorem le_div_spacing {numerator denominator : Nat}
    (spaced : 0 < spacingBits numerator denominator) :
    2 ^ 52 ≤ numerator / (denominator * 2 ^ spacingBits numerator denominator) := by
  have long : 52 + spacingBits numerator denominator = (numerator / denominator).log2 := by
    rw [spacingBits] at spaced ⊢
    omega
  have nonzero : numerator / denominator ≠ 0 := by
    intro zero
    rw [spacingBits, zero] at spaced
    exact absurd spaced (by decide)
  rw [← Nat.div_div_eq_div_mul, Nat.le_div_iff_mul_le (Nat.two_pow_pos _), ← Nat.pow_add, long]
  exact Nat.log2_self_le nonzero

theorem spacingBits_mono {left right : Nat} (denominator : Nat) (ordered : left ≤ right) :
    spacingBits left denominator ≤ spacingBits right denominator := by
  have quotients : left / denominator ≤ right / denominator := Nat.div_le_div_right ordered
  apply Nat.sub_le_sub_right
  by_cases zero : left / denominator = 0
  · rw [zero, Nat.log2_zero]
    exact Nat.zero_le _
  · have positive := Nat.lt_of_lt_of_le (Nat.pos_of_ne_zero zero) quotients
    exact (Nat.le_log2 (Nat.ne_of_gt positive)).2 (Nat.le_trans (Nat.log2_self_le zero) quotients)

theorem magnitudeOfRatio_mono {left right : Nat} (denominator : Nat) (ordered : left ≤ right) :
    magnitudeOfRatio left denominator ≤ magnitudeOfRatio right denominator := by
  simp only [magnitudeOfRatio, Nat.pow_eq]
  suffices sums : spacingBits left denominator * 2 ^ 52 +
        roundDiv left (denominator * 2 ^ spacingBits left denominator) ≤
      spacingBits right denominator * 2 ^ 52 +
        roundDiv right (denominator * 2 ^ spacingBits right denominator) by
    omega
  rcases Nat.lt_or_eq_of_le (spacingBits_mono denominator ordered) with finer | same
  · have upper := roundDiv_le left (denominator * 2 ^ spacingBits left denominator)
    have below := div_spacing_lt left denominator
    have lower := le_roundDiv right (denominator * 2 ^ spacingBits right denominator)
    have above := le_div_spacing (Nat.lt_of_le_of_lt (Nat.zero_le _) finer)
    omega
  · rw [same]
    exact Nat.add_le_add_left (roundDiv_mono _ ordered) _

/-- The order of quotients is that of the numbers nearest them. -/
theorem magnitudeOfRatio_le_of_mul_le {left leftDenominator right rightDenominator : Nat}
    (leftPositive : 0 < leftDenominator) (rightPositive : 0 < rightDenominator)
    (ordered : left * rightDenominator ≤ right * leftDenominator) :
    magnitudeOfRatio left leftDenominator ≤ magnitudeOfRatio right rightDenominator := by
  rw [← magnitudeOfRatio_mul_right left leftDenominator rightPositive,
    ← magnitudeOfRatio_mul_right right rightDenominator leftPositive,
    Nat.mul_comm rightDenominator]
  exact magnitudeOfRatio_mono _ ordered

theorem unitsOfMagnitude_mono {less more : Nat} (ordered : less ≤ more) :
    unitsOfMagnitude less ≤ unitsOfMagnitude more := by
  have exponents : less / 2 ^ 52 ≤ more / 2 ^ 52 := Nat.div_le_div_right ordered
  simp only [unitsOfMagnitude, Nat.pow_eq]
  rcases Nat.lt_or_eq_of_le exponents with lower | same
  · rw [if_neg (Nat.ne_of_gt (Nat.lt_of_le_of_lt (Nat.zero_le _) lower))]
    have reaches : 2 ^ 52 * 2 ^ (more / 2 ^ 52 - 1) ≤
        (2 ^ 52 + more % 2 ^ 52) * 2 ^ (more / 2 ^ 52 - 1) :=
      Nat.mul_le_mul_right _ (Nat.le_add_right _ _)
    refine Nat.le_trans ?_ reaches
    rw [← Nat.pow_add]
    split
    · next small =>
      have below : less < 2 ^ 52 := by omega
      exact Nat.le_trans (Nat.le_of_lt below) (Nat.pow_le_pow_right Nat.two_pos (by omega))
    · next large =>
      calc
        (2 ^ 52 + less % 2 ^ 52) * 2 ^ (less / 2 ^ 52 - 1) ≤
            2 ^ 53 * 2 ^ (less / 2 ^ 52 - 1) := Nat.mul_le_mul_right _ (by omega)
        _ = 2 ^ (53 + (less / 2 ^ 52 - 1)) := (Nat.pow_add 2 53 _).symm
        _ ≤ 2 ^ (52 + (more / 2 ^ 52 - 1)) := Nat.pow_le_pow_right Nat.two_pos (by omega)
  · split
    · split <;> omega
    · rw [if_neg (by omega), same]
      exact Nat.mul_le_mul_right _ (by omega)

/-- The least number of units that is rounded to infinity. -/
def overflowUnits : Nat := (2 ^ 54 - 1) * 2 ^ 2044

theorem magnitudeOfRatio_lt_infinityMagnitude_iff {units : Nat} :
    magnitudeOfRatio units 1 < infinityMagnitude ↔ units < overflowUnits := by
  have last : magnitudeOfRatio (overflowUnits - 1) 1 < infinityMagnitude := by decide +kernel
  have first : infinityMagnitude ≤ magnitudeOfRatio overflowUnits 1 := by decide +kernel
  constructor
  · intro finite
    by_contra large
    have reaches := magnitudeOfRatio_mono 1 (Nat.not_lt.1 large)
    omega
  · intro small
    exact Nat.lt_of_le_of_lt (magnitudeOfRatio_mono 1 (Nat.le_sub_one_of_lt small)) last

/-- Whole numbers below a moderate power of two are rounded to finite magnitudes. -/
theorem magnitudeOfRatio_whole_lt {value exponent : Nat} (small : value < 2 ^ exponent)
    (inRange : exponent < 1023) :
    magnitudeOfRatio (value * unitsPerOne) 1 < infinityMagnitude := by
  rw [magnitudeOfRatio_lt_infinityMagnitude_iff]
  calc
    value * unitsPerOne < 2 ^ exponent * unitsPerOne :=
      Nat.mul_lt_mul_of_pos_right small (by decide +kernel)
    _ ≤ 2 ^ 1022 * unitsPerOne :=
      Nat.mul_le_mul_right _ (Nat.pow_le_pow_right Nat.two_pos (by omega))
    _ ≤ overflowUnits := by decide +kernel

/-! ## Operations on finite numbers -/

theorem isFinite_iff : number.isFinite = true ↔ number.magnitude < infinityMagnitude :=
  decide_eq_true_iff

theorem isNaN_of_isFinite (finite : number.isFinite = true) : number.isNaN = false :=
  decide_eq_false (Nat.not_lt.2 (Nat.le_of_lt (isFinite_iff.1 finite)))

theorem natAbs_signedUnits (number : Binary64) : number.signedUnits.natAbs = number.units := by
  unfold signedUnits
  split <;> omega

/-- The units of the greatest finite number. -/
def greatestUnits : Nat := unitsOfMagnitude (infinityMagnitude - 1)

theorem units_le_greatestUnits (finite : number.isFinite = true) : number.units ≤ greatestUnits :=
  unitsOfMagnitude_mono (Nat.le_sub_one_of_lt (isFinite_iff.1 finite))

theorem units_lt_overflowUnits (finite : number.isFinite = true) : number.units < overflowUnits :=
  Nat.lt_of_le_of_lt (units_le_greatestUnits finite) (by decide +kernel)

theorem isFinite_ofRatio_one_iff {negative : Bool} {units : Nat} :
    (ofRatio negative units 1).isFinite = true ↔ units < overflowUnits :=
  isFinite_iff.trans magnitudeOfRatio_lt_infinityMagnitude_iff

theorem magnitude_add (leftFinite : left.isFinite = true) (rightFinite : right.isFinite = true) :
    (left + right).magnitude =
      magnitudeOfRatio (left.signedUnits + right.signedUnits).natAbs 1 := by
  have sum : left + right = addFinite left right := by
    change add left right = _
    simp [add, isNaN_of_isFinite, leftFinite, rightFinite]
  rw [sum, addFinite]
  split
  · next none =>
      rw [none]
      rfl
  · rfl

theorem isFinite_add_iff (leftFinite : left.isFinite = true) (rightFinite : right.isFinite = true) :
    (left + right).isFinite = true ↔
      (left.signedUnits + right.signedUnits).natAbs < overflowUnits := by
  rw [isFinite_iff, magnitude_add leftFinite rightFinite,
    magnitudeOfRatio_lt_infinityMagnitude_iff]

theorem magnitude_mul (leftFinite : left.isFinite = true) (rightFinite : right.isFinite = true) :
    (left * right).magnitude = magnitudeOfRatio (left.units * right.units) unitsPerOne := by
  have product : left * right =
      ofRatio (left.negative != right.negative) (left.units * right.units) unitsPerOne := by
    change mul left right = _
    simp [mul, isNaN_of_isFinite, leftFinite, rightFinite]
  rw [product, ofRatio]

theorem isFinite_infinity (negative : Bool) : (infinity negative).isFinite = false := by
  cases negative <;> decide

/-- A divisor of at least one makes nothing infinite, and nothing finite. -/
theorem isFinite_div (isNumber : right.isNaN = false)
    (large : (ofNat 1).magnitude ≤ right.magnitude) :
    (left / right).isFinite = left.isFinite := by
  change (div left right).isFinite = _
  cases leftFinite : left.isFinite with
  | false =>
      cases leftNaN : left.isNaN with
      | true =>
          simp only [div, leftNaN, Bool.true_or, if_true]
          decide
      | false =>
          cases rightFinite : right.isFinite with
          | true => simp [div, leftNaN, isNumber, leftFinite, rightFinite, isFinite_infinity]
          | false =>
              simp only [div, leftNaN, isNumber, leftFinite, rightFinite]
              rfl
  | true =>
      have leftNumber := isNaN_of_isFinite leftFinite
      cases rightFinite : right.isFinite with
      | false =>
          simp only [div, leftNumber, isNumber, leftFinite, rightFinite]
          rfl
      | true =>
          have one : 0 < (ofNat 1).magnitude := by decide +kernel
          have nonzero : right.isZero = false := decide_eq_false (by omega)
          have unitsOfOne : unitsOfMagnitude (ofNat 1).magnitude = unitsPerOne := by
            decide +kernel
          have most : unitsPerOne ≤ right.units := unitsOfOne ▸ unitsOfMagnitude_mono large
          have positive : 0 < unitsPerOne := by decide +kernel
          have quotient : div left right = ofRatio (left.negative != right.negative)
              (left.units * unitsPerOne) right.units := by
            simp [div, leftNumber, isNumber, leftFinite, rightFinite, nonzero]
          rw [quotient, isFinite_iff, ofRatio]
          calc
            magnitudeOfRatio (left.units * unitsPerOne) right.units ≤
                magnitudeOfRatio left.units 1 :=
              magnitudeOfRatio_le_of_mul_le (Nat.lt_of_lt_of_le positive most) Nat.one_pos
                (by rw [Nat.mul_one]; exact Nat.mul_le_mul_left _ most)
            _ < infinityMagnitude :=
              magnitudeOfRatio_lt_infinityMagnitude_iff.2 (units_lt_overflowUnits leftFinite)

theorem isNaN_ofNat (value : Nat) : (ofNat value).isNaN = false :=
  decide_eq_false (Nat.not_lt.2 (magnitudeOfRatio_le _ _))

theorem magnitude_ofNat_mono {less more : Nat} (ordered : less ≤ more) :
    (ofNat less).magnitude ≤ (ofNat more).magnitude :=
  magnitudeOfRatio_mono 1 (Nat.mul_le_mul_right unitsPerOne ordered)

/-- The nearest whole number of a finite number is finite. -/
theorem isFinite_round (number : Binary64) : number.round.isFinite = number.isFinite := by
  rw [round, withWhole]
  cases finite : number.isFinite with
  | false => exact finite
  | true =>
      have whole : number.wholeNearest * unitsPerOne ≤ number.units + unitsPerOne := by
        have nearest := Nat.div_mul_le_self (2 * number.units + unitsPerOne) (2 * unitsPerOne)
        rw [Nat.mul_left_comm] at nearest
        rw [wholeNearest]
        omega
      rw [if_pos rfl, isFinite_ofRatio_one_iff]
      calc
        number.wholeNearest * unitsPerOne ≤ number.units + unitsPerOne := whole
        _ ≤ greatestUnits + unitsPerOne :=
          Nat.add_le_add_right (units_le_greatestUnits finite) unitsPerOne
        _ < overflowUnits := by decide +kernel

end Binary64

end InspectionFormula
