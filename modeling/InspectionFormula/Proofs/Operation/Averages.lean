import InspectionFormula.Proofs.Binary64.Overflow
import InspectionFormula.Proofs.Operation.Median

/-!
# Averages and rounding of large numbers

A mean is taken of a total, a median of the sum of two values, and digits are
rounded off a multiple.  Each of these may overflow where the exact result lies
within the range of the values.  Then there is no result, and otherwise there is
one.
-/

namespace InspectionFormula

namespace Aggregate

open Binary64

variable {values : List Binary64} {value sum : Binary64}

/-! ## Totals and means -/

/-- The units of the greatest power of two that half the spacing of the greatest numbers does not
move when it is added. -/
def steadyUnits : Nat := 2 ^ 2097

/-- Half the spacing of the greatest numbers, in units. -/
def moderateUnits : Nat := 2 ^ 2044

/-- To add a moderate value to a steady sum leaves it steady, as halves are rounded to even. -/
theorem steady_add (sumFinite : sum.isFinite = true) (steady : sum.units ≤ steadyUnits)
    (finite : value.isFinite = true) (moderate : value.units ≤ moderateUnits) :
    (sum + value).isFinite = true ∧ (sum + value).units ≤ steadyUnits := by
  have bound : (sum.signedUnits + value.signedUnits).natAbs ≤ steadyUnits + moderateUnits := by
    have triangle := Int.natAbs_add_le sum.signedUnits value.signedUnits
    rw [natAbs_signedUnits, natAbs_signedUnits] at triangle
    omega
  constructor
  · rw [isFinite_add_iff sumFinite finite]
    exact Nat.lt_of_le_of_lt bound (by decide +kernel)
  · have rounded : unitsOfMagnitude (magnitudeOfRatio (steadyUnits + moderateUnits) 1) =
        steadyUnits := by
      decide +kernel
    rw [units, magnitude_add sumFinite finite, ← rounded]
    exact unitsOfMagnitude_mono (magnitudeOfRatio_mono 1 bound)

/-- However many values there are, their total is finite if they are moderate. -/
theorem isFinite_total_of_moderate (finite : ∀ value ∈ values, value.isFinite = true)
    (moderate : ∀ value ∈ values, value.units ≤ moderateUnits) :
    (total values).isFinite = true := by
  have steady (sum : Binary64) (sumFinite : sum.isFinite = true)
      (isSteady : sum.units ≤ steadyUnits) : (values.foldl (· + ·) sum).isFinite = true := by
    induction values generalizing sum with
    | nil => exact sumFinite
    | cons first rest ih =>
        obtain ⟨firstFinite, restFinite⟩ := List.forall_mem_cons.1 finite
        obtain ⟨firstModerate, restModerate⟩ := List.forall_mem_cons.1 moderate
        obtain ⟨added, stays⟩ := steady_add sumFinite isSteady firstFinite firstModerate
        exact ih restFinite restModerate _ added stays
  exact steady (zero true) (by decide) (by decide +kernel)

theorem filter_mean (nonempty : values ≠ []) :
    (mean values).filter Binary64.isFinite =
      if (total values).isFinite then some (total values / ofNat values.length) else none := by
  have isFinite : (total values / ofNat values.length).isFinite = (total values).isFinite :=
    isFinite_div (isNaN_ofNat _) (magnitude_ofNat_mono (List.length_pos_iff.2 nonempty))
  have isMean : mean values = some (total values / ofNat values.length) := by
    simp [mean, Aggregate.sum, nonempty]
  rw [isMean, Option.filter_some, isFinite]

theorem operation?_mean :
    Catalog.standard.operation? "mean" = some (.aggregate "mean" mean) := rfl

/-! ## Medians -/

theorem filter_median_of_odd {before after : List Binary64} {middle : Binary64}
    (finite : ∀ value ∈ values, value.isFinite = true)
    (ordered : ranked values = before ++ middle :: after)
    (balanced : before.length = after.length) :
    middle ∈ values ∧ (median values).filter Binary64.isFinite = some middle := by
  have member : middle ∈ values := by
    rw [← (perm_ranked values).mem_iff, ordered]
    simp
  rw [median_of_odd ordered balanced, Option.filter_some, if_pos (finite middle member)]
  exact ⟨member, rfl⟩

theorem filter_median_of_even {before after : List Binary64} {below above : Binary64}
    (finite : ∀ value ∈ values, value.isFinite = true)
    (ordered : ranked values = before ++ below :: above :: after)
    (balanced : before.length = after.length) :
    (median values).filter Binary64.isFinite =
      if (below.signedUnits + above.signedUnits).natAbs < overflowUnits then
        some ((below + above) / 2)
      else none := by
  have belowFinite : below.isFinite = true :=
    finite below ((perm_ranked values).mem_iff.1 (by simp [ordered]))
  have aboveFinite : above.isFinite = true :=
    finite above ((perm_ranked values).mem_iff.1 (by simp [ordered]))
  have isFinite : ((below + above) / 2).isFinite = (below + above).isFinite :=
    isFinite_div (isNaN_ofNat 2) (magnitude_ofNat_mono (by decide))
  rw [median_of_even ordered balanced, Option.filter_some, isFinite]
  simp only [isFinite_add_iff belowFinite aboveFinite]

end Aggregate

/-! ## Rounding -/

namespace Numeric

open Binary64

variable {value digits : Binary64}

/-- The powers of ten that rounding uses are numbers. -/
theorem ofNat_power {places : Nat} (few : places ≤ mostDigits) :
    (ofNat (10 ^ places)).isFinite = true ∧
      (ofNat (10 ^ places)).units = 10 ^ places * unitsPerOne := by
  have each : ∀ places ≤ mostDigits, (ofNat (10 ^ places)).isFinite = true ∧
      (ofNat (10 ^ places)).units = 10 ^ places * unitsPerOne := by
    decide +kernel
  exact each places few

theorem isFinite_roundTo (finite : value.isFinite = true) {places : Nat}
    (few : places ≤ mostDigits) :
    (roundTo value places).isFinite = true ↔ value.units * 10 ^ places < overflowUnits := by
  obtain ⟨powerFinite, powerUnits⟩ := ofNat_power few
  have large : (ofNat 1).magnitude ≤ (ofNat (10 ^ places)).magnitude :=
    magnitude_ofNat_mono (Nat.pow_pos (by decide))
  have scaled : (value * ofNat (10 ^ places)).magnitude =
      magnitudeOfRatio (value.units * 10 ^ places) 1 := by
    rw [magnitude_mul finite powerFinite, powerUnits, ← Nat.mul_assoc,
      ← magnitudeOfRatio_mul_right _ 1 (by decide +kernel : 0 < unitsPerOne), Nat.one_mul]
  have isQuotient : roundTo value places =
      (value * ofNat (10 ^ places)).round / ofNat (10 ^ places) := by
    simp [roundTo]
  rw [isQuotient, isFinite_div (isNaN_ofNat _) large, isFinite_round, isFinite_iff, scaled,
    magnitudeOfRatio_lt_infinityMagnitude_iff]

theorem digitsAsked_of_not_lt (finite : digits.isFinite = true) (notLess : digits.lt 0 = false) :
    digitsAsked digits = (min digits.wholePart mostDigits : Nat) := by
  have isNumber := isNaN_of_isFinite finite
  rw [digitsAsked]
  simp only [isNumber, finite]
  cases negative : digits.negative with
  | false => rfl
  | true =>
      have zero : digits.magnitude = 0 := by
        have zeroPlace : (0 : Binary64).place = 0 := by decide +kernel
        have zeroNumber : (0 : Binary64).isNaN = false := isNaN_ofNat 0
        have notLess : ¬ digits.place < 0 := by
          simpa [lt, isNumber, zeroNumber, zeroPlace] using notLess
        rw [place, negative, if_pos rfl] at notLess
        omega
      have none : digits.wholePart = 0 := by
        rw [wholePart, units, zero]
        decide +kernel
      rw [none]
      rfl

theorem operation?_round : Catalog.standard.operation? "round" = some round := rfl

end Numeric

namespace Expression

open Aggregate Binary64

variable {surroundings : Surroundings} {arguments : List Expression} {values : List Binary64}
  {argument places : Expression} {value : Binary64} {digits : Option Binary64}

/-- No argument fails, and the values that there are, at least one, are finite. -/
structure HaveFiniteValues (surroundings : Surroundings) (arguments : List Expression)
    (values : List Binary64) : Prop where
  noneFails : NoneFails surroundings arguments
  present : presentValues surroundings arguments = values
  nonempty : values ≠ []
  finite : ∀ value ∈ values, value.isFinite = true

theorem haveFiniteValues_numbers (surroundings : Surroundings) {values : List Binary64}
    (nonempty : values ≠ []) (finite : ∀ value ∈ values, value.isFinite = true) (span : Span) :
    HaveFiniteValues surroundings (values.map fun value => number value span) values where
  noneFails := by simp [NoneFails, evaluate]
  present := by simp [presentValues, evaluate, Except.toOption, Function.comp_def]
  nonempty := nonempty
  finite := finite

namespace HaveFiniteValues

theorem evaluate_mean (haveValues : HaveFiniteValues surroundings arguments values) (span : Span) :
    (call (.aggregate "mean" mean) arguments span).evaluate surroundings =
      .ok (if (total values).isFinite then some (total values / ofNat values.length)
        else none) := by
  rw [haveValues.noneFails.evaluate_aggregate rfl, haveValues.present,
    filter_mean haveValues.nonempty]

theorem evaluate_median (haveValues : HaveFiniteValues surroundings arguments values)
    (span : Span) : (call (.aggregate "median" median) arguments span).evaluate surroundings =
      .ok ((median values).filter Binary64.isFinite) := by
  rw [haveValues.noneFails.evaluate_aggregate rfl, haveValues.present]

theorem evaluate_median_of_odd (haveValues : HaveFiniteValues surroundings arguments values)
    (span : Span) (odd : values.length % 2 = 1) :
    ∃ middle ∈ values,
      (call (.aggregate "median" median) arguments span).evaluate surroundings =
        .ok (some middle) := by
  obtain ⟨before, middle, after, ordered, balanced⟩ :=
    exists_middle (ranked values) (by rw [(perm_ranked values).length_eq, odd])
  obtain ⟨member, isMedian⟩ := filter_median_of_odd haveValues.finite ordered balanced
  exact ⟨middle, member, by rw [haveValues.evaluate_median, isMedian]⟩

theorem evaluate_median_of_even (haveValues : HaveFiniteValues surroundings arguments values)
    (span : Span) (even : values.length % 2 = 0) :
    ∃ before below above after, ranked values = before ++ below :: above :: after ∧
      before.length = after.length ∧
      (call (.aggregate "median" median) arguments span).evaluate surroundings =
        .ok (if (below.signedUnits + above.signedUnits).natAbs < overflowUnits then
          some ((below + above) / 2) else none) := by
  have sameLength : (ranked values).length = values.length := (perm_ranked values).length_eq
  have nonempty : ranked values ≠ [] := by
    rw [← List.length_pos_iff, sameLength]
    exact List.length_pos_iff.2 haveValues.nonempty
  obtain ⟨before, below, above, after, ordered, balanced⟩ :=
    exists_two_middles (ranked values) (by rw [sameLength, even]) nonempty
  refine ⟨before, below, above, after, ordered, balanced, ?_⟩
  rw [haveValues.evaluate_median, filter_median_of_even haveValues.finite ordered balanced]

theorem exists_averages_of_moderate (haveValues : HaveFiniteValues surroundings arguments values)
    (span : Span) (moderate : ∀ value ∈ values, value.units ≤ moderateUnits) :
    ∃ average middle,
      (call (.aggregate "mean" mean) arguments span).evaluate surroundings = .ok (some average) ∧
      (call (.aggregate "median" median) arguments span).evaluate surroundings =
        .ok (some middle) := by
  have hasMean := haveValues.evaluate_mean span
  rw [if_pos (isFinite_total_of_moderate haveValues.finite moderate)] at hasMean
  rcases Nat.mod_two_eq_zero_or_one values.length with even | odd
  · obtain ⟨before, below, above, after, ordered, -, hasMedian⟩ :=
      haveValues.evaluate_median_of_even span even
    have small : (below.signedUnits + above.signedUnits).natAbs < overflowUnits := by
      have belowModerate := moderate below ((perm_ranked values).mem_iff.1 (by simp [ordered]))
      have aboveModerate := moderate above ((perm_ranked values).mem_iff.1 (by simp [ordered]))
      have triangle := Int.natAbs_add_le below.signedUnits above.signedUnits
      rw [natAbs_signedUnits, natAbs_signedUnits] at triangle
      calc
        (below.signedUnits + above.signedUnits).natAbs ≤ moderateUnits + moderateUnits :=
          Nat.le_trans triangle (Nat.add_le_add belowModerate aboveModerate)
        _ < overflowUnits := by decide +kernel
    rw [if_pos small] at hasMedian
    exact ⟨_, _, hasMean, hasMedian⟩
  · obtain ⟨middle, -, hasMedian⟩ := haveValues.evaluate_median_of_odd span odd
    exact ⟨_, middle, hasMean, hasMedian⟩

end HaveFiniteValues

/-- The places after the point that digits, if there are any, ask rounding for. -/
def placesAsked (digits : Option Binary64) : Nat :=
  min (digits.getD 0).wholePart Numeric.mostDigits

theorem evaluate_round (hasValue : argument.evaluate surroundings = .ok (some value))
    (hasDigits : places.evaluate surroundings = .ok digits) (span : Span) :
    (call Numeric.round [argument, places] span).evaluate surroundings =
      .ok ((some (Numeric.roundTo value (Numeric.digitsAsked (digits.getD 0)))).filter
        Binary64.isFinite) := by
  have first : (surroundings.answers [argument, places]).argument 0 = .ok (some value) := hasValue
  have second : (surroundings.answers [argument, places]).argument 1 = .ok digits := hasDigits
  rw [evaluate_call, Numeric.round]
  simp only [Computation.run_bind, Computation.run_askArgument, first, second, Except.bind,
    Computation.run_pure]
  rfl

theorem evaluate_round_of_finite (hasValue : argument.evaluate surroundings = .ok (some value))
    (finite : value.isFinite = true) (hasDigits : places.evaluate surroundings = .ok digits)
    (afterPoint : ∀ number, digits = some number →
      number.isFinite = true ∧ number.lt 0 = false) (span : Span) :
    (call Numeric.round [argument, places] span).evaluate surroundings =
      .ok (if value.units * 10 ^ placesAsked digits < overflowUnits then
        some (Numeric.roundTo value (placesAsked digits)) else none) := by
  have asked : Numeric.digitsAsked (digits.getD 0) = placesAsked digits := by
    cases digits with
    | none => exact Numeric.digitsAsked_of_not_lt (by decide +kernel) (by decide +kernel)
    | some number =>
        obtain ⟨numberFinite, notLess⟩ := afterPoint number rfl
        exact Numeric.digitsAsked_of_not_lt numberFinite notLess
  have few : placesAsked digits ≤ Numeric.mostDigits := Nat.min_le_right _ _
  rw [evaluate_round hasValue hasDigits, asked, Option.filter_some]
  simp only [Numeric.isFinite_roundTo finite few]

theorem lt_overflowUnits_of_few_places (finite : value.isFinite = true)
    (few : placesAsked digits = 0 ∨ value.units ≤ moderateUnits) :
    value.units * 10 ^ placesAsked digits < overflowUnits := by
  rcases few with none | moderate
  · rw [none, Nat.pow_zero, Nat.mul_one]
    exact units_lt_overflowUnits finite
  · have most : placesAsked digits ≤ Numeric.mostDigits := Nat.min_le_right _ _
    calc
      value.units * 10 ^ placesAsked digits ≤ moderateUnits * 10 ^ Numeric.mostDigits :=
        Nat.mul_le_mul moderate (Nat.pow_le_pow_right (by decide) most)
      _ < overflowUnits := by decide +kernel

end Expression

namespace Aggregate

open Binary64 Expression

/-- A mean of finite values has a value exactly if their total is finite, a median of an odd number
of them has one, a median of an even number of them has one exactly if the two in the middle have a
finite sum, and rounding to digits after the point has one exactly if the multiple is finite.  So
moderate values, however many there are, have averages, and they can be rounded. -/
theorem averages_have_values_unless_overflow (surroundings : Surroundings)
    {mean median round : Operation} (isMean : Catalog.standard.operation? "mean" = some mean)
    (isMedian : Catalog.standard.operation? "median" = some median)
    (isRound : Catalog.standard.operation? "round" = some round) :
    (∀ arguments values span, HaveFiniteValues surroundings arguments values →
      (call mean arguments span).evaluate surroundings =
        .ok (if (total values).isFinite then some (total values / ofNat values.length)
          else none) ∧
      (values.length % 2 = 1 → ∃ middle ∈ values,
        (call median arguments span).evaluate surroundings = .ok (some middle)) ∧
      (values.length % 2 = 0 → ∃ before below above after,
        ranked values = before ++ below :: above :: after ∧ before.length = after.length ∧
        (call median arguments span).evaluate surroundings =
          .ok (if (below.signedUnits + above.signedUnits).natAbs < overflowUnits then
            some ((below + above) / 2) else none)) ∧
      ((∀ value ∈ values, value.units ≤ moderateUnits) → ∃ average middle,
        (call mean arguments span).evaluate surroundings = .ok (some average) ∧
        (call median arguments span).evaluate surroundings = .ok (some middle))) ∧
    ∀ argument places span value digits, argument.evaluate surroundings = .ok (some value) →
      value.isFinite = true → places.evaluate surroundings = .ok digits →
      (∀ number, digits = some number → number.isFinite = true ∧ number.lt 0 = false) →
      (call round [argument, places] span).evaluate surroundings =
        .ok (if value.units * 10 ^ placesAsked digits < overflowUnits then
          some (Numeric.roundTo value (placesAsked digits)) else none) ∧
      (placesAsked digits = 0 ∨ value.units ≤ moderateUnits →
        (call round [argument, places] span).evaluate surroundings =
          .ok (some (Numeric.roundTo value (placesAsked digits)))) := by
  cases Option.some.inj (isMean.symm.trans operation?_mean)
  cases Option.some.inj (isMedian.symm.trans operation?_median)
  cases Option.some.inj (isRound.symm.trans Numeric.operation?_round)
  constructor
  · intro arguments values span haveValues
    exact ⟨haveValues.evaluate_mean span, haveValues.evaluate_median_of_odd span,
      haveValues.evaluate_median_of_even span, haveValues.exists_averages_of_moderate span⟩
  · intro argument places span value digits hasValue finite hasDigits afterPoint
    have rounds := evaluate_round_of_finite hasValue finite hasDigits afterPoint span
    refine ⟨rounds, fun few => ?_⟩
    rw [rounds, if_pos (lt_overflowUnits_of_few_places finite few)]

theorem averages_of_two_large_and_two_small_values :
    ∃ (surroundings : Surroundings) (large small : List Expression) (mean median round : Operation),
      HaveFiniteValues surroundings large [ofNat (10 ^ 308), ofNat (10 ^ 308)] ∧
      HaveFiniteValues surroundings small [ofNat 3, ofNat 1] ∧
      Catalog.standard.operation? "mean" = some mean ∧
      Catalog.standard.operation? "median" = some median ∧
      Catalog.standard.operation? "round" = some round ∧
      (call mean large ⟨0, 0⟩).evaluate surroundings = .ok none ∧
      (call mean small ⟨0, 0⟩).evaluate surroundings = .ok (some (ofNat 2)) ∧
      (∃ average middle,
        (call mean small ⟨0, 0⟩).evaluate surroundings = .ok (some average) ∧
        (call median small ⟨0, 0⟩).evaluate surroundings = .ok (some middle)) ∧
      (call round [.number (ofNat (10 ^ 308)) ⟨0, 0⟩, .number (ofNat 2) ⟨0, 0⟩]
        ⟨0, 0⟩).evaluate surroundings = .ok none := by
  let surroundings : Surroundings := ⟨fun _ => none, fun _ => []⟩
  let number (value : Nat) : Expression := .number (ofNat value) ⟨0, 0⟩
  have large := haveFiniteValues_numbers surroundings
    (List.cons_ne_nil (ofNat (10 ^ 308)) [ofNat (10 ^ 308)]) (by decide +kernel) ⟨0, 0⟩
  have small := haveFiniteValues_numbers surroundings
    (List.cons_ne_nil (ofNat 3) [ofNat 1]) (by decide +kernel) ⟨0, 0⟩
  obtain ⟨ofValues, ofRounding⟩ := averages_have_values_unless_overflow surroundings
    operation?_mean operation?_median Numeric.operation?_round
  obtain ⟨meanOfLarge, -, -, -⟩ := ofValues _ _ ⟨0, 0⟩ large
  obtain ⟨meanOfSmall, -, -, ofModerate⟩ := ofValues _ _ ⟨0, 0⟩ small
  obtain ⟨rounded, -⟩ := ofRounding (number (10 ^ 308)) (number 2) ⟨0, 0⟩ _ _ rfl
    (by decide +kernel) rfl (by rintro _ ⟨⟩; decide +kernel)
  refine ⟨surroundings, _, _, _, _, _, large, small, operation?_mean, operation?_median,
    Numeric.operation?_round, ?_, ?_, ofModerate ?_, ?_⟩
  · rw [meanOfLarge]
    decide +kernel
  · rw [meanOfSmall]
    decide +kernel
  · decide +kernel
  · rw [rounded]
    decide +kernel

/-- Not all averages of finite values have values, nor do all finite numbers when they are rounded.
The exact results are the values themselves. -/
theorem not_forall_average_has_value :
    (¬ ∀ mean, Catalog.standard.operation? "mean" = some mean →
      ∀ surroundings arguments values span, HaveFiniteValues surroundings arguments values →
        ∃ value, (call mean arguments span).evaluate surroundings = .ok (some value)) ∧
    (¬ ∀ median, Catalog.standard.operation? "median" = some median →
      ∀ surroundings arguments values span, HaveFiniteValues surroundings arguments values →
        ∃ value, (call median arguments span).evaluate surroundings = .ok (some value)) ∧
    ¬ ∀ round, Catalog.standard.operation? "round" = some round →
      ∀ surroundings argument places span value digits,
        argument.evaluate surroundings = .ok (some value) → value.isFinite = true →
        places.evaluate surroundings = .ok digits →
        (∀ number, digits = some number → number.isFinite = true ∧ number.lt 0 = false) →
        ∃ rounded,
          (call round [argument, places] span).evaluate surroundings = .ok (some rounded) := by
  let surroundings : Surroundings := ⟨fun _ => none, fun _ => []⟩
  let large : Expression := .number (ofNat (10 ^ 308)) ⟨0, 0⟩
  let two : Expression := .number (ofNat 2) ⟨0, 0⟩
  have finite : (ofNat (10 ^ 308)).isFinite = true := by decide +kernel
  have haveValues : HaveFiniteValues surroundings [large, large]
      [ofNat (10 ^ 308), ofNat (10 ^ 308)] :=
    haveFiniteValues_numbers surroundings
      (List.cons_ne_nil (ofNat (10 ^ 308)) [ofNat (10 ^ 308)]) (by decide +kernel) ⟨0, 0⟩
  refine ⟨fun claimed => ?_, fun claimed => ?_, fun claimed => ?_⟩
  · obtain ⟨value, evaluates⟩ :=
      claimed _ operation?_mean surroundings _ _ ⟨0, 0⟩ haveValues
    have overflows : (call (.aggregate "mean" mean) [large, large] ⟨0, 0⟩).evaluate surroundings =
        .ok none := by
      decide +kernel
    cases overflows.symm.trans evaluates
  · obtain ⟨value, evaluates⟩ :=
      claimed _ operation?_median surroundings _ _ ⟨0, 0⟩ haveValues
    have overflows : (call (.aggregate "median" median) [large, large] ⟨0, 0⟩).evaluate
        surroundings = .ok none := by
      decide +kernel
    cases overflows.symm.trans evaluates
  · obtain ⟨rounded, evaluates⟩ := claimed _ Numeric.operation?_round surroundings large two ⟨0, 0⟩
      _ _ rfl finite rfl (by rintro _ ⟨⟩; decide +kernel)
    have overflows : (call Numeric.round [large, two] ⟨0, 0⟩).evaluate surroundings = .ok none := by
      decide +kernel
    cases overflows.symm.trans evaluates

end Aggregate

end InspectionFormula
