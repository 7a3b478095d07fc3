import Mathlib.Data.List.TakeWhile
import InspectionFormula.Decimal
import InspectionFormula.Proofs.Binary64.Rounding

/-!
# Written numbers are read back

The positional text of a finite number is a decimal number that stands for its
absolute value.
-/

namespace InspectionFormula

namespace Decimal

theorem read?_digits {digits : List Char} (nonempty : digits ≠ [])
    (decimal : ∀ character ∈ digits, character.isDigit = true) :
    read? digits = some ⟨Nat.ofDigitChars 10 digits 0, 0⟩ := by
  have whole : digits.takeWhile Char.isDigit = digits :=
    List.takeWhile_eq_self_iff.2 decimal
  have rest : digits.dropWhile Char.isDigit = [] := List.dropWhile_eq_nil_iff.2 decimal
  simp [read?, whole, rest, nonempty, readExponent?]

theorem read?_point {whole fraction : List Char} (nonempty : whole ≠ [])
    (decimalWhole : ∀ character ∈ whole, character.isDigit = true)
    (decimalFraction : ∀ character ∈ fraction, character.isDigit = true) :
    read? (whole ++ '.' :: fraction) =
      some ⟨Nat.ofDigitChars 10 (whole ++ fraction) 0, -fraction.length⟩ := by
  have before : (whole ++ '.' :: fraction).takeWhile Char.isDigit = whole := by
    rw [List.takeWhile_append_of_pos decimalWhole, List.takeWhile_cons_of_neg (by decide),
      List.append_nil]
  have after : (whole ++ '.' :: fraction).dropWhile Char.isDigit = '.' :: fraction := by
    rw [List.dropWhile_append_of_pos decimalWhole, List.dropWhile_cons_of_neg (by decide)]
  have inside : fraction.takeWhile Char.isDigit = fraction :=
    List.takeWhile_eq_self_iff.2 decimalFraction
  have rest : fraction.dropWhile Char.isDigit = [] :=
    List.dropWhile_eq_nil_iff.2 decimalFraction
  simp [read?, before, after, inside, rest, nonempty, readExponent?]

theorem isDigit_of_mem_lastDigits {width value : Nat} {character : Char}
    (member : character ∈ lastDigits width value) : character.isDigit = true := by
  induction width generalizing value with
  | zero => cases member
  | succ width ih =>
      rcases List.mem_append.1 member with earlier | last
      · exact ih earlier
      · rw [List.mem_singleton.1 last, Nat.isDigit_digitChar, decide_eq_true_eq]
        exact Nat.mod_lt _ (by omega)

theorem ofDigitChars_lastDigits (width value start : Nat) :
    Nat.ofDigitChars 10 (lastDigits width value) start =
      10 ^ width * start + value % 10 ^ width := by
  induction width generalizing value with
  | zero => simp [lastDigits, Nat.mod_one]
  | succ width ih =>
      have splits : value % 10 ^ (width + 1) = value % 10 + 10 * (value / 10 % 10 ^ width) := by
        rw [Nat.pow_succ', Nat.mod_mul]
      rw [lastDigits, Nat.ofDigitChars_append, ih,
        Nat.ofDigitChars_cons_digitChar_of_lt_ten (Nat.mod_lt _ (by omega)), Nat.ofDigitChars_nil,
        splits, Nat.pow_succ', Nat.mul_add, Nat.mul_assoc]
      omega

theorem exists_dropTrailingZeros (digits : List Char) :
    ∃ zeros, digits = dropTrailingZeros digits ++ List.replicate zeros '0' := by
  have ended := List.takeWhile_append_dropWhile (p := (· == '0')) (l := digits.reverse)
  have zeros : digits.reverse.takeWhile (· == '0') =
      List.replicate (digits.reverse.takeWhile (· == '0')).length '0' := by
    rw [List.eq_replicate_iff]
    exact ⟨rfl, fun character member => by simpa using List.mem_takeWhile_imp member⟩
  refine ⟨(digits.reverse.takeWhile (· == '0')).length, ?_⟩
  rw [dropTrailingZeros, ← List.reverse_replicate, ← zeros, ← List.reverse_append, ended,
    List.reverse_reverse]

/-- A significand is told by the whole digits and the fraction that remains of it. -/
theorem significand_eq_ofDigitChars (places significand : Nat) :
    ∃ zeros, places = (dropTrailingZeros (lastDigits places significand)).length + zeros ∧
      significand = Nat.ofDigitChars 10 (Nat.toDigits 10 (significand / 10 ^ places) ++
        dropTrailingZeros (lastDigits places significand)) 0 * 10 ^ zeros := by
  obtain ⟨zeros, splits⟩ := exists_dropTrailingZeros (lastDigits places significand)
  have widths := congrArg List.length splits
  rw [length_lastDigits, List.length_append, List.length_replicate] at widths
  refine ⟨zeros, widths, ?_⟩
  have total : Nat.ofDigitChars 10 (Nat.toDigits 10 (significand / 10 ^ places) ++
      lastDigits places significand) 0 = significand := by
    rw [Nat.ofDigitChars_append, Nat.ofDigitChars_ten_toDigits, ofDigitChars_lastDigits,
      Nat.div_add_mod]
  rw [splits, ← List.append_assoc, Nat.ofDigitChars_append,
    Nat.ofDigitChars_replicate_zero] at total
  rw [Nat.mul_comm, total]

end Decimal

namespace Binary64

open Decimal

theorem ofDecimal_neg (significand places : Nat) :
    ofDecimal ⟨significand, -places⟩ = ofRatio false (significand * unitsPerOne) (10 ^ places) := by
  unfold ofDecimal
  split
  · next whole =>
      obtain rfl : places = 0 := by simpa using whole
      simp
  · simp

theorem read?_positional_whole (significand exponent : Nat) :
    ∃ written, Decimal.read? (positional ⟨significand, exponent⟩) = some written ∧
      ofDecimal written = ofDecimal ⟨significand, exponent⟩ := by
  have digits : positional ⟨significand, exponent⟩ =
      Nat.toDigits 10 (significand * 10 ^ exponent) := by
    simp [positional]
  rw [digits]
  refine ⟨_, read?_digits Nat.toDigits_ne_nil fun character member =>
    Nat.isDigit_of_mem_toDigits (by omega) (by omega) member, ?_⟩
  rw [Nat.ofDigitChars_ten_toDigits]
  simp [ofDecimal]

theorem read?_positional_places (significand : Nat) {places : Nat} (positive : 0 < places) :
    ∃ written, Decimal.read? (positional ⟨significand, -places⟩) = some written ∧
      ofDecimal written = ofDecimal ⟨significand, -places⟩ := by
  obtain ⟨zeros, widths, value⟩ := significand_eq_ofDigitChars places significand
  have wholeDigits : ∀ character ∈ Nat.toDigits 10 (significand / 10 ^ places),
      character.isDigit = true := fun character member =>
    Nat.isDigit_of_mem_toDigits (by omega) (by omega) member
  have fractionDigits : ∀ character ∈ dropTrailingZeros (lastDigits places significand),
      character.isDigit = true := by
    intro character member
    have kept := (List.dropWhile_sublist _).mem (List.mem_reverse.1 member)
    exact isDigit_of_mem_lastDigits (List.mem_reverse.1 kept)
  have negative : ¬ 0 ≤ -(places : Int) := by omega
  have scaled (written : Nat) (same : significand = written * 10 ^ zeros) (count : Nat)
      (total : places = count + zeros) :
      ofDecimal ⟨written, -count⟩ = ofDecimal ⟨significand, -places⟩ := by
    rw [ofDecimal_neg, ofDecimal_neg, same, total, Nat.pow_add, Nat.mul_right_comm,
      ofRatio_mul_right _ _ _ (Nat.pow_pos (by omega))]
  simp only [positional, if_neg negative, Int.neg_neg, Int.toNat_natCast, Nat.pow_eq]
  split
  · next empty =>
      rw [empty] at value widths
      refine ⟨_, read?_digits Nat.toDigits_ne_nil wholeDigits, ?_⟩
      rw [List.append_nil] at value
      exact scaled _ value 0 widths
  · refine ⟨_, read?_point Nat.toDigits_ne_nil wholeDigits fractionDigits, ?_⟩
    exact scaled _ value _ widths

/-- The text of a decimal in positional notation is a decimal of the same value. -/
theorem read?_positional (decimal : Decimal) :
    ∃ written, Decimal.read? decimal.positional = some written ∧
      ofDecimal written = ofDecimal decimal := by
  obtain ⟨significand, exponent⟩ := decimal
  by_cases whole : 0 ≤ exponent
  · obtain ⟨count, rfl⟩ := Int.eq_ofNat_of_zero_le whole
    exact read?_positional_whole significand count
  · obtain ⟨places, rfl⟩ : ∃ places : Nat, exponent = -places := ⟨(-exponent).toNat, by omega⟩
    exact read?_positional_places significand (by omega)

/-- The exact decimal of a number is read as the number. -/
theorem ofDecimal_exactMultiple {number : Binary64} (finite : number.isFinite = true) :
    (ofDecimal ⟨number.exactMultiple, -1074⟩).magnitude = number.magnitude := by
  have inRange : number.magnitude < infinityMagnitude := of_decide_eq_true finite
  have scale (places : Nat) (one : unitsPerOne = Nat.pow 2 places)
      (exact : number.exactMultiple = number.units * Nat.pow 5 places) :
      (ofDecimal ⟨number.exactMultiple, -places⟩).magnitude = number.magnitude := by
    have tens : 10 ^ places = 1 * (5 ^ places * 2 ^ places) := by
      rw [Nat.one_mul, ← Nat.mul_pow]
    rw [ofDecimal_neg, exact, one, Nat.pow_eq, Nat.pow_eq, tens, Nat.mul_assoc,
      ofRatio_mul_right _ _ _ (Nat.mul_pos (Nat.pow_pos (by omega)) (Nat.pow_pos (by omega)))]
    exact magnitudeOfRatio_unitsOfMagnitude inRange
  -- Only the kernel computes powers of this size.
  exact scale 1074 (by decide +kernel) (congrArg (number.units * ·) (by decide +kernel))

theorem ofDecimal_shortest {number : Binary64} (finite : number.isFinite = true) :
    (ofDecimal number.shortest).magnitude = number.magnitude := by
  rcases readsBack_shortest_or_exact number with back | whole
  · exact eq_of_beq back
  · rw [whole]
    exact ofDecimal_exactMultiple finite

theorem eq_of_magnitude {left right : Binary64} (negatives : left.negative = right.negative)
    (magnitudes : left.magnitude = right.magnitude) : left = right := by
  cases left
  cases right
  obtain rfl := negatives
  obtain rfl := magnitudes
  rfl

theorem negative_ofDecimal (decimal : Decimal) : (ofDecimal decimal).negative = false := by
  unfold ofDecimal
  split <;> rfl

/-- The text of a finite number's absolute value is read as that value. -/
theorem readLiteral?_absoluteText {number : Binary64} (finite : number.isFinite = true) :
    readLiteral? number.absoluteText = some number.abs := by
  obtain ⟨written, read, same⟩ := read?_positional number.shortest
  have value : ofDecimal written = number.abs := by
    rw [same]
    exact eq_of_magnitude (negative_ofDecimal _) (ofDecimal_shortest finite)
  have inRange : number.abs.isFinite = true := finite
  rw [absoluteText, if_pos finite, readLiteral?, read, Option.map_some, value,
    Option.filter_some, if_pos inRange]

end Binary64

end InspectionFormula
