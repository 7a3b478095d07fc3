import InspectionFormula.Proofs.Expression.Aggregation
import InspectionFormula.Proofs.Operation.Success
import Mathlib.Data.List.Sort

/-!
# The median

The median is read off the arrangement of the values in their total order.  The
order tells all values apart, zeros and patterns that are not a number included,
so there is one arrangement only, and in which order the values come does not
matter.
-/

namespace InspectionFormula

namespace Binary64

variable {left right : Binary64}

/-- The total order: what is negative, zero or not, comes before what is positive, then magnitudes
decide.  What is not a number has greater magnitudes than infinity. -/
def TotalLE (left right : Binary64) : Prop :=
  match left.negative, right.negative with
  | true, false => True
  | false, true => False
  | false, false => left.magnitude ≤ right.magnitude
  | true, true => right.magnitude ≤ left.magnitude

theorem totalLE_iff : left.TotalLE right ↔ left.rank ≤ right.rank := by
  obtain ⟨leftSign, leftMagnitude, _⟩ := left
  obtain ⟨rightSign, rightMagnitude, _⟩ := right
  unfold TotalLE rank
  cases leftSign with
  | true =>
      cases rightSign with
      | true => simp
      | false => exact iff_of_true trivial (by grind)
  | false =>
      cases rightSign with
      | true => exact iff_of_false id (by grind)
      | false => simp

instance : DecidableRel TotalLE := fun _ _ => decidable_of_iff _ totalLE_iff.symm

instance : Std.Total TotalLE where
  total left right := by
    rw [totalLE_iff, totalLE_iff]
    exact Int.le_total _ _

instance : IsTrans Binary64 TotalLE where
  trans _ _ _ := by
    rw [totalLE_iff, totalLE_iff, totalLE_iff]
    exact Int.le_trans

instance : Std.Antisymm TotalLE where
  antisymm _ _ below above :=
    rank_injective (Int.le_antisymm (totalLE_iff.1 below) (totalLE_iff.1 above))

end Binary64

namespace Aggregate

open Binary64 (TotalLE)

variable {sorted values others : List Binary64}

theorem insertRanked_eq_orderedInsert (value : Binary64) (values : List Binary64) :
    insertRanked value values = values.orderedInsert TotalLE value := by
  induction values with
  | nil => rfl
  | cons first rest ih =>
      simp only [insertRanked, List.orderedInsert_cons, Binary64.rankLE, decide_eq_true_eq, ih,
        Binary64.totalLE_iff]

theorem ranked_eq_insertionSort (values : List Binary64) :
    ranked values = values.insertionSort TotalLE := by
  induction values with
  | nil => rfl
  | cons first rest ih =>
      rw [ranked, List.foldr_cons, ← ranked, ih, insertRanked_eq_orderedInsert,
        List.insertionSort_cons]

theorem pairwise_ranked (values : List Binary64) : (ranked values).Pairwise TotalLE := by
  rw [ranked_eq_insertionSort]
  exact List.pairwise_insertionSort TotalLE values

/-- There is one arrangement of the values only. -/
theorem eq_ranked (perm : sorted.Perm values) (ordered : sorted.Pairwise TotalLE) :
    sorted = ranked values :=
  List.Perm.eq_of_pairwise' ordered (pairwise_ranked values) (perm.trans (perm_ranked values).symm)

theorem ranked_perm (perm : others.Perm values) : ranked others = ranked values :=
  eq_ranked ((perm_ranked others).trans perm) (pairwise_ranked others)

theorem median_perm (perm : others.Perm values) : median others = median values := by
  rw [median, median, ranked_perm perm]

theorem median_of_odd {before after : List Binary64} {middle : Binary64}
    (ordered : ranked values = before ++ middle :: after)
    (balanced : before.length = after.length) : median values = some middle := by
  have length : (before ++ middle :: after).length = 2 * before.length + 1 := by
    rw [List.length_append, List.length_cons]
    omega
  have half : (2 * before.length + 1) / 2 = before.length := by omega
  have odd : (2 * before.length + 1) % 2 = 1 := by omega
  simp only [median, ordered, length, half, if_pos odd]
  simp

theorem median_of_even {before after : List Binary64} {below above : Binary64}
    (ordered : ranked values = before ++ below :: above :: after)
    (balanced : before.length = after.length) : median values = some ((below + above) / 2) := by
  have length : (before ++ below :: above :: after).length = 2 * before.length + 2 := by
    rw [List.length_append, List.length_cons, List.length_cons]
    omega
  have half : (2 * before.length + 2) / 2 - 1 = before.length := by omega
  have even : ¬ (2 * before.length + 2) % 2 = 1 := by omega
  simp only [median, ordered, length, half, if_neg even, List.drop_left]

theorem exists_middle {Value : Type} (list : List Value) (odd : list.length % 2 = 1) :
    ∃ before middle after, list = before ++ middle :: after ∧ before.length = after.length := by
  have inside : list.length / 2 < list.length := by omega
  refine ⟨list.take (list.length / 2), list[list.length / 2], list.drop (list.length / 2 + 1),
    ?_, ?_⟩
  · rw [← List.drop_eq_getElem_cons inside, List.take_append_drop]
  · rw [List.length_take, List.length_drop]
    omega

theorem exists_two_middles {Value : Type} (list : List Value) (even : list.length % 2 = 0)
    (nonempty : list ≠ []) :
    ∃ before below above after, list = before ++ below :: above :: after ∧
      before.length = after.length := by
  have positive : 0 < list.length := List.length_pos_iff.2 nonempty
  have first : list.length / 2 - 1 < list.length := by omega
  have second : list.length / 2 - 1 + 1 < list.length := by omega
  refine ⟨list.take (list.length / 2 - 1), list[list.length / 2 - 1],
    list[list.length / 2 - 1 + 1], list.drop (list.length / 2 - 1 + 1 + 1), ?_, ?_⟩
  · rw [← List.drop_eq_getElem_cons second, ← List.drop_eq_getElem_cons first,
      List.take_append_drop]
  · rw [List.length_take, List.length_drop]
    omega

theorem operation?_median :
    Catalog.standard.operation? "median" = some (.aggregate "median" median) := rfl

/-- The median of some values is the middle one of their arrangement in the total order, or half the
sum of the two in the middle, for the values in any order.  The function of formulas gives the
median of the values that its arguments have, if it is finite.  It passes over arguments without a
value, and the order of the arguments decides at most which of several errors it comes to. -/
theorem median_is_middle_of_arrangement :
    (∀ values : List Binary64, values ≠ [] →
      (∃ sorted, sorted.Perm values ∧ sorted.Pairwise TotalLE ∧
        (∀ other, other.Perm values → other.Pairwise TotalLE → other = sorted) ∧
        (values.length % 2 = 1 → ∃ before middle after, sorted = before ++ middle :: after ∧
          before.length = after.length ∧ median values = some middle) ∧
        (values.length % 2 = 0 → ∃ before below above after,
          sorted = before ++ below :: above :: after ∧ before.length = after.length ∧
            median values = some ((below + above) / 2))) ∧
      ∀ others, others.Perm values → median others = median values) ∧
    ∀ operation, Catalog.standard.operation? "median" = some operation →
      ∀ (surroundings : Surroundings) (arguments : List Expression) (span : Span),
        (Expression.NoneFails surroundings arguments →
          (Expression.call operation arguments span).evaluate surroundings =
            .ok ((median (Expression.presentValues surroundings arguments)).filter
              Binary64.isFinite)) ∧
        (∀ others otherSpan, others.Perm arguments →
          ((Expression.call operation others otherSpan).evaluate surroundings).toOption =
            ((Expression.call operation arguments span).evaluate surroundings).toOption ∧
          ((∀ argument ∈ arguments, argument.IsOver .standard) →
            (Expression.call operation others otherSpan).evaluate surroundings =
              (Expression.call operation arguments span).evaluate surroundings)) ∧
        ∀ others otherSpan,
          (others.filter fun argument => !argument.lacksValue surroundings) =
            (arguments.filter fun argument => !argument.lacksValue surroundings) →
          (Expression.call operation others otherSpan).evaluate surroundings =
            (Expression.call operation arguments span).evaluate surroundings := by
  refine ⟨fun values nonempty => ⟨?_, fun others => median_perm⟩, ?_⟩
  · have sameLength : (ranked values).length = values.length := (perm_ranked values).length_eq
    refine ⟨ranked values, perm_ranked values, pairwise_ranked values, fun other => eq_ranked,
      ?_, ?_⟩
    · intro odd
      obtain ⟨before, middle, after, ordered, balanced⟩ :=
        exists_middle (ranked values) (by rw [sameLength, odd])
      exact ⟨before, middle, after, ordered, balanced, median_of_odd ordered balanced⟩
    · intro even
      have nonempty : ranked values ≠ [] := by
        rw [← List.length_pos_iff, sameLength]
        exact List.length_pos_iff.2 nonempty
      obtain ⟨before, below, above, after, ordered, balanced⟩ :=
        exists_two_middles (ranked values) (by rw [sameLength, even]) nonempty
      exact ⟨before, below, above, after, ordered, balanced, median_of_even ordered balanced⟩
  · intro operation known surroundings arguments span
    cases Option.some.inj (known.symm.trans operation?_median)
    refine ⟨fun noneFails => noneFails.evaluate_aggregate rfl "median" span, ?_, ?_⟩
    · intro others otherSpan perm
      refine ⟨Expression.toOption_evaluate_aggregate_perm surroundings rfl median_perm "median" span
        otherSpan perm, fun isOver => ?_⟩
      have noneFails : Expression.NoneFails surroundings arguments := fun argument member =>
        Expression.exists_evaluate_eq_ok Catalog.isTotal_of_mem_standard (isOver argument member)
          surroundings
      exact noneFails.evaluate_aggregate_perm rfl median_perm "median" span otherSpan perm
    · intro others otherSpan sameKept
      rw [← Expression.evaluate_aggregate_filter rfl "median" others otherSpan span, sameKept,
        Expression.evaluate_aggregate_filter rfl "median" arguments span span]

theorem median_of_zeros_and_of_missing :
    ∃ (values : List Binary64) (operation : Operation) (surroundings : Surroundings)
      (arguments others longer : List Expression),
      values = [Binary64.nan false, Binary64.zero false, Binary64.infinity true,
        Binary64.zero true] ∧
      (∃ sorted, sorted.Perm values ∧ sorted.Pairwise TotalLE ∧
        ∃ before below above after, sorted = before ++ below :: above :: after ∧
          before.length = after.length ∧ median values = some ((below + above) / 2)) ∧
      median values = some (Binary64.zero false) ∧ median values.reverse = median values ∧
      Catalog.standard.operation? "median" = some operation ∧ others = arguments.reverse ∧
      longer.length = arguments.length + 2 ∧
      (Expression.call operation arguments ⟨0, 0⟩).evaluate surroundings =
        .ok (some (Binary64.ofNat 2)) ∧
      (Expression.call operation others ⟨0, 0⟩).evaluate surroundings =
        (Expression.call operation arguments ⟨0, 0⟩).evaluate surroundings ∧
      (Expression.call operation longer ⟨0, 0⟩).evaluate surroundings =
        (Expression.call operation arguments ⟨0, 0⟩).evaluate surroundings := by
  let values : List Binary64 := [Binary64.nan false, Binary64.zero false, Binary64.infinity true,
    Binary64.zero true]
  let surroundings : Surroundings := ⟨fun _ => none, fun _ => []⟩
  let number (value : Nat) : Expression := .number (Binary64.ofNat value) ⟨0, 0⟩
  let missing : Expression := .reference ⟨.root, none⟩ ⟨0, 0⟩
  let arguments := [number 3, number 1, number 2]
  obtain ⟨ofValues, ofCalls⟩ := median_is_middle_of_arrangement
  obtain ⟨⟨sorted, perm, ordered, -, -, ofEven⟩, inAnyOrder⟩ := ofValues values (by simp [values])
  obtain ⟨noneFails, reordered, passedOver⟩ := ofCalls _ operation?_median surroundings
    arguments ⟨0, 0⟩
  have allNumbers : ∀ argument ∈ arguments, argument.IsOver .standard := by
    simp [arguments, number, Expression.IsOver.number]
  have hasValue : Expression.NoneFails surroundings arguments := by
    simp [Expression.NoneFails, arguments, number, Expression.evaluate]
  have isPassedOver : missing.lacksValue surroundings = true := rfl
  refine ⟨values, _, surroundings, arguments, arguments.reverse,
    missing :: arguments ++ [missing], rfl, ⟨sorted, perm, ordered, ofEven (by simp [values])⟩,
    by decide +kernel, inAnyOrder _ values.reverse_perm, operation?_median, rfl, by simp,
    (noneFails hasValue).trans (by decide +kernel),
    (reordered _ _ arguments.reverse_perm).2 allNumbers, passedOver _ _ (by simp [isPassedOver])⟩

end Aggregate

end InspectionFormula
