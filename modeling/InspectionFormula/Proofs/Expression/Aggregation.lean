import InspectionFormula.Proofs.Expression.Reads
import Mathlib.Data.List.ReduceOption

/-!
# Calls of aggregations

An aggregation reduces the values that its arguments have, in the order of the
arguments.  The first argument that fails makes the call fail.
-/

namespace InspectionFormula

namespace Aggregate

/-- The values of the arguments from one on are those that asking for each of them gives. -/
theorem run_argumentValues (answers : Answers) (index count : Nat) :
    (argumentValues index count).run answers =
      ((List.range' index count).mapM answers.argument).map List.reduceOption := by
  induction count generalizing index with
  | zero => rfl
  | succ count ih =>
      rw [argumentValues, Computation.run_bind, Computation.run_askArgument, List.range'_succ,
        List.mapM_cons]
      cases answers.argument index with
      | error error => rfl
      | ok value =>
          simp only [Except.bind, Computation.run_bind, ih]
          cases (List.range' (index + 1) count).mapM answers.argument with
          | error error => rfl
          | ok values => cases value <;> rfl

theorem run_placeValues (answers : Answers) (paths : List Path) :
    (placeValues paths).run answers = .ok (paths.map answers.valueOf).reduceOption := by
  induction paths with
  | nil => rfl
  | cons path others ih =>
      rw [placeValues, Computation.run_bind, Computation.run_askValue]
      simp only [Except.bind, Computation.run_bind, ih, List.map_cons]
      cases answers.valueOf path <;> rfl

end Aggregate

namespace Expression

variable {surroundings : Surroundings} {reduce : List Binary64 → Option Binary64}

/-- To ask for the arguments by their places is to evaluate them in their order. -/
theorem mapM_evaluateAt (arguments : List Expression) :
    (List.range' 0 arguments.length).mapM (evaluateAt surroundings arguments) =
      arguments.mapM (evaluate surroundings) := by
  induction arguments with
  | nil => rfl
  | cons first rest ih =>
      have shifted : (evaluateAt surroundings (first :: rest) ∘ fun index => index + 1) =
          evaluateAt surroundings rest := rfl
      rw [List.length_cons, List.range'_succ, List.mapM_cons, List.mapM_cons,
        List.range'_succ_left, List.mapM_map, shifted, ih]
      rfl

theorem evaluate_aggregate (nothing : reduce [] = none) (name : String)
    (arguments : List Expression) (span : Span) :
    (call (.aggregate name reduce) arguments span).evaluate surroundings =
      ((arguments.mapM (evaluate surroundings)).map List.reduceOption).map fun present =>
        (reduce present).filter Binary64.isFinite := by
  have answered : (surroundings.answers arguments).argument = evaluateAt surroundings arguments :=
    rfl
  rw [evaluate_call, Operation.aggregate]
  simp only [Computation.run_bind, Aggregate.run_argumentValues, answered, List.length_map,
    mapM_evaluateAt]
  cases arguments.mapM (evaluate surroundings) with
  | error error => rfl
  | ok values =>
      cases present : values.reduceOption with
      | nil => simp [Except.map, Except.bind, present, nothing]
      | cons => simp [Except.map, Except.bind, present]

/-- The values of those arguments that have one. -/
def presentValues (surroundings : Surroundings) (arguments : List Expression) : List Binary64 :=
  arguments.filterMap fun argument => (argument.evaluate surroundings).toOption.join

/-- No argument comes to an error. -/
def NoneFails (surroundings : Surroundings) (arguments : List Expression) : Prop :=
  ∀ argument ∈ arguments, ∃ value, argument.evaluate surroundings = .ok value

theorem NoneFails.mapM_evaluate {arguments : List Expression}
    (noneFails : NoneFails surroundings arguments) :
    ∃ values, arguments.mapM (evaluate surroundings) = .ok values ∧
      values.reduceOption = presentValues surroundings arguments := by
  induction arguments with
  | nil => exact ⟨[], rfl, rfl⟩
  | cons first rest ih =>
      obtain ⟨⟨value, evaluates⟩, others⟩ := List.forall_mem_cons.1 noneFails
      obtain ⟨values, evaluate, present⟩ := ih others
      refine ⟨value :: values, ?_, ?_⟩
      · rw [List.mapM_cons, evaluates, evaluate]
        rfl
      · rw [presentValues, List.filterMap_cons, ← presentValues, evaluates, ← present]
        cases value <;> rfl

theorem noneFails_of_mapM_evaluate {arguments : List Expression} {values : List (Option Binary64)}
    (evaluate : arguments.mapM (evaluate surroundings) = .ok values) :
    NoneFails surroundings arguments := by
  induction arguments generalizing values with
  | nil => exact List.forall_mem_nil _
  | cons first rest ih =>
      rw [List.mapM_cons] at evaluate
      cases here : first.evaluate surroundings with
      | error error =>
          rw [here] at evaluate
          cases evaluate
      | ok value =>
          rw [here] at evaluate
          cases later : rest.mapM (Expression.evaluate surroundings) with
          | error error =>
              rw [later] at evaluate
              cases evaluate
          | ok others => exact List.forall_mem_cons.2 ⟨⟨value, here⟩, ih later⟩

theorem NoneFails.evaluate_aggregate {arguments : List Expression}
    (noneFails : NoneFails surroundings arguments) (nothing : reduce [] = none) (name : String)
    (span : Span) :
    (call (.aggregate name reduce) arguments span).evaluate surroundings =
      .ok ((reduce (presentValues surroundings arguments)).filter Binary64.isFinite) := by
  obtain ⟨values, evaluate, present⟩ := noneFails.mapM_evaluate
  rw [Expression.evaluate_aggregate nothing, evaluate, ← present]
  rfl

theorem exists_evaluate_aggregate_eq_error {arguments : List Expression}
    (fails : ¬ NoneFails surroundings arguments) (nothing : reduce [] = none) (name : String)
    (span : Span) :
    ∃ error,
      (call (.aggregate name reduce) arguments span).evaluate surroundings = .error error := by
  rw [evaluate_aggregate nothing]
  cases outcome : arguments.mapM (evaluate surroundings) with
  | error error => exact ⟨error, rfl⟩
  | ok values => exact absurd (noneFails_of_mapM_evaluate outcome) fails

/-- An aggregation that does not depend on the order of its values does not depend on the order of
its arguments. -/
theorem NoneFails.evaluate_aggregate_perm {arguments others : List Expression}
    (noneFails : NoneFails surroundings arguments) (nothing : reduce [] = none)
    (orderless : ∀ {values others : List Binary64}, others.Perm values →
      reduce others = reduce values)
    (name : String) (span otherSpan : Span) (perm : others.Perm arguments) :
    (call (.aggregate name reduce) others otherSpan).evaluate surroundings =
      (call (.aggregate name reduce) arguments span).evaluate surroundings := by
  have othersToo : NoneFails surroundings others := fun argument member =>
    noneFails argument (perm.mem_iff.1 member)
  have sameValues : (presentValues surroundings others).Perm
      (presentValues surroundings arguments) := perm.filterMap _
  rw [noneFails.evaluate_aggregate nothing, othersToo.evaluate_aggregate nothing,
    orderless sameValues]

/-- Some arguments may fail.  Then the call fails in any order, if not in the same way. -/
theorem toOption_evaluate_aggregate_perm (surroundings : Surroundings) (nothing : reduce [] = none)
    (orderless : ∀ {values others : List Binary64}, others.Perm values →
      reduce others = reduce values)
    (name : String) {arguments others : List Expression} (span otherSpan : Span)
    (perm : others.Perm arguments) :
    ((call (.aggregate name reduce) others otherSpan).evaluate surroundings).toOption =
      ((call (.aggregate name reduce) arguments span).evaluate surroundings).toOption := by
  by_cases noneFails : NoneFails surroundings arguments
  · rw [noneFails.evaluate_aggregate_perm nothing orderless name span otherSpan perm]
  · have othersFail : ¬ NoneFails surroundings others := fun othersToo =>
      noneFails fun argument member => othersToo argument (perm.mem_iff.2 member)
    obtain ⟨error, fails⟩ := exists_evaluate_aggregate_eq_error noneFails nothing name span
    obtain ⟨other, otherFails⟩ :=
      exists_evaluate_aggregate_eq_error othersFail nothing name otherSpan
    rw [fails, otherFails]
    rfl

/-- Whether an argument has no value, without being an error. -/
def lacksValue (surroundings : Surroundings) (argument : Expression) : Bool :=
  match argument.evaluate surroundings with
  | .ok none => true
  | _ => false

theorem mapM_evaluate_cons {first : Expression} {value : Option Binary64}
    (evaluates : first.evaluate surroundings = .ok value) (rest : List Expression) :
    ((first :: rest).mapM (evaluate surroundings)).map List.reduceOption =
      ((rest.mapM (evaluate surroundings)).map List.reduceOption).map (value.toList ++ ·) := by
  rw [List.mapM_cons, evaluates]
  cases rest.mapM (evaluate surroundings) with
  | error error => rfl
  | ok values => cases value <;> rfl

theorem mapM_evaluate_filter (surroundings : Surroundings) (arguments : List Expression) :
    ((arguments.filter fun argument => !argument.lacksValue surroundings).mapM
        (evaluate surroundings)).map List.reduceOption =
      (arguments.mapM (evaluate surroundings)).map List.reduceOption := by
  induction arguments with
  | nil => rfl
  | cons first rest ih =>
      cases here : first.evaluate surroundings with
      | error error =>
          have kept : first.lacksValue surroundings = false := by simp [lacksValue, here]
          rw [List.filter_cons_of_pos (by simp [kept]), List.mapM_cons, List.mapM_cons, here]
          rfl
      | ok value =>
          cases value with
          | none =>
              have dropped : first.lacksValue surroundings = true := by simp [lacksValue, here]
              rw [List.filter_cons_of_neg (by simp [dropped]), ih, mapM_evaluate_cons here]
              cases rest.mapM (evaluate surroundings) <;> rfl
          | some value =>
              have kept : first.lacksValue surroundings = false := by simp [lacksValue, here]
              rw [List.filter_cons_of_pos (by simp [kept]), mapM_evaluate_cons here,
                mapM_evaluate_cons here, ih]

/-- An aggregation passes over arguments without a value. -/
theorem evaluate_aggregate_filter (nothing : reduce [] = none) (name : String)
    (arguments : List Expression) (span other : Span) :
    (call (.aggregate name reduce)
        (arguments.filter fun argument => !argument.lacksValue surroundings) other).evaluate
          surroundings =
      (call (.aggregate name reduce) arguments span).evaluate surroundings := by
  rw [evaluate_aggregate nothing, evaluate_aggregate nothing, mapM_evaluate_filter]

theorem evaluate_grade (name : String) (group : Path) (inner span : Span) :
    (call (.grade name reduce) [.reference ⟨group, none⟩ inner] span).evaluate surroundings =
      .ok ((reduce ((surroundings.childPaths group).map fun child =>
        surroundings.valueOf ⟨child, none⟩).reduceOption).filter Binary64.isFinite) := by
  rw [evaluate_call, Operation.grade]
  simp only [List.map_cons, shape, List.head?_cons, Option.bind_some, ArgumentShape.place?,
    Reference.place?, Option.isNone_none, if_true, Computation.run_bind,
    Computation.run_askChildren, Except.bind, Aggregate.run_placeValues]
  rfl

end Expression

end InspectionFormula
