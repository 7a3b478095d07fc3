import Mathlib.Data.List.Basic
import InspectionFormula.Proofs.Expression.Reads

/-!
# Operations that do not fail

An operation of the standard catalog fails only if one of its arguments does.  A
function of points has no value if one of the coordinates that it reads has
none.  An expression over such operations has an outcome other than an error.
-/

namespace InspectionFormula

namespace Computation

variable {First Result : Type} {answers : Answers}

/-- The computation has a result whenever all arguments have an outcome other than an error. -/
def Succeeds (computation : Computation Result) : Prop :=
  ∀ answers : Answers, (∀ index, ∃ value, answers.argument index = .ok value) →
    ∃ result, computation.run answers = .ok result

theorem succeeds_pure (result : Result) : (pure result : Computation Result).Succeeds :=
  fun _ _ => ⟨result, rfl⟩

theorem succeeds_bind {first : Computation First} {following : First → Computation Result}
    (firstSucceeds : first.Succeeds) (followingSucceeds : ∀ result, (following result).Succeeds) :
    (first >>= following).Succeeds := by
  intro answers answered
  obtain ⟨result, ran⟩ := firstSucceeds answers answered
  rw [run_bind, ran]
  exact followingSucceeds result answers answered

theorem succeeds_askArgument (index : Nat) : (askArgument index).Succeeds := by
  intro answers answered
  rw [run_askArgument]
  exact answered index

theorem succeeds_askValue (path : Path) : (askValue path).Succeeds :=
  fun answers _ => ⟨answers.valueOf path, run_askValue answers path⟩

theorem succeeds_askChildren (path : Path) : (askChildren path).Succeeds :=
  fun answers _ => ⟨answers.childPaths path, run_askChildren answers path⟩

end Computation

namespace Coordinates

open InspectionFormula.Computation

variable {answers : Answers} {point : Path} {axes : List Axis} {axis : Axis}

/-- The value of a point's coordinate along an axis. -/
def value? (valueOf : Path → Option Binary64) (children : List Path) (point : Path) (axis : Axis) :
    Option Binary64 :=
  (place? point children axis).bind valueOf

theorem run_values (answers : Answers) (point : Path) (children : List Path) (axes : List Axis) :
    (values point children axes).run answers =
      .ok (axes.mapM (value? answers.valueOf children point)) := by
  induction axes with
  | nil => rfl
  | cons axis axes ih =>
      rw [values, List.mapM_cons]
      cases found : place? point children axis with
      | none => simp [value?, found]
      | some path =>
          cases read : answers.valueOf path with
          | none => simp [value?, found, read, Except.bind]
          | some value =>
              simp only [run_bind, run_askValue, read, value?, found, Except.bind, ih, run_pure,
                Option.bind_some]
              cases axes.mapM (value? answers.valueOf children point) <;> rfl

theorem run_ofArgument (answers : Answers) (axes : List Axis) (shape : ArgumentShape) :
    (ofArgument axes shape).run answers = .ok (shape.place?.bind fun point =>
      axes.mapM (value? answers.valueOf (answers.childPaths point) point)) := by
  unfold ofArgument
  cases shape.place? with
  | none => rfl
  | some point => simp [run_values, Except.bind]

/-- All coordinates are missing if one is. -/
theorem mapM_value?_eq_none (member : axis ∈ axes) {valueOf : Path → Option Binary64}
    {children : List Path} (missing : value? valueOf children point axis = none) :
    axes.mapM (value? valueOf children point) = none := by
  induction axes with
  | nil => cases member
  | cons first axes ih =>
      rw [List.mapM_cons]
      rcases List.mem_cons.1 member with rfl | later
      · simp [missing]
      · simp [ih later]

end Coordinates

namespace Operation

open InspectionFormula.Computation

/-- The operation fails only if one of its arguments does. -/
def IsTotal (operation : Operation) : Prop := ∀ shapes, (operation.compute shapes).Succeeds

theorem isTotal_unary (name : String) (apply : Binary64 → Binary64) : (unary name apply).IsTotal :=
  fun _ => succeeds_bind (succeeds_askArgument 0) fun _ => succeeds_pure _

theorem isTotal_binary (name : String) (apply : Binary64 → Binary64 → Option Binary64) :
    (binary name apply).IsTotal := by
  intro shapes
  refine succeeds_bind (succeeds_askArgument 0) fun _ => ?_
  exact succeeds_bind (succeeds_askArgument 1) fun _ => succeeds_pure _

theorem isTotal_round : Numeric.round.IsTotal := by
  intro shapes
  refine succeeds_bind (succeeds_askArgument 0) fun value => ?_
  cases value with
  | none => exact succeeds_pure _
  | some value => exact succeeds_bind (succeeds_askArgument 1) fun _ => succeeds_pure _

theorem succeeds_firstPresent (index count : Nat) :
    (Numeric.firstPresent index count).Succeeds := by
  induction count generalizing index with
  | zero => exact succeeds_pure _
  | succ count ih =>
      refine succeeds_bind (succeeds_askArgument index) fun value => ?_
      cases value with
      | none => exact ih (index + 1)
      | some value => exact succeeds_pure _

theorem succeeds_argumentValues (index count : Nat) :
    (Aggregate.argumentValues index count).Succeeds := by
  induction count generalizing index with
  | zero => exact succeeds_pure _
  | succ count ih =>
      refine succeeds_bind (succeeds_askArgument index) fun value => ?_
      exact succeeds_bind (ih (index + 1)) fun _ => succeeds_pure _

theorem succeeds_placeValues (paths : List Path) : (Aggregate.placeValues paths).Succeeds := by
  induction paths with
  | nil => exact succeeds_pure _
  | cons path others ih =>
      refine succeeds_bind (succeeds_askValue path) fun value => ?_
      exact succeeds_bind ih fun _ => succeeds_pure _

theorem succeeds_ofArgument (axes : List Axis) (shape : ArgumentShape) :
    (Coordinates.ofArgument axes shape).Succeeds :=
  fun answers _ => ⟨_, Coordinates.run_ofArgument answers axes shape⟩

theorem isTotal_coalesce : Numeric.coalesce.IsTotal := fun _ => succeeds_firstPresent 0 _

theorem isTotal_aggregate (name : String) (reduce : List Binary64 → Option Binary64) :
    (aggregate name reduce).IsTotal :=
  fun _ => succeeds_bind (succeeds_argumentValues 0 _) fun _ => succeeds_pure _

theorem isTotal_count : Aggregate.count.IsTotal :=
  fun _ => succeeds_bind (succeeds_argumentValues 0 _) fun _ => succeeds_pure _

theorem isTotal_grade (name : String) (reduce : List Binary64 → Option Binary64) :
    (grade name reduce).IsTotal := by
  intro shapes
  simp only [grade]
  split
  · exact succeeds_pure _
  · next group refers =>
      refine succeeds_bind (succeeds_askChildren group) fun children => ?_
      exact succeeds_bind (succeeds_placeValues children) fun _ => succeeds_pure _

theorem isTotal_pointDistance (name : String) (axes : List Axis) :
    (pointDistance name axes).IsTotal := by
  intro shapes
  simp only [pointDistance]
  split
  · next first second rest =>
      refine succeeds_bind (succeeds_ofArgument axes first) fun start => ?_
      exact succeeds_bind (succeeds_ofArgument axes second) fun finish => succeeds_pure _
  · exact succeeds_pure _

theorem isTotal_truePosition (name : String) (axes : List Axis) :
    (truePosition name axes).IsTotal := by
  intro shapes
  simp only [truePosition]
  split
  · next shape rest => exact succeeds_bind (succeeds_ofArgument axes shape) fun _ => succeeds_pure _
  · exact succeeds_pure _

/-- A function of points that takes as many arguments as it is given has no value if a coordinate
of one of them has none. -/
theorem run_of_missing_coordinate {operation : Operation} {name : String} {axes : List Axis}
    (ofPoints : operation = pointDistance name axes ∨ operation = truePosition name axes)
    {shapes : List ArgumentShape} (accepted : operation.arity.accepts shapes.length = true)
    {shape : ArgumentShape} (isArgument : shape ∈ shapes) {point : Path}
    (refers : shape.place? = some point) {answers : Answers} {axis : Axis} (isAxis : axis ∈ axes)
    (missing : Coordinates.value? answers.valueOf (answers.childPaths point) point axis = none) :
    (operation.compute shapes).run answers = .ok none := by
  have ofShape : (Coordinates.ofArgument axes shape).run answers = .ok none := by
    rw [Coordinates.run_ofArgument, refers, Option.bind_some,
      Coordinates.mapM_value?_eq_none isAxis missing]
  rcases ofPoints with rfl | rfl
  · obtain ⟨first, second, rfl⟩ := List.length_eq_two.1 (eq_of_beq accepted)
    simp only [List.mem_cons, List.not_mem_nil, or_false] at isArgument
    rcases isArgument with rfl | rfl
    · simp only [pointDistance, run_bind, ofShape, Coordinates.run_ofArgument]
      rfl
    · have ofFirst := Coordinates.run_ofArgument answers axes first
      simp [pointDistance, ofFirst, ofShape, Except.bind]
  · obtain ⟨only, rfl⟩ := List.length_eq_one_iff.1 (eq_of_beq accepted)
    cases List.mem_singleton.1 isArgument
    simp only [truePosition, run_bind, ofShape]
    rfl

end Operation

theorem Catalog.isTotal_of_mem_standard :
    ∀ operation ∈ Catalog.standard.operations.values, operation.IsTotal :=
  Catalog.standard_cases Operation.isTotal_unary Operation.isTotal_binary Operation.isTotal_round
    Operation.isTotal_coalesce Operation.isTotal_aggregate Operation.isTotal_count
    Operation.isTotal_pointDistance Operation.isTotal_truePosition Operation.isTotal_grade

theorem Expression.exists_evaluate_eq_ok {catalog : Catalog} {tree : Expression}
    (total : ∀ operation ∈ catalog.operations.values, operation.IsTotal)
    (isOver : tree.IsOver catalog) (surroundings : Surroundings) :
    ∃ value, tree.evaluate surroundings = .ok value := by
  induction tree using Expression.children_induction with
  | step tree ih =>
      cases isOver with
      | number => exact ⟨_, rfl⟩
      | constant => exact ⟨_, rfl⟩
      | reference => exact ⟨_, rfl⟩
      | @negate operand span isOver =>
          obtain ⟨value, evaluates⟩ := ih operand (by simp [children]) isOver
          exact ⟨value.map Binary64.neg, by rw [evaluate, evaluates]; rfl⟩
      | @call operation arguments span known each =>
          have answered : ∀ index, ∃ value,
              (surroundings.answers arguments).argument index = .ok value := by
            intro index
            simp only [Surroundings.answers, evaluateAt_eq]
            cases here : arguments[index]? with
            | none => exact ⟨none, rfl⟩
            | some argument =>
                have member := List.mem_of_getElem? here
                exact ih argument member (each argument member)
          obtain ⟨result, ran⟩ := total operation known (arguments.map shape) _ answered
          exact ⟨result.filter Binary64.isFinite, by rw [evaluate_call, ran]; rfl⟩

end InspectionFormula
