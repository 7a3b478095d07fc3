import InspectionFormula.Proofs.Evaluation.StoredValues
import InspectionFormula.Proofs.Expression.Meaning

/-!
# Faults below a formula

An expression of the standard catalog always has an outcome other than an error.
What goes wrong with a nested formula is seen only as the lack of a value where
the formula's place is referred to, as if the place were measured and had no
value.
-/

namespace InspectionFormula

namespace Inspection

variable {inspection : Inspection} {path place : Path} {text : String} {nested formula : Formula}
  {reference : Reference} {error : EvaluationError}

/-- The reasons for which a reference has no value. -/
inductive IsMissing (inspection : Inspection) : Reference → Prop where
  | malformed {path : Path} {text : String} {fault : SyntaxError}
      (known : inspection.plan.formula? path = some text)
      (malformed : inspection.dialect.read text path = .error fault) :
      IsMissing inspection ⟨path, none⟩
  | circular {path place : Path} (reaches : inspection.dialect.Reaches inspection.plan path place)
      (onCycle : inspection.dialect.OnCycle inspection.plan place) :
      IsMissing inspection ⟨path, none⟩
  | unmeasured {path : Path} (measured : inspection.plan.formula? path = none)
      (missing : inspection.measurements.value? path = none) : IsMissing inspection ⟨path, none⟩
  | noNumber {path : Path} {key : UInt16}
      (missing : (inspection.measurements.attribute? path key inspection.time).bind
        Attribute.number? = none) : IsMissing inspection ⟨path, some key⟩

/-- A call of a function of points that is given a point without one of its coordinates. -/
inductive LacksCoordinate (inspection : Inspection) : Expression → Prop where
  | call {operation : Operation} {name : String} {axes : List Axis}
      (ofPoints : operation = .pointDistance name axes ∨ operation = .truePosition name axes)
      {arguments : List Expression} {span : Span}
      (accepted : operation.arity.accepts arguments.length = true)
      {argument : Expression} (isArgument : argument ∈ arguments) {point : Path}
      (refers : argument.shape.place? = some point) {axis : Axis} (isAxis : axis ∈ axes)
      (missing : Coordinates.value? (fun path => inspection.valueOf ⟨path, none⟩)
        (inspection.plan.childPaths point) point axis = none) :
      LacksCoordinate inspection (.call operation arguments span)

theorem evaluateTree_of_lacksCoordinate {tree : Expression}
    (lacks : inspection.LacksCoordinate tree) : inspection.evaluateTree tree = .ok none := by
  cases lacks with
  | @call operation name axes ofPoints arguments span accepted argument isArgument point refers axis
      isAxis missing =>
      have accepted : operation.arity.accepts (arguments.map Expression.shape).length = true := by
        rwa [List.length_map]
      have ran := Operation.run_of_missing_coordinate ofPoints accepted
        (List.mem_map_of_mem isArgument) refers isAxis
        (show Coordinates.value? (inspection.surroundings.answers arguments).valueOf
          ((inspection.surroundings.answers arguments).childPaths point) point axis = none
          from missing)
      rw [evaluateTree, Expression.evaluate_call, ran]
      rfl

theorem valueOf_eq_none (honest : inspection.dialect.catalog.IsHonest)
    (missing : inspection.IsMissing reference) : inspection.valueOf reference = none := by
  rw [valueOf]
  cases missing with
  | malformed known malformed =>
      rw [resolve_malformed honest known malformed]
      rfl
  | circular reaches onCycle =>
      obtain ⟨cycle, refused⟩ := resolve_of_reachesCycle honest ⟨_, reaches, onCycle⟩
      rw [refused]
      rfl
  | unmeasured measured missing =>
      rw [resolve_measured measured]
      exact missing
  | noNumber missing =>
      rw [resolve_attribute]
      exact missing

/-- The inspection in which every place whose formula is at fault is measured and has no value. -/
def withoutFaults (inspection : Inspection) : Inspection where
  dialect := inspection.dialect
  plan := {
    childPaths := inspection.plan.childPaths
    formula? := fun path =>
      match inspection.resolve ⟨path, none⟩ with
      | .ok _ => inspection.plan.formula? path
      | .error _ => none
    formulaPaths := inspection.plan.formulaPaths
    mem_formulaPaths := by
      intro path text known
      split at known
      · exact inspection.plan.mem_formulaPaths known
      · cases known }
  measurements := {
    value? := fun path =>
      match inspection.resolve ⟨path, none⟩ with
      | .ok _ => inspection.measurements.value? path
      | .error _ => none
    attribute? := inspection.measurements.attribute? }
  time := inspection.time

theorem withoutFaults_of_ok {value : Option Binary64}
    (sound : inspection.resolve ⟨path, none⟩ = .ok value) :
    inspection.withoutFaults.plan.formula? path = inspection.plan.formula? path ∧
      inspection.withoutFaults.measurements.value? path = inspection.measurements.value? path := by
  simp only [withoutFaults, sound, and_self]

theorem withoutFaults_of_error (faulty : inspection.resolve ⟨path, none⟩ = .error error) :
    inspection.withoutFaults.plan.formula? path = none ∧
      inspection.withoutFaults.measurements.value? path = none := by
  simp only [withoutFaults, faulty, and_self]

theorem formula?_of_withoutFaults
    (known : inspection.withoutFaults.plan.formula? path = some text) :
    inspection.plan.formula? path = some text := by
  cases resolved : inspection.resolve ⟨path, none⟩ with
  | ok value => rwa [(withoutFaults_of_ok resolved).1] at known
  | error error =>
      rw [(withoutFaults_of_error resolved).1] at known
      cases known

/-- A place at fault has no value, so what stands there in place of its formula is its value. -/
theorem stores_withoutFaults : inspection.Stores inspection.withoutFaults
    (fun path => ∃ error, inspection.resolve ⟨path, none⟩ = .error error) := by
  have kept (path : Path) (sound : ¬ ∃ error, inspection.resolve ⟨path, none⟩ = .error error) :
      ∃ value, inspection.resolve ⟨path, none⟩ = .ok value := by
    cases resolved : inspection.resolve ⟨path, none⟩ with
    | ok value => exact ⟨value, rfl⟩
    | error error => exact absurd ⟨error, resolved⟩ sound
  refine ⟨⟨rfl, rfl, rfl, ?_, ?_, fun _ _ _ => rfl⟩, ?_, ?_⟩
  · intro path sound
    obtain ⟨value, resolved⟩ := kept path sound
    exact (withoutFaults_of_ok resolved).1
  · intro path sound
    obtain ⟨value, resolved⟩ := kept path sound
    exact (withoutFaults_of_ok resolved).2
  · rintro path ⟨error, faulty⟩
    exact (withoutFaults_of_error faulty).1
  · rintro path ⟨error, faulty⟩
    rw [(withoutFaults_of_error faulty).2, valueOf, faulty]
    rfl

section Standard

variable (honest : inspection.dialect.catalog.IsHonest)
include honest

theorem valueOf_withoutFaults (reference : Reference) :
    inspection.withoutFaults.valueOf reference = inspection.valueOf reference := by
  obtain ⟨path, _ | key⟩ := reference
  · refine stores_withoutFaults.valueOf_eq honest ?_
    intro sound reachesCycle
    obtain ⟨cycle, refused⟩ := resolve_of_reachesCycle honest reachesCycle
    exact sound ⟨_, refused⟩
  · rw [valueOf, valueOf, resolve_attribute, resolve_attribute]
    rfl

theorem surroundings_withoutFaults :
    inspection.withoutFaults.surroundings = inspection.surroundings := by
  have sameValues : inspection.withoutFaults.valueOf = inspection.valueOf :=
    funext (valueOf_withoutFaults honest)
  rw [surroundings, surroundings, sameValues]
  rfl

end Standard

theorem evaluate_eq_error_iff (total : ∀ operation ∈ inspection.dialect.catalog.operations.values,
      operation.IsTotal) (isOver : formula.root.IsOver inspection.dialect.catalog) :
    inspection.evaluate formula = .error error ↔
      inspection.dialect.checkSelfReference inspection.plan formula = .error error := by
  constructor
  · intro failed
    cases checked : inspection.dialect.checkSelfReference inspection.plan formula with
    | error fault =>
        cases (evaluate_refused checked).symm.trans failed
        rfl
    | ok =>
        obtain ⟨value, evaluates⟩ :=
          Expression.exists_evaluate_eq_ok total isOver inspection.surroundings
        rw [evaluate_passing checked, evaluateTree, evaluates] at failed
        cases failed
  · exact evaluate_refused

/-- The evaluation of a formula fails for a cycle through its owner and for nothing else.  Whatever
else is wrong leaves the references that it concerns without a value, and expressions have the
outcome that they have with references to a measured place without a value instead, or if all
places at fault were measured and had no value. -/
theorem faults_leave_no_value (inspection : Inspection)
    (standard : inspection.dialect.catalog = .standard) {text : String} {owner : Path}
    {formula : Formula} (read : inspection.dialect.read text owner = .ok formula) :
    (∃ value, inspection.evaluateTree formula.root = .ok value) ∧
    (∀ error, inspection.evaluate formula = .error error ↔
      inspection.dialect.checkSelfReference inspection.plan formula = .error error) ∧
    (∀ error, inspection.evaluate formula = .error error →
      ∃ cycle, error = .circular ⟨owner, cycle⟩) ∧
    (∀ reference, inspection.IsMissing reference →
      (∀ span, inspection.evaluateTree (.reference reference span) = .ok none) ∧
      ∀ path span other tree, inspection.plan.formula? path = none →
        inspection.measurements.value? path = none →
        Expression.Exchanges (.reference reference span) (.reference ⟨path, none⟩ other)
          formula.root tree →
        inspection.evaluateTree tree = inspection.evaluateTree formula.root) ∧
    (∀ tree, inspection.LacksCoordinate tree → inspection.evaluateTree tree = .ok none) ∧
    (∀ tree, inspection.withoutFaults.evaluateTree tree = inspection.evaluateTree tree) ∧
    (inspection.dialect.checkSelfReference inspection.plan formula = .ok () →
      inspection.withoutFaults.evaluate formula = inspection.evaluate formula) := by
  have honest : inspection.dialect.catalog.IsHonest := by
    rw [standard]
    exact Catalog.isHonest_standard
  have total : ∀ operation ∈ inspection.dialect.catalog.operations.values, operation.IsTotal := by
    rw [standard]
    exact Catalog.isTotal_of_mem_standard
  have uniform : ∀ operation ∈ inspection.dialect.catalog.operations.values,
      operation.IsUniform := by
    rw [standard]
    exact Catalog.isUniform_of_mem_standard
  obtain ⟨isOver, -, rfl⟩ := Dialect.isOver_of_read read
  have sameTrees (tree : Expression) :
      inspection.withoutFaults.evaluateTree tree = inspection.evaluateTree tree := by
    rw [evaluateTree, evaluateTree, surroundings_withoutFaults honest]
  have valueless {reference : Reference} (missing : inspection.IsMissing reference) (span : Span) :
      inspection.evaluateTree (.reference reference span) = .ok none :=
    congrArg Except.ok (valueOf_eq_none honest missing)
  refine ⟨Expression.exists_evaluate_eq_ok total isOver _, fun error =>
    evaluate_eq_error_iff total isOver, ?_, ?_, fun tree => evaluateTree_of_lacksCoordinate,
    sameTrees, ?_⟩
  · intro error failed
    exact (inspection.dialect.detects_checkSelfReference inspection.plan formula).2 error
      ((evaluate_eq_error_iff total isOver).1 failed)
  · intro reference missing
    refine ⟨valueless missing, ?_⟩
    intro path span other tree measured unmeasured exchanges
    have same := (valueless (.unmeasured measured unmeasured) other).trans
      (valueless missing span).symm
    exact Expression.evaluate_of_exchanges exchanges uniform isOver same
  · intro passes
    have sameChildren : inspection.withoutFaults.plan.childPaths = inspection.plan.childPaths := rfl
    have passesThere := Dialect.checkSelfReference_of_fewer sameChildren
      (fun _ _ => formula?_of_withoutFaults) passes
    rw [evaluate_passing passes, ← sameTrees, ← evaluate_passing passesThere]

theorem evaluate_of_malformed_and_circular :
    ∃ (inspection : Inspection) (formula : Formula) (owner malformed circular : Path),
      inspection.dialect.catalog = .standard ∧
      inspection.dialect.read "sum(\x7bB\x7d;\x7bC\x7d;4)" owner = .ok formula ∧
      inspection.IsMissing ⟨malformed, none⟩ ∧ inspection.IsMissing ⟨circular, none⟩ ∧
      inspection.evaluateTree (.reference ⟨malformed, none⟩ ⟨4, 3⟩) = .ok none ∧
      inspection.evaluateTree (.reference ⟨circular, none⟩ ⟨8, 3⟩) = .ok none ∧
      inspection.dialect.checkSelfReference inspection.plan formula = .ok () ∧
      inspection.withoutFaults.evaluate formula = inspection.evaluate formula := by
  let owner : Path := ⟨[⟨.characteristic, "A"⟩]⟩
  let malformed : Path := ⟨[⟨.characteristic, "B"⟩]⟩
  let circular : Path := ⟨[⟨.characteristic, "C"⟩]⟩
  let store := (Store.empty.setFormula malformed "1+(").setFormula circular "\x7bC\x7d"
  let inspection : Inspection := ⟨.standard, store.plan, store.measurements, none⟩
  have outer : ((inspection.dialect.read "sum(\x7bB\x7d;\x7bC\x7d;4)" owner).toOption.any
      fun formula =>
        (inspection.dialect.checkSelfReference inspection.plan formula).isOk) = true := by
    decide +kernel
  have ofMalformed : (inspection.dialect.graph inspection.plan).links? malformed =
      .error ⟨.missing .value none, 3⟩ := by
    decide +kernel
  have ofCircular : (inspection.dialect.graph inspection.plan).links? circular =
      .ok (some [⟨circular, false⟩]) := by
    decide +kernel
  obtain ⟨formula, read, passes⟩ := exists_eq_ok_of_any outer
  have passes : inspection.dialect.checkSelfReference inspection.plan formula = .ok () := by
    cases checked : inspection.dialect.checkSelfReference inspection.plan formula with
    | error => rw [checked] at passes; cases passes
    | ok => rfl
  obtain ⟨_, known, malformedRead⟩ := Dialect.links?_graph_eq_error_iff.1 ofMalformed
  have edge : (inspection.dialect.graph inspection.plan).ValueEdge circular circular :=
    ⟨_, ofCircular, List.mem_singleton_self _⟩
  have onCycle : inspection.dialect.OnCycle inspection.plan circular :=
    .single (Dialect.valueEdge_graph_iff.1 edge)
  have first : inspection.IsMissing ⟨malformed, none⟩ := .malformed known malformedRead
  have second : inspection.IsMissing ⟨circular, none⟩ := .circular .refl onCycle
  obtain ⟨-, -, -, missing, -, -, same⟩ := faults_leave_no_value inspection rfl read
  exact ⟨inspection, formula, owner, malformed, circular, rfl, read, first, second,
    (missing _ first).1 _, (missing _ second).1 _, passes, same passes⟩

end Inspection

end InspectionFormula
