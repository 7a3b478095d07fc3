import InspectionFormula.Proofs.Dependencies.ReportedChains
import InspectionFormula.Proofs.Evaluation.Nesting
import InspectionFormula.Proofs.Operation.Success

/-!
# Reported cycles

Unless an operation that is called reports a cycle of its own, a cycle that an
evaluation reports is one that a check of dependencies has found: a chain of
value edges that comes back to one of its places.  None of the standard
operations reports cycles of its own, but an operation of a host may.
-/

namespace InspectionFormula

/-- The answers with no value in place of every error. -/
def Answers.withoutErrors (answers : Answers) : Answers where
  argument index :=
    match answers.argument index with
    | .ok value => .ok value
    | .error _ => .ok none
  valueOf := answers.valueOf
  childPaths := answers.childPaths

theorem Answers.exists_argument_withoutErrors (answers : Answers) (index : Nat) :
    ∃ value, answers.withoutErrors.argument index = .ok value := by
  simp only [withoutErrors]
  cases answers.argument index with
  | ok value => exact ⟨value, rfl⟩
  | error error => exact ⟨none, rfl⟩

namespace Computation

variable {Result : Type} {computation : Computation Result} {answers : Answers}
  {error : EvaluationError}

/-- A failure is that of an argument, or is there without the errors of arguments too. -/
theorem run_error_cases (failed : computation.run answers = .error error) :
    (∃ index, answers.argument index = .error error) ∨
      computation.run answers.withoutErrors = .error error := by
  induction computation with
  | done result => cases failed
  | fail error => exact .inr failed
  | argument index next ih =>
      rw [run] at failed
      rw [run, Answers.withoutErrors]
      cases answered : answers.argument index with
      | ok value =>
          simp only [answered] at failed ⊢
          exact ih value failed
      | error fault =>
          simp only [answered] at failed
          cases failed
          exact .inl ⟨index, answered⟩
  | valueOf path next ih => exact ih _ failed
  | childPaths path next ih => exact ih _ failed

theorem Succeeds.exists_argument_eq_error (succeeds : computation.Succeeds)
    (failed : computation.run answers = .error error) :
    ∃ index, answers.argument index = .error error := by
  refine (run_error_cases failed).resolve_right ?_
  obtain ⟨result, ran⟩ := succeeds _ answers.exists_argument_withoutErrors
  rw [ran]
  nofun

end Computation

/-- The operation fails with a circular reference only if one of its arguments does. -/
def Operation.ReportsNoCycle (operation : Operation) : Prop :=
  ∀ shapes answers reference,
    (operation.compute shapes).run answers = .error (.circular reference) →
      ∃ index, answers.argument index = .error (.circular reference)

theorem Operation.IsTotal.reportsNoCycle {operation : Operation} (isTotal : operation.IsTotal) :
    operation.ReportsNoCycle :=
  fun shapes _ _ failed => (isTotal shapes).exists_argument_eq_error failed

/-- An operation that fails with a circular reference of its own. -/
def Operation.reporting (name : String) (reference : CircularReference) : Operation where
  name := name
  arity := .any
  compute _ := .fail (.circular reference)

/-- None of the operations of the catalog reports cycles of its own. -/
def Catalog.ReportsNoCycle (catalog : Catalog) : Prop :=
  ∀ operation ∈ catalog.operations.values, operation.ReportsNoCycle

theorem Catalog.reportsNoCycle_standard : standard.ReportsNoCycle :=
  fun operation known => (isTotal_of_mem_standard operation known).reportsNoCycle

namespace Expression

variable {tree : Expression} {catalog : Catalog} {surroundings : Surroundings}
  {reference : CircularReference}

/-- None of the operations that are called in the tree reports cycles of its own. -/
def ReportsNoCycle (tree : Expression) : Prop :=
  ∀ operation arguments span, tree.HasNode (.call operation arguments span) →
    operation.ReportsNoCycle

theorem ReportsNoCycle.child {child : Expression} (reportsNoCycle : tree.ReportsNoCycle)
    (isChild : child ∈ tree.children) : child.ReportsNoCycle :=
  fun operation arguments span hasNode =>
    reportsNoCycle operation arguments span (.inChild isChild hasNode)

theorem IsOver.reportsNoCycle (isOver : tree.IsOver catalog)
    (own : catalog.ReportsNoCycle) : tree.ReportsNoCycle := by
  intro operation arguments span hasNode
  generalize same : Expression.call operation arguments span = node at hasNode
  induction hasNode with
  | root =>
      subst same
      cases isOver with
      | call known => exact own operation known
  | inChild isChild hasNode ih =>
      refine ih ?_ same
      cases isOver with
      | number | constant | reference => cases isChild
      | negate inner =>
          cases List.mem_singleton.1 isChild
          exact inner
      | call known each => exact each _ isChild

theorem reportsNoCycle_of_hasFormula {dialect : Dialect} {plan : Plan} {path : Path}
    {formula : Formula} (own : dialect.catalog.ReportsNoCycle)
    (has : dialect.HasFormula plan path formula) : formula.root.ReportsNoCycle := by
  obtain ⟨text, -, read⟩ := has
  exact (Dialect.isOver_of_read read).1.reportsNoCycle own

/-- What is wrong with a reference is not seen from outside, so a tree has no cycles to report. -/
theorem ReportsNoCycle.evaluate_ne (reportsNoCycle : tree.ReportsNoCycle) :
    tree.evaluate surroundings ≠ .error (.circular reference) := by
  induction tree using children_induction with
  | step tree ih =>
      intro failed
      cases tree with
      | number | constant | literal | reference => cases failed
      | negate operand span =>
          have isChild : operand ∈ (negate operand span).children := List.mem_singleton_self _
          rw [evaluate] at failed
          cases evaluated : operand.evaluate surroundings with
          | ok value =>
              rw [evaluated] at failed
              cases failed
          | error error =>
              rw [evaluated] at failed
              cases failed
              exact ih operand isChild (reportsNoCycle.child isChild) evaluated
      | call operation arguments span =>
          rw [evaluate_call] at failed
          cases ran : (operation.compute (arguments.map shape)).run
              (surroundings.answers arguments) with
          | ok value =>
              rw [ran] at failed
              cases failed
          | error error =>
              rw [ran] at failed
              cases failed
              obtain ⟨index, argumentFailed⟩ :=
                reportsNoCycle operation arguments span .root _ _ _ ran
              simp only [Surroundings.answers, evaluateAt_eq] at argumentFailed
              cases here : arguments[index]? with
              | none =>
                  rw [here] at argumentFailed
                  cases argumentFailed
              | some argument =>
                  rw [here] at argumentFailed
                  have isChild : argument ∈ (call operation arguments span).children :=
                    List.mem_of_getElem? here
                  exact ih argument isChild (reportsNoCycle.child isChild) argumentFailed

end Expression

namespace Inspection

variable {inspection : Inspection} {formula : Formula} {path : Path} {text : String}
  {reference : CircularReference}

theorem checkSelfReference_of_evaluate (own : formula.root.ReportsNoCycle)
    (failed : inspection.evaluate formula = .error (.circular reference)) :
    inspection.dialect.checkSelfReference inspection.plan formula =
      .error (.circular reference) := by
  cases checked : inspection.dialect.checkSelfReference inspection.plan formula with
  | ok =>
      rw [evaluate_passing checked] at failed
      exact absurd failed own.evaluate_ne
  | error error =>
      rw [evaluate_refused checked] at failed
      cases failed
      rfl

theorem exists_hasFormula_of_readNested (known : inspection.plan.formula? path = some text)
    (failed : inspection.readNested path text = .error (.circular reference)) :
    ∃ nested, inspection.dialect.HasFormula inspection.plan path nested ∧
      inspection.dialect.checkAcyclic inspection.plan nested = .error (.circular reference) := by
  rw [readNested] at failed
  cases read : inspection.dialect.read text path with
  | error fault =>
      rw [read] at failed
      cases failed
  | ok nested =>
      refine ⟨nested, ⟨text, known, read⟩, ?_⟩
      simp only [read, Except.mapError, bind, Except.bind] at failed
      cases checked : inspection.dialect.checkAcyclic inspection.plan nested with
      | ok =>
          rw [checked] at failed
          cases failed
      | error error =>
          rw [checked] at failed
          cases failed
          rfl

/-- A cycle that a reference to a place reports is one that the check of the place reports. -/
theorem checkPlace_of_resolve {key : Option UInt16}
    (own : ∀ nested, inspection.dialect.HasFormula inspection.plan path nested →
      nested.root.ReportsNoCycle)
    (failed : inspection.resolve ⟨path, key⟩ = .error (.circular reference)) :
    inspection.dialect.checkPlace inspection.plan path = .error (.circular reference) := by
  cases key with
  | some key =>
      rw [resolve_attribute] at failed
      cases failed
  | none =>
      cases known : inspection.plan.formula? path with
      | none =>
          rw [resolve_measured known] at failed
          cases failed
      | some text =>
          -- The place itself has a formula, so one may be opened.
          obtain ⟨depth, deep⟩ := Nat.exists_eq_add_one_of_ne_zero
            (List.length_pos_of_mem (inspection.plan.mem_formulaPaths known)).ne'
          rw [resolve, deep, resolveWithin_calculated depth known] at failed
          cases opened : inspection.readNested path text with
          | ok nested =>
              rw [opened] at failed
              obtain ⟨read, -⟩ := readNested_eq_ok_iff.1 opened
              exact absurd failed (own nested ⟨text, known, read⟩).evaluate_ne
          | error error =>
              rw [opened] at failed
              cases failed
              obtain ⟨nested, has, refused⟩ := exists_hasFormula_of_readNested known opened
              rwa [Dialect.checkAcyclic_eq_checkPlace has] at refused

/-- A reported cycle is real.  Its chain starts at the place whose dependencies are checked, follows
value edges through places that are all different, and comes back to one of them.  If a formula is
checked or evaluated, the first step is to a place on whose value the formula depends; if only
cycles through its owner count, the chain ends at the owner.  A formula that is evaluated must call
no operation that reports cycles of its own. -/
theorem reported_cycles_are_real (inspection : Inspection) (reference : CircularReference) :
    (∀ path,
      inspection.dialect.checkPlace inspection.plan path = .error (.circular reference) ∨
        inspection.dialect.discover inspection.plan path = .error (.circular reference) ∨
        ((∀ nested, inspection.dialect.HasFormula inspection.plan path nested →
            nested.root.ReportsNoCycle) ∧
          ∃ key, inspection.resolve ⟨path, key⟩ = .error (.circular reference)) →
      reference.origin = path ∧
        reference.ComesBack (inspection.dialect.ValueEdge inspection.plan path)
          (inspection.dialect.ValueEdge inspection.plan)) ∧
    (∀ formula,
      inspection.dialect.checkAcyclic inspection.plan formula = .error (.circular reference) →
      reference.origin = formula.owner ∧
        reference.ComesBack (formula.DependsOnValue inspection.plan)
          (inspection.dialect.ValueEdge inspection.plan)) ∧
    ∀ formula,
      inspection.dialect.checkSelfReference inspection.plan formula =
          .error (.circular reference) ∨
        formula.root.ReportsNoCycle ∧
          inspection.evaluate formula = .error (.circular reference) →
      reference.origin = formula.owner ∧
        reference.ComesBack (formula.DependsOnValue inspection.plan)
          (inspection.dialect.ValueEdge inspection.plan) ∧
        reference.cycle.getLast? = some formula.owner := by
  have ofPlace {path : Path}
      (failed : inspection.dialect.checkPlace inspection.plan path =
        .error (.circular reference)) :
      reference.origin = path ∧
        reference.ComesBack (inspection.dialect.ValueEdge inspection.plan path)
          (inspection.dialect.ValueEdge inspection.plan) :=
    Dialect.comesBack_of_traverseFrom (eq_error_of_map failed)
  have ofFormula {formula : Formula}
      (failed : inspection.dialect.checkSelfReference inspection.plan formula =
        .error (.circular reference)) :
      reference.origin = formula.owner ∧
        reference.ComesBack (formula.DependsOnValue inspection.plan)
          (inspection.dialect.ValueEdge inspection.plan) ∧
        reference.cycle.getLast? = some formula.owner := by
    obtain ⟨sameOrigin, comesBack, closes⟩ :=
      Dialect.comesBack_of_traverseFormula (eq_error_of_map failed)
    exact ⟨sameOrigin, comesBack, closes rfl⟩
  refine ⟨?_, ?_, ?_⟩
  · rintro path (failed | failed | ⟨own, key, failed⟩)
    · exact ofPlace failed
    · exact Dialect.comesBack_of_traverseFrom failed
    · exact ofPlace (checkPlace_of_resolve own failed)
  · intro formula failed
    obtain ⟨sameOrigin, comesBack, -⟩ :=
      Dialect.comesBack_of_traverseFormula (eq_error_of_map failed)
    exact ⟨sameOrigin, comesBack⟩
  · rintro formula (failed | ⟨ownTree, failed⟩)
    · exact ofFormula failed
    · exact ofFormula (checkSelfReference_of_evaluate ownTree failed)

theorem reported_cycle_below_place :
    ∃ (inspection : Inspection) (above first second : Path) (formula : Formula),
      inspection.dialect.catalog.ReportsNoCycle ∧
      inspection.resolve ⟨above, none⟩ =
        .error (.circular ⟨above, [above, first, second, first]⟩) ∧
      CircularReference.ComesBack ⟨above, [above, first, second, first]⟩
        (inspection.dialect.ValueEdge inspection.plan above)
        (inspection.dialect.ValueEdge inspection.plan) ∧
      inspection.plan.formula? second ≠ some formula.text ∧ formula.root.ReportsNoCycle ∧
      inspection.evaluate formula = .error (.circular ⟨second, [second, first, second]⟩) ∧
      CircularReference.ComesBack ⟨second, [second, first, second]⟩
        (formula.DependsOnValue inspection.plan)
        (inspection.dialect.ValueEdge inspection.plan) ∧ second = formula.owner := by
  let above : Path := ⟨[⟨.characteristic, "A"⟩]⟩
  let first : Path := ⟨[⟨.characteristic, "B"⟩]⟩
  let second : Path := ⟨[⟨.characteristic, "C"⟩]⟩
  let store := ((Store.empty.setFormula above "\x7bC(7)\x7d+\x7bB\x7d").setFormula first
    "\x7bC\x7d").setFormula second "\x7bB\x7d"
  let inspection : Inspection := ⟨.standard, store.plan, store.measurements, none⟩
  have own : inspection.dialect.catalog.ReportsNoCycle := Catalog.reportsNoCycle_standard
  have resolved : inspection.resolve ⟨above, none⟩ =
      .error (.circular ⟨above, [above, first, second, first]⟩) := by
    decide +kernel
  have accepted : (inspection.dialect.read "2*\x7bB\x7d" second).toOption.any (fun formula =>
      inspection.evaluate formula = .error (.circular ⟨second, [second, first, second]⟩)) =
        true := by
    decide +kernel
  obtain ⟨formula, read, evaluated⟩ := exists_eq_ok_of_any accepted
  have evaluated := of_decide_eq_true evaluated
  obtain ⟨isOver, sameText, -⟩ := Dialect.isOver_of_read read
  have ownTree := isOver.reportsNoCycle own
  have ofReference := (reported_cycles_are_real inspection _).1 above
    (.inr (.inr ⟨fun _ => Expression.reportsNoCycle_of_hasFormula own, none, resolved⟩))
  have ofFormula := (reported_cycles_are_real inspection _).2.2 formula (.inr ⟨ownTree, evaluated⟩)
  refine ⟨inspection, above, first, second, formula, own, resolved, ofReference.2, ?_, ownTree,
    evaluated, ofFormula.2.1, ofFormula.1⟩
  rw [sameText]
  decide +kernel

/-- An evaluation passes on a cycle that an operation of a host reports, though the checks of the
plan find none. -/
theorem exists_reported_cycle_of_operation :
    ∃ (inspection : Inspection) (formula : Formula) (reference : CircularReference),
      inspection.dialect.HasFormula inspection.plan formula.owner formula ∧
      inspection.dialect.checkPlace inspection.plan formula.owner = .ok () ∧
      inspection.dialect.checkSelfReference inspection.plan formula = .ok () ∧
      inspection.resolve ⟨formula.owner, none⟩ = .error (.circular reference) ∧
      inspection.evaluate formula = .error (.circular reference) ∧
      reference.origin ≠ formula.owner ∧ ∀ first edge, ¬ reference.ComesBack first edge := by
  let place : Path := ⟨[⟨.characteristic, "A"⟩]⟩
  let reference : CircularReference := ⟨⟨[]⟩, []⟩
  let dialect : Dialect :=
    .ofCatalog (Catalog.empty.withOperation (.reporting "loop" reference))
  let store := Store.empty.setFormula place "loop()"
  let inspection : Inspection := ⟨dialect, store.plan, store.measurements, none⟩
  have checked : dialect.checkPlace store.plan place = .ok () := by decide +kernel
  have resolved : inspection.resolve ⟨place, none⟩ = .error (.circular reference) := by
    decide +kernel
  obtain ⟨formula, read, accepted⟩ := exists_eq_ok_of_any (show
    (dialect.read "loop()" place).toOption.any (fun formula =>
      decide (dialect.checkSelfReference store.plan formula = .ok () ∧
        inspection.evaluate formula = .error (.circular reference))) = true
    by decide +kernel)
  obtain ⟨passes, evaluated⟩ := of_decide_eq_true accepted
  obtain ⟨root, -, rfl⟩ := Dialect.read_eq_ok_iff.1 read
  have has : dialect.HasFormula store.plan place ⟨root, "loop()", place⟩ := ⟨_, rfl, read⟩
  have apart : reference.origin ≠ place := by decide
  refine ⟨inspection, ⟨root, "loop()", place⟩, reference, has, checked, passes, resolved,
    evaluated, apart, ?_⟩
  intro first edge comesBack
  exact absurd comesBack.atLeastTwo (by decide)

end Inspection

end InspectionFormula
