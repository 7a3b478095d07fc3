import InspectionFormula.Proofs.Evaluation.Nesting

/-!
# Evaluation without a bound

An evaluation that may nest formulas as deep as it likes ends for every
expression, every formula and every place, with the outcome that is computed.
-/

namespace InspectionFormula

namespace Inspection

variable {inspection : Inspection} {tree : Expression} {reference : Reference}
  {outcome : Outcome} {chain : List Path} {path : Path}

mutual

/-- Evaluation of an expression, without a bound on the depth. -/
inductive Evaluates (inspection : Inspection) : Expression → Outcome → Prop where
  | number {value : Binary64} {span : Span} :
      Evaluates inspection (.number value span) (.ok (some value))
  | constant {constant : Constant} {span : Span} :
      Evaluates inspection (.constant constant span) (.ok (some constant.value))
  | literal {text : String} {span : Span} :
      Evaluates inspection (.literal text span) (.error (.unresolvedLiteral text))
  | reference {target : Reference} {span : Span} {outcome : Outcome}
      (resolves : Resolves inspection target outcome) :
      Evaluates inspection (.reference target span) (.ok (valueOrNone outcome))
  | negate {operand : Expression} {span : Span} {outcome : Outcome}
      (inner : Evaluates inspection operand outcome) :
      Evaluates inspection (.negate operand span) (outcome.map (Option.map Binary64.neg))
  | call {operation : Operation} {arguments : List Expression} {span : Span} {outcome : Outcome}
      (runs : Runs inspection arguments (operation.compute (arguments.map Expression.shape))
        outcome) :
      Evaluates inspection (.call operation arguments span)
        (outcome.map (Option.filter Binary64.isFinite))

/-- A computation with the given arguments, whose questions are answered as they come. -/
inductive Runs (inspection : Inspection) :
    List Expression → Computation (Option Binary64) → Outcome → Prop where
  | done {arguments : List Expression} {result : Option Binary64} :
      Runs inspection arguments (.done result) (.ok result)
  | fail {arguments : List Expression} {error : EvaluationError} :
      Runs inspection arguments (.fail error) (.error error)
  | argument {arguments : List Expression} {index : Nat} {argument : Expression}
      {next : Option Binary64 → Computation (Option Binary64)} {value : Option Binary64}
      {outcome : Outcome} (here : arguments[index]? = some argument)
      (answered : Evaluates inspection argument (.ok value))
      (later : Runs inspection arguments (next value) outcome) :
      Runs inspection arguments (.argument index next) outcome
  | failedArgument {arguments : List Expression} {index : Nat} {argument : Expression}
      {next : Option Binary64 → Computation (Option Binary64)} {error : EvaluationError}
      (here : arguments[index]? = some argument)
      (failed : Evaluates inspection argument (.error error)) :
      Runs inspection arguments (.argument index next) (.error error)
  | noArgument {arguments : List Expression} {index : Nat}
      {next : Option Binary64 → Computation (Option Binary64)} {outcome : Outcome}
      (beyond : arguments[index]? = none)
      (later : Runs inspection arguments (next none) outcome) :
      Runs inspection arguments (.argument index next) outcome
  | value {arguments : List Expression} {path : Path}
      {next : Option Binary64 → Computation (Option Binary64)} {answer outcome : Outcome}
      (resolves : Resolves inspection ⟨path, none⟩ answer)
      (later : Runs inspection arguments (next (valueOrNone answer)) outcome) :
      Runs inspection arguments (.valueOf path next) outcome
  | children {arguments : List Expression} {path : Path}
      {next : List Path → Computation (Option Binary64)} {outcome : Outcome}
      (later : Runs inspection arguments (next (inspection.plan.childPaths path)) outcome) :
      Runs inspection arguments (.childPaths path next) outcome

/-- What a reference comes to, without a bound on the depth. -/
inductive Resolves (inspection : Inspection) : Reference → Outcome → Prop where
  | attribute {path : Path} {key : UInt16} :
      Resolves inspection ⟨path, some key⟩
        (.ok ((inspection.measurements.attribute? path key inspection.time).bind
          Attribute.number?))
  | measured {path : Path} (measured : inspection.plan.formula? path = none) :
      Resolves inspection ⟨path, none⟩ (.ok (inspection.measurements.value? path))
  | refused {path : Path} {text : String} {error : EvaluationError}
      (known : inspection.plan.formula? path = some text)
      (refused : inspection.readNested path text = .error error) :
      Resolves inspection ⟨path, none⟩ (.error error)
  | opened {path : Path} {text : String} {nested : Formula} {outcome : Outcome}
      (known : inspection.plan.formula? path = some text)
      (opened : inspection.readNested path text = .ok nested)
      (evaluates : Evaluates inspection nested.root outcome) :
      Resolves inspection ⟨path, none⟩ outcome

end

theorem answers_argument (inspection : Inspection) (arguments : List Expression) (index : Nat) :
    (inspection.surroundings.answers arguments).argument index =
      (arguments[index]?.map inspection.evaluateTree).getD (.ok none) :=
  Expression.evaluateAt_eq index

theorem runs_argument {arguments : List Expression} {index : Nat}
    {next : Option Binary64 → Computation (Option Binary64)}
    (first : ∀ argument, arguments[index]? = some argument →
      inspection.Evaluates argument (inspection.evaluateTree argument))
    (later : ∀ value, (inspection.surroundings.answers arguments).argument index = .ok value →
      inspection.Runs arguments (next value)
        ((next value).run (inspection.surroundings.answers arguments))) :
    inspection.Runs arguments (.argument index next)
      ((Computation.argument index next).run (inspection.surroundings.answers arguments)) := by
  have answer := answers_argument inspection arguments index
  rw [Computation.run]
  cases here : arguments[index]? with
  | none =>
      rw [here] at answer
      rw [answer]
      exact .noArgument here (later none answer)
  | some argument =>
      have evaluates := first argument here
      rw [here, Option.map_some, Option.getD_some] at answer
      cases evaluated : inspection.evaluateTree argument with
      | error error =>
          rw [evaluated] at evaluates answer
          rw [answer]
          exact .failedArgument here evaluates
      | ok value =>
          rw [evaluated] at evaluates answer
          rw [answer]
          exact .argument here evaluates (later value answer)

theorem runs_of_asks {arguments : List Expression}
    {computation : Computation (Option Binary64)}
    (evaluates : ∀ index argument,
      computation.Asks (inspection.surroundings.answers arguments) (.argument index) →
      arguments[index]? = some argument →
      inspection.Evaluates argument (inspection.evaluateTree argument))
    (resolves : ∀ path,
      computation.Asks (inspection.surroundings.answers arguments) (.value path) →
      inspection.Resolves ⟨path, none⟩ (inspection.resolve ⟨path, none⟩)) :
    inspection.Runs arguments computation
      (computation.run (inspection.surroundings.answers arguments)) := by
  induction computation with
  | done result => exact .done
  | fail error => exact .fail
  | argument index next ih =>
      apply runs_argument
      · intro argument here
        exact evaluates index argument .argument here
      · intro value answered
        exact ih value
          (fun index argument asks => evaluates index argument (.afterArgument answered asks))
          fun path asks => resolves path (.afterArgument answered asks)
  | valueOf path next ih =>
      refine .value (resolves path .value) ?_
      exact ih _ (fun index argument asks => evaluates index argument (.afterValue asks))
        fun path asks => resolves path (.afterValue asks)
  | childPaths path next ih =>
      refine .children ?_
      exact ih _ (fun index argument asks => evaluates index argument (.afterChildren asks))
        fun path asks => resolves path (.afterChildren asks)

theorem evaluates_of_reads
    (resolves : ∀ target, tree.Reads inspection.surroundings target →
      inspection.Resolves target (inspection.resolve target)) :
    inspection.Evaluates tree (inspection.evaluateTree tree) := by
  induction tree using Expression.children_induction with
  | step tree ih =>
      cases tree with
      | number value span => exact .number
      | constant constant span => exact .constant
      | literal text span => exact .literal
      | reference target span => exact .reference (resolves target .reference)
      | negate operand span =>
          refine .negate (ih operand (by simp [Expression.children]) ?_)
          intro target reads
          exact resolves target (.negate reads)
      | call operation arguments span =>
          refine .call (runs_of_asks ?_ ?_)
          · intro index argument asks here
            refine ih argument (List.mem_of_getElem? here) ?_
            intro target reads
            exact resolves target (.argument asks here reads)
          · intro path asks
            exact resolves _ (.value asks)

theorem resolves_resolve (honest : inspection.dialect.catalog.IsHonest) (reference : Reference) :
    inspection.Resolves reference (inspection.resolve reference) := by
  obtain ⟨path, _ | key⟩ := reference
  · induction path using opened_induction honest with
    | step path ih =>
        cases known : inspection.plan.formula? path with
        | none =>
            rw [resolve_measured known]
            exact .measured known
        | some text =>
            rw [resolve_calculated honest known]
            cases opened : inspection.readNested path text with
            | error error => exact .refused known opened
            | ok nested =>
                refine .opened known opened (evaluates_of_reads ?_)
                rintro ⟨next, _ | key⟩ reads
                · exact ih text nested next known opened reads
                · rw [resolve_attribute]
                  exact .attribute
  · rw [resolve_attribute]
    exact .attribute

mutual

theorem Evaluates.eq (honest : inspection.dialect.catalog.IsHonest) {tree : Expression}
    {outcome : Outcome} :
    inspection.Evaluates tree outcome → inspection.evaluateTree tree = outcome
  | .number | .constant | .literal => rfl
  | .reference resolves => by
      rw [← resolves.eq honest]
      rfl
  | .negate inner => by
      rw [← inner.eq honest]
      rfl
  | .call runs => by
      rw [← runs.eq honest]
      rfl

theorem Runs.eq (honest : inspection.dialect.catalog.IsHonest) {arguments : List Expression}
    {computation : Computation (Option Binary64)} {outcome : Outcome} :
    inspection.Runs arguments computation outcome →
      computation.run (inspection.surroundings.answers arguments) = outcome
  | .done | .fail => rfl
  | .argument here answered later => by
      rw [Computation.run, answers_argument, here, Option.map_some, Option.getD_some,
        answered.eq honest]
      exact later.eq honest
  | .failedArgument here failed => by
      rw [Computation.run, answers_argument, here, Option.map_some, Option.getD_some,
        failed.eq honest]
  | .noArgument beyond later => by
      rw [Computation.run, answers_argument, beyond]
      exact later.eq honest
  | .value resolves later => by
      rw [← later.eq honest, ← resolves.eq honest]
      rfl
  | .children later => later.eq honest

theorem Resolves.eq (honest : inspection.dialect.catalog.IsHonest) {reference : Reference}
    {outcome : Outcome} :
    inspection.Resolves reference outcome → inspection.resolve reference = outcome
  | .attribute => resolve_attribute _
  | .measured measured => resolve_measured measured
  | .refused known refused => by
      rw [resolve_calculated honest known, refused]
      rfl
  | .opened known opened evaluates => by
      rw [resolve_calculated honest known, opened]
      exact evaluates.eq honest

end

section Outcomes

variable (honest : inspection.dialect.catalog.IsHonest)
include honest

theorem resolves_iff : inspection.Resolves reference outcome ↔
    inspection.resolve reference = outcome := by
  constructor
  · exact Resolves.eq honest
  · rintro rfl
    exact resolves_resolve honest reference

theorem evaluates_iff : inspection.Evaluates tree outcome ↔
    inspection.evaluateTree tree = outcome := by
  constructor
  · exact Evaluates.eq honest
  · rintro rfl
    exact evaluates_of_reads fun target _ => resolves_resolve honest target

end Outcomes

/-- Evaluation of a formula, which must not reach its own owner. -/
inductive EvaluatesFormula (inspection : Inspection) (formula : Formula) : Outcome → Prop where
  | refused {error : EvaluationError}
      (refused : inspection.dialect.checkSelfReference inspection.plan formula = .error error) :
      EvaluatesFormula inspection formula (.error error)
  | evaluated {outcome : Outcome}
      (passes : inspection.dialect.checkSelfReference inspection.plan formula = .ok ())
      (evaluates : inspection.Evaluates formula.root outcome) :
      EvaluatesFormula inspection formula outcome

/-- Evaluation of a place by its formula, if it has one. -/
inductive EvaluatesPlace (inspection : Inspection) (path : Path) : Outcome → Prop where
  | measured (measured : inspection.plan.formula? path = none) :
      EvaluatesPlace inspection path (.ok (inspection.measurements.value? path))
  | malformed {text : String} {error : SyntaxError}
      (known : inspection.plan.formula? path = some text)
      (malformed : inspection.dialect.read text path = .error error) :
      EvaluatesPlace inspection path (.error (.malformed error))
  | calculated {text : String} {formula : Formula} {outcome : Outcome}
      (known : inspection.plan.formula? path = some text)
      (read : inspection.dialect.read text path = .ok formula)
      (evaluates : EvaluatesFormula inspection formula outcome) :
      EvaluatesPlace inspection path outcome

theorem evaluatesFormula_iff (honest : inspection.dialect.catalog.IsHonest) {formula : Formula} :
    inspection.EvaluatesFormula formula outcome ↔ inspection.evaluate formula = outcome := by
  constructor
  · intro ends
    cases ends with
    | refused refused => exact evaluate_refused refused
    | evaluated passes evaluates =>
        rw [evaluate_passing passes]
        exact (evaluates_iff honest).1 evaluates
  · rintro rfl
    cases checked : inspection.dialect.checkSelfReference inspection.plan formula with
    | error error =>
        rw [evaluate_refused checked]
        exact .refused checked
    | ok =>
        rw [evaluate_passing checked]
        exact .evaluated checked ((evaluates_iff honest).2 rfl)

theorem evaluatesPlace_iff (honest : inspection.dialect.catalog.IsHonest) :
    inspection.EvaluatesPlace path outcome ↔ inspection.evaluateAt path = outcome := by
  constructor
  · intro ends
    cases ends with
    | measured measured => exact evaluateAt_measured measured
    | malformed known malformed =>
        rw [evaluateAt_calculated known, malformed]
        rfl
    | calculated known read evaluates =>
        rw [evaluateAt_calculated known, read]
        exact (evaluatesFormula_iff honest).1 evaluates
  · rintro rfl
    cases known : inspection.plan.formula? path with
    | none =>
        rw [evaluateAt_measured known]
        exact .measured known
    | some text =>
        rw [evaluateAt_calculated known]
        cases read : inspection.dialect.read text path with
        | error error => exact .malformed known read
        | ok formula => exact .calculated known read ((evaluatesFormula_iff honest).2 rfl)

end Inspection

end InspectionFormula
