import InspectionFormula.Evaluation.Inspection
import InspectionFormula.Proofs.Expression.Nodes
import InspectionFormula.Proofs.Operation.Questions
import InspectionFormula.Proofs.Parsing.Inheritance

/-!
# What an evaluation reads

The value of an expression depends on the references that its evaluation reads.
If all operations are honest, each of them has an occurrence in the expression.
-/

namespace InspectionFormula

/-- The answers to the questions of an operation. -/
def Surroundings.answers (surroundings : Surroundings) (arguments : List Expression) : Answers where
  argument := Expression.evaluateAt surroundings arguments
  valueOf path := surroundings.valueOf ⟨path, none⟩
  childPaths := surroundings.childPaths

namespace Expression

variable {surroundings other : Surroundings} {tree : Expression} {target : Reference}
  {arguments : List Expression} {catalog : Catalog}

theorem evaluate_call (operation : Operation) (span : Span) :
    (call operation arguments span).evaluate surroundings =
      ((operation.compute (arguments.map shape)).run (surroundings.answers arguments)).map
        (Option.filter Binary64.isFinite) :=
  rfl

theorem evaluateAt_eq (index : Nat) :
    evaluateAt surroundings arguments index =
      (arguments[index]?.map fun argument => argument.evaluate surroundings).getD (.ok none) := by
  induction arguments generalizing index with
  | nil => rfl
  | cons first rest ih =>
      cases index with
      | zero => rfl
      | succ index => exact ih index

/-- The references that the evaluation of an expression comes to. -/
inductive Reads (surroundings : Surroundings) : Expression → Reference → Prop where
  | reference {target : Reference} {span : Span} :
      Reads surroundings (.reference target span) target
  | negate {operand : Expression} {span : Span} {target : Reference}
      (inner : Reads surroundings operand target) : Reads surroundings (.negate operand span) target
  | argument {operation : Operation} {arguments : List Expression} {span : Span} {index : Nat}
      {argument : Expression} {target : Reference}
      (asks : (operation.compute (arguments.map shape)).Asks (surroundings.answers arguments)
        (.argument index))
      (here : arguments[index]? = some argument) (inner : Reads surroundings argument target) :
      Reads surroundings (.call operation arguments span) target
  | value {operation : Operation} {arguments : List Expression} {span : Span} {path : Path}
      (asks : (operation.compute (arguments.map shape)).Asks (surroundings.answers arguments)
        (.value path)) :
      Reads surroundings (.call operation arguments span) ⟨path, none⟩

theorem evaluate_congr (sameChildren : other.childPaths = surroundings.childPaths)
    (same : ∀ target, tree.Reads surroundings target →
      other.valueOf target = surroundings.valueOf target) :
    tree.evaluate other = tree.evaluate surroundings := by
  induction tree using children_induction with
  | step tree ih =>
      cases tree with
      | number | constant | literal => rfl
      | reference target span =>
          rw [evaluate, evaluate, same target .reference]
      | negate operand span =>
          rw [evaluate, evaluate, ih operand (by simp [children]) fun target reads =>
            same target (.negate reads)]
      | call operation arguments span =>
          rw [evaluate_call, evaluate_call]
          congr 1
          refine Computation.run_congr sameChildren ?_ ?_
          · intro index asks
            simp only [Surroundings.answers, evaluateAt_eq]
            cases here : arguments[index]? with
            | none => rfl
            | some argument =>
                exact ih argument (List.mem_of_getElem? here) fun target reads =>
                  same target (.argument asks here reads)
          · intro path asks
            exact same _ (.value asks)

/-- A tree of numbers, constants and references under operations of the catalog. -/
inductive IsOver (catalog : Catalog) : Expression → Prop where
  | number {value : Binary64} {span : Span} : IsOver catalog (.number value span)
  | constant {constant : Constant} {span : Span} : IsOver catalog (.constant constant span)
  | reference {target : Reference} {span : Span} : IsOver catalog (.reference target span)
  | negate {operand : Expression} {span : Span} (inner : IsOver catalog operand) :
      IsOver catalog (.negate operand span)
  | call {operation : Operation} {arguments : List Expression} {span : Span}
      (known : operation ∈ catalog.operations.values)
      (each : ∀ argument ∈ arguments, IsOver catalog argument) :
      IsOver catalog (.call operation arguments span)

theorem isInherited_isOver (catalog : Catalog) (resolve : String → Option Path) :
    IsInherited catalog resolve (IsOver catalog) where
  number _ _ := .number
  constant _ _ := .constant
  reference _ _ _ := .reference
  withSpan _ inner := by
    cases inner with
    | number => exact .number
    | constant => exact .constant
    | reference => exact .reference
    | negate inner => exact .negate inner
    | call known each => exact .call known each
  negate _ inner := .negate inner
  operator _ known left right := .call known.1 (by simp [left, right])
  call _ known _ each := .call known.1 each

theorem occurrencesInEach_eq_flatMap (childPaths : Path → List Path) (source : String)
    (arguments : List Expression) : occurrencesInEach childPaths source arguments =
      arguments.flatMap (occurrences childPaths source) := by
  induction arguments with
  | nil => rfl
  | cons first rest ih => rw [occurrencesInEach, ih, List.flatMap_cons]

theorem mem_occurrencesInEach {childPaths : Path → List Path} {source : String}
    {occurrence : Occurrence} :
    occurrence ∈ occurrencesInEach childPaths source arguments ↔
      ∃ argument ∈ arguments, occurrence ∈ argument.occurrences childPaths source := by
  induction arguments with
  | nil => simp [occurrencesInEach]
  | cons first rest ih => simp [occurrencesInEach, ih]

/-- Whatever is read has an occurrence. -/
theorem exists_occurrence_of_reads
    (honest : ∀ operation ∈ catalog.operations.values, operation.IsHonest)
    (isOver : tree.IsOver catalog) (source : String) (reads : tree.Reads surroundings target) :
    ∃ occurrence ∈ tree.occurrences surroundings.childPaths source,
      occurrence.reference = target := by
  induction reads with
  | reference => exact ⟨_, List.mem_singleton_self _, rfl⟩
  | negate reads ih =>
      cases isOver with
      | negate inner => exact ih inner
  | @argument operation arguments span index argument target asks here reads ih =>
      cases isOver with
      | call known each =>
          have member := List.mem_of_getElem? here
          obtain ⟨occurrence, occurs, refers⟩ := ih (each argument member)
          have plain : operation.reads = none := (honest operation known _ _).of_asks asks
          rw [occurrences, plain]
          exact ⟨occurrence, mem_occurrencesInEach.2 ⟨argument, member, occurs⟩, refers⟩
  | @value operation arguments span path asks =>
      cases isOver with
      | call known each =>
          obtain ⟨reads, declared, _, isShape, place, refers, isRead⟩ :
              operation.SaysReads surroundings.childPaths (arguments.map shape) path :=
            (honest operation known _ _).of_asks asks
          obtain ⟨argument, member, rfl⟩ := List.mem_map.1 isShape
          refine ⟨.spanning source argument.span ⟨path, none⟩, ?_, rfl⟩
          rw [occurrences, declared]
          refine List.mem_flatMap.2 ⟨argument, member, ?_⟩
          rw [readOccurrences, refers]
          exact List.mem_map.2 ⟨path, isRead, rfl⟩

end Expression

end InspectionFormula
