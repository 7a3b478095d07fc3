import InspectionFormula.Proofs.Expression.Reads

/-!
# Meanings of expressions

What an expression comes to depends on what its children come to and refer to,
and not on spans.  The same holds for what its occurrences refer to.  A part may
be exchanged for another one of the same meaning that refers to the same.  Only
the arguments that stand for groups of places must remain the same references.
-/

namespace InspectionFormula

namespace Operation

/-- If it asks for its arguments, the operation does not look at what they are. -/
def IsUniform (operation : Operation) : Prop :=
  operation.reads = none → ∀ shapes others : List ArgumentShape, others.length = shapes.length →
    operation.compute others = operation.compute shapes

theorem isUniform_coalesce : Numeric.coalesce.IsUniform := by
  intro _ shapes others same
  simp only [Numeric.coalesce, same]

theorem isUniform_aggregate (name : String) (reduce : List Binary64 → Option Binary64) :
    (aggregate name reduce).IsUniform := by
  intro _ shapes others same
  simp only [aggregate, same]

theorem isUniform_count : Aggregate.count.IsUniform := by
  intro _ shapes others same
  simp only [Aggregate.count, same]

end Operation

theorem Catalog.isUniform_of_mem_standard :
    ∀ operation ∈ Catalog.standard.operations.values, operation.IsUniform :=
  Catalog.standard_cases (fun _ _ _ _ _ _ => rfl) (fun _ _ _ _ _ _ => rfl) (fun _ _ _ _ => rfl)
    Operation.isUniform_coalesce Operation.isUniform_aggregate Operation.isUniform_count nofun nofun
    nofun

namespace Expression

variable {surroundings : Surroundings} {old new tree other : Expression} {catalog : Catalog}

/-- The second tree is the first one with an occurrence of the old part exchanged for the new one.
-/
inductive Exchanges (old new : Expression) : Expression → Expression → Prop where
  | here : Exchanges old new old new
  | negate {operand other : Expression} {span : Span} (inner : Exchanges old new operand other) :
      Exchanges old new (.negate operand span) (.negate other span)
  /-- What an argument refers to may change only where the operation asks for its value. -/
  | call {operation : Operation} {before after : List Expression} {argument other : Expression}
      {span : Span} (kept : operation.reads = none ∨ other.shape = argument.shape)
      (inner : Exchanges old new argument other) :
      Exchanges old new (.call operation (before ++ argument :: after) span)
        (.call operation (before ++ other :: after) span)

theorem evaluateAt_congr {arguments others : List Expression}
    (same : others.map (evaluate surroundings) = arguments.map (evaluate surroundings)) :
    evaluateAt surroundings others = evaluateAt surroundings arguments := by
  funext index
  rw [evaluateAt_eq, evaluateAt_eq]
  simp only [← List.getElem?_map]
  exact congrArg (fun outcomes => outcomes[index]?.getD (.ok none)) same

theorem evaluate_of_exchanges (exchanges : Exchanges old new tree other)
    (uniform : ∀ operation ∈ catalog.operations.values, operation.IsUniform)
    (isOver : tree.IsOver catalog)
    (same : new.evaluate surroundings = old.evaluate surroundings) :
    other.evaluate surroundings = tree.evaluate surroundings := by
  induction exchanges with
  | here => exact same
  | negate inner ih =>
      cases isOver with
      | negate isOver => rw [evaluate, evaluate, ih isOver]
  | @call operation before after argument other span kept inner ih =>
      cases isOver with
      | call known each =>
          have sameArgument := ih (each argument (by simp))
          have sameComputation :
              operation.compute ((before ++ other :: after).map shape) =
                operation.compute ((before ++ argument :: after).map shape) := by
            rcases kept with plain | sameShape
            · exact uniform operation known plain _ _ (by simp)
            · simp only [List.map_append, List.map_cons, sameShape]
          have sameAnswers : evaluateAt surroundings (before ++ other :: after) =
              evaluateAt surroundings (before ++ argument :: after) :=
            evaluateAt_congr (by simp only [List.map_append, List.map_cons, sameArgument])
          rw [evaluate_call, evaluate_call, sameComputation, Surroundings.answers,
            Surroundings.answers, sameAnswers]

/-- The meaning of an expression is that of its children, put together without their spans.  A call
may also depend on what its arguments refer to. -/
structure IsCompositional {Meaning : Type} (meaning : Expression → Meaning) : Prop where
  leaf : ∀ tree : Expression, tree.children = [] → meaning tree.eraseSpans = meaning tree
  negate : ∀ (operand other : Expression) (span otherSpan : Span), meaning other = meaning operand →
    meaning (.negate other otherSpan) = meaning (.negate operand span)
  call : ∀ (operation : Operation) (arguments others : List Expression) (span otherSpan : Span),
    others.map shape = arguments.map shape → others.map meaning = arguments.map meaning →
    meaning (.call operation others otherSpan) = meaning (.call operation arguments span)

section Compositional

variable {Meaning : Type} {meaning : Expression → Meaning} {old new tree other : Expression}

theorem IsCompositional.eraseSpans (compositional : IsCompositional meaning) (tree : Expression) :
    meaning tree.eraseSpans = meaning tree := by
  induction tree using children_induction with
  | step tree ih =>
      cases tree with
      | number | constant | literal | reference => exact compositional.leaf _ rfl
      | negate operand span => exact compositional.negate _ _ _ _ (ih operand (by simp [children]))
      | call operation arguments span =>
          rw [eraseSpans_call]
          apply compositional.call
          · simp only [List.map_map, Function.comp_def, shape_eraseSpans]
          · rw [List.map_map]
            exact List.map_congr_left ih

theorem shape_of_exchanges (exchanges : Exchanges old new tree other)
    (sameShape : new.shape = old.shape) : other.shape = tree.shape := by
  cases exchanges with
  | here => exact sameShape
  | negate | call => rfl

theorem IsCompositional.exchange (compositional : IsCompositional meaning)
    (exchanges : Exchanges old new tree other) (sameShape : new.shape = old.shape)
    (same : meaning new = meaning old) : meaning other = meaning tree := by
  induction exchanges with
  | here => exact same
  | negate inner ih => exact compositional.negate _ _ _ _ ih
  | call kept inner ih =>
      apply compositional.call
      · simp only [List.map_append, List.map_cons, shape_of_exchanges inner sameShape]
      · simp only [List.map_append, List.map_cons, ih]

end Compositional

theorem isCompositional_evaluate (surroundings : Surroundings) :
    IsCompositional (evaluate surroundings) where
  leaf tree noChild := by
    cases tree with
    | number | constant | literal | reference => rfl
    | negate => cases noChild
    | call operation arguments span =>
        cases show arguments = [] from noChild
        rfl
  negate operand other span otherSpan same := by rw [evaluate, evaluate, same]
  call operation arguments others span otherSpan shapes same := by
    have sameAnswers := evaluateAt_congr same
    rw [evaluate_call, evaluate_call, shapes, Surroundings.answers, sameAnswers,
      Surroundings.answers]

variable {childPaths : Path → List Path}

/-- What the occurrences in an expression refer to, from left to right. -/
def references (childPaths : Path → List Path) (tree : Expression) : List Reference :=
  (tree.occurrences childPaths "").map Occurrence.reference

/-- What is referred to for an argument whose operation reads other places. -/
def readReferences (reads : Path → List Path) (shape : ArgumentShape) : List Reference :=
  (shape.place?.map reads).elim [] fun places => places.map fun path => ⟨path, none⟩

theorem map_reference_readOccurrences (source : String) (reads : Path → List Path)
    (argument : Expression) :
    (readOccurrences source reads argument).map Occurrence.reference =
      readReferences reads argument.shape := by
  unfold readOccurrences readReferences
  cases argument.shape.place? with
  | none => rfl
  | some place => exact List.map_map

theorem map_reference_call {operation : Operation} (source : String)
    (arguments : List Expression) (span : Span) :
    ((call operation arguments span).occurrences childPaths source).map Occurrence.reference =
      match operation.reads with
      | some reads => (arguments.map shape).flatMap (readReferences (reads childPaths))
      | none => (arguments.map fun argument =>
          (argument.occurrences childPaths source).map Occurrence.reference).flatten := by
  rw [occurrences]
  cases operation.reads with
  | some reads =>
      simp only [List.map_flatMap, map_reference_readOccurrences, List.flatMap_map]
  | none =>
      simp only
      rw [occurrencesInEach_eq_flatMap, List.map_flatMap, List.flatMap_def]

/-- The text of a formula does not count for what its occurrences refer to. -/
theorem map_reference_occurrences (source : String) (tree : Expression) :
    (tree.occurrences childPaths source).map Occurrence.reference = tree.references childPaths := by
  unfold references
  induction tree using children_induction with
  | step tree ih =>
      cases tree with
      | number | constant | literal | reference => rfl
      | negate operand span => exact ih operand (by simp [children])
      | call operation arguments span =>
          rw [map_reference_call, map_reference_call, show arguments.map _ = arguments.map _ from
            List.map_congr_left ih]

theorem isCompositional_references (childPaths : Path → List Path) :
    IsCompositional (references childPaths) where
  leaf tree noChild := by
    cases tree with
    | number | constant | literal | reference => rfl
    | negate => cases noChild
    | call operation arguments span =>
        cases show arguments = [] from noChild
        rfl
  negate operand other span otherSpan same := by
    simpa only [references, occurrences] using same
  call operation arguments others span otherSpan shapes same := by
    unfold references at same ⊢
    rw [map_reference_call, map_reference_call, shapes, same]

end Expression

end InspectionFormula
