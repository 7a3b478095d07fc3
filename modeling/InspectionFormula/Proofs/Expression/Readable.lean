import InspectionFormula.Proofs.Catalog.Standard
import InspectionFormula.Proofs.Expression.Nodes
import InspectionFormula.Proofs.Decimal.ReadBack
import InspectionFormula.Proofs.Parsing.Inheritance
import InspectionFormula.Proofs.Path.Resolved

/-!
# Read expressions can be written

Whatever is read can be written, and has no negative numbers.
-/

namespace InspectionFormula

namespace Binary64

theorem isFinite_of_readLiteral? {text : List Char} {value : Binary64}
    (read : readLiteral? text = some value) :
    value.isFinite = true ∧ value.negative = false := by
  obtain ⟨parsed, finite⟩ := Option.filter_eq_some_iff.1 read
  obtain ⟨decimal, -, rfl⟩ := Option.map_eq_some_iff.1 parsed
  exact ⟨finite, negative_ofDecimal decimal⟩

end Binary64

namespace Expression

variable {anchor : Path} {value : Expression}

/-- A tree that can be written, without negative numbers. -/
structure IsReadable (anchor : Path) (tree : Expression) : Prop where
  isPrintable : IsPrintable anchor tree
  positive : tree.withNegations = tree

theorem IsReadable.withSpan (isReadable : IsReadable anchor value) (span : Span) :
    IsReadable anchor (value.withSpan span) := by
  obtain ⟨isPrintable, positive⟩ := isReadable
  constructor
  · cases isPrintable with
    | number finite => exact .number finite
    | constant known => exact .constant known
    | reference renderable follow => exact .reference renderable follow
    | negate isPrintable => exact .negate isPrintable
    | operator known between left right => exact .operator known between left right
    | call known before accepted each => exact .call known before accepted each
  · cases isPrintable with
    | @number value =>
        rw [withNegations] at positive
        split at positive
        · cases positive
        · next plain => rw [Expression.withSpan, withNegations, if_neg plain]
    | negate | operator | call =>
        simp only [withNegations, negate.injEq, call.injEq, and_true, true_and] at positive
        simp only [Expression.withSpan, withNegations, positive]
    | constant | reference => rfl

theorem withNegations_negate {operand : Expression} {span : Span}
    (isReadable : IsReadable anchor operand) : IsReadable anchor (.negate operand span) :=
  ⟨.negate isReadable.isPrintable, by rw [withNegations, isReadable.positive]⟩

theorem isReadable_operator {left right : Expression} {operation : Operation} {span : Span}
    (known : operation ∈ Catalog.standard.operations.values ∧ isInfix operation.name = true)
    (leftReadable : IsReadable anchor left) (rightReadable : IsReadable anchor right) :
    IsReadable anchor (.call operation [left, right] span) := by
  constructor
  · exact .operator known.1 known.2 leftReadable.isPrintable rightReadable.isPrintable
  · rw [withNegations_call]
    simp [leftReadable.positive, rightReadable.positive]

theorem isReadable_call {arguments : List Expression} {operation : Operation} {span : Span}
    (known : operation ∈ Catalog.standard.operations.values ∧ isInfix operation.name = false)
    (accepted : operation.arity.accepts arguments.length = true)
    (areReadable : ∀ argument ∈ arguments, IsReadable anchor argument) :
    IsReadable anchor (.call operation arguments span) := by
  constructor
  · exact .call known.1 known.2 accepted fun argument member =>
      (areReadable argument member).isPrintable
  · have same : arguments.map withNegations = arguments := by
      rw [List.map_congr_left fun argument member => (areReadable argument member).positive,
        List.map_id']
    rw [withNegations_call, same]

theorem isInherited_isReadable (renderable : anchor.isRenderable = true) :
    IsInherited .standard (Path.resolve? anchor) (IsReadable anchor) where
  number _ read := by
    obtain ⟨finite, plain⟩ := Binary64.isFinite_of_readLiteral? read
    exact ⟨.number finite, by rw [withNegations, if_neg (by simp [plain])]⟩
  constant _ known := ⟨.constant known, rfl⟩
  reference _ _ resolves := by
    obtain ⟨targetRenderable, follow⟩ := Path.isRenderable_of_resolve? renderable resolves
    exact ⟨.reference targetRenderable follow, rfl⟩
  withSpan span inner := inner.withSpan span
  negate _ inner := withNegations_negate inner
  operator _ known leftReadable rightReadable :=
    isReadable_operator known leftReadable rightReadable
  call _ known accepted each := isReadable_call known accepted each

end Expression

end InspectionFormula
