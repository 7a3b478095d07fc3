import InspectionFormula.Expression.Render
import InspectionFormula.Proofs.Token.Classification
import InspectionFormula.Proofs.Path.Resolution

/-!
# The standard catalog in writing

No constant is named like a reserved character.  Every name is a word of its own
kind, but for the names of the infix operators.  A formula can be written for
finite numbers, names of the standard catalog with as many arguments as they
take, and paths that can be spelled and have the kinds that the anchor settles.
-/

namespace InspectionFormula

namespace Catalog

theorem standard_sparesReserved : standard.SparesReserved := by
  have each : Text.reservedCharacters.all (fun character =>
      standard.constants.values.all fun constant =>
        constant.name.toList != [character]) = true := by
    decide +kernel
  intro constant member character reserved
  have differs := List.all_eq_true.1 (Text.property_of_isReserved each reserved) constant member
  exact bne_iff_ne.1 differs

theorem isWord_of_operation {operation : Operation}
    (member : operation ∈ standard.operations.values)
    (plain : Expression.isInfix operation.name = false) :
    Text.IsWord operation.name.toList := by
  have each : standardOperations.all (fun operation =>
      Expression.isInfix operation.name || !Segment.needsQuotes operation.name.toList) = true := by
    decide +kernel
  have unquoted :=
    List.all_eq_true.1 each operation (mem_standardOperations_of_mem_standard member)
  rw [plain, Bool.false_or, Bool.not_eq_true'] at unquoted
  exact Segment.isWord_of_needsQuotes_eq_false unquoted

theorem isWord_of_constant {constant : Constant} (member : constant ∈ standard.constants.values) :
    Text.IsWord constant.name.toList := by
  have each : standard.constants.values.all
      (fun constant => !Segment.needsQuotes constant.name.toList) = true := by
    decide +kernel
  have unquoted := List.all_eq_true.1 each constant member
  rw [Bool.not_eq_true'] at unquoted
  exact Segment.isWord_of_needsQuotes_eq_false unquoted

theorem classify_operation {operation : Operation}
    (member : operation ∈ standard.operations.values) :
    TokenKind.classify standard operation.name.toList = .operation operation := by
  have each : standardOperations.all (fun operation =>
      (Binary64.readLiteral? operation.name.toList).isNone) = true := by
    decide +kernel
  have unread := Option.isNone_iff_eq_none.1
    (List.all_eq_true.1 each operation (mem_standardOperations_of_mem_standard member))
  have found : standard.operation? operation.name = some operation :=
    operation?_eq_some_iff.2 ⟨member, rfl⟩
  unfold TokenKind.classify
  rw [unread, String.ofList_toList, found]

theorem classify_constant {constant : Constant} (member : constant ∈ standard.constants.values) :
    TokenKind.classify standard constant.name.toList = .constant constant := by
  have each : standard.constants.values.all (fun constant =>
      (Binary64.readLiteral? constant.name.toList).isNone &&
        (standard.operation? constant.name).isNone) = true := by
    decide +kernel
  have unread := List.all_eq_true.1 each constant member
  rw [Bool.and_eq_true, Option.isNone_iff_eq_none, Option.isNone_iff_eq_none] at unread
  have found : standard.constant? constant.name = some constant :=
    constant?_eq_some_iff.2 ⟨member, rfl⟩
  unfold TokenKind.classify
  rw [unread.1, String.ofList_toList, unread.2, found]

end Catalog

namespace Expression

inductive IsPrintable (anchor : Path) : Expression → Prop where
  | number {value : Binary64} {span : Span} (finite : value.isFinite = true) :
      IsPrintable anchor (.number value span)
  | constant {constant : Constant} {span : Span}
      (known : constant ∈ Catalog.standard.constants.values) :
      IsPrintable anchor (.constant constant span)
  | reference {path : Path} {key : Option UInt16} {span : Span}
      (renderable : path.isRenderable = true)
      (follow : Segment.FollowKinds anchor.segments path.segments) :
      IsPrintable anchor (.reference ⟨path, key⟩ span)
  | negate {operand : Expression} {span : Span} (isPrintable : IsPrintable anchor operand) :
      IsPrintable anchor (.negate operand span)
  | operator {operation : Operation} {left right : Expression} {span : Span}
      (known : operation ∈ Catalog.standard.operations.values)
      (between : isInfix operation.name = true) (leftPrintable : IsPrintable anchor left)
      (rightPrintable : IsPrintable anchor right) :
      IsPrintable anchor (.call operation [left, right] span)
  | call {operation : Operation} {arguments : List Expression} {span : Span}
      (known : operation ∈ Catalog.standard.operations.values)
      (before : isInfix operation.name = false)
      (accepted : operation.arity.accepts arguments.length = true)
      (arePrintable : ∀ argument ∈ arguments, IsPrintable anchor argument) :
      IsPrintable anchor (.call operation arguments span)

end Expression

end InspectionFormula
