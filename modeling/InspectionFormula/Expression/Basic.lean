import InspectionFormula.Catalog

/-!
# Expressions

The tree of a formula.  Every node bears the span of the text that it was read
from.  Operators are calls of the operations that bear their names.
-/

namespace InspectionFormula

inductive Expression where
  | number (value : Binary64) (span : Span)
  | constant (constant : Constant) (span : Span)
  /-- Text without a meaning, which no formula reads as and no evaluation accepts. -/
  | literal (text : String) (span : Span)
  | reference (reference : Reference) (span : Span)
  | negate (operand : Expression) (span : Span)
  | call (operation : Operation) (arguments : List Expression) (span : Span)

namespace Expression

def span : Expression → Span
  | number _ span | constant _ span | literal _ span | reference _ span | negate _ span
  | call _ _ span => span

/-- The same node over another span. -/
def withSpan (span : Span) : Expression → Expression
  | number value _ => number value span
  | constant found _ => constant found span
  | literal text _ => literal text span
  | reference target _ => reference target span
  | negate operand _ => negate operand span
  | call operation arguments _ => call operation arguments span

def children : Expression → List Expression
  | negate operand _ => [operand]
  | call _ arguments _ => arguments
  | _ => []

/-- What an expression is as an argument. -/
def shape : Expression → ArgumentShape
  | reference target _ => some target
  | _ => none

@[simp] theorem span_withSpan (expression : Expression) (span : Span) :
    (expression.withSpan span).span = span := by
  cases expression <;> rfl

end Expression

end InspectionFormula
