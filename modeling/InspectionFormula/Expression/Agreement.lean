import InspectionFormula.Dialect

/-!
# When formulas count as equal

Expressions agree if their nodes do, over the same spans.  Numbers are compared
as numbers, so zeros of both signs agree and what is not a number agrees with
nothing, and operations are compared by name.
-/

namespace InspectionFormula

namespace Expression

mutual

/-- Whether two expressions agree, the spans of their roots aside. -/
def nodeAgrees : Expression → Expression → Bool
  | number left _, number right _ => left.equal right
  | constant left _, constant right _ => left.name == right.name && left.value.equal right.value
  | literal left _, literal right _ => left == right
  | reference left _, reference right _ => left == right
  | negate left _, negate right _ => left.span == right.span && left.nodeAgrees right
  | call left leftArguments _, call right rightArguments _ =>
      left.name == right.name && argumentsAgree leftArguments rightArguments
  | _, _ => false

def argumentsAgree : List Expression → List Expression → Bool
  | [], [] => true
  | left :: lefts, right :: rights =>
      left.span == right.span && left.nodeAgrees right && argumentsAgree lefts rights
  | _, _ => false

end

def agrees (left right : Expression) : Bool := left.span == right.span && left.nodeAgrees right

end Expression

/-- Whether two formulas of the same text and owner agree. -/
def Formula.agrees (left right : Formula) : Bool :=
  left.root.agrees right.root && left.text == right.text && left.owner == right.owner

end InspectionFormula
