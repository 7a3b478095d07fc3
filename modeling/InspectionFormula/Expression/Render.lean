import InspectionFormula.Expression.Basic
import InspectionFormula.Decimal

/-!
# Expressions as text

An expression is written with absolute paths, every operator in parentheses, and
parentheses between a sign and what starts with a sign.
-/

namespace InspectionFormula

namespace Reference

def spell (reference : Reference) : List Char :=
  let key := match reference.key with
    | some key => '(' :: Nat.toDigits 10 key.toNat ++ [')']
    | none => []
  '{' :: reference.path.spell ++ key ++ ['}']

end Reference

namespace Expression

/-- Whether the text of an expression starts with a minus sign. -/
def startsWithSign : Expression → Bool
  | negate _ _ => true
  | number value _ => value.negative
  | _ => false

/-- Whether a name is written between its two arguments. -/
def isInfix (name : String) : Bool := name == "+" || name == "-" || name == "*" || name == "/"

mutual

def spell : Expression → List Char
  | number value _ => value.text.toList
  | constant found _ => found.name.toList
  | literal text _ => text.toList
  | reference target _ => target.spell
  | negate operand _ =>
      if operand.startsWithSign then '-' :: '(' :: operand.spell ++ [')'] else '-' :: operand.spell
  | call operation arguments _ =>
      match isInfix operation.name, spellEach arguments with
      | true, [left, right] => '(' :: left ++ ' ' :: operation.name.toList ++ ' ' :: right ++ [')']
      | _, texts =>
          operation.name.toList ++ '(' :: (List.intersperse [';', ' '] texts).flatten ++ [')']

def spellEach : List Expression → List (List Char)
  | [] => []
  | first :: rest => first.spell :: spellEach rest

end

def text (expression : Expression) : String := String.ofList expression.spell

end Expression

end InspectionFormula
