import InspectionFormula.Path.Basic

/-!
# Errors

A formula is malformed, or a value cannot be computed.  What is wrong with a
formula names its cause, arguments that are too many or too few among them, and
the offset of the token at fault.  The wording of all messages is in this
module.
-/

namespace InspectionFormula

inductive Arity where
  | exactly (count : Nat)
  | between (least most : Nat)
  | atLeast (least : Nat)
  | any
deriving DecidableEq

namespace Arity

def accepts (arity : Arity) (count : Nat) : Bool :=
  match arity with
  | exactly wanted => count == wanted
  | between least most => least ≤ count && count ≤ most
  | atLeast least => least ≤ count
  | any => true

def text : Arity → String
  | exactly count => toString count
  | between least most => toString least ++ " to " ++ toString most
  | atLeast least => "at least " ++ toString least
  | any => "any number of"

end Arity

inductive Expected where
  | value
  | symbol (character : Char)
  | endOfFormula
  | pathSegment
  | attributeKey
deriving DecidableEq

/-- Why a formula is malformed.  A missing item was met by the text of another token, or by the end
of the formula. -/
inductive SyntaxCause where
  | missing (expected : Expected) (found : Option String)
  | unavailableOperator (operator : String)
  | unknownFunction (name : String)
  | unexpectedIdentifier (name : String)
  | wrongCount (name : String) (arity : Arity) (count : Nat)
  | unterminatedQuote
  | invalidAttributeKey (text : String)
  | unresolvedPath (raw : String)
deriving DecidableEq

structure SyntaxError where
  cause : SyntaxCause
  position : Nat
deriving DecidableEq

def quoteText (text : String) : String := "'" ++ text ++ "'"

namespace SyntaxCause

/-- What a missing item's message starts with. -/
def expectation : Expected → Option String → String
  | .value, none => "Unexpected end of expression"
  | .value, some _ => "Expected a value"
  | .symbol character, _ => "Expected " ++ quoteText (String.singleton character)
  | .endOfFormula, _ => "Unexpected token after expression"
  | .pathSegment, _ => "Expected path segment"
  | .attributeKey, _ => "Expected attribute key"

def text : SyntaxCause → String
  | missing expected found =>
      expectation expected found ++ ", found " ++ (found.map quoteText).getD "end of formula"
  | unavailableOperator operator => "Operator " ++ quoteText operator ++ " is not available"
  | unknownFunction name => "Unknown function " ++ quoteText name
  | unexpectedIdentifier name => "Unexpected identifier " ++ quoteText name
  | wrongCount name arity count =>
      "Function " ++ quoteText name ++ " expects " ++ arity.text ++ " argument(s), got " ++
        toString count
  | unterminatedQuote => "Unterminated quoted path segment"
  | invalidAttributeKey key => "Invalid attribute key " ++ quoteText key
  | unresolvedPath raw => "Cannot resolve path " ++ quoteText raw

end SyntaxCause

def SyntaxError.message (error : SyntaxError) : String :=
  "Syntax error at position " ++ toString error.position ++ ": " ++ error.cause.text

/-- A chain of references that comes back to one of its paths. -/
structure CircularReference where
  /-- The path whose references were followed. -/
  origin : Path
  /-- The paths on the way, ending with the repeated one. -/
  cycle : List Path
deriving DecidableEq

inductive EvaluationError where
  | malformed (error : SyntaxError)
  | circular (reference : CircularReference)
  | unresolvedLiteral (text : String)
deriving DecidableEq

def CircularReference.message (reference : CircularReference) : String :=
  "Circular reference detected for " ++ quoteText reference.origin.text ++ ": " ++
    String.intercalate " -> " (reference.cycle.map Path.text)

def EvaluationError.message : EvaluationError → String
  | malformed error => error.message
  | circular reference => reference.message
  | unresolvedLiteral text => "Cannot evaluate literal " ++ quoteText text

end InspectionFormula
