import InspectionFormula.Expression.Basic
import InspectionFormula.Token

/-!
# The state between two tokens

What has been read of a formula is the open brackets with their levels, the
level at the reading place, and a phase: what the next token may be.  Every pair
of brackets around the reading place is a level of its own, with at most one
sum, one product and one sign that wait for their right operands.  Operators of
a kind associate to the left, so a new one first joins what waits.
-/

namespace InspectionFormula

/-- What reading a formula comes to: a result, or the fault that makes it malformed. -/
abbrev Reading (Result : Type) := Except SyntaxError Result

structure PendingOperator where
  left : Expression
  operator : Token

/-- The operators of a bracket level that wait for an operand. -/
structure Level where
  sum : Option PendingOperator
  product : Option PendingOperator
  sign : Option Span

namespace PendingOperator

/-- The call of an operator, if the catalog has an operation for it. -/
def join (pending : PendingOperator) (right : Expression) : Reading Expression :=
  match pending.operator.kind with
  | .operation operation =>
      .ok (.call operation [pending.left, right] (pending.left.span.through right.span))
  | _ => .error ⟨.unavailableOperator pending.operator.name, pending.operator.start⟩

/-- An operand joined to what waits for it, if anything does. -/
def joinTo (pending : Option PendingOperator) (operand : Expression) : Reading Expression :=
  match pending with
  | none => .ok operand
  | some pending => pending.join operand

end PendingOperator

namespace Level

def opened : Level := ⟨none, none, none⟩

def applySign (level : Level) (operand : Expression) : Expression :=
  match level.sign with
  | none => operand
  | some sign => .negate operand (sign.through operand.span)

/-- The product so far, with an operand that has just been read. -/
def joinProduct (level : Level) (operand : Expression) : Reading Expression :=
  PendingOperator.joinTo level.product (level.applySign operand)

/-- The sum so far, with a term that has just ended. -/
def joinSum (level : Level) (term : Expression) : Reading Expression :=
  PendingOperator.joinTo level.sum term

end Level

inductive Opener where
  | group (opening : Span)
  | call (operation : Operation) (name : Token) (arguments : List Expression)

structure Context where
  level : Level
  opener : Opener

/-- The start of a reference: its brace and the place where its path begins. -/
structure ReferenceStart where
  opening : Span
  pathStart : Nat

inductive Phase where
  /-- Nothing of a factor. -/
  | factor
  | signed
  /-- A term, which a product may go on. -/
  | term (value : Expression)
  /-- The name of an operation to be called. -/
  | callName (operation : Operation) (name : Token)
  /-- The opening bracket of a call. -/
  | callStart (operation : Operation) (name : Token)
  /-- An identifier in place of a value. -/
  | unknownName (name : Token)
  | referenceStart (opening : Span)
  /-- The slash at the start of a path that ends at `pathStop`. -/
  | afterRoot (start : ReferenceStart) (pathStop : Nat)
  /-- A slash after a step. -/
  | afterSlash (start : ReferenceStart)
  /-- An opening quote, at `quote`, and any tokens after it. -/
  | insideQuotes (start : ReferenceStart) (quote : Nat)
  /-- A step of a path, which ends at `pathStop`. -/
  | afterStep (start : ReferenceStart) (pathStop : Nat)
  | keyStart (start : ReferenceStart) (pathStop : Nat)
  | afterKey (start : ReferenceStart) (pathStop : Nat) (key : UInt16)
  | keyClosed (start : ReferenceStart) (pathStop : Nat) (key : UInt16)

structure ParseState where
  outer : List Context
  level : Level
  phase : Phase

namespace ParseState

def initial : ParseState := ⟨[], .opened, .factor⟩

/-- The state after an operand: it joins the sign and the product that wait for it. -/
def supply (outer : List Context) (level : Level) (operand : Expression) : Reading ParseState := do
  let term ← level.joinProduct operand
  return ⟨outer, { level with product := none, sign := none }, .term term⟩

def supplyCall (outer : List Context) (level : Level) (operation : Operation) (name : Token)
    (arguments : List Expression) (closing : Token) : Reading ParseState :=
  if operation.arity.accepts arguments.length then
    supply outer level (.call operation arguments (name.span.through closing.span))
  else
    .error ⟨.wrongCount operation.name operation.arity arguments.length, name.start⟩

end ParseState

end InspectionFormula
