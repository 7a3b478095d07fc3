import InspectionFormula.Dependencies.Traversal

/-!
# Evaluating formulas against a plan

An expression is evaluated with the values of references given from outside.  A
call's result that is not finite is no value, and text without a meaning is an
error.

A reference to a calculated place evaluates its formula in turn, once the
formula is known to reach no cycle.  What is wrong with it is seen only as the
lack of a value.  Formulas that reach no cycle never meet a formula that is
being evaluated, so they nest at most as deep as there are formulas.
-/

namespace InspectionFormula

structure Surroundings where
  valueOf : Reference → Option Binary64
  childPaths : Path → List Path

namespace Expression

mutual

def evaluate (surroundings : Surroundings) : Expression → Outcome
  | number value _ => .ok (some value)
  | constant found _ => .ok (some found.value)
  | literal text _ => .error (.unresolvedLiteral text)
  | reference target _ => .ok (surroundings.valueOf target)
  | negate operand _ => (operand.evaluate surroundings).map (Option.map Binary64.neg)
  | call operation arguments _ =>
      ((operation.compute (arguments.map shape)).run
        { argument := evaluateAt surroundings arguments
          valueOf := fun path => surroundings.valueOf ⟨path, none⟩
          childPaths := surroundings.childPaths }).map (Option.filter Binary64.isFinite)

/-- The value of the expression at some place of a list.  Beyond its end there is none. -/
def evaluateAt (surroundings : Surroundings) : List Expression → Nat → Outcome
  | [], _ => .ok none
  | first :: _, 0 => first.evaluate surroundings
  | _ :: rest, index + 1 => evaluateAt surroundings rest index

end

end Expression

/-- A plan with its measurements, whose formulas are read in a dialect and whose attributes are read
as of a time. -/
structure Inspection where
  dialect : Dialect
  plan : Plan
  measurements : Measurements
  time : Option Timestamp

namespace Inspection

/-- The value of an outcome, none if it is an error. -/
def valueOrNone : Outcome → Option Binary64
  | .ok value => value
  | .error _ => none

/-- A formula of the plan, if it is well-formed and reaches no cycle. -/
def readNested (inspection : Inspection) (path : Path) (text : String) :
    Except EvaluationError Formula := do
  let formula ← (inspection.dialect.read text path).mapError .malformed
  inspection.dialect.checkAcyclic inspection.plan formula
  return formula

/-- What a reference comes to, when formulas may nest to some depth. -/
def resolveWithin (inspection : Inspection) (depth : Nat) (reference : Reference) : Outcome :=
  match reference.key with
  | some key =>
      .ok ((inspection.measurements.attribute? reference.path key inspection.time).bind
        Attribute.number?)
  | none =>
      match inspection.plan.formula? reference.path with
      | none => .ok (inspection.measurements.value? reference.path)
      | some text =>
          match depth with
          | 0 => .ok none
          | depth + 1 => do
              let nested ← inspection.readNested reference.path text
              nested.root.evaluate
                { valueOf := fun inner => valueOrNone (inspection.resolveWithin depth inner)
                  childPaths := inspection.plan.childPaths }

def resolve (inspection : Inspection) (reference : Reference) : Outcome :=
  inspection.resolveWithin inspection.plan.formulaPaths.length reference

def valueOf (inspection : Inspection) (reference : Reference) : Option Binary64 :=
  valueOrNone (inspection.resolve reference)

def surroundings (inspection : Inspection) : Surroundings where
  valueOf := inspection.valueOf
  childPaths := inspection.plan.childPaths

def evaluateTree (inspection : Inspection) (expression : Expression) : Outcome :=
  expression.evaluate inspection.surroundings

/-- The value of a formula, which must not reach its own owner. -/
def evaluate (inspection : Inspection) (formula : Formula) : Outcome := do
  inspection.dialect.checkSelfReference inspection.plan formula
  inspection.evaluateTree formula.root

/-- The value of a formula, none if it cannot be computed. -/
def result (inspection : Inspection) (formula : Formula) : Option Binary64 :=
  valueOrNone (inspection.evaluate formula)

/-- The value of a place: of its formula if it has one, and as measured otherwise. -/
def evaluateAt (inspection : Inspection) (path : Path) : Outcome :=
  match inspection.plan.formula? path with
  | none => .ok (inspection.measurements.value? path)
  | some text => do
      let formula ← (inspection.dialect.read text path).mapError .malformed
      inspection.evaluate formula

end Inspection

end InspectionFormula
