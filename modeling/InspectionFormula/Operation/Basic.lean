import InspectionFormula.Binary64.Basic
import InspectionFormula.Errors

/-!
# Operations

An operation is a named function of formulas.  It computes its result step by
step, asking for the values of its arguments, for the values of other places in
the plan and for the places below one.  Such a computation is a tree of
questions, so what it reads can be told without answering it.  Running it
answers each question as it comes.

An operation is given the shape of its arguments and computes from there.  Most
operations depend on what their arguments refer to; one whose arguments stand
for groups of places says itself which places a reference makes it read.
-/

namespace InspectionFormula

/-- The outcome of an evaluation: a number, no value, or an error. -/
abbrev Outcome := Except EvaluationError (Option Binary64)

/-- A computation that may question its arguments and the plan. -/
inductive Computation (Result : Type) where
  | done (result : Result)
  | fail (error : EvaluationError)
  | argument (index : Nat) (next : Option Binary64 → Computation Result)
  | valueOf (path : Path) (next : Option Binary64 → Computation Result)
  | childPaths (path : Path) (next : List Path → Computation Result)

/-- The answers to a computation's questions.  An argument may have none but an error. -/
structure Answers where
  argument : Nat → Outcome
  valueOf : Path → Option Binary64
  childPaths : Path → List Path

namespace Computation

variable {First Result : Type}

def andThen (following : First → Computation Result) : Computation First → Computation Result
  | done result => following result
  | fail error => fail error
  | argument index next => argument index fun value => andThen following (next value)
  | valueOf path next => valueOf path fun value => andThen following (next value)
  | childPaths path next => childPaths path fun children => andThen following (next children)

instance : Monad Computation where
  pure := done
  bind computation following := computation.andThen following

def askArgument (index : Nat) : Computation (Option Binary64) := argument index done

def askValue (path : Path) : Computation (Option Binary64) := valueOf path done

def askChildren (path : Path) : Computation (List Path) := childPaths path done

/-- The result of a computation whose questions have the given answers. -/
def run (answers : Answers) : Computation Result → Except EvaluationError Result
  | done result => .ok result
  | fail error => .error error
  | argument index next =>
      match answers.argument index with
      | .ok value => (next value).run answers
      | .error error => .error error
  | valueOf path next => (next (answers.valueOf path)).run answers
  | childPaths path next => (next (answers.childPaths path)).run answers

@[simp] theorem run_pure (answers : Answers) (result : Result) :
    (pure result : Computation Result).run answers = .ok result := rfl

@[simp] theorem run_bind (answers : Answers) (computation : Computation First)
    (following : First → Computation Result) :
    (computation >>= following).run answers =
      (computation.run answers).bind fun result => (following result).run answers := by
  change (computation.andThen following).run answers = _
  induction computation with
  | done => rfl
  | fail => rfl
  | argument index next ih =>
      simp only [andThen, run]
      cases answers.argument index with
      | ok value => exact ih value
      | error => rfl
  | valueOf path next ih => exact ih _
  | childPaths path next ih => exact ih _

@[simp] theorem run_askArgument (answers : Answers) (index : Nat) :
    (askArgument index).run answers = answers.argument index := by
  simp only [askArgument, run]
  cases answers.argument index <;> rfl

@[simp] theorem run_askValue (answers : Answers) (path : Path) :
    (askValue path).run answers = .ok (answers.valueOf path) := rfl

@[simp] theorem run_askChildren (answers : Answers) (path : Path) :
    (askChildren path).run answers = .ok (answers.childPaths path) := rfl

end Computation

/-- What a formula refers to: the value at a place, or with a key one of its attributes. -/
structure Reference where
  path : Path
  key : Option UInt16
deriving DecidableEq

/-- The place whose value a reference is to. -/
def Reference.place? (reference : Reference) : Option Path :=
  if reference.key.isNone then some reference.path else none

/-- The shape of an argument: what it refers to, if it is a reference. -/
abbrev ArgumentShape := Option Reference

/-- The place whose value an argument is. -/
def ArgumentShape.place? (shape : ArgumentShape) : Option Path := shape.bind Reference.place?

structure Operation where
  name : String
  arity : Arity
  compute : List ArgumentShape → Computation (Option Binary64)
  /-- The places read for an argument that is the value at a place, where these are not what the
  arguments themselves refer to.  The first parameter gives the places below one. -/
  reads : Option ((Path → List Path) → Path → List Path) := none

end InspectionFormula
