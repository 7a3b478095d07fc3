import InspectionFormula.Binary64.Arithmetic
import InspectionFormula.Operation.Basic

/-!
# Aggregations

An aggregation reduces a list of numbers to one: the values of its arguments, or
the values of all places below a group.  What has no value is left out, and
nothing reduces to no value except by counting.
-/

namespace InspectionFormula

namespace Aggregate

/-- A total, added up from the left.  It starts from the negative zero, which changes no number. -/
def total (values : List Binary64) : Binary64 := values.foldl (· + ·) (Binary64.zero true)

/-- A combination of all values from the left, if there is one. -/
def reduce (combine : Binary64 → Binary64 → Binary64) : List Binary64 → Option Binary64
  | [] => none
  | first :: rest => some (rest.foldl combine first)

def maximum : List Binary64 → Option Binary64 := reduce Binary64.max

def minimum : List Binary64 → Option Binary64 := reduce Binary64.min

def sum (values : List Binary64) : Option Binary64 :=
  if values.isEmpty then none else some (total values)

def mean (values : List Binary64) : Option Binary64 :=
  (sum values).map fun total => total / Binary64.ofNat values.length

def insertRanked (value : Binary64) : List Binary64 → List Binary64
  | [] => [value]
  | first :: rest =>
      if value.rankLE first then value :: first :: rest else first :: insertRanked value rest

def ranked (values : List Binary64) : List Binary64 := values.foldr insertRanked []

theorem perm_insertRanked (value : Binary64) (values : List Binary64) :
    (insertRanked value values).Perm (value :: values) := by
  induction values with
  | nil => exact .refl _
  | cons first rest ih =>
      unfold insertRanked
      split
      · exact .refl _
      · exact (ih.cons first).trans (.swap value first rest)

theorem perm_ranked (values : List Binary64) : (ranked values).Perm values := by
  induction values with
  | nil => exact .refl _
  | cons first rest ih => exact (perm_insertRanked first _).trans (ih.cons first)

/-- The value in the middle of the total order, or half the sum of the two in the middle. -/
def median (values : List Binary64) : Option Binary64 :=
  let sorted := ranked values
  let middle := sorted.length / 2
  if sorted.length % 2 = 1 then sorted[middle]?
  else
    match sorted.drop (middle - 1) with
    | below :: above :: _ => some ((below + above) / 2)
    | _ => none

/-- The sample standard deviation, of at least two values. -/
def deviation (values : List Binary64) : Option Binary64 :=
  if values.length < 2 then none
  else (mean values).map fun mean =>
    let squares := values.map fun value => (value - mean) * (value - mean)
    (total squares / Binary64.ofNat (values.length - 1)).sqrt

/-- The values that some arguments have, from the one at `index` on. -/
def argumentValues (index : Nat) : Nat → Computation (List Binary64)
  | 0 => return []
  | count + 1 => do
      let value ← Computation.askArgument index
      let rest ← argumentValues (index + 1) count
      return value.toList ++ rest

def placeValues : List Path → Computation (List Binary64)
  | [] => return []
  | path :: others => do
      let value ← Computation.askValue path
      let rest ← placeValues others
      return value.toList ++ rest

end Aggregate

namespace Operation

/-- An aggregation over the values of arguments, without value if none of them has one. -/
def aggregate (name : String) (reduce : List Binary64 → Option Binary64) : Operation where
  name := name
  arity := .atLeast 1
  compute arguments := do
    let values ← Aggregate.argumentValues 0 arguments.length
    return if values.isEmpty then none else reduce values

/-- An aggregation over the values of all places below the one that the argument refers to. -/
def grade (name : String) (reduce : List Binary64 → Option Binary64) : Operation where
  name := name
  arity := .exactly 1
  compute arguments :=
    match arguments.head?.bind ArgumentShape.place? with
    | none => return none
    | some group => do
        let children ← Computation.askChildren group
        let values ← Aggregate.placeValues children
        return reduce values
  reads := some fun childPaths group => childPaths group

end Operation

namespace Aggregate

def count : Operation where
  name := "count"
  arity := .any
  compute arguments := do
    let values ← argumentValues 0 arguments.length
    return some (Binary64.ofNat values.length)

def ofArguments : List Operation := [
  .aggregate "max" maximum,
  .aggregate "min" minimum,
  .aggregate "mean" mean,
  .aggregate "median" median,
  .aggregate "sum" sum,
  .aggregate "stddev" deviation,
  count]

def ofGroups : List Operation := [
  .grade "grade_max" maximum,
  .grade "grade_min" minimum,
  .grade "grade_mean" mean]

end Aggregate

end InspectionFormula
