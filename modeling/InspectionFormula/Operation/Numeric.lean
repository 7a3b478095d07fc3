import InspectionFormula.Binary64.Arithmetic
import InspectionFormula.Operation.Basic

/-!
# Functions of numbers

Functions of one and of two numbers have no value where an argument has none.
Rounding takes its digits from a second argument, and coalescing returns the
first value there is.
-/

namespace InspectionFormula

namespace Operation

def unary (name : String) (apply : Binary64 → Binary64) : Operation where
  name := name
  arity := .exactly 1
  compute _ := do
    let value ← Computation.askArgument 0
    return value.map apply

/-- A function of two numbers, undefined for some. -/
def binary (name : String) (apply : Binary64 → Binary64 → Option Binary64) : Operation where
  name := name
  arity := .exactly 2
  compute _ := do
    let left ← Computation.askArgument 0
    let right ← Computation.askArgument 1
    return left.bind fun first => right.bind fun second => apply first second

end Operation

namespace Numeric

/-- A quotient, undefined for a divisor of zero. -/
def quotient (left right : Binary64) : Option Binary64 :=
  if right.isZero then none else some (left / right)

/-- The logarithm to a base, undefined for bases up to zero and for one. -/
def logarithm (value base : Binary64) : Option Binary64 :=
  if base.lt 0 || base.isZero || base.equal 1 then none else some (value.ln / base.ln)

/-- One with the number's sign, or zero. -/
def sign (value : Binary64) : Binary64 :=
  if Binary64.lt 0 value then 1 else if value.lt 0 then -1 else 0

/-- The most digits that rounding looks at, before and after the point. -/
def mostDigits : Nat := 15

/-- The digits that a number asks rounding for: its whole part, at most `mostDigits` either way.
What is not a number asks for none. -/
def digitsAsked (digits : Binary64) : Int :=
  if digits.isNaN then 0
  else
    let size := if digits.isFinite then min digits.wholePart mostDigits else mostDigits
    if digits.negative then -(size : Int) else size

/-- Rounds to a number of digits after the point, or before it if negative. -/
def roundTo (value : Binary64) (digits : Int) : Binary64 :=
  let power := Binary64.ofNat (Nat.pow 10 digits.natAbs)
  if 0 ≤ digits then (value * power).round / power else (value / power).round * power

/-- Rounding to a number of digits, none if the second argument has no value. -/
def round : Operation where
  name := "round"
  arity := .between 1 2
  compute _ := do
    match ← Computation.askArgument 0 with
    | none => return none
    | some value =>
        let digits ← Computation.askArgument 1
        return some (roundTo value (digitsAsked (digits.getD 0)))

/-- The first value among some arguments, from the one at `index` on. -/
def firstPresent (index : Nat) : Nat → Computation (Option Binary64)
  | 0 => return none
  | count + 1 => do
      match ← Computation.askArgument index with
      | some value => return some value
      | none => firstPresent (index + 1) count

def coalesce : Operation where
  name := "ifnull"
  arity := .atLeast 1
  compute arguments := firstPresent 0 arguments.length

def binaries : List Operation := [
  .binary "+" fun left right => some (left + right),
  .binary "-" fun left right => some (left - right),
  .binary "*" fun left right => some (left * right),
  .binary "/" quotient,
  .binary "pow" fun base power => some (base.pow power),
  .binary "atan2" fun ordinate abscissa => some (ordinate.atan2 abscissa),
  .binary "log" logarithm]

def unaries : List Operation := [
  .unary "abs" Binary64.abs,
  .unary "sign" sign,
  .unary "sqr" fun value => value * value,
  .unary "sqrt" Binary64.sqrt,
  .unary "exp" Binary64.exp,
  .unary "ln" Binary64.ln,
  .unary "log10" Binary64.log10,
  .unary "floor" Binary64.floor,
  .unary "ceiling" Binary64.ceiling,
  .unary "truncate" Binary64.truncate,
  .unary "sin" Binary64.sin,
  .unary "cos" Binary64.cos,
  .unary "tan" Binary64.tan,
  .unary "asin" Binary64.asin,
  .unary "acos" Binary64.acos,
  .unary "atan" Binary64.atan]

end Numeric

end InspectionFormula
