import InspectionFormula.Binary64.Basic

/-!
# Arithmetic

Every operation on finite numbers is its exact result rounded once.  An exact
sum of zero is positive unless both terms are negative zeros.  Rounding to a
whole number goes in four directions, and leaves what is not finite and the sign
of a zero result as they are.  Exponentials, logarithms, powers and the
trigonometric functions are those of the machine.
-/

namespace InspectionFormula

/-- The whole part of a square root, from as many binary digits as `bits`. -/
def squareRoot : Nat → Nat → Nat
  | 0, _ => 0
  | bits + 1, value =>
      let root := 2 * squareRoot bits (value / 4)
      if (root + 1) * (root + 1) ≤ value then root + 1 else root

namespace Binary64

def addFinite (left right : Binary64) : Binary64 :=
  let total := left.signedUnits + right.signedUnits
  if total = 0 then zero (left.negative && right.negative)
  else ofRatio (decide (total < 0)) total.natAbs 1

/-- The rounded sum.  It is not a number if a term is none or if infinities of both signs are added,
and is fixed there as the one positive quiet pattern, while the language leaves its sign and payload
open. -/
def add (left right : Binary64) : Binary64 :=
  if left.isNaN || right.isNaN then nan false
  else if left.isFinite then
    if right.isFinite then addFinite left right else right
  else if right.isFinite || left.negative == right.negative then left
  else nan false

def sub (left right : Binary64) : Binary64 := add left (-right)

/-- The rounded product.  It is not a number if a factor is none or if zero meets infinity, and is
fixed there as the one positive quiet pattern, while the language leaves its sign and payload
open. -/
def mul (left right : Binary64) : Binary64 :=
  let negative := left.negative != right.negative
  if left.isNaN || right.isNaN then nan false
  else if left.isFinite && right.isFinite then
    ofRatio negative (left.units * right.units) unitsPerOne
  else if left.isZero || right.isZero then nan false
  else infinity negative

/-- The rounded quotient.  It is not a number if an operand is none, for zero by zero and for
infinity by infinity, and is fixed there as the one positive quiet pattern, while the language
leaves its sign and payload open. -/
def div (left right : Binary64) : Binary64 :=
  let negative := left.negative != right.negative
  if left.isNaN || right.isNaN then nan false
  else if left.isFinite then
    if right.isFinite then
      if !right.isZero then ofRatio negative (left.units * unitsPerOne) right.units
      else if left.isZero then nan false
      else infinity negative
    else zero negative
  else if right.isFinite then infinity negative
  else nan false

instance : Add Binary64 := ⟨add⟩
instance : Sub Binary64 := ⟨sub⟩
instance : Mul Binary64 := ⟨mul⟩
instance : Div Binary64 := ⟨div⟩

/-- Square root.  The whole root is far longer than a significand, so half a unit added to an
inexact one leaves it on its side of every tie.  What is not a number is fixed as it is for sums. -/
def sqrt (number : Binary64) : Binary64 :=
  if number.isNaN then nan false
  else if number.isZero then number
  else if number.negative then nan false
  else if number.isFinite then
    let square := number.units * unitsPerOne
    let root := squareRoot (square.log2 / 2 + 1) square
    ofRatio false (2 * root + if root * root = square then 0 else 1) 2
  else number

/-- The whole part of the absolute value of a finite number. -/
def wholePart (number : Binary64) : Nat := number.units / unitsPerOne

/-- The least whole number not below the absolute value of a finite number. -/
def wholeCover (number : Binary64) : Nat := (number.units + (unitsPerOne - 1)) / unitsPerOne

/-- The whole number nearest the absolute value of a finite number, a half going up. -/
def wholeNearest (number : Binary64) : Nat := (2 * number.units + unitsPerOne) / (2 * unitsPerOne)

/-- The number with a whole absolute value in place of its own, if it is finite. -/
def withWhole (number : Binary64) (whole : Nat) : Binary64 :=
  if number.isFinite then ofRatio number.negative (whole * unitsPerOne) 1 else number

def truncate (number : Binary64) : Binary64 := number.withWhole number.wholePart

def floor (number : Binary64) : Binary64 :=
  number.withWhole (if number.negative then number.wholeCover else number.wholePart)

def ceiling (number : Binary64) : Binary64 :=
  number.withWhole (if number.negative then number.wholePart else number.wholeCover)

/-- To the nearest, a half going away from zero. -/
def round (number : Binary64) : Binary64 := number.withWhole number.wholeNearest

/-- The machine number with the same pattern. -/
def toFloat (number : Binary64) : Float :=
  Float.ofBits (UInt64.ofNat (number.magnitude + if number.negative then Nat.pow 2 63 else 0))

def ofFloat (value : Float) : Binary64 :=
  ⟨decide (Nat.pow 2 63 ≤ value.toBits.toNat), value.toBits.toNat % Nat.pow 2 63,
    Nat.mod_lt _ (by decide)⟩

def elementary (function : Float → Float) (number : Binary64) : Binary64 :=
  ofFloat (function number.toFloat)

def elementary₂ (function : Float → Float → Float) (left right : Binary64) : Binary64 :=
  ofFloat (function left.toFloat right.toFloat)

def exp : Binary64 → Binary64 := elementary Float.exp
def ln : Binary64 → Binary64 := elementary Float.log
def log10 : Binary64 → Binary64 := elementary Float.log10
def sin : Binary64 → Binary64 := elementary Float.sin
def cos : Binary64 → Binary64 := elementary Float.cos
def tan : Binary64 → Binary64 := elementary Float.tan
def asin : Binary64 → Binary64 := elementary Float.asin
def acos : Binary64 → Binary64 := elementary Float.acos
def atan : Binary64 → Binary64 := elementary Float.atan
def atan2 : Binary64 → Binary64 → Binary64 := elementary₂ Float.atan2
def pow : Binary64 → Binary64 → Binary64 := elementary₂ Float.pow

end Binary64

end InspectionFormula
