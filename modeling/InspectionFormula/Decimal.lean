import InspectionFormula.Binary64.Arithmetic

/-!
# Decimal numbers

A decimal number is digits with an optional point, at least one digit in all,
and an optional exponent.  It stands for the nearest floating-point number.  It
can also be read step by step: its leading digits as a whole number of 64 bits,
which is then multiplied or divided by a power of ten.  Every step is rounded,
so the outcome is the nearest number as long as the digits and the power are
exact, and may be a neighbour of it beyond.

A finite number is written with as few digits as read back as the same number;
of these the nearest, and of two equally near the greater.  A number is a whole
multiple of `10 ^ (-1074)`, so its first digits are a quotient of that multiple,
and on each grid only it and its successor need a test.  Numbers are written
without an exponent, whatever their size: all digits before the point, and after
it no trailing zero.  A whole number has no point.
-/

namespace InspectionFormula

/-- The number `significand * 10 ^ exponent`. -/
structure Decimal where
  significand : Nat
  exponent : Int
deriving DecidableEq

namespace Decimal

/-- An exponent's digits.  From five digits of value on, the exponent is beyond every number's range
and the digits that follow no longer count. -/
def exponentOfDigits (digits : List Char) : Nat :=
  digits.foldl (fun total digit =>
    if total < Nat.pow 2 16 then 10 * total + (digit.toNat - '0'.toNat) else total) 0

/-- The exponent that follows a number's digits: nothing, or `e`, an optional sign and digits. -/
def readExponent? : List Char → Option Int
  | [] => some 0
  | mark :: rest =>
      let (negative, digits) := match rest with
        | '-' :: digits => (true, digits)
        | '+' :: digits => (false, digits)
        | digits => (false, digits)
      if (mark == 'e' || mark == 'E') && !digits.isEmpty && digits.all Char.isDigit then
        let size := (exponentOfDigits digits : Int)
        some (if negative then -size else size)
      else none

/-- The decimal number that a text is, if it is one. -/
def read? (text : List Char) : Option Decimal :=
  let whole := text.takeWhile Char.isDigit
  let (fraction, rest) := match text.dropWhile Char.isDigit with
    | '.' :: tail => (tail.takeWhile Char.isDigit, tail.dropWhile Char.isDigit)
    | tail => ([], tail)
  if whole.isEmpty && fraction.isEmpty then none
  else (readExponent? rest).map fun exponent =>
    ⟨Nat.ofDigitChars 10 (whole ++ fraction) 0, exponent - fraction.length⟩

end Decimal

namespace Binary64

def ofDecimal (decimal : Decimal) : Binary64 :=
  if 0 ≤ decimal.exponent then
    ofRatio false (decimal.significand * Nat.pow 10 decimal.exponent.toNat * unitsPerOne) 1
  else
    ofRatio false (decimal.significand * unitsPerOne) (Nat.pow 10 (-decimal.exponent).toNat)

/-- The number that a text without a sign is.  Infinity and the lack of a number are words, in
letters of either case. -/
def readUnsigned? (text : List Char) : Option Binary64 :=
  match String.ofList (text.map Char.toLower) with
  | "inf" | "infinity" => some (infinity false)
  | "nan" => some (nan false)
  | _ => (Decimal.read? text).map ofDecimal

/-- The number that a text with an optional sign is. -/
def read? (text : String) : Option Binary64 :=
  match text.toList with
  | '-' :: rest => (readUnsigned? rest).map neg
  | '+' :: rest => readUnsigned? rest
  | rest => readUnsigned? rest

/-- The number that a formula's literal text is: a decimal number without a sign, within range. -/
def readLiteral? (text : List Char) : Option Binary64 :=
  ((Decimal.read? text).map ofDecimal).filter isFinite

end Binary64

namespace Decimal

/-- The decimal without the last digits that 64 bits cannot hold. -/
def leading (decimal : Decimal) : Decimal :=
  if decimal.significand < Nat.pow 2 64 then decimal
  else leading ⟨decimal.significand / 10, decimal.exponent + 1⟩
termination_by decimal.significand
decreasing_by simp only [Nat.pow_eq] at *; omega

end Decimal

namespace Binary64

/-- A number over a power of ten, divided by as much at a time as is in range. -/
def scaleDown (number : Binary64) (exponent : Nat) : Binary64 :=
  if exponent ≤ 308 then number / ofNat (Nat.pow 10 exponent)
  else scaleDown (number / ofNat (Nat.pow 10 308)) (exponent - 308)
termination_by exponent

/-- The number that scaling a decimal number gives. -/
def ofScaledDecimal (decimal : Decimal) : Binary64 :=
  let leading := decimal.leading
  let number := ofNat leading.significand
  if number.isZero then number
  else if 0 ≤ leading.exponent then number * ofNat (Nat.pow 10 leading.exponent.toNat)
  else number.scaleDown (-leading.exponent).toNat

/-- The number that a text is, which may start with a minus sign, if it is within range. -/
def readScaled? (text : String) : Option Binary64 :=
  match text.toList with
  | '-' :: rest =>
      ((Decimal.read? rest).map fun decimal => -ofScaledDecimal decimal).filter isFinite
  | rest => ((Decimal.read? rest).map ofScaledDecimal).filter isFinite

end Binary64

/-- How many decimal digits a number has, counted in blocks of 64. -/
def digitCount (value : Nat) : Nat :=
  let blocks := (Nat.toDigits (Nat.pow 10 64) value).length - 1
  64 * blocks + (Nat.toDigits 10 (value / Nat.pow 10 (64 * blocks))).length

namespace Binary64

/-- The exact absolute value of a finite number, in multiples of `10 ^ (-1074)`. -/
def exactMultiple (number : Binary64) : Nat := number.units * Nat.pow 5 1074

/-- The two neighbours of a multiple of `10 ^ (-1074)` on the grid that leaves out its last
`dropped` digits, the nearer first. -/
def gridNeighbours (multiple dropped : Nat) : List Decimal :=
  let below := multiple / Nat.pow 10 dropped
  let lower : Decimal := ⟨below, dropped - 1074⟩
  let upper : Decimal := ⟨below + 1, dropped - 1074⟩
  if 2 * (multiple % Nat.pow 10 dropped) < Nat.pow 10 dropped then [lower, upper]
  else [upper, lower]

/-- Whether a decimal reads back as the absolute value of the number. -/
def readsBack (number : Binary64) (decimal : Decimal) : Bool :=
  (ofDecimal decimal).magnitude == number.magnitude

/-- The nearest decimal with some count of digits that reads back, if there is one. -/
def shortenTo? (number : Binary64) (digits : Nat) : Option Decimal :=
  let multiple := number.exactMultiple
  (gridNeighbours multiple (digitCount multiple - digits)).find? number.readsBack

/-- The fewest and nearest digits that read back as the absolute value of a finite number.
Seventeen always suffice. -/
def shortest (number : Binary64) : Decimal :=
  ((List.range 17).findSome? fun digits => number.shortenTo? (digits + 1)).getD
    ⟨number.exactMultiple, -1074⟩

theorem readsBack_of_shortenTo? {number : Binary64} {digits : Nat} {decimal : Decimal}
    (found : number.shortenTo? digits = some decimal) : number.readsBack decimal := by
  simpa using List.find?_some found

theorem readsBack_shortest_or_exact (number : Binary64) :
    number.readsBack number.shortest ∨ number.shortest = ⟨number.exactMultiple, -1074⟩ := by
  unfold shortest
  cases found : (List.range 17).findSome? fun digits => number.shortenTo? (digits + 1) with
  | none => exact .inr rfl
  | some decimal =>
      obtain ⟨digits, _, here⟩ := List.exists_of_findSome?_eq_some found
      exact .inl (readsBack_of_shortenTo? here)

end Binary64

namespace Decimal

/-- The last `width` decimal digits of a number, leading zeros included. -/
def lastDigits : Nat → Nat → List Char
  | 0, _ => []
  | width + 1, value => lastDigits width (value / 10) ++ [Nat.digitChar (value % 10)]

@[simp] theorem length_lastDigits (width value : Nat) :
    (lastDigits width value).length = width := by
  induction width generalizing value with
  | zero => rfl
  | succ width ih => simp [lastDigits, ih]

def dropTrailingZeros (digits : List Char) : List Char :=
  (digits.reverse.dropWhile (· == '0')).reverse

/-- The digits of a decimal in positional notation. -/
def positional (decimal : Decimal) : List Char :=
  if 0 ≤ decimal.exponent then
    Nat.toDigits 10 (decimal.significand * Nat.pow 10 decimal.exponent.toNat)
  else
    let places := (-decimal.exponent).toNat
    let whole := Nat.toDigits 10 (decimal.significand / Nat.pow 10 places)
    match dropTrailingZeros (lastDigits places decimal.significand) with
    | [] => whole
    | fraction => whole ++ '.' :: fraction

end Decimal

namespace Binary64

def absoluteText (number : Binary64) : List Char :=
  if number.isFinite then number.shortest.positional else ['i', 'n', 'f']

def text (number : Binary64) : String :=
  if number.isNaN then "NaN"
  else if number.negative then String.ofList ('-' :: number.absoluteText)
  else String.ofList number.absoluteText

end Binary64

end InspectionFormula
