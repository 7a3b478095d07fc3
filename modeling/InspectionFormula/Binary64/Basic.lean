/-!
# Binary floating-point numbers

A number is a sign and a magnitude, the other 63 bits of its pattern read as a
natural number.  Magnitudes are ordered like the absolute values they stand for:
infinity is the first magnitude above the finite ones, and every magnitude above
infinity is not a number.  A finite absolute value is a whole number of units of
`2 ^ (-1074)`, so exact arithmetic needs natural numbers only.

An exact quotient of units is rounded to the nearest number, a tie going to the
even neighbour.  Numbers with the same exponent are evenly spaced and an even
significand has an even magnitude, so one division to the nearest whole number,
taken on the grid of the quotient's leading bit, gives the magnitude.

Two orders are needed.  The numeric order holds both zeros equal and nothing
comparable with what is not a number.  The total order ranks every pattern:
negative before positive, the negative ones by falling magnitude.
-/

namespace InspectionFormula

structure Binary64 where
  negative : Bool
  magnitude : Nat
  magnitude_lt : magnitude < Nat.pow 2 63
deriving DecidableEq

namespace Binary64

def unitsPerOne : Nat := Nat.pow 2 1074

def infinityMagnitude : Nat := 2047 * Nat.pow 2 52

theorem infinityMagnitude_lt : infinityMagnitude < Nat.pow 2 63 := by decide

def zero (negative : Bool) : Binary64 := ⟨negative, 0, by decide⟩

def infinity (negative : Bool) : Binary64 := ⟨negative, infinityMagnitude, infinityMagnitude_lt⟩

/-- The quiet pattern that is not a number, of the given sign. -/
def nan (negative : Bool) : Binary64 := ⟨negative, infinityMagnitude + Nat.pow 2 51, by decide⟩

instance : Inhabited Binary64 := ⟨zero false⟩

def isFinite (number : Binary64) : Bool := number.magnitude < infinityMagnitude

def isNaN (number : Binary64) : Bool := infinityMagnitude < number.magnitude

def isZero (number : Binary64) : Bool := number.magnitude = 0

/-- The number with its sign flipped, also when it is not a number. -/
def neg (number : Binary64) : Binary64 := { number with negative := !number.negative }

instance : Neg Binary64 := ⟨neg⟩

def abs (number : Binary64) : Binary64 := { number with negative := false }

/-- Units in the absolute value that a finite magnitude stands for. -/
def unitsOfMagnitude (magnitude : Nat) : Nat :=
  if magnitude / Nat.pow 2 52 = 0 then magnitude
  else (Nat.pow 2 52 + magnitude % Nat.pow 2 52) * Nat.pow 2 (magnitude / Nat.pow 2 52 - 1)

/-- Units in the absolute value of a finite number. -/
def units (number : Binary64) : Nat := unitsOfMagnitude number.magnitude

def signedUnits (number : Binary64) : Int :=
  if number.negative then -(number.units : Int) else number.units

@[simp] theorem neg_neg (number : Binary64) : - -number = number := by
  cases number
  simp [Neg.neg, neg]

@[simp] theorem isFinite_neg (number : Binary64) : (-number).isFinite = number.isFinite := rfl

@[simp] theorem isNaN_neg (number : Binary64) : (-number).isNaN = number.isNaN := rfl

@[simp] theorem units_neg (number : Binary64) : (-number).units = number.units := rfl

end Binary64

/-- The whole number nearest `numerator / denominator`, a tie going to the even one. -/
def roundDiv (numerator denominator : Nat) : Nat :=
  let quotient := numerator / denominator
  let twice := 2 * (numerator % denominator)
  if twice < denominator then quotient
  else if denominator < twice then quotient + 1
  else quotient + quotient % 2

namespace Binary64

/-- Bits that the spacing of the numbers near a quotient leaves out. -/
def spacingBits (numerator denominator : Nat) : Nat := (numerator / denominator).log2 - 52

/-- The magnitude nearest `numerator / denominator` units.  From half a spacing above the last
finite number on, it is infinity. -/
def magnitudeOfRatio (numerator denominator : Nat) : Nat :=
  let bits := spacingBits numerator denominator
  min (bits * Nat.pow 2 52 + roundDiv numerator (denominator * Nat.pow 2 bits)) infinityMagnitude

theorem magnitudeOfRatio_le (numerator denominator : Nat) :
    magnitudeOfRatio numerator denominator ≤ infinityMagnitude :=
  Nat.min_le_right _ _

/-- The number of the given sign nearest `numerator / denominator` units. -/
def ofRatio (negative : Bool) (numerator denominator : Nat) : Binary64 :=
  ⟨negative, magnitudeOfRatio numerator denominator,
    Nat.lt_of_le_of_lt (magnitudeOfRatio_le _ _) infinityMagnitude_lt⟩

@[simp] theorem negative_ofRatio (negative : Bool) (numerator denominator : Nat) :
    (ofRatio negative numerator denominator).negative = negative := rfl

def ofNat (value : Nat) : Binary64 := ofRatio false (value * unitsPerOne) 1

def ofInt (value : Int) : Binary64 :=
  ofRatio (decide (value < 0)) (value.natAbs * unitsPerOne) 1

instance (value : Nat) : OfNat Binary64 value := ⟨ofNat value⟩

/-- The place of a number, infinities included, in the numeric order. -/
def place (number : Binary64) : Int :=
  if number.negative then -(number.magnitude : Int) else number.magnitude

def lt (left right : Binary64) : Bool :=
  !left.isNaN && !right.isNaN && decide (left.place < right.place)

def equal (left right : Binary64) : Bool :=
  !left.isNaN && !right.isNaN && decide (left.place = right.place)

/-- The greater of two numbers; one that is not a number yields to the other. -/
def max (left right : Binary64) : Binary64 :=
  if left.isNaN then right
  else if right.isNaN then left
  else if lt left right then right
  else left

/-- The lesser of two numbers; one that is not a number yields to the other. -/
def min (left right : Binary64) : Binary64 :=
  if left.isNaN then right
  else if right.isNaN then left
  else if lt right left then right
  else left

def rank (number : Binary64) : Int :=
  if number.negative then -(number.magnitude : Int) - 1 else number.magnitude

def rankLE (left right : Binary64) : Bool := decide (left.rank ≤ right.rank)

theorem rank_injective {left right : Binary64} (ranks : left.rank = right.rank) : left = right := by
  obtain ⟨leftSign, leftMagnitude, _⟩ := left
  obtain ⟨rightSign, rightMagnitude, _⟩ := right
  cases leftSign <;> cases rightSign <;> simp [rank] at ranks ⊢ <;> omega

end Binary64

end InspectionFormula
