import InspectionFormula.Text.Basic

/-!
# Paths of an inspection plan

A path leads from the root of a plan to one of its parts or characteristics, by
kind and name at each step.  Paths are ordered step by step, parts before
characteristics and then by name, and a path comes before those that go on below
it.

The text of a reference names steps between slashes.  It starts at the root if a
slash comes first and at the anchor otherwise, `..` climbs, and quotes keep a name
as it is.  All steps lead to characteristics, except that the steps shared by name
with the anchor are the anchor's own.
-/

namespace InspectionFormula

inductive EntityKind where
  | part
  | characteristic
deriving DecidableEq

namespace EntityKind

def flipped : EntityKind → EntityKind
  | part => characteristic
  | characteristic => part

def rank : EntityKind → Nat
  | part => 0
  | characteristic => 1

theorem rank_injective {left right : EntityKind} (ranks : left.rank = right.rank) :
    left = right := by
  cases left <;> cases right <;> simp [rank] at ranks ⊢

end EntityKind

structure Segment where
  kind : EntityKind
  name : String
deriving DecidableEq

namespace Segment

/-- Whether a formula can name the segment: it has no way to write a quote. -/
def isRenderable (segment : Segment) : Bool := !segment.name.toList.contains '"'

/-- Whether a name has to be quoted to be read as itself. -/
def needsQuotes (name : List Char) : Bool :=
  name == [] || name == ['.', '.'] || Text.trim name != name || name.any Text.isReserved

def spell (name : List Char) : List Char :=
  if needsQuotes name then '"' :: name ++ ['"'] else name

instance : Ord Segment where
  compare := compareLex (compareOn fun segment => segment.kind.rank) (compareOn Segment.name)

instance : Std.TransOrd Segment :=
  inferInstanceAs (Std.TransCmp
    (compareLex (compareOn fun segment : Segment => segment.kind.rank) (compareOn Segment.name)))

instance : Std.LawfulEqOrd Segment where
  eq_of_compare {left right} same := by
    obtain ⟨kinds, names⟩ := Ordering.then_eq_eq.1 same
    cases left
    cases right
    simp only [compareOn, Std.compare_eq_iff_eq] at kinds names
    rw [EntityKind.rank_injective kinds, names]

end Segment

structure Path where
  segments : List Segment
deriving DecidableEq

namespace Path

def root : Path := ⟨[]⟩

def isRoot (path : Path) : Bool := path.segments.isEmpty

def length (path : Path) : Nat := path.segments.length

def last? (path : Path) : Option Segment := path.segments.getLast?

/-- The last name, empty for the root. -/
def name (path : Path) : String := (path.last?.map Segment.name).getD ""

def child (path : Path) (segment : Segment) : Path := ⟨path.segments ++ [segment]⟩

/-- The path one step up.  The root is its own parent. -/
def parent (path : Path) : Path := ⟨path.segments.dropLast⟩

def climb? (path : Path) : Option Path := if path.isRoot then none else some path.parent

/-- Whether the path is another one or lies below it. -/
def startsWith (path ancestor : Path) : Bool := ancestor.segments.isPrefixOf path.segments

def isRenderable (path : Path) : Bool := path.segments.all Segment.isRenderable

def spell (path : Path) : List Char :=
  if path.isRoot then ['/']
  else path.segments.flatMap fun segment => '/' :: Segment.spell segment.name.toList

def text (path : Path) : String := String.ofList path.spell

instance : Ord Path where
  compare := compareOn Path.segments

instance : Std.TransOrd Path := inferInstanceAs (Std.TransCmp (compareOn Path.segments))

instance : Std.LawfulEqOrd Path where
  eq_of_compare {left right} same := by
    have segments : left.segments = right.segments := Std.LawfulEqOrd.eq_of_compare same
    cases left
    cases right
    exact congrArg mk segments

@[simp] theorem parent_child (path : Path) (segment : Segment) :
    (path.child segment).parent = path := by
  simp [parent, child]

@[simp] theorem last?_child (path : Path) (segment : Segment) :
    (path.child segment).last? = some segment := by
  simp [last?, child]

end Path

structure WrittenStep where
  name : List Char
  quoted : Bool
deriving DecidableEq

namespace WrittenStep

def climbs (step : WrittenStep) : Bool := !step.quoted && step.name == ['.', '.']

end WrittenStep

/-- A text read up to some place: the steps before the last slash and the step begun since then. -/
structure StepReader where
  steps : List WrittenStep
  name : List Char
  quoted : Bool
  inQuotes : Bool

namespace StepReader

def start : StepReader := ⟨[], [], false, false⟩

/-- The steps with the one begun.  A step without quotes is trimmed, and left out if it is blank. -/
def finish (reader : StepReader) : List WrittenStep :=
  let name := if reader.quoted then reader.name else Text.trim reader.name
  if reader.quoted || !name.isEmpty then reader.steps ++ [⟨name, reader.quoted⟩] else reader.steps

/-- Reads one character.  An opening quote drops what stands before it in the step, and white space
after a closing quote does not count. -/
def read (reader : StepReader) (character : Char) : StepReader :=
  if character = '"' then
    if reader.inQuotes then { reader with inQuotes := false }
    else { reader with name := [], quoted := true, inQuotes := true }
  else if reader.inQuotes then { reader with name := reader.name ++ [character] }
  else if character = '/' then ⟨reader.finish, [], false, false⟩
  else if reader.quoted && Text.isWhiteSpace character then reader
  else { reader with name := reader.name ++ [character] }

end StepReader

def writtenSteps (text : List Char) : List WrittenStep :=
  (text.foldl StepReader.read StepReader.start).finish

namespace Path

/-- Takes one step.  Climbing above the root fails. -/
def step? (place : Path) (step : WrittenStep) : Option Path :=
  if step.climbs then place.climb?
  else some (place.child ⟨.characteristic, String.ofList step.name⟩)

/-- Segments with those of an anchor in place of the first ones, as far as the names agree. -/
def adoptKinds : List Segment → List Segment → List Segment
  | known :: others, segment :: rest =>
      if known.name = segment.name then known :: adoptKinds others rest else segment :: rest
  | _, segments => segments

/-- The path that a trimmed text leads to from an anchor, all kinds but the anchor's own unsettled.
-/
def follow? (anchor : Path) (text : List Char) : Option Path :=
  (writtenSteps text).foldlM step? (if text.head? = some '/' then root else anchor)

/-- The path that a text denotes from an anchor. -/
def resolve? (anchor : Path) (raw : String) : Option Path :=
  let text := Text.trim raw.toList
  if text = ['/'] then some root
  else (anchor.follow? text).map fun path => ⟨adoptKinds anchor.segments path.segments⟩

end Path

end InspectionFormula
