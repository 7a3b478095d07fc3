import InspectionFormula.Operation.Aggregate

/-!
# Functions of points

A point is a place whose coordinates are the values directly below it that bear
the name of an axis, in either case.  A function of points reads the coordinates
along its axes and not the point itself, and has no value if a coordinate is
missing.
-/

namespace InspectionFormula

inductive Axis where
  | x
  | y
  | z
deriving DecidableEq

namespace Axis

def isNamed (axis : Axis) (name : String) : Bool :=
  match axis with
  | x => name == "X" || name == "x"
  | y => name == "Y" || name == "y"
  | z => name == "Z" || name == "z"

end Axis

namespace Coordinates

/-- The first of some places that holds a point's coordinate along an axis. -/
def place? (point : Path) (children : List Path) (axis : Axis) : Option Path :=
  children.find? fun child =>
    child.length == point.length + 1 && child.startsWith point && axis.isNamed child.name

/-- The places that hold a point's coordinates along some axes. -/
def places (axes : List Axis) (childPaths : Path → List Path) (point : Path) : List Path :=
  axes.filterMap (place? point (childPaths point))

/-- A point's coordinates along some axes, all or none. -/
def values (point : Path) (children : List Path) : List Axis → Computation (Option (List Binary64))
  | [] => return some []
  | axis :: axes =>
      match place? point children axis with
      | none => return none
      | some path => do
          match ← Computation.askValue path with
          | none => return none
          | some value =>
              let rest ← values point children axes
              return rest.map (value :: ·)

/-- The coordinates of the point that an argument refers to. -/
def ofArgument (axes : List Axis) (argument : ArgumentShape) :
    Computation (Option (List Binary64)) :=
  match argument.place? with
  | none => return none
  | some point => do
      let children ← Computation.askChildren point
      values point children axes

def norm (lengths : List Binary64) : Binary64 :=
  (Aggregate.total (lengths.map fun length => length * length)).sqrt

def distance (first second : List Binary64) : Binary64 :=
  norm (first.zipWith (· - ·) second)

/-- The diameter of the zone around the origin that reaches to a point. -/
def zone (deviation : List Binary64) : Binary64 := 2 * norm deviation

end Coordinates

namespace Operation

def pointDistance (name : String) (axes : List Axis) : Operation where
  name := name
  arity := .exactly 2
  compute
    | first :: second :: _ => do
        let start ← Coordinates.ofArgument axes first
        let finish ← Coordinates.ofArgument axes second
        return start.bind fun start => finish.map fun finish => Coordinates.distance start finish
    | _ => return none
  reads := some (Coordinates.places axes)

def truePosition (name : String) (axes : List Axis) : Operation where
  name := name
  arity := .exactly 1
  compute
    | point :: _ => do
        let deviation ← Coordinates.ofArgument axes point
        return deviation.map Coordinates.zone
    | [] => return none
  reads := some (Coordinates.places axes)

end Operation

def Coordinates.operations : List Operation := [
  .pointDistance "pt_dist" [.x, .y, .z],
  .pointDistance "pt_dist_xy" [.x, .y],
  .pointDistance "pt_dist_xz" [.x, .z],
  .pointDistance "pt_dist_yz" [.y, .z],
  .truePosition "position" [.x, .y],
  .truePosition "position3d" [.x, .y, .z]]

end InspectionFormula
