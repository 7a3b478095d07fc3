import InspectionFormula.Path.Basic
import InspectionFormula.Timestamp
import InspectionFormula.Table

/-!
# Inspection plans and their measurements

Formulas are evaluated against a plan, which has the places of a part and the
formulas of those that are calculated, and against measured values and
attributes.  Only finitely many places have formulas.  A store holds a plan with
its measurements and can be changed.  Storing something at a path makes the path
a child of its parent.
-/

namespace InspectionFormula

structure Plan where
  childPaths : Path → List Path
  formula? : Path → Option String
  /-- All places with a formula, and possibly others. -/
  formulaPaths : List Path
  mem_formulaPaths : ∀ {path : Path} {formula : String},
    formula? path = some formula → path ∈ formulaPaths

inductive Attribute where
  | integer (value : Int)
  | float (value : Binary64)
  | text (value : String)
  | date (value : Timestamp)
deriving DecidableEq

/-- An attribute as a number.  Texts and dates are none. -/
def Attribute.number? : Attribute → Option Binary64
  | integer value => some (Binary64.ofInt value)
  | float value => some value
  | text _ | date _ => none

/-- Measured values, and attributes as of a time. -/
structure Measurements where
  value? : Path → Option Binary64
  attribute? : Path → UInt16 → Option Timestamp → Option Attribute

/-- An attribute in a store: a fixed value, or the time of the evaluation that reads it. -/
inductive StoredAttribute where
  | fixed (value : Attribute)
  | evaluationTime

def StoredAttribute.value? (time : Option Timestamp) : StoredAttribute → Option Attribute
  | fixed value => some value
  | evaluationTime => time.map fun time => .integer time.seconds

structure Store where
  children : Table Path (List Path)
  values : Table Path Binary64
  formulas : Table Path String
  attributes : Table (Path × UInt16) StoredAttribute

namespace Store

def empty : Store := ⟨.empty, .empty, .empty, .empty⟩

def childPaths (store : Store) (path : Path) : List Path := (store.children.get? path).getD []

def setChildren (store : Store) (path : Path) (children : List Path) : Store :=
  { store with children := store.children.put path children }

def addPath (store : Store) (path : Path) : Store :=
  let siblings := store.childPaths path.parent
  if siblings.contains path then store else store.setChildren path.parent (siblings ++ [path])

def setValue (store : Store) (path : Path) (value : Binary64) : Store :=
  { store.addPath path with values := store.values.put path value }

def setFormula (store : Store) (path : Path) (formula : String) : Store :=
  { store.addPath path with formulas := store.formulas.put path formula }

def setAttribute (store : Store) (path : Path) (key : UInt16) (value : StoredAttribute) : Store :=
  { store.addPath path with attributes := store.attributes.put (path, key) value }

/-- The store without the value and the formula of a path. -/
def forget (store : Store) (path : Path) : Store :=
  { store with values := store.values.erase path, formulas := store.formulas.erase path }

def plan (store : Store) : Plan where
  childPaths := store.childPaths
  formula? := store.formulas.get?
  formulaPaths := store.formulas.keys
  mem_formulaPaths := Table.mem_keys_of_get?

def measurements (store : Store) : Measurements where
  value? := store.values.get?
  attribute? path key time := (store.attributes.get? (path, key)).bind (StoredAttribute.value? time)

end Store

end InspectionFormula
