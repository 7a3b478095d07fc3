import InspectionFormula.Table
import InspectionFormula.Text.Lowercase
import InspectionFormula.Operation.Numeric
import InspectionFormula.Operation.Coordinates

/-!
# Catalogs

A catalog holds the operations and constants that formulas may name.  Names are
looked up without regard to case, and a later entry takes the place of an
earlier one of the same name.  The standard catalog has the numeric functions,
the aggregations and the coordinate functions, and two constants.
-/

namespace InspectionFormula

structure Constant where
  name : String
  value : Binary64
deriving DecidableEq

/-- Operations and constants, each under the lowercase of its name. -/
structure Catalog where
  operations : Table String Operation
  constants : Table String Constant
  operations_named : ∀ entry ∈ operations.entries, entry.1 = Text.lowercase entry.2.name
  constants_named : ∀ entry ∈ constants.entries, entry.1 = Text.lowercase entry.2.name

namespace Catalog

def empty : Catalog := ⟨.empty, .empty, by simp [Table.empty], by simp [Table.empty]⟩

def withOperation (catalog : Catalog) (operation : Operation) : Catalog :=
  { catalog with
    operations := catalog.operations.put (Text.lowercase operation.name) operation
    operations_named := fun entry member =>
      (Table.mem_entries_of_put member).elim (fun new => by rw [new])
        (catalog.operations_named entry) }

def withConstant (catalog : Catalog) (constant : Constant) : Catalog :=
  { catalog with
    constants := catalog.constants.put (Text.lowercase constant.name) constant
    constants_named := fun entry member =>
      (Table.mem_entries_of_put member).elim (fun new => by rw [new])
        (catalog.constants_named entry) }

def withOperations (catalog : Catalog) (operations : List Operation) : Catalog :=
  operations.foldl withOperation catalog

def operation? (catalog : Catalog) (name : String) : Option Operation :=
  catalog.operations.get? (Text.lowercase name)

def constant? (catalog : Catalog) (name : String) : Option Constant :=
  catalog.constants.get? (Text.lowercase name)

def sortedOperations (catalog : Catalog) : List Operation :=
  catalog.operations.values.mergeSort fun left right => decide (left.name ≤ right.name)

def sortedConstants (catalog : Catalog) : List Constant :=
  catalog.constants.values.mergeSort fun left right => decide (left.name ≤ right.name)

/-- The ratio of a circle's circumference to its diameter. -/
def pi : Constant := ⟨"PI", ⟨false, 0x400921FB54442D18, by decide⟩⟩

/-- The base of natural logarithms. -/
def euler : Constant := ⟨"E", ⟨false, 0x4005BF0A8B145769, by decide⟩⟩

def standardOperations : List Operation :=
  Numeric.binaries ++ Numeric.unaries ++ [Numeric.round, Numeric.coalesce] ++
    Aggregate.ofArguments ++ Coordinates.operations ++ Aggregate.ofGroups

def standard : Catalog :=
  (((empty.withConstant pi).withConstant euler).withOperations standardOperations)

end Catalog

end InspectionFormula
