import InspectionFormula.Parsing.Transition

/-!
# Dialects and formulas

A dialect says how formulas are read: a catalog for the names in them, and rules
for the paths.  Paths are relative to the parent of the formula's owner.
-/

namespace InspectionFormula

/-- A formula that has been read for its owner. -/
structure Formula where
  root : Expression
  text : String
  /-- The path of the characteristic that the formula calculates. -/
  owner : Path

/-- A catalog, and for every anchor the path that a text denotes. -/
structure Dialect where
  catalog : Catalog
  resolve? : Path → String → Option Path

namespace Dialect

/-- The dialect of a catalog, with the usual rules for paths. -/
def ofCatalog (catalog : Catalog) : Dialect := ⟨catalog, Path.resolve?⟩

def standard : Dialect := ofCatalog .standard

def read (dialect : Dialect) (text : String) (owner : Path) : Reading Formula := do
  let root ← Expression.parse dialect.catalog (dialect.resolve? owner.parent) text
  return ⟨root, text, owner⟩

theorem read_eq_ok_iff {dialect : Dialect} {text : String} {owner : Path} {formula : Formula} :
    dialect.read text owner = .ok formula ↔ ∃ root,
      Expression.parse dialect.catalog (dialect.resolve? owner.parent) text = .ok root ∧
        formula = ⟨root, text, owner⟩ := by
  unfold read
  cases Expression.parse dialect.catalog (dialect.resolve? owner.parent) text with
  | error fault => simp [bind, Except.bind]
  | ok root => simp [bind, Except.bind, pure, Except.pure, eq_comm]

end Dialect

end InspectionFormula
