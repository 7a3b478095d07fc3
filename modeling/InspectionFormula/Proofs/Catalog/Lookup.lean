import InspectionFormula.Catalog

/-!
# Looking names up

A table gives exactly the values of its entries, so a catalog gives exactly the
operations and constants that it holds, each under its own name.  The standard
catalog holds no other operations than the standard ones.

Operations and constants may be added to a catalog under names that it does not
have yet.  What names stand for in the catalog, they stand for in the extended
one: the same operation, or the same constant and still no operation.
-/

namespace InspectionFormula

namespace Table

variable {Key Value : Type} [DecidableEq Key] {key : Key} {value : Value}

theorem getIn?_eq_some_iff {entries : List (Key × Value)}
    (nodup : (entries.map Prod.fst).Nodup) :
    getIn? key entries = some value ↔ (key, value) ∈ entries := by
  induction entries with
  | nil => simp [getIn?]
  | cons entry entries ih =>
      obtain ⟨known, old⟩ := entry
      obtain ⟨fresh, nodup⟩ := List.nodup_cons.1 nodup
      by_cases same : known = key
      · subst same
        have absent : (known, value) ∉ entries := fun member =>
          fresh (List.mem_map.2 ⟨_, member, rfl⟩)
        simp [getIn?, absent, eq_comm]
      · have other : key ≠ known := Ne.symm same
        simp [getIn?, same, other, ih nodup]

theorem get?_eq_some_iff {table : Table Key Value} :
    table.get? key = some value ↔ (key, value) ∈ table.entries :=
  getIn?_eq_some_iff table.nodup_keys

omit [DecidableEq Key] in
theorem mem_values_iff {table : Table Key Value} :
    value ∈ table.values ↔ ∃ key, (key, value) ∈ table.entries := by
  simp [values]

end Table

namespace Catalog

variable {catalog : Catalog} {name : String}

theorem operation?_eq_some_iff {operation : Operation} :
    catalog.operation? name = some operation ↔ operation ∈ catalog.operations.values ∧
      Text.lowercase operation.name = Text.lowercase name := by
  rw [operation?, Table.get?_eq_some_iff, Table.mem_values_iff]
  constructor
  · intro member
    exact ⟨⟨_, member⟩, (catalog.operations_named _ member).symm⟩
  · rintro ⟨⟨key, member⟩, named⟩
    have keyed : key = Text.lowercase operation.name := catalog.operations_named _ member
    rwa [← named, ← keyed]

theorem constant?_eq_some_iff {constant : Constant} :
    catalog.constant? name = some constant ↔ constant ∈ catalog.constants.values ∧
      Text.lowercase constant.name = Text.lowercase name := by
  rw [constant?, Table.get?_eq_some_iff, Table.mem_values_iff]
  constructor
  · intro member
    exact ⟨⟨_, member⟩, (catalog.constants_named _ member).symm⟩
  · rintro ⟨⟨key, member⟩, named⟩
    have keyed : key = Text.lowercase constant.name := catalog.constants_named _ member
    rwa [← named, ← keyed]

theorem mem_of_mem_withOperations {operations : List Operation}
    {operation : Operation}
    (member : operation ∈ (catalog.withOperations operations).operations.values) :
    operation ∈ catalog.operations.values ∨ operation ∈ operations := by
  induction operations generalizing catalog with
  | nil => exact .inl member
  | cons first rest ih =>
      rcases @ih (catalog.withOperation first) member with old | later
      · obtain ⟨key, entry⟩ := Table.mem_values_iff.1 old
        rcases Table.mem_entries_of_put entry with isFirst | old
        · cases isFirst
          exact .inr List.mem_cons_self
        · exact .inl (Table.mem_values_iff.2 ⟨key, old⟩)
      · exact .inr (List.mem_cons_of_mem _ later)

theorem mem_standardOperations_of_mem_standard {operation : Operation}
    (member : operation ∈ standard.operations.values) : operation ∈ standardOperations := by
  rcases mem_of_mem_withOperations member with old | new
  · cases old
  · exact new

/-- What every family of operations has, every operation of the standard catalog has. -/
theorem standard_cases {holds : Operation → Prop}
    (unary : ∀ name apply, holds (.unary name apply))
    (binary : ∀ name apply, holds (.binary name apply))
    (round : holds Numeric.round) (coalesce : holds Numeric.coalesce)
    (aggregate : ∀ name reduce, holds (.aggregate name reduce)) (count : holds Aggregate.count)
    (pointDistance : ∀ name axes, holds (.pointDistance name axes))
    (truePosition : ∀ name axes, holds (.truePosition name axes))
    (grade : ∀ name reduce, holds (.grade name reduce)) :
    ∀ operation ∈ standard.operations.values, holds operation := by
  have binaries : ∀ operation ∈ Numeric.binaries, holds operation := by
    simp [Numeric.binaries, binary]
  have unaries : ∀ operation ∈ Numeric.unaries, holds operation := by
    simp [Numeric.unaries, unary]
  have ofArguments : ∀ operation ∈ Aggregate.ofArguments, holds operation := by
    simp [Aggregate.ofArguments, aggregate, count]
  have ofPoints : ∀ operation ∈ Coordinates.operations, holds operation := by
    simp [Coordinates.operations, pointDistance, truePosition]
  have ofGroups : ∀ operation ∈ Aggregate.ofGroups, holds operation := by
    simp [Aggregate.ofGroups, grade]
  intro operation member
  have member := mem_standardOperations_of_mem_standard member
  simp only [standardOperations, List.mem_append, List.mem_cons, List.not_mem_nil, or_false]
    at member
  rcases member with ((((isBinary | isUnary) | rfl | rfl) | isArguments) | isPoints) | isGroups
  · exact binaries operation isBinary
  · exact unaries operation isUnary
  · exact round
  · exact coalesce
  · exact ofArguments operation isArguments
  · exact ofPoints operation isPoints
  · exact ofGroups operation isGroups

end Catalog

namespace Catalog

variable {catalog extended : Catalog} {name : String}

/-- A name that is not one of the catalog's, whatever its case. -/
structure IsNew (catalog : Catalog) (name : String) : Prop where
  operations : ∀ operation ∈ catalog.operations.values,
    Text.lowercase name ≠ Text.lowercase operation.name
  constants : ∀ constant ∈ catalog.constants.values,
    Text.lowercase name ≠ Text.lowercase constant.name

/-- The catalogs that come from one when operations and constants are added.  Their names are new to
that catalog, but one that is added may take the place of another one. -/
inductive Extends (catalog : Catalog) : Catalog → Prop where
  | refl : Extends catalog catalog
  | withOperation {extended : Catalog} {operation : Operation}
      (extension : Extends catalog extended) (isNew : catalog.IsNew operation.name) :
      Extends catalog (extended.withOperation operation)
  | withConstant {extended : Catalog} {constant : Constant}
      (extension : Extends catalog extended) (isNew : catalog.IsNew constant.name) :
      Extends catalog (extended.withConstant constant)

theorem operation?_withOperation (operation : Operation) :
    (catalog.withOperation operation).operation? name =
      if Text.lowercase operation.name = Text.lowercase name then some operation
      else catalog.operation? name :=
  Table.get?_put ..

theorem constant?_withConstant (constant : Constant) :
    (catalog.withConstant constant).constant? name =
      if Text.lowercase constant.name = Text.lowercase name then some constant
      else catalog.constant? name :=
  Table.get?_put ..

theorem IsNew.ne_of_operation? {operation : Operation} {added : String}
    (isNew : catalog.IsNew added) (found : catalog.operation? name = some operation) :
    Text.lowercase added ≠ Text.lowercase name := by
  obtain ⟨member, named⟩ := operation?_eq_some_iff.1 found
  exact named ▸ isNew.operations operation member

theorem IsNew.ne_of_constant? {constant : Constant} {added : String}
    (isNew : catalog.IsNew added) (found : catalog.constant? name = some constant) :
    Text.lowercase added ≠ Text.lowercase name := by
  obtain ⟨member, named⟩ := constant?_eq_some_iff.1 found
  exact named ▸ isNew.constants constant member

namespace Extends

theorem operation?_eq (extension : catalog.Extends extended) {operation : Operation}
    (found : catalog.operation? name = some operation) :
    extended.operation? name = some operation := by
  induction extension with
  | refl => exact found
  | withOperation extension isNew ih =>
      rw [operation?_withOperation, if_neg (isNew.ne_of_operation? found), ih]
  | withConstant extension isNew ih => exact ih

theorem constant?_eq (extension : catalog.Extends extended) {constant : Constant}
    (found : catalog.constant? name = some constant) :
    extended.constant? name = some constant := by
  induction extension with
  | refl => exact found
  | withOperation extension isNew ih => exact ih
  | withConstant extension isNew ih =>
      rw [constant?_withConstant, if_neg (isNew.ne_of_constant? found), ih]

/-- No operation gets the name of a constant. -/
theorem operation?_eq_none (extension : catalog.Extends extended) {constant : Constant}
    (found : catalog.constant? name = some constant) (unnamed : catalog.operation? name = none) :
    extended.operation? name = none := by
  induction extension with
  | refl => exact unnamed
  | withOperation extension isNew ih =>
      rw [operation?_withOperation, if_neg (isNew.ne_of_constant? found), ih]
  | withConstant extension isNew ih => exact ih

end Extends

end Catalog

end InspectionFormula
