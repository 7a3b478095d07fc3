import InspectionFormula.Proofs.Dependencies.ChildOrder
import InspectionFormula.Proofs.Expression.Meaning

/-!
# Formulas that refer to the same

What the occurrences in a formula refer to settles all of its dependencies but
their spans and texts.  Traversals do not tell formulas of one owner apart whose
occurrences refer to the same, and neither do they such formulas of a plan.
-/

namespace InspectionFormula

/-- Dependencies on the same paths, with as many occurrences of each, and on the same ones by
attributes only. -/
structure Dependencies.UseAlike (first second : Dependencies) : Prop where
  paths : second.paths = first.paths
  count : ∀ path, (second.occurrences path).length = (first.occurrences path).length
  attributeOnly : ∀ path, second.isAttributeOnly path = first.isAttributeOnly path

theorem Dependencies.readAttributes_eq (occurrences : List Occurrence) :
    readAttributes occurrences =
      (occurrences.map Occurrence.reference).all fun reference => reference.key.isSome := by
  rw [readAttributes, List.all_map]
  rfl

theorem Dependencies.links_eq_map (dependencies : Dependencies) :
    dependencies.links = dependencies.paths.map fun path =>
      ⟨path, readAttributes (dependencies.occurrences path)⟩ := by
  rw [links, entries_eq_map, List.map_map]
  rfl

namespace Formula

variable {formula other : Formula} {childPaths : Path → List Path}

theorem map_reference_occurrences (formula : Formula) (childPaths : Path → List Path)
    (path : Path) : ((formula.dependencies childPaths).occurrences path).map Occurrence.reference =
      (formula.root.references childPaths).filter fun reference => reference.path = path := by
  rw [dependencies, Dependencies.occurrences_ofOccurrences,
    ← Expression.map_reference_occurrences formula.text, List.filter_map]
  rfl

section RefersAlike

variable (same : other.root.references childPaths = formula.root.references childPaths)
include same

theorem map_reference_occurrences_congr (path : Path) :
    ((other.dependencies childPaths).occurrences path).map Occurrence.reference =
      ((formula.dependencies childPaths).occurrences path).map Occurrence.reference := by
  rw [map_reference_occurrences, map_reference_occurrences, same]

theorem paths_dependencies_congr :
    (other.dependencies childPaths).paths = (formula.dependencies childPaths).paths := by
  have sets : (⟨_, (other.dependencies childPaths).rising⟩ : PathSet) =
      ⟨_, (formula.dependencies childPaths).rising⟩ := by
    apply PathSet.eq_of_mem_iff
    intro path
    change path ∈ (other.dependencies childPaths).paths ↔
      path ∈ (formula.dependencies childPaths).paths
    have refers := map_reference_occurrences_congr same path
    rw [Dependencies.mem_paths_iff, Dependencies.mem_paths_iff, ne_eq, ← List.map_eq_nil_iff,
      refers, List.map_eq_nil_iff]
  exact congrArg PathSet.paths sets

theorem useAlike_dependencies :
    (formula.dependencies childPaths).UseAlike (other.dependencies childPaths) where
  paths := paths_dependencies_congr same
  count path := by
    simpa using congrArg List.length (map_reference_occurrences_congr same path)
  attributeOnly path := by
    rw [Dependencies.isAttributeOnly, Dependencies.isAttributeOnly, Dependencies.contains,
      Dependencies.contains, paths_dependencies_congr same, Dependencies.readAttributes_eq,
      Dependencies.readAttributes_eq, map_reference_occurrences_congr same]

theorem links_dependencies_congr :
    (other.dependencies childPaths).links = (formula.dependencies childPaths).links := by
  rw [Dependencies.links_eq_map, Dependencies.links_eq_map, paths_dependencies_congr same]
  simp only [Dependencies.readAttributes_eq, map_reference_occurrences_congr same]

end RefersAlike

end Formula

/-- In place of some formulas of the first plan, the second one has formulas whose occurrences refer
to the same. -/
structure Plan.RefersAlike (dialect : Dialect) (plan another : Plan) : Prop where
  childPaths : another.childPaths = plan.childPaths
  formulas : ∀ path, another.formula? path = plan.formula? path ∨ ∃ formula other : Formula,
    dialect.HasFormula plan path formula ∧ dialect.HasFormula another path other ∧
      other.root.references plan.childPaths = formula.root.references plan.childPaths

namespace Plan.RefersAlike

variable {dialect : Dialect} {plan another : Plan} {formula other : Formula}

theorem links?_graph (refersAlike : plan.RefersAlike dialect another) (path : Path) :
    (dialect.graph another).links? path = (dialect.graph plan).links? path := by
  rcases refersAlike.formulas path with sameFormula | ⟨formula, other, has, hasOther, same⟩
  · exact Dialect.links?_graph_congr refersAlike.childPaths sameFormula
  · obtain ⟨text, known, read⟩ := has
    obtain ⟨otherText, otherKnown, otherRead⟩ := hasOther
    rw [Dialect.links?_graph_eq_some_iff.2 ⟨text, formula, known, read, rfl⟩,
      Dialect.links?_graph_eq_some_iff.2 ⟨otherText, other, otherKnown, otherRead, rfl⟩,
      refersAlike.childPaths, Formula.links_dependencies_congr same]

/-- A traversal from a formula takes the same course, whatever it looks for. -/
theorem traverseFormula_eq (refersAlike : plan.RefersAlike dialect another)
    (sameOwner : other.owner = formula.owner)
    (same : other.root.references plan.childPaths = formula.root.references plan.childPaths)
    (scope : FaultScope) : dialect.traverseFormula another scope other =
      dialect.traverseFormula plan scope formula := by
  rw [Dialect.traverseFormula, Dialect.traverseFormula, sameOwner, refersAlike.childPaths,
    Formula.links_dependencies_congr same,
    DependencyGraph.traverse_eq_of_links? refersAlike.links?_graph]

theorem traverseFrom_eq (refersAlike : plan.RefersAlike dialect another) (scope : FaultScope)
    (origin : Path) : (dialect.graph another).traverseFrom scope origin =
      (dialect.graph plan).traverseFrom scope origin :=
  DependencyGraph.traverseFrom_eq_of_links? refersAlike.links?_graph scope origin

end Plan.RefersAlike

end InspectionFormula
