import InspectionFormula.Dependencies.Basic
import Mathlib.Data.List.Nodup
import Mathlib.Logic.Relation

/-!
# Value edges

A place has a value edge to every place whose value its formula depends on, and
no edges without a well-formed formula.
-/

namespace InspectionFormula

namespace Dependencies

variable {dependencies : Dependencies} {path : Path}

theorem nodup_paths (dependencies : Dependencies) : dependencies.paths.Nodup := by
  refine dependencies.rising.imp ?_
  intro earlier later before equal
  rw [equal, Std.ReflOrd.compare_self] at before
  cases before

theorem occurrences_of_mem {entry : Path × List Occurrence}
    (member : entry ∈ dependencies.entries) : dependencies.occurrences entry.1 = entry.2 := by
  unfold occurrences
  cases found : dependencies.entries.find? fun other => other.1 = entry.1 with
  | none => exact absurd (List.find?_eq_none.1 found entry member) (by simp)
  | some other =>
      have same : other.1 = entry.1 := by simpa using List.find?_some found
      have equal : other = entry :=
        List.inj_on_of_nodup_map dependencies.nodup_paths (List.mem_of_find?_eq_some found)
          member same
      rw [equal]
      rfl

theorem mem_links_iff {attributeOnly : Bool} :
    ⟨path, attributeOnly⟩ ∈ dependencies.links ↔
      dependencies.contains path = true ∧ dependencies.isAttributeOnly path = attributeOnly := by
  have contains_iff : dependencies.contains path = true ↔
      ∃ occurrences, (path, occurrences) ∈ dependencies.entries := by
    simp [contains, paths]
  constructor
  · intro member
    obtain ⟨⟨key, occurrences⟩, isEntry, equal⟩ := List.mem_map.1 member
    cases equal
    have contained := contains_iff.2 ⟨occurrences, isEntry⟩
    refine ⟨contained, ?_⟩
    rw [isAttributeOnly, contained, occurrences_of_mem isEntry, Bool.true_and]
  · rintro ⟨contained, rfl⟩
    obtain ⟨occurrences, isEntry⟩ := contains_iff.1 contained
    refine List.mem_map.2 ⟨(path, occurrences), isEntry, ?_⟩
    rw [isAttributeOnly, contained, occurrences_of_mem isEntry, Bool.true_and]

end Dependencies

/-- A formula depends on the value of a place and not only on its attributes. -/
def Formula.DependsOnValue (formula : Formula) (plan : Plan) (path : Path) : Prop :=
  (formula.dependencies plan.childPaths).contains path = true ∧
    (formula.dependencies plan.childPaths).isAttributeOnly path = false

namespace DependencyGraph

def ValueEdge (graph : DependencyGraph) (source target : Path) : Prop :=
  ∃ links, graph.links? source = .ok (some links) ∧ ⟨target, false⟩ ∈ links

/-- The places that a place depends on through values, and the place itself. -/
abbrev Reaches (graph : DependencyGraph) : Path → Path → Prop :=
  Relation.ReflTransGen graph.ValueEdge

def OnCycle (graph : DependencyGraph) (path : Path) : Prop :=
  Relation.TransGen graph.ValueEdge path path

end DependencyGraph

namespace Dialect

variable {dialect : Dialect} {plan : Plan} {source target : Path}

/-- The formula of the source is well-formed and depends on the value of the target. -/
def ValueEdge (dialect : Dialect) (plan : Plan) (source target : Path) : Prop :=
  ∃ text formula, plan.formula? source = some text ∧ dialect.read text source = .ok formula ∧
    formula.DependsOnValue plan target

abbrev Reaches (dialect : Dialect) (plan : Plan) : Path → Path → Prop :=
  Relation.ReflTransGen (dialect.ValueEdge plan)

def OnCycle (dialect : Dialect) (plan : Plan) (path : Path) : Prop :=
  Relation.TransGen (dialect.ValueEdge plan) path path

/-- Value edges lead from the place to a cycle, or the place lies on one. -/
def ReachesCycle (dialect : Dialect) (plan : Plan) (path : Path) : Prop :=
  ∃ place, dialect.Reaches plan path place ∧ dialect.OnCycle plan place

theorem OnCycle.reachesCycle {path : Path} (onCycle : dialect.OnCycle plan path) :
    dialect.ReachesCycle plan path :=
  ⟨path, .refl, onCycle⟩

theorem ReachesCycle.of_reaches (reaches : dialect.Reaches plan source target)
    (reachesCycle : dialect.ReachesCycle plan target) : dialect.ReachesCycle plan source := by
  obtain ⟨place, onward, onCycle⟩ := reachesCycle
  exact ⟨place, reaches.trans onward, onCycle⟩

/-- The place has a formula, and this is how it reads. -/
def HasFormula (dialect : Dialect) (plan : Plan) (place : Path) (formula : Formula) : Prop :=
  ∃ text, plan.formula? place = some text ∧ dialect.read text place = .ok formula

theorem HasFormula.unique {place : Path} {formula other : Formula}
    (has : dialect.HasFormula plan place formula) (alsoHas : dialect.HasFormula plan place other) :
    formula = other := by
  obtain ⟨text, known, read⟩ := has
  obtain ⟨_, sameText, readOther⟩ := alsoHas
  cases known.symm.trans sameText
  exact Except.ok.inj (read.symm.trans readOther)

theorem valueEdge_iff_hasFormula : dialect.ValueEdge plan source target ↔
    ∃ formula, dialect.HasFormula plan source formula ∧ formula.DependsOnValue plan target := by
  constructor
  · rintro ⟨text, formula, known, read, dependsOnValue⟩
    exact ⟨formula, ⟨text, known, read⟩, dependsOnValue⟩
  · rintro ⟨formula, ⟨text, known, read⟩, dependsOnValue⟩
    exact ⟨text, formula, known, read, dependsOnValue⟩

theorem ReachesCycle.exists_hasFormula {path : Path}
    (reachesCycle : dialect.ReachesCycle plan path) :
    ∃ formula, dialect.HasFormula plan path formula := by
  obtain ⟨place, reaches, onCycle⟩ := reachesCycle
  have leads := Relation.TransGen.trans_right reaches onCycle
  obtain ⟨next, edge, -⟩ := Relation.TransGen.head'_iff.1 leads
  obtain ⟨formula, has, -⟩ := valueEdge_iff_hasFormula.1 edge
  exact ⟨formula, has⟩

theorem HasFormula.valueEdge_iff {formula : Formula}
    (has : dialect.HasFormula plan source formula) :
    dialect.ValueEdge plan source target ↔ formula.DependsOnValue plan target := by
  rw [valueEdge_iff_hasFormula]
  constructor
  · rintro ⟨other, hasOther, dependsOnValue⟩
    cases has.unique hasOther
    exact dependsOnValue
  · exact fun dependsOnValue => ⟨formula, has, dependsOnValue⟩

theorem links?_graph_eq_some_iff {links : List DependencyLink} :
    (dialect.graph plan).links? source = .ok (some links) ↔
      ∃ text formula, plan.formula? source = some text ∧ dialect.read text source = .ok formula ∧
        (formula.dependencies plan.childPaths).links = links := by
  simp only [graph, dependenciesAt]
  cases plan.formula? source with
  | none => simp [Except.map]
  | some text =>
      cases read : dialect.read text source with
      | error error => simp [read, Except.map, bind, Except.bind]
      | ok formula => simp [read, Except.map, bind, Except.bind, pure, Except.pure]

theorem links?_graph_eq_error_iff {error : SyntaxError} :
    (dialect.graph plan).links? source = .error error ↔
      ∃ text, plan.formula? source = some text ∧ dialect.read text source = .error error := by
  simp only [graph, dependenciesAt]
  cases plan.formula? source with
  | none => simp [Except.map]
  | some text =>
      cases read : dialect.read text source with
      | error fault => simp [read, Except.map, bind, Except.bind]
      | ok formula => simp [read, Except.map, bind, Except.bind, pure, Except.pure]

theorem valueEdge_graph_iff :
    (dialect.graph plan).ValueEdge source target ↔ dialect.ValueEdge plan source target := by
  constructor
  · rintro ⟨links, known, member⟩
    obtain ⟨text, formula, has, read, rfl⟩ := links?_graph_eq_some_iff.1 known
    exact ⟨text, formula, has, read, Dependencies.mem_links_iff.1 member⟩
  · rintro ⟨text, formula, has, read, dependsOnValue⟩
    exact ⟨_, links?_graph_eq_some_iff.2 ⟨text, formula, has, read, rfl⟩,
      Dependencies.mem_links_iff.2 dependsOnValue⟩

theorem valueEdge_graph : (dialect.graph plan).ValueEdge = dialect.ValueEdge plan := by
  ext source target
  exact valueEdge_graph_iff

end Dialect

end InspectionFormula
