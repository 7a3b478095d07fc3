import InspectionFormula.Proofs.Dependencies.Agreement
import InspectionFormula.Proofs.Evaluation.Nesting
import Mathlib.Data.List.Find

/-!
# The order of children

A plan may list the places below a point in any order.  An operation on points
takes the only place for each axis, and an operation on groups has occurrences
that differ in their paths only.  Grouped by path, the occurrences are the same,
and so is everything that follows from the dependencies.
-/

namespace InspectionFormula

namespace Dependencies

variable {path : Path} {first second : Dependencies}

/-- The occurrences that some entries have for a path. -/
def occurrencesIn (entries : List (Path × List Occurrence)) (path : Path) : List Occurrence :=
  ((entries.find? fun entry => entry.1 = path).map Prod.snd).getD []

theorem occurrencesIn_eq_nil {entries : List (Path × List Occurrence)}
    (absent : ∀ entry ∈ entries, entry.1 ≠ path) : occurrencesIn entries path = [] := by
  have none : (entries.find? fun entry => entry.1 = path) = none := by
    rw [List.find?_eq_none]
    intro entry member
    simpa using absent entry member
  rw [occurrencesIn, none]
  rfl

theorem occurrencesIn_cons (entry : Path × List Occurrence)
    (entries : List (Path × List Occurrence)) :
    occurrencesIn (entry :: entries) path =
      if entry.1 = path then entry.2 else occurrencesIn entries path := by
  by_cases here : entry.1 = path
  · simp [occurrencesIn, here]
  · simp [occurrencesIn, here]

/-- A path before the first one of a rising list is not in it. -/
theorem ne_of_lt_head {head other : Path} {rest : List Path} (rising : RisingPaths (head :: rest))
    (before : compare path head = .lt) (member : other ∈ head :: rest) : other ≠ path := by
  rintro rfl
  rcases List.mem_cons.1 member with rfl | later
  · rw [Std.ReflOrd.compare_self] at before
    cases before
  · have above := (List.pairwise_cons.1 rising).1 other later
    exact absurd (Std.TransCmp.lt_trans before above) (by simp [Std.ReflOrd.compare_self])

theorem occurrencesIn_insertIn (occurrence : Occurrence)
    {entries : List (Path × List Occurrence)} (rising : RisingPaths (entries.map Prod.fst)) :
    occurrencesIn (insertIn occurrence entries) path =
      occurrencesIn entries path ++ if occurrence.path = path then [occurrence] else [] := by
  induction entries with
  | nil =>
      rw [insertIn, occurrencesIn_cons]
      simp [occurrencesIn]
  | cons entry entries ih =>
      obtain ⟨head, earlier⟩ := entry
      rw [insertIn]
      split
      · next before =>
          rw [occurrencesIn_cons]
          split
          · next same =>
              subst same
              rw [occurrencesIn_eq_nil]
              · rfl
              · intro entry member
                exact ne_of_lt_head rising before (List.mem_map_of_mem member)
          · rw [List.append_nil]
      · next same =>
          rw [Std.LawfulEqOrd.eq_of_compare same, occurrencesIn_cons, occurrencesIn_cons]
          split
          · rfl
          · rw [List.append_nil]
      · next after =>
          rw [occurrencesIn_cons, occurrencesIn_cons, ih (List.pairwise_cons.1 rising).2]
          split
          · next here =>
              have other : occurrence.path ≠ path := by
                intro equal
                rw [equal, ← here, Std.ReflOrd.compare_self] at after
                cases after
              rw [if_neg other, List.append_nil]
          · rfl

theorem occurrences_foldl_insert (occurrences : List Occurrence) (dependencies : Dependencies) :
    (occurrences.foldl insert dependencies).occurrences path =
      dependencies.occurrences path ++
        occurrences.filter fun occurrence => occurrence.path = path := by
  induction occurrences generalizing dependencies with
  | nil => simp
  | cons occurrence occurrences ih =>
      have inserted : (dependencies.insert occurrence).occurrences path =
          dependencies.occurrences path ++
            if occurrence.path = path then [occurrence] else [] :=
        occurrencesIn_insertIn occurrence dependencies.rising
      rw [List.foldl_cons, ih, inserted, List.append_assoc, List.filter_cons]
      by_cases here : occurrence.path = path <;> simp [here]

/-- The dependencies of some occurrences have for each path the occurrences of that path. -/
theorem occurrences_ofOccurrences (occurrences : List Occurrence) :
    (ofOccurrences occurrences).occurrences path =
      occurrences.filter fun occurrence => occurrence.path = path :=
  occurrences_foldl_insert occurrences empty

theorem entries_eq_map (dependencies : Dependencies) : dependencies.entries =
    dependencies.paths.map fun path => (path, dependencies.occurrences path) := by
  rw [paths, List.map_map]
  symm
  calc
    dependencies.entries.map _ = dependencies.entries.map id :=
      List.map_congr_left fun entry member => by simp [occurrences_of_mem member]
    _ = dependencies.entries := List.map_id _

theorem mem_paths_iff : path ∈ first.paths ↔ first.occurrences path ≠ [] := by
  rw [← List.contains_iff_mem, ← contains, contains_iff_exists_mem_occurrences]
  constructor
  · rintro ⟨occurrence, member⟩
    exact List.ne_nil_of_mem member
  · exact List.exists_mem_of_ne_nil _

/-- Dependencies with the same occurrences of every path are the same. -/
theorem eq_of_occurrences_eq
    (same : ∀ path, first.occurrences path = second.occurrences path) : first = second := by
  have samePaths : first.paths = second.paths := by
    have sets : (⟨first.paths, first.rising⟩ : PathSet) = ⟨second.paths, second.rising⟩ := by
      apply PathSet.eq_of_mem_iff
      intro path
      rw [mem_paths_iff, mem_paths_iff, same]
    exact congrArg PathSet.paths sets
  have sameEntries : first.entries = second.entries := by
    rw [entries_eq_map, entries_eq_map second, samePaths]
    exact List.map_congr_left fun path _ => by rw [same]
  cases first
  cases second
  simpa using sameEntries

end Dependencies

namespace Coordinates

/-- The place holds a point's coordinate along an axis. -/
def IsCoordinate (point : Path) (axis : Axis) (child : Path) : Prop :=
  child.length = point.length + 1 ∧ child.startsWith point = true ∧ axis.isNamed child.name = true

instance (point : Path) (axis : Axis) (child : Path) : Decidable (IsCoordinate point axis child) :=
  inferInstanceAs (Decidable (_ ∧ _ ∧ _))

/-- The order of the places below a point does not count if no two of them are for one axis. -/
theorem place?_eq_of_perm {point : Path} {children other : List Path} {axis : Axis}
    (reordered : other.Perm children)
    (unique : ∀ first ∈ children, ∀ second ∈ children, IsCoordinate point axis first →
      IsCoordinate point axis second → first = second) :
    place? point other axis = place? point children axis := by
  symm
  apply List.find?_eq_find?_of_perm reordered.symm
  rintro first ⟨firstMember, isFirst⟩ second ⟨secondMember, isSecond⟩
  simp only [Bool.and_eq_true, beq_iff_eq] at isFirst isSecond
  exact unique first firstMember second secondMember ⟨isFirst.1.1, isFirst.1.2, isFirst.2⟩
    ⟨isSecond.1.1, isSecond.1.2, isSecond.2⟩

end Coordinates

/-- The places below each place in one order and in another one.  There is at most one place for
every axis of a point. -/
structure ReordersChildren (childPaths other : Path → List Path) : Prop where
  perm : ∀ path, (other path).Perm (childPaths path)
  unique : ∀ point axis, ∀ first ∈ childPaths point, ∀ second ∈ childPaths point,
    Coordinates.IsCoordinate point axis first → Coordinates.IsCoordinate point axis second →
      first = second

variable {childPaths other : Path → List Path}

/-- An operation says that it reads the same places, maybe in another order. -/
def Operation.ReadsReordered (childPaths other : Path → List Path) (operation : Operation) :
    Prop :=
  ∀ reads, operation.reads = some reads → ∀ place, (reads other place).Perm (reads childPaths place)

theorem ReordersChildren.places_eq (reorders : ReordersChildren childPaths other) (axes : List Axis)
    (point : Path) :
    Coordinates.places axes other point = Coordinates.places axes childPaths point := by
  have each : Coordinates.place? point (other point) =
      Coordinates.place? point (childPaths point) := by
    ext1 axis
    exact Coordinates.place?_eq_of_perm (reorders.perm point) (reorders.unique point axis)
  rw [Coordinates.places, Coordinates.places, each]

theorem ReordersChildren.readsReordered (reorders : ReordersChildren childPaths other) :
    ∀ operation ∈ Catalog.standard.operations.values,
      operation.ReadsReordered childPaths other := by
  have ofPoints (axes : List Axis) (place : Path) :
      (Coordinates.places axes other place).Perm (Coordinates.places axes childPaths place) := by
    rw [reorders.places_eq]
  apply Catalog.standard_cases
  case unary => rintro name apply reads ⟨⟩
  case binary => rintro name apply reads ⟨⟩
  case round => rintro reads ⟨⟩
  case coalesce => rintro reads ⟨⟩
  case aggregate => rintro name reduce reads ⟨⟩
  case count => rintro reads ⟨⟩
  case pointDistance =>
    rintro name axes reads ⟨⟩ place
    exact ofPoints axes place
  case truePosition =>
    rintro name axes reads ⟨⟩ place
    exact ofPoints axes place
  case grade =>
    rintro name reduce reads ⟨⟩ place
    exact reorders.perm place

/-- Some occurrences are those of another list, path by path. -/
def SameByPath (occurrences others : List Occurrence) : Prop :=
  ∀ path, occurrences.filter (fun occurrence => occurrence.path = path) =
    others.filter fun occurrence => occurrence.path = path

theorem SameByPath.refl (occurrences : List Occurrence) : SameByPath occurrences occurrences :=
  fun _ => rfl

theorem SameByPath.flatMap {Item : Type} {items : List Item}
    {occurrences others : Item → List Occurrence}
    (each : ∀ item ∈ items, SameByPath (occurrences item) (others item)) :
    SameByPath (items.flatMap occurrences) (items.flatMap others) := by
  intro path
  induction items with
  | nil => rfl
  | cons item items ih =>
      obtain ⟨first, rest⟩ := List.forall_mem_cons.1 each
      rw [List.flatMap_cons, List.flatMap_cons, List.filter_append, List.filter_append, first path,
        ih rest]

/-- Occurrences for one argument differ in their paths only, so for each path they are alike. -/
theorem sameByPath_map_spanning {paths others : List Path} (reordered : others.Perm paths)
    (source : String) (span : Span) :
    SameByPath (others.map fun path => .spanning source span ⟨path, none⟩)
      (paths.map fun path => .spanning source span ⟨path, none⟩) := by
  have alike (paths : List Path) (path : Path) :
      ((paths.map fun path => Occurrence.spanning source span ⟨path, none⟩).filter
        fun occurrence => occurrence.path = path) =
      List.replicate (paths.count path) (.spanning source span ⟨path, none⟩) := by
    induction paths with
    | nil => rfl
    | cons head paths ih =>
        rw [List.map_cons, List.filter_cons, ih, List.count_cons]
        by_cases here : head = path
        · simp [here, Occurrence.path, Occurrence.spanning, List.replicate_succ]
        · simp [here, Occurrence.path, Occurrence.spanning]
  intro path
  rw [alike, alike, reordered.count_eq]

namespace Expression

variable {catalog : Catalog} {tree : Expression}

theorem sameByPath_occurrences
    (reordered : ∀ operation ∈ catalog.operations.values,
      operation.ReadsReordered childPaths other)
    (isOver : tree.IsOver catalog) (source : String) :
    SameByPath (tree.occurrences other source) (tree.occurrences childPaths source) := by
  induction isOver with
  | number | constant | reference => exact .refl _
  | negate inner ih => exact ih
  | @call operation arguments span known each ih =>
      rw [occurrences, occurrences]
      cases declared : operation.reads with
      | none =>
          simp only [occurrencesInEach_eq_flatMap]
          exact .flatMap ih
      | some reads =>
          apply SameByPath.flatMap
          intro argument member
          unfold readOccurrences
          split
          · next place _ =>
              apply sameByPath_map_spanning
              exact reordered operation known reads declared place
          · exact .refl _

end Expression

theorem Dependencies.ofOccurrences_eq_of_sameByPath {occurrences others : List Occurrence}
    (same : SameByPath occurrences others) : ofOccurrences occurrences = ofOccurrences others := by
  apply eq_of_occurrences_eq
  intro path
  rw [occurrences_ofOccurrences, occurrences_ofOccurrences, same path]

namespace DependencyGraph

variable {graph other : DependencyGraph}

theorem traverse_eq_of_links? (same : ∀ path, other.links? path = graph.links? path)
    (scope : FaultScope) (origin : Path) (links : List DependencyLink) :
    other.traverse scope origin links = graph.traverse scope origin links := by
  apply traverse_congr
  intro _ path _ _
  exact same path

theorem traverseFrom_eq_of_links? (same : ∀ path, other.links? path = graph.links? path)
    (scope : FaultScope) (origin : Path) :
    other.traverseFrom scope origin = graph.traverseFrom scope origin := by
  simp only [traverseFrom, same, traverse_eq_of_links? same]

end DependencyGraph

/-- Two plans with the same formulas that list the places below each place in some order. -/
structure Plan.Reorders (plan other : Plan) : Prop where
  sameFormula : ∀ path, other.formula? path = plan.formula? path
  children : ReordersChildren plan.childPaths other.childPaths

namespace Dialect

variable {dialect : Dialect} {plan another : Plan} {text : String} {owner : Path}
  {formula : Formula}

theorem dependencies_eq_of_reorders (builtIn : dialect.catalog = .standard)
    (reorders : plan.Reorders another) (read : dialect.read text owner = .ok formula) :
    formula.dependencies another.childPaths = formula.dependencies plan.childPaths := by
  have isOver := (isOver_of_read read).1
  rw [builtIn] at isOver
  exact Dependencies.ofOccurrences_eq_of_sameByPath
    (Expression.sameByPath_occurrences reorders.children.readsReordered isOver formula.text)

theorem dependenciesAt_eq_of_reorders (builtIn : dialect.catalog = .standard)
    (reorders : plan.Reorders another) (path : Path) :
    dialect.dependenciesAt another path = dialect.dependenciesAt plan path := by
  simp only [dependenciesAt, reorders.sameFormula]
  cases plan.formula? path with
  | none => rfl
  | some text =>
      cases read : dialect.read text path with
      | error => simp [read, bind, Except.bind]
      | ok formula =>
          simp [read, bind, Except.bind, dependencies_eq_of_reorders builtIn reorders read]

/-- Everything that is asked about dependencies has the same answer, whichever order the places
below a place are listed in.  A fault has the same chain. -/
theorem dependencies_independent_of_order (builtIn : dialect.catalog = .standard)
    (reorders : plan.Reorders another) :
    (∀ text owner formula, dialect.read text owner = .ok formula →
      formula.dependencies another.childPaths = formula.dependencies plan.childPaths ∧
      dialect.checkAcyclic another formula = dialect.checkAcyclic plan formula ∧
      dialect.checkSelfReference another formula = dialect.checkSelfReference plan formula) ∧
    ∀ path, dialect.dependenciesAt another path = dialect.dependenciesAt plan path ∧
      dialect.discover another path = dialect.discover plan path ∧
      dialect.checkPlace another path = dialect.checkPlace plan path := by
  have sameLinks (path : Path) :
      (dialect.graph another).links? path = (dialect.graph plan).links? path := by
    simp only [graph, dependenciesAt_eq_of_reorders builtIn reorders]
  constructor
  · intro text owner formula read
    have same := dependencies_eq_of_reorders builtIn reorders read
    have traverses (scope : FaultScope) : dialect.traverseFormula another scope formula =
        dialect.traverseFormula plan scope formula := by
      rw [traverseFormula, traverseFormula, same, DependencyGraph.traverse_eq_of_links? sameLinks]
    refine ⟨same, ?_, ?_⟩
    · rw [checkAcyclic, checkAcyclic, traverses]
    · rw [checkSelfReference, checkSelfReference, traverses]
  · intro path
    refine ⟨dependenciesAt_eq_of_reorders builtIn reorders path, ?_, ?_⟩
    · exact DependencyGraph.traverseFrom_eq_of_links? sameLinks .everything path
    · rw [checkPlace, checkPlace, DependencyGraph.traverseFrom_eq_of_links? sameLinks]

theorem dependencies_of_reordered_point :
    ∃ (plan another : Plan) (text : String) (point owner : Path) (formula : Formula),
      text = "grade_max(\x7b/P\x7d) + position(\x7b/P\x7d)" ∧
      standard.catalog = .standard ∧ plan.Reorders another ∧
      another.childPaths point ≠ plan.childPaths point ∧ plan.formula? owner = some text ∧
      standard.read text owner = .ok formula ∧
      (formula.dependencies plan.childPaths).size = 3 ∧
      formula.dependencies another.childPaths = formula.dependencies plan.childPaths ∧
      standard.checkAcyclic another formula = standard.checkAcyclic plan formula ∧
      standard.discover another owner = standard.discover plan owner := by
  let text := "grade_max(\x7b/P\x7d) + position(\x7b/P\x7d)"
  let point : Path := ⟨[⟨.part, "P"⟩]⟩
  let owner := point.child ⟨.characteristic, "c"⟩
  let alongX := point.child ⟨.characteristic, "X"⟩
  let alongY := point.child ⟨.characteristic, "y"⟩
  let plan (children : List Path) : Plan :=
    { childPaths := fun path => if path = point then children else []
      formula? := fun path =>
        if path = owner then some text else if path = alongX then some "\x7bc\x7d" else none
      formulaPaths := [owner, alongX]
      mem_formulaPaths := by
        intro path formula known
        split at known
        · next here => simp [here]
        · split at known
          · next here => simp [here]
          · cases known }
  let ordered := plan [alongX, alongY, owner]
  let reordered := plan [owner, alongX, alongY]
  have reorders : ordered.Reorders reordered := by
    refine ⟨fun _ => rfl, fun path => ?_, fun path axis => ?_⟩
    · by_cases here : path = point
      · simp only [ordered, reordered, plan, here, if_true]
        decide +kernel
      · simp only [ordered, reordered, plan, here, if_false]
        exact .refl _
    · by_cases here : path = point
      · subst here
        simp only [ordered, plan, if_true]
        cases axis <;> decide +kernel
      · simp only [ordered, plan, here, if_false]
        exact List.forall_mem_nil _
  have accepted : (standard.read text owner).toOption.any
      (fun formula => (formula.dependencies ordered.childPaths).size == 3) = true := by
    decide +kernel
  obtain ⟨formula, read, three⟩ := exists_eq_ok_of_any accepted
  have builtIn : standard.catalog = .standard := rfl
  obtain ⟨ofFormula, ofPlace⟩ := dependencies_independent_of_order builtIn reorders
  obtain ⟨sameDependencies, sameCheck, -⟩ := ofFormula text owner formula read
  exact ⟨ordered, reordered, text, point, owner, formula, rfl, builtIn, reorders, by decide +kernel,
    by decide +kernel, read, eq_of_beq three, sameDependencies, sameCheck, (ofPlace owner).2.1⟩

end Dialect

end InspectionFormula
