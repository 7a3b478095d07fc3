import InspectionFormula.Dialect
import InspectionFormula.Path.Set
import InspectionFormula.Plan.Store

/-!
# What a formula depends on

A reference in a formula is one occurrence of its path.  An operation that reads
places other than those its arguments refer to has an occurrence for each of
them instead, over the argument.  A formula depends on the paths that occur in
it, in order, each with its occurrences from left to right.  A path of which
only attributes are read is a dependency whose value does not count.

The places of a plan depend on each other through their formulas.  A place
without a formula depends on nothing, and what a malformed formula depends on is
not known.
-/

namespace InspectionFormula

/-- One place in a formula that depends on a path. -/
structure Occurrence where
  reference : Reference
  span : Span
  /-- The formula's text at the span. -/
  raw : String
deriving DecidableEq

namespace Occurrence

def path (occurrence : Occurrence) : Path := occurrence.reference.path

def spanning (source : String) (span : Span) (reference : Reference) : Occurrence :=
  ⟨reference, span, span.cut source⟩

end Occurrence

namespace Expression

/-- The occurrences for an argument whose operation reads other places. -/
def readOccurrences (source : String) (reads : Path → List Path) (argument : Expression) :
    List Occurrence :=
  match argument.shape.place? with
  | some place => (reads place).map fun path => .spanning source argument.span ⟨path, none⟩
  | none => []

mutual

/-- All occurrences in an expression, from left to right. -/
def occurrences (childPaths : Path → List Path) (source : String) :
    Expression → List Occurrence
  | number _ _ | constant _ _ | literal _ _ => []
  | reference target span => [.spanning source span target]
  | negate operand _ => operand.occurrences childPaths source
  | call operation arguments _ =>
      match operation.reads with
      | some reads => arguments.flatMap (readOccurrences source (reads childPaths))
      | none => occurrencesInEach childPaths source arguments

def occurrencesInEach (childPaths : Path → List Path) (source : String) :
    List Expression → List Occurrence
  | [] => []
  | first :: rest =>
      first.occurrences childPaths source ++ occurrencesInEach childPaths source rest

end

end Expression

structure Dependencies where
  entries : List (Path × List Occurrence)
  rising : RisingPaths (entries.map Prod.fst)
  occurring : ∀ entry ∈ entries,
    entry.2 ≠ [] ∧ ∀ occurrence ∈ entry.2, occurrence.path = entry.1
deriving DecidableEq

/-- A path that a formula depends on, by its value or by attributes only. -/
structure DependencyLink where
  path : Path
  attributeOnly : Bool
deriving DecidableEq

namespace Dependencies

def empty : Dependencies := ⟨[], risingPaths_nil, List.forall_mem_nil _⟩

def insertIn (occurrence : Occurrence) :
    List (Path × List Occurrence) → List (Path × List Occurrence)
  | [] => [(occurrence.path, [occurrence])]
  | (path, earlier) :: rest =>
      match compare occurrence.path path with
      | .lt => (occurrence.path, [occurrence]) :: (path, earlier) :: rest
      | .eq => (path, earlier ++ [occurrence]) :: rest
      | .gt => (path, earlier) :: insertIn occurrence rest

theorem map_fst_insertIn (occurrence : Occurrence) (entries : List (Path × List Occurrence)) :
    (insertIn occurrence entries).map Prod.fst =
      PathSet.insertIn occurrence.path (entries.map Prod.fst) := by
  induction entries with
  | nil => rfl
  | cons entry rest ih =>
      obtain ⟨path, earlier⟩ := entry
      simp only [insertIn, List.map_cons, PathSet.insertIn]
      cases compare occurrence.path path <;> simp [ih]

theorem occurring_insertIn (occurrence : Occurrence) {entries : List (Path × List Occurrence)}
    (occurring : ∀ entry ∈ entries,
      entry.2 ≠ [] ∧ ∀ occurrence ∈ entry.2, occurrence.path = entry.1) :
    ∀ entry ∈ insertIn occurrence entries,
      entry.2 ≠ [] ∧ ∀ occurrence ∈ entry.2, occurrence.path = entry.1 := by
  induction entries with
  | nil => simp [insertIn]
  | cons entry rest ih =>
      obtain ⟨path, earlier⟩ := entry
      obtain ⟨here, later⟩ := List.forall_mem_cons.1 occurring
      simp only [insertIn]
      split
      · exact List.forall_mem_cons.2 ⟨by simp, occurring⟩
      · next same =>
        refine List.forall_mem_cons.2 ⟨⟨by simp, ?_⟩, later⟩
        intro other member
        rcases List.mem_append.1 member with old | new
        · exact here.2 other old
        · rw [List.mem_singleton.1 new]
          exact Std.LawfulEqOrd.eq_of_compare same
      · exact List.forall_mem_cons.2 ⟨here, ih later⟩

/-- The dependencies with one more occurrence, after the earlier ones of the same path. -/
def insert (dependencies : Dependencies) (occurrence : Occurrence) : Dependencies where
  entries := insertIn occurrence dependencies.entries
  rising := by
    rw [map_fst_insertIn]
    exact PathSet.rising_insertIn occurrence.path dependencies.rising
  occurring := occurring_insertIn occurrence dependencies.occurring

def ofOccurrences (occurrences : List Occurrence) : Dependencies :=
  occurrences.foldl insert empty

def size (dependencies : Dependencies) : Nat := dependencies.entries.length

def paths (dependencies : Dependencies) : List Path := dependencies.entries.map Prod.fst

def occurrences (dependencies : Dependencies) (path : Path) : List Occurrence :=
  ((dependencies.entries.find? fun entry => entry.1 = path).map Prod.snd).getD []

def contains (dependencies : Dependencies) (path : Path) : Bool :=
  dependencies.paths.contains path

/-- Whether every one of some occurrences reads an attribute. -/
def readAttributes (occurrences : List Occurrence) : Bool :=
  occurrences.all fun occurrence => occurrence.reference.key.isSome

/-- Whether the formula depends on a path, and on its attributes only. -/
def isAttributeOnly (dependencies : Dependencies) (path : Path) : Bool :=
  dependencies.contains path && readAttributes (dependencies.occurrences path)

def links (dependencies : Dependencies) : List DependencyLink :=
  dependencies.entries.map fun entry => ⟨entry.1, readAttributes entry.2⟩

theorem map_path_links (dependencies : Dependencies) :
    dependencies.links.map DependencyLink.path = dependencies.paths := by
  simp [links, paths]

end Dependencies

def Formula.dependencies (formula : Formula) (childPaths : Path → List Path) : Dependencies :=
  .ofOccurrences (formula.root.occurrences childPaths formula.text)

/-- The direct dependencies of all places. -/
structure DependencyGraph where
  /-- The dependencies of a place, none if it has no formula. -/
  links? : Path → Reading (Option (List DependencyLink))
  formulaPaths : List Path
  mem_formulaPaths : ∀ {path : Path} {links : List DependencyLink},
    links? path = .ok (some links) → path ∈ formulaPaths

namespace Dialect

def dependenciesAt (dialect : Dialect) (plan : Plan) (path : Path) :
    Reading (Option Dependencies) :=
  match plan.formula? path with
  | none => .ok none
  | some text => do
      let formula ← dialect.read text path
      return some (formula.dependencies plan.childPaths)

def graph (dialect : Dialect) (plan : Plan) : DependencyGraph where
  links? path := (dialect.dependenciesAt plan path).map (Option.map Dependencies.links)
  formulaPaths := plan.formulaPaths
  mem_formulaPaths {path links} known := by
    cases formula : plan.formula? path with
    | none => simp [dependenciesAt, formula, Except.map] at known
    | some text => exact plan.mem_formulaPaths formula

end Dialect

end InspectionFormula
