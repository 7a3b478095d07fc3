import InspectionFormula.Dependencies.Basic

/-!
# Following dependencies

A traversal follows dependencies depth first from a place of origin.  Its stack
is the chain of places that are being expanded, each with the dependencies that
it has yet to look at, and the places on it are kept as a set too.  A dependency
that is in this set closes a cycle.  A place is expanded at most once, since it
is on the stack or done with from then on.

Every step uses up a dependency, leaves a place, or expands one for the first
time.  The steps that are still to be taken are therefore bounded by the pending
dependencies and by the dependencies of the places not yet expanded, and every
step lowers that bound.
-/

namespace InspectionFormula

/-- What a traversal takes for a fault. -/
inductive FaultScope where
  | everything
  | cycles
  /-- A cycle through the place where the traversal starts. -/
  | selfReference
deriving DecidableEq

/-- A place that is being expanded and its dependencies to come. -/
structure Frame where
  path : Path
  pending : List DependencyLink

structure Traversal where
  origin : Path
  scope : FaultScope
  /-- The places that are being expanded, the last one first. -/
  stack : List Frame
  /-- The same places, as a set. -/
  onStack : List Path
  expanded : List Path
  met : PathSet

inductive TraversalStep where
  | next (traversal : Traversal)
  | done (met : PathSet)
  | failed (error : EvaluationError)

namespace Traversal

/-- The chain of places that are being expanded, from the origin on. -/
def chain (traversal : Traversal) : List Path := (traversal.stack.map Frame.path).reverse

def isOnStack (traversal : Traversal) (path : Path) : Bool := traversal.onStack.contains path

def isExpanded (traversal : Traversal) (path : Path) : Bool := traversal.expanded.contains path

/-- The traversal once it has met a dependency, with the rest of its dependencies to come. -/
def meet (traversal : Traversal) (path : Path) (pending : List DependencyLink) (outer : List Frame)
    (link : DependencyLink) : Traversal :=
  { traversal with
    stack := ⟨path, pending⟩ :: outer
    met := traversal.met.insert link.path }

def enter (traversal : Traversal) (path : Path) (links : List DependencyLink) : Traversal :=
  { traversal with
    stack := ⟨path, links⟩ :: traversal.stack
    onStack := traversal.onStack.insert path }

/-- The traversal once the last place on its stack has been expanded. -/
def leave (traversal : Traversal) (path : Path) (outer : List Frame) : Traversal :=
  { traversal with
    stack := outer
    onStack := traversal.onStack.erase path
    expanded := path :: traversal.expanded }

/-- The traversal that has entered its origin. -/
def start (scope : FaultScope) (origin : Path) (links : List DependencyLink) : Traversal :=
  enter ⟨origin, scope, [], [], [], .empty⟩ origin links

/-- What a dependency on the stack comes to: a cycle, unless only cycles through the origin count.
-/
def closeCycle (traversal : Traversal) (path : Path) : TraversalStep :=
  if traversal.scope = .selfReference ∧ path ≠ traversal.origin then .next traversal
  else .failed (.circular ⟨traversal.origin, traversal.chain ++ [path]⟩)

def follow (graph : DependencyGraph) (traversal : Traversal) (path : Path) : TraversalStep :=
  match graph.links? path with
  | .ok none => .next traversal
  | .ok (some links) => .next (traversal.enter path links)
  | .error error =>
      if traversal.scope = .everything then .failed (.malformed error) else .next traversal

def consider (graph : DependencyGraph) (traversal : Traversal) (link : DependencyLink) :
    TraversalStep :=
  if link.attributeOnly then .next traversal
  else if traversal.isOnStack link.path then traversal.closeCycle link.path
  else if traversal.isExpanded link.path then .next traversal
  else follow graph traversal link.path

/-- One step of a traversal: it meets the next dependency of the last place on the stack, or
leaves that place. -/
def step (graph : DependencyGraph) (traversal : Traversal) : TraversalStep :=
  match traversal.stack with
  | [] => .done traversal.met
  | ⟨path, []⟩ :: outer => .next (traversal.leave path outer)
  | ⟨path, link :: pending⟩ :: outer =>
      consider graph (traversal.meet path pending outer link) link

def isFresh (traversal : Traversal) (path : Path) : Bool :=
  !traversal.isOnStack path && !traversal.isExpanded path

/-- The steps that expanding a place adds to a traversal. -/
def expansionWork (graph : DependencyGraph) (path : Path) : Nat :=
  match graph.links? path with
  | .ok (some links) => links.length + 2
  | _ => 0

def totalWork {Item : Type} (weight : Item → Nat) (items : List Item) : Nat :=
  items.foldr (fun item total => weight item + total) 0

@[simp] theorem totalWork_cons {Item : Type} (weight : Item → Nat) (first : Item)
    (rest : List Item) : totalWork weight (first :: rest) = weight first + totalWork weight rest :=
  rfl

/-- The steps for the places still to be expanded. -/
def freshWork (graph : DependencyGraph) (traversal : Traversal) : Nat :=
  totalWork (expansionWork graph) (graph.formulaPaths.filter traversal.isFresh)

def stackWork (traversal : Traversal) : Nat :=
  totalWork (fun frame => frame.pending.length + 1) traversal.stack

/-- A bound on the steps still to be taken. -/
def work (graph : DependencyGraph) (traversal : Traversal) : Nat :=
  freshWork graph traversal + stackWork traversal

private theorem totalWork_filter_le (weight : Path → Nat) {few many : Path → Bool}
    (fewer : ∀ path, few path → many path) (paths : List Path) :
    totalWork weight (paths.filter few) ≤ totalWork weight (paths.filter many) := by
  induction paths with
  | nil => exact Nat.le_refl _
  | cons first rest ih =>
      cases old : few first <;> cases new : many first <;> simp [old, new] <;> try omega
      exact absurd (fewer first old) (by simp [new])

private theorem totalWork_filter_add_le (weight : Path → Nat) {few many : Path → Bool} {path : Path}
    (fewer : ∀ path, few path → many path) (kept : many path) (dropped : few path = false)
    {paths : List Path} (listed : path ∈ paths) :
    totalWork weight (paths.filter few) + weight path ≤ totalWork weight (paths.filter many) := by
  induction paths with
  | nil => simp at listed
  | cons first rest ih =>
      rcases List.mem_cons.1 listed with rfl | later
      · have := totalWork_filter_le weight fewer rest
        simp [kept, dropped]
        omega
      · have := ih later
        cases old : few first <;> cases new : many first <;> simp [old, new] <;> try omega
        exact absurd (fewer first old) (by simp [new])

theorem work_meet {graph : DependencyGraph} {traversal : Traversal} {path : Path}
    {pending : List DependencyLink} {outer : List Frame} {link : DependencyLink}
    (stack : traversal.stack = ⟨path, link :: pending⟩ :: outer) :
    work graph (traversal.meet path pending outer link) + 1 = work graph traversal := by
  have same : freshWork graph (traversal.meet path pending outer link) =
      freshWork graph traversal := by
    rfl
  have shorter : stackWork (traversal.meet path pending outer link) + 1 =
      stackWork traversal := by
    simp only [stackWork, stack, meet, totalWork_cons, List.length_cons]
    omega
  simp only [work, same]
  omega

theorem work_enter_lt {graph : DependencyGraph} {traversal : Traversal} {path : Path}
    {links : List DependencyLink} (known : graph.links? path = .ok (some links))
    (fresh : traversal.isFresh path) :
    work graph (traversal.enter path links) < work graph traversal := by
  have fewer : ∀ other, (traversal.enter path links).isFresh other →
      traversal.isFresh other := by
    intro other
    simp only [isFresh, isOnStack, isExpanded, enter, Bool.and_eq_true, Bool.not_eq_true',
      List.contains_eq_mem, decide_eq_false_iff_not, List.mem_insert_iff, not_or]
    exact fun ⟨⟨_, outside⟩, unexpanded⟩ => ⟨outside, unexpanded⟩
  have dropped : (traversal.enter path links).isFresh path = false := by
    simp [isFresh, isOnStack, enter, List.mem_insert_iff]
  have bound := totalWork_filter_add_le (expansionWork graph) fewer fresh dropped
    (graph.mem_formulaPaths known)
  simp only [expansionWork, known] at bound
  simp only [work, freshWork, stackWork, enter, totalWork_cons] at bound ⊢
  omega

theorem work_leave_lt {graph : DependencyGraph} {traversal : Traversal} {path : Path}
    {outer : List Frame} (stack : traversal.stack = ⟨path, []⟩ :: outer) :
    work graph (traversal.leave path outer) < work graph traversal := by
  have fewer : ∀ other, (traversal.leave path outer).isFresh other →
      traversal.isFresh other := by
    intro other
    simp only [leave, isFresh, isOnStack, isExpanded, Bool.and_eq_true, Bool.not_eq_true',
      List.contains_eq_mem, decide_eq_false_iff_not, List.mem_cons, not_or]
    rintro ⟨outside, different, unexpanded⟩
    exact ⟨fun member => outside ((List.mem_erase_of_ne different).2 member), unexpanded⟩
  have bound := totalWork_filter_le (expansionWork graph) fewer graph.formulaPaths
  have shorter : stackWork (traversal.leave path outer) + 1 = stackWork traversal := by
    simp only [stackWork, stack, leave, totalWork_cons, List.length_nil]
    omega
  simp only [work, freshWork] at bound ⊢
  omega

theorem eq_of_closeCycle {before after : Traversal} {path : Path}
    (next : before.closeCycle path = .next after) : after = before := by
  unfold closeCycle at next
  split at next
  · cases next
    rfl
  · cases next

/-- A dependency that is followed leaves the traversal as it is, or is expanded for the first time.
-/
theorem consider_eq_next {graph : DependencyGraph} {before after : Traversal}
    {link : DependencyLink} (next : consider graph before link = .next after) :
    after = before ∨ ∃ links,
      graph.links? link.path = .ok (some links) ∧
        before.isFresh link.path ∧ after = before.enter link.path links := by
  unfold consider at next
  split at next
  · cases next
    exact .inl rfl
  · split at next
    · exact .inl (eq_of_closeCycle next)
    · next outside =>
      split at next
      · cases next
        exact .inl rfl
      · next unexpanded =>
        unfold follow at next
        split at next
        · cases next
          exact .inl rfl
        · next links known =>
          cases next
          exact .inr ⟨links, known, by simp [isFresh, outside, unexpanded], rfl⟩
        · split at next
          · cases next
          · cases next
            exact .inl rfl

theorem work_lt_of_step {graph : DependencyGraph} {before after : Traversal}
    (next : step graph before = .next after) : work graph after < work graph before := by
  unfold step at next
  split at next
  · cases next
  · next path outer stack =>
    cases next
    exact work_leave_lt stack
  · next path link pending outer stack =>
    have met : work graph (before.meet path pending outer link) + 1 = work graph before :=
      work_meet stack
    rcases consider_eq_next next with rfl | ⟨links, known, fresh, rfl⟩
    · omega
    · have := work_enter_lt known fresh
      omega

/-- The outcome of a traversal: all dependencies that it meets, or the first fault. -/
def run (graph : DependencyGraph) (traversal : Traversal) : Except EvaluationError PathSet :=
  match _stepped : step graph traversal with
  | .next after => run graph after
  | .done met => .ok met
  | .failed error => .error error
termination_by work graph traversal
decreasing_by exact work_lt_of_step _stepped

/-- Running a traversal is taking a step and going on from there. -/
theorem run_eq (graph : DependencyGraph) (traversal : Traversal) :
    run graph traversal =
      match step graph traversal with
      | .next after => run graph after
      | .done met => .ok met
      | .failed error => .error error := by
  rw [run]
  split <;> simp_all

end Traversal

namespace DependencyGraph

def traverse (graph : DependencyGraph) (scope : FaultScope) (origin : Path)
    (links : List DependencyLink) : Except EvaluationError PathSet :=
  Traversal.run graph (.start scope origin links)

/-- The traversal from a place by its own formula. -/
def traverseFrom (graph : DependencyGraph) (scope : FaultScope) (origin : Path) :
    Except EvaluationError PathSet :=
  match graph.links? origin with
  | .ok none => .ok .empty
  | .ok (some links) => graph.traverse scope origin links
  | .error error => if scope = .everything then .error (.malformed error) else .ok .empty

end DependencyGraph

namespace Dialect

/-- All paths that a place depends on, directly or through other formulas, or the first fault. -/
def discover (dialect : Dialect) (plan : Plan) (path : Path) :
    Except EvaluationError PathSet :=
  (dialect.graph plan).traverseFrom .everything path

def discoverOrNone (dialect : Dialect) (plan : Plan) (path : Path) : PathSet :=
  (dialect.discover plan path).toOption.getD .empty

/-- Fails if a place reaches a cycle.  A malformed formula is taken to depend on nothing. -/
def checkPlace (dialect : Dialect) (plan : Plan) (path : Path) : Except EvaluationError Unit :=
  ((dialect.graph plan).traverseFrom .cycles path).map fun _ => ()

/-- The traversal from the owner of a formula, by the formula itself. -/
def traverseFormula (dialect : Dialect) (plan : Plan) (scope : FaultScope) (formula : Formula) :
    Except EvaluationError PathSet :=
  (dialect.graph plan).traverse scope formula.owner (formula.dependencies plan.childPaths).links

def checkAcyclic (dialect : Dialect) (plan : Plan) (formula : Formula) :
    Except EvaluationError Unit :=
  (dialect.traverseFormula plan .cycles formula).map fun _ => ()

/-- Fails if a formula reaches its own owner. -/
def checkSelfReference (dialect : Dialect) (plan : Plan) (formula : Formula) :
    Except EvaluationError Unit :=
  (dialect.traverseFormula plan .selfReference formula).map fun _ => ()

end Dialect

end InspectionFormula
