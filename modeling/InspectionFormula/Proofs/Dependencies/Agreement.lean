import InspectionFormula.Proofs.Dependencies.Cycles

/-!
# Plans that agree

A traversal looks at no other places than those to which value edges lead from
its links.  On plans that agree there it takes the same steps, and it finds the
same dependencies or fails with the same fault.  A formula that passes on a plan
passes on a plan with fewer formulas.
-/

namespace InspectionFormula

namespace Traversal

variable {graph other : DependencyGraph} {before after : Traversal} {seen : Path → Prop}

/-- The places on the stack have only such places to look at. -/
def LooksWithin (seen : Path → Prop) (traversal : Traversal) : Prop :=
  ∀ source target, traversal.Awaits source target → seen target

theorem LooksWithin.advance (closed : ∀ path target, seen path → graph.ValueEdge path target →
      seen target) (within : before.LooksWithin seen) (advances : Advances graph before after) :
    after.LooksWithin seen := by
  intro source target awaits
  cases advances with
  | leave stack => exact within source target ((awaits_leave_iff stack).1 awaits)
  | pass stack passes => exact within source target ((awaits_iff_meet stack).2 (.inl awaits))
  | @enter path entered links _ _ stack fresh known =>
      rcases awaits_enter_meet_iff.1 awaits with ⟨rfl, member⟩ | awaits
      · exact closed source target (within path source (awaits_first stack)) ⟨links, known, member⟩
      · exact within source target ((awaits_iff_meet stack).2 (.inl awaits))

theorem step_congr (agree : ∀ path, seen path → other.links? path = graph.links? path)
    (within : before.LooksWithin seen) : step other before = step graph before := by
  unfold step
  split
  · rfl
  · rfl
  · next path link pending outer stack =>
      obtain ⟨target, attributeOnly⟩ := link
      cases attributeOnly with
      | true => rfl
      | false =>
          have same := agree target (within path target (awaits_first stack))
          simp only [consider, follow, same]

theorem run_congr (agree : ∀ path, seen path → other.links? path = graph.links? path)
    (closed : ∀ path target, seen path → graph.ValueEdge path target → seen target)
    {start : Traversal} (tracks : start.Tracks) (within : start.LooksWithin seen) :
    run other start = run graph start := by
  induction start using run.induct graph with
  | case1 before after next ih =>
      have advances := advances_of_next tracks next
      rw [run_eq, run_eq graph, step_congr agree within, next]
      exact ih (advances.tracks tracks) (within.advance closed advances)
  | case2 before met done => rw [run_eq, run_eq graph, step_congr agree within, done]
  | case3 before error failed => rw [run_eq, run_eq graph, step_congr agree within, failed]

end Traversal

theorem DependencyGraph.traverse_congr {graph other : DependencyGraph}
    {links : List DependencyLink} (scope : FaultScope) (origin : Path)
    (agree : ∀ first path, ⟨first, false⟩ ∈ links → graph.Reaches first path →
      other.links? path = graph.links? path) :
    other.traverse scope origin links = graph.traverse scope origin links := by
  let seen (path : Path) : Prop := ∃ first, ⟨first, false⟩ ∈ links ∧ graph.Reaches first path
  have closed : ∀ path target, seen path → graph.ValueEdge path target → seen target := by
    rintro path target ⟨first, member, reaches⟩ edge
    exact ⟨first, member, reaches.tail edge⟩
  have within : (Traversal.start scope origin links).LooksWithin seen := by
    rintro source target ⟨frame, onStack, -, member⟩
    cases List.mem_singleton.1 onStack
    exact ⟨target, member, .refl⟩
  refine Traversal.run_congr ?_ closed (Traversal.tracks_start scope origin links) within
  rintro path ⟨first, member, reaches⟩
  exact agree first path member reaches

/-- The value of the formula depends on the value of the place, directly or through formulas of the
plan. -/
def Formula.ReachesValue (formula : Formula) (dialect : Dialect) (plan : Plan) (path : Path) :
    Prop :=
  ∃ first, formula.DependsOnValue plan first ∧ dialect.Reaches plan first path

namespace Dialect

variable {dialect : Dialect} {plan other : Plan} {formula : Formula}
  (sameChildren : other.childPaths = plan.childPaths)
include sameChildren

theorem links?_graph_congr {path : Path} (same : other.formula? path = plan.formula? path) :
    (dialect.graph other).links? path = (dialect.graph plan).links? path := by
  simp only [graph, dependenciesAt, same, sameChildren]

variable (same : ∀ path, formula.ReachesValue dialect plan path →
  other.formula? path = plan.formula? path)
include same

theorem traverseFormula_congr (scope : FaultScope) :
    dialect.traverseFormula other scope formula = dialect.traverseFormula plan scope formula := by
  rw [traverseFormula, traverseFormula, sameChildren]
  apply DependencyGraph.traverse_congr
  intro first path member reaches
  rw [reaches_graph] at reaches
  exact links?_graph_congr sameChildren
    (same path ⟨first, Dependencies.mem_links_iff.1 member, reaches⟩)

theorem checkAcyclic_congr :
    dialect.checkAcyclic other formula = dialect.checkAcyclic plan formula := by
  rw [checkAcyclic, checkAcyclic, traverseFormula_congr sameChildren same]

theorem checkSelfReference_congr :
    dialect.checkSelfReference other formula = dialect.checkSelfReference plan formula := by
  rw [checkSelfReference, checkSelfReference, traverseFormula_congr sameChildren same]

end Dialect

section Fewer

variable {dialect : Dialect} {plan other : Plan} {formula : Formula} {path target : Path}
  (sameChildren : other.childPaths = plan.childPaths)
  (fewer : ∀ path text, other.formula? path = some text → plan.formula? path = some text)
include sameChildren fewer

namespace Dialect

theorem valueEdge_of_fewer (edge : dialect.ValueEdge other path target) :
    dialect.ValueEdge plan path target := by
  obtain ⟨text, nested, known, read, dependsOnValue⟩ := edge
  rw [Formula.DependsOnValue, sameChildren] at dependsOnValue
  exact ⟨text, nested, fewer path text known, read, dependsOnValue⟩

theorem reaches_of_fewer (reaches : dialect.Reaches other path target) :
    dialect.Reaches plan path target :=
  Relation.ReflTransGen.mono (fun _ _ => valueEdge_of_fewer sameChildren fewer) _ _ reaches

theorem onCycle_of_fewer (onCycle : dialect.OnCycle other path) : dialect.OnCycle plan path :=
  Relation.TransGen.mono (fun _ _ => valueEdge_of_fewer sameChildren fewer) _ _ onCycle

theorem reachesCycle_of_fewer (reachesCycle : dialect.ReachesCycle other path) :
    dialect.ReachesCycle plan path := by
  obtain ⟨place, reaches, onCycle⟩ := reachesCycle
  exact ⟨place, reaches_of_fewer sameChildren fewer reaches,
    onCycle_of_fewer sameChildren fewer onCycle⟩

theorem checkAcyclic_of_fewer (passes : dialect.checkAcyclic plan formula = .ok ()) :
    dialect.checkAcyclic other formula = .ok () := by
  rw [(dialect.detects_checkAcyclic other formula).eq_ok_iff]
  rw [(dialect.detects_checkAcyclic plan formula).eq_ok_iff] at passes
  rintro ⟨first, dependsOnValue, leads⟩
  rw [Formula.DependsOnValue, sameChildren] at dependsOnValue
  refine passes ⟨first, dependsOnValue, ?_⟩
  rcases leads with back | reachesCycle
  · exact .inl (reaches_of_fewer sameChildren fewer back)
  · exact .inr (reachesCycle_of_fewer sameChildren fewer reachesCycle)

theorem checkSelfReference_of_fewer (passes : dialect.checkSelfReference plan formula = .ok ()) :
    dialect.checkSelfReference other formula = .ok () := by
  rw [(dialect.detects_checkSelfReference other formula).eq_ok_iff]
  rw [(dialect.detects_checkSelfReference plan formula).eq_ok_iff] at passes
  rintro ⟨first, dependsOnValue, back⟩
  rw [Formula.DependsOnValue, sameChildren] at dependsOnValue
  exact passes ⟨first, dependsOnValue, reaches_of_fewer sameChildren fewer back⟩

end Dialect

end Fewer

end InspectionFormula
