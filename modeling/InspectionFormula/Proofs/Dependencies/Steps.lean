import InspectionFormula.Dependencies.Traversal
import InspectionFormula.Proofs.Dependencies.ValueEdge

/-!
# Steps of a traversal

A traversal goes on by leaving a place, by passing a dependency or by entering
one, and it fails at a dependency on its stack or at a malformed formula.  The
set of the places on the stack keeps to the stack, since it is changed with it.
What every step keeps holds when the traversal ends.
-/

namespace InspectionFormula

/-- Nothing is followed from the place, and this is no fault. -/
def DependencyGraph.IsLeaf (graph : DependencyGraph) (scope : FaultScope) (path : Path) : Prop :=
  graph.links? path = .ok none ∨
    scope ≠ .everything ∧ ∃ error, graph.links? path = .error error

theorem DependencyGraph.IsLeaf.not_valueEdge {graph : DependencyGraph} {scope : FaultScope}
    {path target : Path} (isLeaf : graph.IsLeaf scope path) : ¬ graph.ValueEdge path target := by
  rintro ⟨links, known, -⟩
  rcases isLeaf with none | ⟨-, error, malformed⟩
  · rw [known] at none
    cases none
  · rw [known] at malformed
    cases malformed

namespace Traversal

variable {graph : DependencyGraph} {before after : Traversal} {path target : Path}
  {link : DependencyLink} {pending : List DependencyLink} {outer : List Frame}
  {error : EvaluationError}

/-- The places on the stack from the origin on, and then the expanded ones, the last one first. -/
def order (traversal : Traversal) : List Path := traversal.chain ++ traversal.expanded

/-- A dependency that a traversal meets without following it. -/
def Passes (graph : DependencyGraph) (before : Traversal) (link : DependencyLink) : Prop :=
  link.attributeOnly = true ∨
    (link.path ∈ before.chain ∧ before.scope = .selfReference ∧ link.path ≠ before.origin) ∨
    link.path ∈ before.expanded ∨
    (link.path ∉ before.order ∧ graph.IsLeaf before.scope link.path)

/-- What a step leads to. -/
inductive Advances (graph : DependencyGraph) (before : Traversal) : Traversal → Prop where
  | leave {path : Path} {outer : List Frame} (stack : before.stack = ⟨path, []⟩ :: outer) :
      Advances graph before (before.leave path outer)
  | pass {path : Path} {link : DependencyLink} {pending : List DependencyLink}
      {outer : List Frame} (stack : before.stack = ⟨path, link :: pending⟩ :: outer)
      (passes : Passes graph before link) :
      Advances graph before (before.meet path pending outer link)
  | enter {path target : Path} {links pending : List DependencyLink} {outer : List Frame}
      (stack : before.stack = ⟨path, ⟨target, false⟩ :: pending⟩ :: outer)
      (fresh : target ∉ before.order) (known : graph.links? target = .ok (some links)) :
      Advances graph before ((before.meet path pending outer ⟨target, false⟩).enter target links)

/-- What a step fails with. -/
inductive Fails (graph : DependencyGraph) (before : Traversal) : EvaluationError → Prop where
  | circular {path target : Path} {pending : List DependencyLink} {outer : List Frame}
      (stack : before.stack = ⟨path, ⟨target, false⟩ :: pending⟩ :: outer)
      (closes : target ∈ before.chain)
      (counts : before.scope = .selfReference → target = before.origin) :
      Fails graph before (.circular ⟨before.origin, before.chain ++ [target]⟩)
  | malformed {path target : Path} {pending : List DependencyLink} {outer : List Frame}
      {error : SyntaxError} (stack : before.stack = ⟨path, ⟨target, false⟩ :: pending⟩ :: outer)
      (fresh : target ∉ before.order) (counts : before.scope = .everything)
      (unknown : graph.links? target = .error error) :
      Fails graph before (.malformed error)

/-- The set of the places on the stack has the places of the stack. -/
def Tracks (traversal : Traversal) : Prop :=
  traversal.onStack = traversal.stack.map Frame.path

theorem tracks_start (scope : FaultScope) (origin : Path) (links : List DependencyLink) :
    (start scope origin links).Tracks := rfl

theorem Tracks.mem_onStack_iff {traversal : Traversal} (tracks : traversal.Tracks) :
    path ∈ traversal.onStack ↔ path ∈ traversal.chain := by
  rw [tracks, chain, List.mem_reverse]

theorem Tracks.mem_chain_iff_isOnStack {traversal : Traversal} (tracks : traversal.Tracks) :
    path ∈ traversal.chain ↔ traversal.isOnStack path = true := by
  rw [← tracks.mem_onStack_iff, isOnStack, List.contains_iff_mem]

theorem mem_expanded_iff_isExpanded {traversal : Traversal} :
    path ∈ traversal.expanded ↔ traversal.isExpanded path = true := by
  simp [isExpanded]

theorem Tracks.not_mem_order_iff {traversal : Traversal} (tracks : traversal.Tracks) :
    path ∉ traversal.order ↔
      traversal.isOnStack path = false ∧ traversal.isExpanded path = false := by
  rw [order, List.mem_append, tracks.mem_chain_iff_isOnStack, mem_expanded_iff_isExpanded]
  simp

theorem chain_meet (stack : before.stack = ⟨path, link :: pending⟩ :: outer) :
    (before.meet path pending outer link).chain = before.chain := by
  simp [chain, meet, stack]

theorem order_meet (stack : before.stack = ⟨path, link :: pending⟩ :: outer) :
    (before.meet path pending outer link).order = before.order := by
  rw [order, chain_meet stack]
  rfl

theorem order_leave (stack : before.stack = ⟨path, []⟩ :: outer) :
    (before.leave path outer).order = before.order := by
  simp [order, chain, leave, stack]

theorem order_enter (traversal : Traversal) (path : Path) (links : List DependencyLink) :
    (traversal.enter path links).order = traversal.chain ++ path :: traversal.expanded := by
  simp [order, chain, enter]

theorem Advances.tracks (advances : Advances graph before after) (tracks : before.Tracks) :
    after.Tracks := by
  have same : before.onStack = before.stack.map Frame.path := tracks
  cases advances with
  | @leave path outer stack =>
      rw [stack, List.map_cons] at same
      change before.onStack.erase path = outer.map Frame.path
      rw [same, List.erase_cons_head]
  | pass stack passes =>
      rw [stack] at same
      exact same
  | @enter path target links pending outer stack fresh known =>
      have absent : target ∉ before.onStack := by
        rw [tracks.mem_onStack_iff]
        exact fun onChain => fresh (List.mem_append_left _ onChain)
      rw [stack] at same
      change before.onStack.insert target = target :: path :: outer.map Frame.path
      rw [List.insert_of_not_mem absent, same]
      rfl

/-- The result is one that a step may have. -/
def MayGive (graph : DependencyGraph) (before : Traversal) : TraversalStep → Prop
  | .next after => Advances graph before after
  | .done met => before.stack = [] ∧ met = before.met
  | .failed error => Fails graph before error

theorem mayGive_closeCycle (stack : before.stack = ⟨path, ⟨target, false⟩ :: pending⟩ :: outer)
    (closes : target ∈ before.chain) :
    MayGive graph before
      ((before.meet path pending outer ⟨target, false⟩).closeCycle target) := by
  unfold closeCycle
  split
  · next counts => exact .pass stack (.inr (.inl ⟨closes, counts⟩))
  · next counts =>
      rw [chain_meet stack]
      refine .circular stack closes ?_
      intro selfReference
      by_contra other
      exact counts ⟨selfReference, other⟩

theorem mayGive_follow (stack : before.stack = ⟨path, ⟨target, false⟩ :: pending⟩ :: outer)
    (fresh : target ∉ before.order) :
    MayGive graph before
      (follow graph (before.meet path pending outer ⟨target, false⟩) target) := by
  have pass (isLeaf : graph.IsLeaf before.scope target) :
      MayGive graph before (.next (before.meet path pending outer ⟨target, false⟩)) :=
    .pass stack (.inr (.inr (.inr ⟨fresh, isLeaf⟩)))
  unfold follow
  split
  · next none => exact pass (.inl none)
  · next links known => exact .enter stack fresh known
  · next error unknown =>
      split
      · next counts => exact .malformed stack fresh counts unknown
      · next counts => exact pass (.inr ⟨counts, error, unknown⟩)

theorem mayGive_consider (tracks : before.Tracks)
    (stack : before.stack = ⟨path, link :: pending⟩ :: outer) :
    MayGive graph before (consider graph (before.meet path pending outer link) link) := by
  obtain ⟨target, attributeOnly⟩ := link
  cases attributeOnly with
  | true => exact .pass stack (.inl rfl)
  | false =>
      simp only [consider, Bool.false_eq_true, if_false]
      split
      · next onStack => exact mayGive_closeCycle stack (tracks.mem_chain_iff_isOnStack.2 onStack)
      · next offStack =>
          split
          · next isExpanded =>
              exact .pass stack (.inr (.inr (.inl (mem_expanded_iff_isExpanded.2 isExpanded))))
          · next unexpanded =>
              apply mayGive_follow stack
              rw [tracks.not_mem_order_iff]
              exact ⟨eq_false_of_ne_true offStack, eq_false_of_ne_true unexpanded⟩

theorem mayGive_step (graph : DependencyGraph) (tracks : before.Tracks) :
    MayGive graph before (step graph before) := by
  unfold step
  split
  · next stack => exact ⟨stack, rfl⟩
  · next path outer stack => exact .leave stack
  · next path link pending outer stack => exact mayGive_consider tracks stack

theorem advances_of_next (tracks : before.Tracks) (next : step graph before = .next after) :
    Advances graph before after := by
  have mayGive := mayGive_step graph tracks
  rwa [next] at mayGive

/-- What a traversal has at its start and keeps in every step, it has when it ends or fails. -/
theorem run_cases {kept : Traversal → Prop}
    (advance : ∀ before after, kept before → Advances graph before after → kept after)
    {start : Traversal} (tracks : start.Tracks) (atStart : kept start) :
    (∃ last, kept last ∧ last.stack = [] ∧ run graph start = .ok last.met) ∨
      ∃ last error, kept last ∧ Fails graph last error ∧ run graph start = .error error := by
  induction start using run.induct graph with
  | case1 before after next ih =>
      have advances := advances_of_next tracks next
      rw [run_eq, next]
      exact ih (advances.tracks tracks) (advance before after atStart advances)
  | case2 before met done =>
      have ended := mayGive_step graph tracks
      rw [done] at ended
      obtain ⟨stack, rfl⟩ := ended
      left
      rw [run_eq, done]
      exact ⟨before, atStart, stack, rfl⟩
  | case3 before error failed =>
      have fails := mayGive_step graph tracks
      rw [failed] at fails
      right
      rw [run_eq, failed]
      exact ⟨before, error, atStart, fails, rfl⟩

end Traversal

end InspectionFormula
