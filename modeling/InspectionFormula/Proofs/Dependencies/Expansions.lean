import InspectionFormula.Proofs.Evaluation.Nesting

/-!
# What a traversal expands

A traversal expands the place where it starts and then, at some of its steps, a
place with a formula that it has not expanded before.  No place is expanded
twice, so there are at most as many expansions as there are formulas and one
more, however many cycles the formulas close.
-/

namespace InspectionFormula

/-- What a traversal comes to at a step that is its last one. -/
def TraversalStep.outcome? : TraversalStep → Option (Except EvaluationError PathSet)
  | next _ => none
  | done met => some (.ok met)
  | failed error => some (.error error)

namespace Traversal

variable {graph : DependencyGraph} {before after start state : Traversal} {origin : Path}
  {places : Finset Path}

/-- The states that a run goes through, from the given one on. -/
def states (graph : DependencyGraph) (traversal : Traversal) : List Traversal :=
  match _stepped : step graph traversal with
  | .next after => traversal :: states graph after
  | .done _ | .failed _ => [traversal]
termination_by work graph traversal
decreasing_by exact work_lt_of_step _stepped

theorem states_eq_of_next (next : step graph before = .next after) :
    states graph before = before :: states graph after := by
  rw [states]
  split <;> simp_all

section LastState

variable {outcome : Except EvaluationError PathSet}
  (ends : (step graph before).outcome? = some outcome)
include ends

theorem states_eq_of_outcome : states graph before = [before] := by
  rw [states]
  split
  · next after stepped =>
      rw [stepped] at ends
      cases ends
  · rfl
  · rfl

theorem run_eq_of_outcome : run graph before = outcome := by
  rw [run_eq]
  split
  · next after stepped =>
      rw [stepped] at ends
      cases ends
  · next met stepped =>
      rw [stepped] at ends
      exact Option.some.inj ends
  · next error stepped =>
      rw [stepped] at ends
      exact Option.some.inj ends

end LastState

theorem head?_states (graph : DependencyGraph) (traversal : Traversal) :
    (states graph traversal).head? = some traversal := by
  rw [states]
  split <;> rfl

/-- The place that a step starts to expand, if the step puts one on the stack. -/
def entered? (before after : Traversal) : Option Path :=
  if before.stack.length < after.stack.length then after.stack.head?.map Frame.path else none

/-- The places that are entered from every state to the next one. -/
def entered : List Traversal → List Path
  | before :: after :: later => (entered? before after).toList ++ entered (after :: later)
  | _ => []

theorem entered_cons_states (graph : DependencyGraph) (before after : Traversal) :
    entered (before :: states graph after) =
      (entered? before after).toList ++ entered (states graph after) := by
  obtain ⟨later, same⟩ := List.head?_eq_some_iff.1 (head?_states graph after)
  rw [same]
  rfl

section Entered

variable {path target : Path} {link : DependencyLink} {links pending : List DependencyLink}
  {outer : List Frame}

theorem entered?_leave (stack : before.stack = ⟨path, []⟩ :: outer) :
    entered? before (before.leave path outer) = none := by
  simp [entered?, leave, stack]

theorem entered?_meet (stack : before.stack = ⟨path, link :: pending⟩ :: outer) :
    entered? before (before.meet path pending outer link) = none := by
  simp [entered?, meet, stack]

theorem entered?_enter (stack : before.stack = ⟨path, link :: pending⟩ :: outer) :
    entered? before ((before.meet path pending outer link).enter target links) = some target := by
  simp [entered?, enter, meet, stack]

end Entered

/-- A step adds the place that it enters to those on the stack and those done with. -/
theorem order_perm_of_advances (advances : Advances graph before after) :
    after.order.Perm (before.order ++ (entered? before after).toList) := by
  cases advances with
  | leave stack =>
      rw [entered?_leave stack, order_leave stack]
      simp
  | pass stack passes =>
      rw [entered?_meet stack, order_meet stack]
      simp
  | @enter path target links pending outer stack fresh known =>
      rw [entered?_enter stack, order_enter, chain_meet stack, Option.toList_some]
      exact List.perm_middle.trans (List.perm_append_singleton target before.order).symm

/-- What a traversal has at its start and keeps in every step, it has in every state. -/
theorem forall_mem_states {kept : Traversal → Prop}
    (advance : ∀ before after, kept before → Advances graph before after → kept after)
    (tracks : start.Tracks) (atStart : kept start) : ∀ state ∈ states graph start, kept state := by
  induction start using run.induct graph with
  | case1 before after next ih =>
      have advances := advances_of_next tracks next
      rw [states_eq_of_next next]
      exact List.forall_mem_cons.2
        ⟨atStart, ih (advances.tracks tracks) (advance before after atStart advances)⟩
  | case2 before met done =>
      rw [states_eq_of_outcome (congrArg TraversalStep.outcome? done)]
      simpa using atStart
  | case3 before error failed =>
      rw [states_eq_of_outcome (congrArg TraversalStep.outcome? failed)]
      simpa using atStart

/-- A state ends a run from the start with the run's outcome.  The places on its stack and those
done with are the ones at the start and the entered ones. -/
structure IsLastState (graph : DependencyGraph) (start last : Traversal) : Prop where
  isLast : (states graph start).getLast? = some last
  outcome : (step graph last).outcome? = some (run graph start)
  perm : last.order.Perm (start.order ++ entered (states graph start))

theorem isLastState_self {outcome : Except EvaluationError PathSet}
    (ends : (step graph before).outcome? = some outcome) : IsLastState graph before before where
  isLast := by
    rw [states_eq_of_outcome ends]
    rfl
  outcome := by rw [ends, run_eq_of_outcome ends]
  perm := by
    rw [states_eq_of_outcome ends]
    simp [entered]

theorem exists_isLastState (graph : DependencyGraph) (tracks : start.Tracks) :
    ∃ last, IsLastState graph start last := by
  induction start using run.induct graph with
  | case1 before after next ih =>
      have advances := advances_of_next tracks next
      obtain ⟨last, isLast, outcome, perm⟩ := ih (advances.tracks tracks)
      have runs : run graph before = run graph after := by rw [run_eq, next]
      refine ⟨last, ?_, by rw [runs, outcome], ?_⟩
      · rw [states_eq_of_next next, List.getLast?_cons, isLast]
        rfl
      · rw [states_eq_of_next next, entered_cons_states, ← List.append_assoc]
        exact perm.trans ((order_perm_of_advances advances).append_right _)
  | case2 before met done => exact ⟨before, isLastState_self (congrArg TraversalStep.outcome? done)⟩
  | case3 before error failed =>
      exact ⟨before, isLastState_self (congrArg TraversalStep.outcome? failed)⟩

/-- The places on the stack and those done with differ from each other.  They are among certain
places, apart from the origin. -/
structure ExpandsWithin (origin : Path) (places : Finset Path) (traversal : Traversal) : Prop where
  once : traversal.order.Nodup
  within : ∀ path ∈ traversal.order, path = origin ∨ path ∈ places

theorem ExpandsWithin.advance
    (complete : ∀ path links, graph.links? path = .ok (some links) → path ∈ places)
    (expandsWithin : before.ExpandsWithin origin places) (advances : Advances graph before after) :
    after.ExpandsWithin origin places := by
  obtain ⟨once, within⟩ := expandsWithin
  cases advances with
  | leave stack =>
      have same := order_leave stack
      exact ⟨by rwa [same], by rwa [same]⟩
  | pass stack passes =>
      have same := order_meet stack
      exact ⟨by rwa [same], by rwa [same]⟩
  | @enter path target links pending outer stack fresh known =>
      constructor
      · rw [order_enter, chain_meet stack]
        exact List.nodup_middle.2 (List.nodup_cons.2 ⟨fresh, once⟩)
      · rw [order_enter, chain_meet stack]
        intro place member
        rcases List.mem_cons.1 (List.perm_middle.mem_iff.1 member) with rfl | old
        · exact .inr (complete place links known)
        · exact within place old

theorem ExpandsWithin.length_order_le (expandsWithin : state.ExpandsWithin origin places) :
    state.order.length ≤ places.card + 1 := by
  have among : state.order.toFinset ⊆ insert origin places := by
    intro path member
    rw [Finset.mem_insert]
    exact expandsWithin.within path (List.mem_toFinset.1 member)
  calc
    state.order.length = state.order.toFinset.card :=
      (List.toFinset_card_of_nodup expandsWithin.once).symm
    _ ≤ (insert origin places).card := Finset.card_le_card among
    _ ≤ places.card + 1 := Finset.card_insert_le _ _

theorem ExpandsWithin.length_stack_le (expandsWithin : state.ExpandsWithin origin places) :
    state.stack.length ≤ places.card + 1 := by
  have := expandsWithin.length_order_le
  simp only [order, chain, List.length_append, List.length_reverse, List.length_map] at this
  omega

end Traversal

namespace DependencyGraph

/-- The states of a traversal from a place with some dependencies. -/
def states (graph : DependencyGraph) (scope : FaultScope) (origin : Path)
    (links : List DependencyLink) : List Traversal :=
  Traversal.states graph (.start scope origin links)

/-- The places that a traversal expands, in order: the one that it starts from, and those that it
enters. -/
def expansions (graph : DependencyGraph) (scope : FaultScope) (origin : Path)
    (links : List DependencyLink) : List Path :=
  origin :: Traversal.entered (graph.states scope origin links)

end DependencyGraph

namespace Dialect

variable {dialect : Dialect} {plan : Plan} {path : Path}

theorem mem_calculated_of_links? {links : List DependencyLink}
    (known : (dialect.graph plan).links? path = .ok (some links)) : path ∈ plan.calculated := by
  obtain ⟨text, -, isFormula, -⟩ := links?_graph_eq_some_iff.1 known
  exact Plan.mem_calculated_iff.2 ⟨text, isFormula⟩

/-- A traversal ends, in every scope, and its expansions are then on the stack or done with.  It
expands no place twice and, after the first one, only places with formulas.  There are at most as
many expansions as formulas and one more, and never more places than that on the stack. -/
theorem traverse_expands_once (dialect : Dialect) (plan : Plan) (scope : FaultScope)
    (origin : Path) (links : List DependencyLink) :
    (∃ last, ((dialect.graph plan).states scope origin links).getLast? = some last ∧
      (Traversal.step (dialect.graph plan) last).outcome? =
        some ((dialect.graph plan).traverse scope origin links) ∧
      last.order.Perm ((dialect.graph plan).expansions scope origin links)) ∧
    ((dialect.graph plan).expansions scope origin links).Nodup ∧
    (∀ path ∈ ((dialect.graph plan).expansions scope origin links).tail,
      path ∈ plan.calculated) ∧
    ((dialect.graph plan).expansions scope origin links).length ≤ plan.calculated.card + 1 ∧
    ∀ state ∈ (dialect.graph plan).states scope origin links,
      state.stack.length ≤ plan.calculated.card + 1 := by
  let graph := dialect.graph plan
  let start : Traversal := .start scope origin links
  have tracks : start.Tracks := Traversal.tracks_start scope origin links
  have atStart : start.ExpandsWithin origin plan.calculated :=
    ⟨List.nodup_singleton origin, fun path member => .inl (List.mem_singleton.1 member)⟩
  have each : ∀ state ∈ Traversal.states graph start, state.ExpandsWithin origin plan.calculated :=
    Traversal.forall_mem_states
      (fun _ _ kept advances => kept.advance (fun _ _ => mem_calculated_of_links?) advances)
      tracks atStart
  obtain ⟨last, isLast, outcome, perm⟩ := Traversal.exists_isLastState graph tracks
  have expandsWithin := each last (List.mem_of_getLast? isLast)
  have once : (graph.expansions scope origin links).Nodup := perm.nodup_iff.1 expandsWithin.once
  refine ⟨⟨last, isLast, outcome, perm⟩, once, ?_, ?_, ?_⟩
  · intro path member
    have other : path ≠ origin := by
      rintro rfl
      exact (List.nodup_cons.1 once).1 member
    have inOrder : path ∈ last.order := perm.mem_iff.2 (List.mem_cons_of_mem _ member)
    exact (expandsWithin.within path inOrder).resolve_left other
  · have fewer := expandsWithin.length_order_le
    rwa [perm.length_eq] at fewer
  · intro state member
    exact (each state member).length_stack_le

end Dialect

end InspectionFormula
