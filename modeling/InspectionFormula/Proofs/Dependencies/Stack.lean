import InspectionFormula.Proofs.Dependencies.Discovery
import InspectionFormula.Proofs.Dependencies.Expansions
import InspectionFormula.Proofs.Dependencies.ReportedChains

/-!
# What a traversal keeps

A place is put on the stack of a traversal, and into the set of the places there,
when it is entered, and taken from both when it is left.  In between the stack
below it stays as it is.  The places on the stack are a chain of value edges, and
none of them is reached from a place that has been expanded, so no cycle is
missed where an expanded place is passed.
-/

namespace InspectionFormula

namespace Traversal

variable {graph : DependencyGraph} {scope : FaultScope}
  {traversal before after call entered last returned : Traversal} {origin path : Path}
  {links pending : List DependencyLink} {base : List Frame}

/-- A step that enters a place puts it on top of the places that are on the stack. -/
theorem map_path_tail_of_entered? (advances : Advances graph before after)
    (enters : entered? before after = some path) :
    path ∈ after.met.paths ∧ ∃ links rest, after.stack = ⟨path, links⟩ :: rest ∧
      rest.map Frame.path = before.stack.map Frame.path := by
  cases advances with
  | leave stack => cases (entered?_leave stack).symm.trans enters
  | pass stack passes => cases (entered?_meet stack).symm.trans enters
  | @enter last target links pending outer stack fresh known =>
      cases (entered?_enter stack).symm.trans enters
      exact ⟨PathSet.mem_paths_insert.2 (.inl rfl), links, ⟨last, pending⟩ :: outer, rfl,
        by simp [stack]⟩

/-- A step leaves what is below a place on the stack as it is, and the place too unless the step is
the one that is done with it. -/
theorem above_or_left_of_advances {front : List Frame} (advances : Advances graph before after)
    (stack : before.stack = front ++ ⟨path, pending⟩ :: base) :
    (∃ front pending, after.stack = front ++ ⟨path, pending⟩ :: base) ∨
      (after.stack = base ∧ path ∈ after.expanded) := by
  cases advances with
  | @leave last outer top =>
      cases front with
      | nil =>
          cases top.symm.trans stack
          exact .inr ⟨rfl, List.mem_cons_self⟩
      | cons first front =>
          cases top.symm.trans stack
          exact .inl ⟨front, pending, rfl⟩
  | @pass last link rest outer top passes =>
      cases front with
      | nil =>
          cases top.symm.trans stack
          exact .inl ⟨[], rest, rfl⟩
      | cons first front =>
          cases top.symm.trans stack
          exact .inl ⟨⟨last, rest⟩ :: front, pending, rfl⟩
  | @enter last target links rest outer top fresh known =>
      cases front with
      | nil =>
          cases top.symm.trans stack
          exact .inl ⟨[⟨target, links⟩], rest, rfl⟩
      | cons first front =>
          cases top.symm.trans stack
          exact .inl ⟨⟨target, links⟩ :: ⟨last, rest⟩ :: front, pending, rfl⟩

theorem subset_of_advances (advances : Advances graph before after) :
    before.expanded ⊆ after.expanded ∧ before.met.paths ⊆ after.met.paths := by
  cases advances with
  | leave stack => exact ⟨List.subset_cons_self _ _, List.Subset.refl _⟩
  | pass stack passes =>
      exact ⟨List.Subset.refl _, fun _ member => PathSet.mem_paths_insert.2 (.inr member)⟩
  | enter stack fresh known =>
      exact ⟨List.Subset.refl _, fun _ member => PathSet.mem_paths_insert.2 (.inr member)⟩

/-- A step that does not end the traversal. -/
def Next (graph : DependencyGraph) (before after : Traversal) : Prop :=
  step graph before = .next after

/-- A place that is neither on the stack nor expanded is entered. -/
theorem next_of_isFresh {target : Path} {outer : List Frame}
    (stack : before.stack = ⟨path, ⟨target, false⟩ :: pending⟩ :: outer)
    (fresh : before.isFresh target) (known : graph.links? target = .ok (some links)) :
    Next graph before ((before.meet path pending outer ⟨target, false⟩).enter target links) := by
  rw [isFresh, Bool.and_eq_true, Bool.not_eq_true', Bool.not_eq_true'] at fresh
  obtain ⟨offStack, unexpanded⟩ := fresh
  have stillOff : (before.meet path pending outer ⟨target, false⟩).isOnStack target = false :=
    offStack
  have stillUnexpanded :
      (before.meet path pending outer ⟨target, false⟩).isExpanded target = false := unexpanded
  simp [Next, step, stack, consider, stillOff, stillUnexpanded, follow, known]

abbrev Leads (graph : DependencyGraph) : Traversal → Traversal → Prop :=
  Relation.ReflTransGen (Next graph)

def depth (traversal : Traversal) : Nat := traversal.stack.length

/-- A step after which the stack has at least a given depth. -/
def StaysAt (graph : DependencyGraph) (depth : Nat) (before after : Traversal) : Prop :=
  Next graph before after ∧ depth ≤ after.depth

/-- From the traversal that has entered a place to the one that is done with it.  The place stays on
the stack until the last step. -/
inductive Expands (graph : DependencyGraph) (entered : Traversal) : Traversal → Prop where
  | mk {last returned : Traversal}
      (stays : Relation.ReflTransGen (StaysAt graph entered.depth) entered last)
      (leaves : Next graph last returned) (back : returned.depth < entered.depth) :
      Expands graph entered returned

/-- The places on the stack are those of the set, all different, and a chain of edges from the
origin.  Edges of expanded places lead to expanded places, apart from places without a formula to
follow, and therefore neither to the stack nor in a cycle. -/
structure IsSound (origin : Path) (edge : Path → Path → Prop) (followed : Path → Prop)
    (traversal : Traversal) : Prop where
  onStack : ∀ path, path ∈ traversal.onStack ↔ path ∈ traversal.chain
  tested : ∀ path, traversal.isOnStack path = true ↔ path ∈ traversal.chain
  once : traversal.chain.Nodup
  starts : ∀ first ∈ traversal.chain.head?, first = origin
  linked : traversal.chain.IsChain edge
  disjoint : traversal.expanded.Disjoint traversal.chain
  closed : ∀ path ∈ traversal.expanded, ∀ target, edge path target → followed target →
    target ∈ traversal.expanded
  apart : ∀ path ∈ traversal.expanded, ∀ target ∈ traversal.chain,
    ¬ Relation.ReflTransGen edge path target
  acyclic : ∀ path ∈ traversal.expanded, ¬ Relation.TransGen edge path path

/-- The stack and its set are as before, and nothing that was expanded or met is lost. -/
structure Restores (call returned : Traversal) : Prop where
  chain : returned.chain = call.chain
  onStack : returned.onStack = call.onStack
  expanded : call.expanded ⊆ returned.expanded
  met : call.met.paths ⊆ returned.met.paths

/-- A depth-first search from the origin, with the set of the places on its stack and with all that
it has met. -/
structure Explores (graph : DependencyGraph) (scope : FaultScope) (origin : Path)
    (links : List DependencyLink) (traversal : Traversal) : Prop where
  tracks : traversal.Tracks
  searchesFrom : SearchesFrom graph scope origin links traversal
  collects : Collects (graph.startingWith origin links) traversal

theorem explores_start (graph : DependencyGraph) (scope : FaultScope) (origin : Path)
    (links : List DependencyLink) :
    (start scope origin links).Explores graph scope origin links where
  tracks := tracks_start scope origin links
  searchesFrom := ⟨rfl, rfl, searches_start (if_pos rfl)⟩
  collects := collects_start (if_pos rfl)

theorem Explores.next (explores : before.Explores graph scope origin links)
    (next : Next graph before after) :
    Advances graph before after ∧ after.Explores graph scope origin links := by
  obtain ⟨tracks, searchesFrom, collects⟩ := explores
  have advances := advances_of_next tracks next
  refine ⟨advances, advances.tracks tracks, searchesFrom.advance advances, ?_⟩
  obtain ⟨rfl, rfl, searches⟩ := searchesFrom
  exact collects.advance (advances.startingWith links searches.origin_mem_order)

theorem Explores.leads (explores : before.Explores graph scope origin links)
    (leads : Leads graph before after) : after.Explores graph scope origin links := by
  induction leads with
  | refl => exact explores
  | tail _ next ih => exact (ih.next next).2

theorem Explores.isSound (explores : traversal.Explores graph scope origin links)
    (allCycles : scope ≠ .selfReference) :
    traversal.IsSound origin (graph.startingWith origin links).ValueEdge
      fun path => ∃ known, (graph.startingWith origin links).links? path = .ok (some known) := by
  obtain ⟨tracks, ⟨rfl, rfl, searches⟩, collects⟩ := explores
  have disjoint := List.disjoint_of_nodup_append searches.once
  -- What is on the stack or expanded has a formula to follow.
  have notLeaf {path : Path} (known : ∃ links', (graph.startingWith traversal.origin
      links).links? path = .ok (some links')) :
      ¬ (graph.startingWith traversal.origin links).IsLeaf traversal.scope path := by
    obtain ⟨links', known⟩ := known
    rintro (none | ⟨-, error, malformed⟩)
    · cases known.symm.trans none
    · cases known.symm.trans malformed
  have reached {path target : Path} (member : path ∈ traversal.expanded)
      (reaches : (graph.startingWith traversal.origin links).Reaches path target)
      (known : ∃ links', (graph.startingWith traversal.origin links).links? target =
        .ok (some links')) : target ∈ traversal.expanded :=
    (mem_expanded_or_isLeaf_of_reaches searches allCycles member reaches).resolve_right
      (notLeaf known)
  refine ⟨fun _ => tracks.mem_onStack_iff, fun _ => tracks.mem_chain_iff_isOnStack.symm,
    searches.once.of_append_left, ?_, searches.linked, disjoint.symm, ?_, ?_, ?_⟩
  · intro first isFirst
    cases stack : traversal.stack with
    | nil => simp [chain, stack] at isFirst
    | cons frame outer =>
        rw [searches.head?_chain stack] at isFirst
        exact (Option.some.inj isFirst).symm
  · intro path member target edge known
    exact reached member (.single edge) known
  · intro path member target onChain reaches
    exact disjoint onChain
      (reached member reaches (collects.known target (List.mem_append_left _ onChain)))
  · intro path member
    exact not_onCycle_of_mem_expanded searches allCycles member

theorem Expands.leads (expands : Expands graph entered returned) :
    Leads graph entered returned := by
  obtain ⟨stays, leaves, -⟩ := expands
  exact .tail (Relation.ReflTransGen.mono (fun _ _ (step : StaysAt ..) => step.1) _ _ stays) leaves

/-- Nothing that is expanded or met is lost on the way. -/
theorem Leads.subset (tracks : before.Tracks) (leads : Leads graph before after) :
    after.Tracks ∧ before.expanded ⊆ after.expanded ∧ before.met.paths ⊆ after.met.paths := by
  induction leads with
  | refl => exact ⟨tracks, List.Subset.refl _, List.Subset.refl _⟩
  | tail _ next ih =>
      obtain ⟨tracks, expanded, met⟩ := ih
      have advances := advances_of_next tracks next
      have grows := subset_of_advances advances
      exact ⟨advances.tracks tracks, List.Subset.trans expanded grows.1,
        List.Subset.trans met grows.2⟩

/-- While a place is expanded, it stays on the stack above the same places. -/
theorem above_of_staysAt (tracks : entered.Tracks)
    (stack : entered.stack = ⟨path, links⟩ :: base)
    (stays : Relation.ReflTransGen (StaysAt graph entered.depth) entered last) :
    last.Tracks ∧ ∃ front pending, last.stack = front ++ ⟨path, pending⟩ :: base := by
  induction stays with
  | refl => exact ⟨tracks, [], links, stack⟩
  | tail _ step ih =>
      obtain ⟨tracks, front, pending, above⟩ := ih
      have advances := advances_of_next tracks step.1
      refine ⟨advances.tracks tracks, ?_⟩
      refine (above_or_left_of_advances advances above).resolve_right ?_
      rintro ⟨left, -⟩
      have depth := step.2
      simp only [Traversal.depth, stack, left, List.length_cons] at depth
      omega

theorem Expands.stack_eq (tracks : entered.Tracks) (expands : Expands graph entered returned)
    (stack : entered.stack = ⟨path, links⟩ :: base) :
    returned.stack = base ∧ path ∈ returned.expanded := by
  obtain ⟨stays, leaves, back⟩ := expands
  obtain ⟨tracks, front, pending, above⟩ := above_of_staysAt tracks stack stays
  refine (above_or_left_of_advances (advances_of_next tracks leaves) above).resolve_left ?_
  rintro ⟨front, pending, above⟩
  simp only [depth, stack, above, List.length_append, List.length_cons] at back
  omega

theorem restores_of_expands (explores : call.Explores graph scope origin links)
    (next : Next graph call entered) (enters : entered? call entered = some path)
    (expands : Expands graph entered returned) :
    call.Restores returned ∧ path ∈ returned.expanded ∧ path ∈ returned.met.paths := by
  obtain ⟨advances, entering⟩ := explores.next next
  -- Below the entered place are the places of the call, the last one with a dependency fewer.
  obtain ⟨met, links, base, stack, same⟩ := map_path_tail_of_entered? advances enters
  obtain ⟨back, isExpanded⟩ := expands.stack_eq entering.tracks stack
  obtain ⟨tracks, expanded, metBefore⟩ := Leads.subset explores.tracks (.head next expands.leads)
  have metSince := (expands.leads.subset entering.tracks).2.2
  have samePlaces : returned.stack.map Frame.path = call.stack.map Frame.path := by rw [back, same]
  refine ⟨⟨?_, ?_, expanded, metBefore⟩, isExpanded, metSince met⟩
  · rw [chain, chain, samePlaces]
  · exact (tracks.trans samePlaces).trans explores.tracks.symm

theorem depth_pos_of_next (next : Next graph before after) : 0 < before.depth := by
  apply Nat.pos_of_ne_zero
  intro empty
  rw [Next, step, List.eq_nil_of_length_eq_zero empty] at next
  cases next

theorem staysAt_of_leads (leads : Leads graph before last) (next : Next graph last after) :
    Relation.ReflTransGen (StaysAt graph 1) before last := by
  induction leads generalizing after with
  | refl => exact .refl
  | tail _ step ih => exact (ih step).tail ⟨step, depth_pos_of_next next⟩

/-- A run that succeeds leads to an empty stack. -/
theorem exists_ended {found : PathSet} (tracks : traversal.Tracks)
    (ok : run graph traversal = .ok found) :
    ∃ last, Leads graph traversal last ∧ last.stack = [] ∧ last.met = found := by
  induction traversal using run.induct graph with
  | case1 before after next ih =>
      rw [run_eq, next] at ok
      obtain ⟨last, leads, ended⟩ := ih ((advances_of_next tracks next).tracks tracks) ok
      exact ⟨last, .head next leads, ended⟩
  | case2 before met done =>
      have ended := mayGive_step graph tracks
      rw [run_eq, done] at ok
      rw [done] at ended
      obtain ⟨stack, rfl⟩ := ended
      cases ok
      exact ⟨before, .refl, stack, rfl⟩
  | case3 before error failed =>
      rw [run_eq, failed] at ok
      cases ok

/-- A traversal that succeeds is done with its origin at the end. -/
theorem exists_expands_start {found : PathSet}
    (ok : graph.traverse scope origin links = .ok found) :
    ∃ returned, Expands graph (start scope origin links) returned ∧
      returned.stack = [] ∧ returned.met = found := by
  obtain ⟨last, leads, stack, met⟩ := exists_ended (tracks_start scope origin links) ok
  -- The last step leaves the origin, since every state before it has something on its stack.
  rcases Relation.ReflTransGen.cases_tail leads with rfl | ⟨before, leads, leaves⟩
  · cases stack
  · refine ⟨last, .mk (staysAt_of_leads leads leaves) leaves ?_, stack, met⟩
    simp [depth, stack, start, enter]

end Traversal

/-- The state at the start of the traversal of a formula. -/
def Formula.traversal (formula : Formula) (plan : Plan) (scope : FaultScope) : Traversal :=
  .start scope formula.owner (formula.dependencies plan.childPaths).links

namespace Dialect

variable {dialect : Dialect} {plan : Plan} {formula : Formula} {source target path : Path}

/-- A value edge, with the given formula in place of the one that its owner has in the plan. -/
def FollowedEdge (dialect : Dialect) (plan : Plan) (formula : Formula) (source target : Path) :
    Prop :=
  if source = formula.owner then formula.DependsOnValue plan target
  else dialect.ValueEdge plan source target

/-- The place has a well-formed formula, or is the owner of the given one. -/
def IsFollowed (dialect : Dialect) (plan : Plan) (formula : Formula) (path : Path) : Prop :=
  path = formula.owner ∨ ∃ other, dialect.HasFormula plan path other

theorem followedEdge_eq : ((dialect.graph plan).startingWith formula.owner
    (formula.dependencies plan.childPaths).links).ValueEdge =
      dialect.FollowedEdge plan formula := by
  ext source target
  by_cases isOwner : source = formula.owner
  · subst isOwner
    rw [FollowedEdge, if_pos rfl, DependencyGraph.valueEdge_startingWith_origin_iff]
    exact Dependencies.mem_links_iff
  · rw [FollowedEdge, if_neg isOwner, ← valueEdge_graph_iff, DependencyGraph.ValueEdge,
      DependencyGraph.links?_startingWith_of_ne isOwner]
    rfl

theorem exists_links_iff_isFollowed : (∃ links, ((dialect.graph plan).startingWith formula.owner
    (formula.dependencies plan.childPaths).links).links? path = .ok (some links)) ↔
      dialect.IsFollowed plan formula path := by
  by_cases isOwner : path = formula.owner
  · exact ⟨fun _ => .inl isOwner, fun _ => ⟨_, if_pos isOwner⟩⟩
  · rw [DependencyGraph.links?_startingWith_of_ne isOwner, IsFollowed, or_iff_right isOwner]
    constructor
    · rintro ⟨links, known⟩
      obtain ⟨text, other, has, read, -⟩ := links?_graph_eq_some_iff.1 known
      exact ⟨other, text, has, read⟩
    · rintro ⟨other, text, has, read⟩
      exact ⟨_, links?_graph_eq_some_iff.2 ⟨text, other, has, read, rfl⟩⟩

theorem followedEdge_of_hasFormula (has : dialect.HasFormula plan formula.owner formula) :
    dialect.FollowedEdge plan formula = dialect.ValueEdge plan := by
  ext source target
  by_cases isOwner : source = formula.owner
  · rw [FollowedEdge, if_pos isOwner, isOwner, has.valueEdge_iff]
  · rw [FollowedEdge, if_neg isOwner]

theorem traverseFrom_of_hasFormula (scope : FaultScope)
    (has : dialect.HasFormula plan formula.owner formula) :
    (dialect.graph plan).traverseFrom scope formula.owner =
      dialect.traverseFormula plan scope formula := by
  obtain ⟨text, known, read⟩ := has
  have links := links?_graph_eq_some_iff.2 ⟨text, formula, known, read, rfl⟩
  simp only [DependencyGraph.traverseFrom, links]
  rfl

/-- In every state of a traversal that minds all cycles, the stack and the expanded places are
sound.  When a place that has been entered is done with, the stack is as it was before it was
entered, what was expanded and met still is, and the place is among both.  A traversal that succeeds
is done with its owner at the end, and its stack is empty.  If the formula is the owner's own, the
edges followed are the value edges of the plan. -/
theorem traversal_keeps_stack_and_expanded (dialect : Dialect) (plan : Plan) (formula : Formula)
    (scope : FaultScope) (allCycles : scope ≠ .selfReference) :
    (∀ state, Traversal.Leads (dialect.graph plan) (formula.traversal plan scope) state →
      state.IsSound formula.owner (dialect.FollowedEdge plan formula)
        (dialect.IsFollowed plan formula)) ∧
    (∀ call entered returned path,
      Traversal.Leads (dialect.graph plan) (formula.traversal plan scope) call →
      Traversal.Next (dialect.graph plan) call entered →
      Traversal.entered? call entered = some path →
      Traversal.Expands (dialect.graph plan) entered returned →
      call.Restores returned ∧ path ∈ returned.expanded ∧ path ∈ returned.met.paths) ∧
    (∀ found, dialect.traverseFormula plan scope formula = .ok found → ∃ returned,
      Traversal.Expands (dialect.graph plan) (formula.traversal plan scope) returned ∧
        returned.chain = [] ∧ returned.onStack = [] ∧ formula.owner ∈ returned.expanded ∧
        returned.met = found) ∧
    (dialect.HasFormula plan formula.owner formula →
      dialect.FollowedEdge plan formula = dialect.ValueEdge plan ∧
        (dialect.graph plan).traverseFrom scope formula.owner =
          dialect.traverseFormula plan scope formula) := by
  have atStart := Traversal.explores_start (dialect.graph plan) scope formula.owner
    (formula.dependencies plan.childPaths).links
  refine ⟨?_, ?_, ?_, fun has => ⟨followedEdge_of_hasFormula has, traverseFrom_of_hasFormula _ has⟩⟩
  · intro state leads
    have isSound := (atStart.leads leads).isSound allCycles
    rw [followedEdge_eq] at isSound
    have followed : (fun path => ∃ links, ((dialect.graph plan).startingWith formula.owner
        (formula.dependencies plan.childPaths).links).links? path = .ok (some links)) =
        dialect.IsFollowed plan formula := funext fun _ => propext exists_links_iff_isFollowed
    rwa [followed] at isSound
  · intro call entered returned path leads next enters expands
    exact Traversal.restores_of_expands (atStart.leads leads) next enters expands
  · intro found ok
    obtain ⟨returned, expands, stack, met⟩ := Traversal.exists_expands_start ok
    have tracks : returned.Tracks := (atStart.leads expands.leads).tracks
    refine ⟨returned, expands, ?_, ?_, (expands.stack_eq atStart.tracks rfl).2, met⟩
    · simp [Traversal.chain, stack]
    · rw [tracks, stack, List.map_nil]

theorem traversal_keeps_stack_of_nested_formulas :
    ∃ (plan : Plan) (formula : Formula) (call entered returned : Traversal) (path : Path)
      (found : PathSet), FaultScope.everything ≠ .selfReference ∧
      Traversal.Leads (standard.graph plan) (formula.traversal plan .everything) call ∧
      Traversal.Next (standard.graph plan) call entered ∧
      Traversal.entered? call entered = some path ∧
      Traversal.Expands (standard.graph plan) entered returned ∧
      call.Restores returned ∧ path ∈ returned.expanded ∧ path ∈ returned.met.paths ∧
      returned.IsSound formula.owner (standard.FollowedEdge plan formula)
        (standard.IsFollowed plan formula) ∧
      standard.HasFormula plan formula.owner formula ∧
      standard.FollowedEdge plan formula = standard.ValueEdge plan ∧
      standard.traverseFormula plan .everything formula = .ok found ∧
      ∃ last, Traversal.Expands (standard.graph plan) (formula.traversal plan .everything) last ∧
        last.onStack = [] ∧ formula.owner ∈ last.expanded := by
  let a : Path := ⟨[⟨.characteristic, "a"⟩]⟩
  let b : Path := ⟨[⟨.characteristic, "b"⟩]⟩
  let c : Path := ⟨[⟨.characteristic, "c"⟩]⟩
  let store := ((Store.empty.setFormula a "\x7bb\x7d*2").setFormula b "\x7bc\x7d+1").setFormula
    c "1"
  let graph := standard.graph store.plan
  obtain ⟨formula, read, test⟩ := exists_eq_ok_of_any (show
    (standard.read "\x7bb\x7d*2" a).toOption.any (fun formula =>
      decide ((formula.dependencies store.plan.childPaths).links = [⟨b, false⟩])) = true
    by decide +kernel)
  have links : (formula.dependencies store.plan.childPaths).links = [⟨b, false⟩] := by
    simpa using test
  obtain ⟨root, -, rfl⟩ := read_eq_ok_iff.1 read
  have has : standard.HasFormula store.plan a ⟨root, "\x7bb\x7d*2", a⟩ := ⟨_, rfl, read⟩
  have ofB : graph.links? b = .ok (some [⟨c, false⟩]) := by decide +kernel
  have ofC : graph.links? c = .ok (some []) := by decide +kernel
  have ok : standard.discover store.plan a = .ok ((PathSet.empty.insert b).insert c) := by
    decide +kernel
  let atA : Traversal := .start .everything a [⟨b, false⟩]
  let atB := (atA.meet a [] [] ⟨b, false⟩).enter b [⟨c, false⟩]
  let atC := (atB.meet b [] [⟨a, []⟩] ⟨c, false⟩).enter c []
  let backAtB := atC.leave c [⟨b, []⟩, ⟨a, []⟩]
  let backAtA := backAtB.leave b [⟨a, []⟩]
  have start : (⟨root, "\x7bb\x7d*2", a⟩ : Formula).traversal store.plan .everything = atA := by
    rw [Formula.traversal, links]
  have entersB : Traversal.Next graph atA atB := Traversal.next_of_isFresh rfl (by decide) ofB
  have entersC : Traversal.Next graph atB atC := Traversal.next_of_isFresh rfl (by decide) ofC
  have below : Traversal.StaysAt graph atB.depth atB atC := ⟨entersC, by decide⟩
  have above : Traversal.StaysAt graph atB.depth atC backAtB := ⟨rfl, by decide⟩
  have expands : Traversal.Expands graph atB backAtA :=
    .mk (.tail (.single below) above) rfl (by decide)
  have enters : Traversal.entered? atA atB = some b := Traversal.entered?_enter rfl
  obtain ⟨sound, nested, ends, own⟩ := traversal_keeps_stack_and_expanded standard store.plan
    ⟨root, "\x7bb\x7d*2", a⟩ .everything (by decide)
  have leads : Traversal.Leads graph
      ((⟨root, "\x7bb\x7d*2", a⟩ : Formula).traversal store.plan .everything) atA := start ▸ .refl
  obtain ⟨restores, isExpanded, isMet⟩ := nested atA atB backAtA b leads entersB enters expands
  have found := (own has).2.symm.trans ok
  obtain ⟨last, whole, -, empty, ownerExpanded, -⟩ := ends _ found
  exact ⟨store.plan, ⟨root, _, a⟩, atA, atB, backAtA, b, _, by decide, leads, entersB, enters,
    expands, restores, isExpanded, isMet, sound backAtA (leads.trans (.head entersB expands.leads)),
    has, (own has).1, found, last, whole, empty, ownerExpanded⟩

end Dialect

end InspectionFormula
