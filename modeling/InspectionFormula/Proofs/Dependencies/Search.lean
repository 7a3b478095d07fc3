import InspectionFormula.Proofs.Dependencies.Steps
import Mathlib.Data.List.Chain

/-!
# Depth-first search

The places on the stack of a traversal, followed by the places that it has
expanded, are in an order along which all value edges lead forward, except those
that are still to be looked at.  A traversal that ends has therefore seen all
that it can reach, and no cycle in it.
-/

namespace InspectionFormula

/-- The graph in which a place has the given dependencies. -/
def DependencyGraph.startingWith (graph : DependencyGraph) (origin : Path)
    (links : List DependencyLink) : DependencyGraph where
  links? path := if path = origin then .ok (some links) else graph.links? path
  formulaPaths := origin :: graph.formulaPaths
  mem_formulaPaths {path} _ known := by
    split at known
    · next same => exact same ▸ List.mem_cons_self
    · exact List.mem_cons_of_mem _ (graph.mem_formulaPaths known)

namespace DependencyGraph

variable {graph : DependencyGraph} {origin path : Path} {links : List DependencyLink}

theorem links?_startingWith_of_ne (different : path ≠ origin) :
    (graph.startingWith origin links).links? path = graph.links? path :=
  if_neg different

end DependencyGraph

namespace Traversal

theorem suffix_middle_cases {Item : Type} {first middle : Item}
    {earlier later rest : List Item}
    (isSuffix : first :: rest <:+ earlier ++ middle :: later) :
    (first = middle ∧ rest = later) ∨
      (∃ between, first :: between <:+ earlier ∧ rest = between ++ middle :: later) ∨
      first :: rest <:+ later := by
  obtain ⟨front, equal⟩ := isSuffix
  rcases List.append_eq_append_iff.1 equal with ⟨between, earlierEq, rest⟩ | ⟨between, -, laterEq⟩
  · cases between with
    | nil =>
        obtain ⟨rfl, rfl⟩ := List.cons_eq_cons.1 rest
        exact .inl ⟨rfl, rfl⟩
    | cons item between =>
        obtain ⟨rfl, rfl⟩ := List.cons_eq_cons.1 rest
        exact .inr (.inl ⟨between, ⟨front, earlierEq.symm⟩, rfl⟩)
  · cases between with
    | nil =>
        obtain ⟨rfl, rfl⟩ := List.cons_eq_cons.1 laterEq
        exact .inl ⟨rfl, rfl⟩
    | cons item between =>
        obtain ⟨rfl, rfl⟩ := List.cons_eq_cons.1 laterEq
        exact .inr (.inr (List.suffix_append between _))

theorem eq_of_suffix_of_nodup {Item : Type} {item : Item} {earlier later rest : List Item}
    (nodup : (earlier ++ item :: later).Nodup)
    (isSuffix : item :: rest <:+ earlier ++ item :: later) : rest = later := by
  have absent := (List.nodup_cons.1 (List.nodup_middle.1 nodup)).1
  rcases suffix_middle_cases isSuffix with ⟨-, equal⟩ | ⟨between, isEarlier, -⟩ | isLater
  · exact equal
  · exact absurd (List.mem_append_left _ (isEarlier.mem List.mem_cons_self)) absent
  · exact absurd (List.mem_append_right _ (isLater.mem List.mem_cons_self)) absent

variable {graph : DependencyGraph} {before after : Traversal} {path target : Path}
  {links : List DependencyLink} {error : EvaluationError}

theorem Advances.startingWith (advances : Advances graph before after)
    (links : List DependencyLink) (started : before.origin ∈ before.order) :
    Advances (graph.startingWith before.origin links) before after := by
  have agree {path : Path} (fresh : path ∉ before.order) :
      (graph.startingWith before.origin links).links? path = graph.links? path :=
    DependencyGraph.links?_startingWith_of_ne fun same => fresh (same ▸ started)
  cases advances with
  | leave stack => exact .leave stack
  | pass stack passes =>
      refine .pass stack (passes.imp_right (Or.imp_right (Or.imp_right ?_)))
      rintro ⟨fresh, isLeaf⟩
      refine ⟨fresh, ?_⟩
      rwa [DependencyGraph.IsLeaf, agree fresh]
  | enter stack fresh known => exact .enter stack fresh ((agree fresh).trans known)

theorem Fails.startingWith (fails : Fails graph before error)
    (links : List DependencyLink) (started : before.origin ∈ before.order) :
    Fails (graph.startingWith before.origin links) before error := by
  cases fails with
  | circular stack closes counts => exact .circular stack closes counts
  | @malformed path target _ _ _ stack fresh counts unknown =>
      have different : target ≠ before.origin := fun same => fresh (same ▸ started)
      refine .malformed stack fresh counts ?_
      rwa [DependencyGraph.links?_startingWith_of_ne different]

/-- A place on the stack has yet to look at the target. -/
def Awaits (traversal : Traversal) (path target : Path) : Prop :=
  ∃ frame ∈ traversal.stack, frame.path = path ∧ ⟨target, false⟩ ∈ frame.pending

/-- A dependency leads to one of the later places or to a leaf.  If only cycles through the origin
count, it may also lead back to any other place. -/
def Settles (graph : DependencyGraph) (traversal : Traversal) (later : List Path)
    (target : Path) : Prop :=
  graph.IsLeaf traversal.scope target ∨ target ∈ later ∨
    (traversal.scope = .selfReference ∧ target ≠ traversal.origin ∧ target ∈ traversal.order)

/-- What a depth-first search keeps. -/
structure Searches (graph : DependencyGraph) (traversal : Traversal) : Prop where
  starts : traversal.order.head? = some traversal.origin
  once : traversal.order.Nodup
  reached : ∀ path ∈ traversal.order, graph.Reaches traversal.origin path
  linked : traversal.chain.IsChain graph.ValueEdge
  offers : ∀ path target, traversal.Awaits path target → graph.ValueEdge path target
  leads : ∀ path later, path :: later <:+ traversal.order → ∀ target,
    graph.ValueEdge path target →
      traversal.Awaits path target ∨ Settles graph traversal later target

theorem chain_eq_of_stack {pending : List DependencyLink} {outer : List Frame}
    (stack : before.stack = ⟨path, pending⟩ :: outer) :
    before.chain = (outer.map Frame.path).reverse ++ [path] := by
  simp [chain, stack]

theorem mem_chain_of_awaits {traversal : Traversal} (awaits : traversal.Awaits path target) :
    path ∈ traversal.chain := by
  obtain ⟨frame, member, rfl, -⟩ := awaits
  exact List.mem_reverse.2 (List.mem_map_of_mem member)

theorem Searches.origin_mem_order (searches : Searches graph before) :
    before.origin ∈ before.order :=
  List.mem_of_head? searches.starts

theorem Searches.origin_not_mem_later (searches : Searches graph before) {later : List Path}
    (isSuffix : path :: later <:+ before.order) : before.origin ∉ later := by
  obtain ⟨front, equal⟩ := isSuffix
  have starts := searches.starts
  have once := searches.once
  rw [← equal] at starts once
  cases front with
  | nil =>
      cases starts
      exact (List.nodup_cons.1 once).1
  | cons first front =>
      cases starts
      intro isLater
      exact (List.nodup_cons.1 once).1 (List.mem_append_right _ (List.mem_cons_of_mem _ isLater))

section Leave

variable {outer : List Frame} (stack : before.stack = ⟨path, []⟩ :: outer)
include stack

theorem awaits_leave_iff {source : Path} :
    (before.leave path outer).Awaits source target ↔ before.Awaits source target := by
  simp [Awaits, leave, stack]

theorem Searches.leave (searches : Searches graph before) :
    Searches graph (before.leave path outer) where
  starts := by
    rw [order_leave stack]
    exact searches.starts
  once := by
    rw [order_leave stack]
    exact searches.once
  reached := by
    rw [order_leave stack]
    exact searches.reached
  linked := by
    have linked := searches.linked
    rw [chain_eq_of_stack stack] at linked
    exact linked.left_of_append
  offers := by
    intro source target awaits
    exact searches.offers source target ((awaits_leave_iff stack).1 awaits)
  leads := by
    intro source later isSuffix target edge
    rw [order_leave stack] at isSuffix
    rw [awaits_leave_iff stack, Settles, order_leave stack]
    exact searches.leads source later isSuffix target edge

end Leave

section Meet

variable {link : DependencyLink} {pending : List DependencyLink} {outer : List Frame}
  (stack : before.stack = ⟨path, link :: pending⟩ :: outer)
include stack

theorem awaits_iff_meet {source : Path} :
    before.Awaits source target ↔
      (before.meet path pending outer link).Awaits source target ∨
        source = path ∧ link = ⟨target, false⟩ := by
  have pending_iff : (⟨target, false⟩ : DependencyLink) ∈ link :: pending ↔
      (⟨target, false⟩ : DependencyLink) ∈ pending ∨ link = ⟨target, false⟩ := by
    rw [List.mem_cons, or_comm, eq_comm]
  simp only [Awaits, meet, stack, List.exists_mem_cons_iff, pending_iff]
  constructor
  · rintro (⟨rfl, inPending | rfl⟩ | isOuter)
    · exact .inl (.inl ⟨rfl, inPending⟩)
    · exact .inr ⟨rfl, rfl⟩
    · exact .inl (.inr isOuter)
  · rintro ((⟨rfl, inPending⟩ | isOuter) | ⟨rfl, rfl⟩)
    · exact .inl ⟨rfl, .inl inPending⟩
    · exact .inr isOuter
    · exact .inl ⟨rfl, .inr rfl⟩

theorem Searches.later_eq_expanded (searches : Searches graph before) {later : List Path}
    (isSuffix : path :: later <:+ before.order) : later = before.expanded := by
  have once := searches.once
  rw [order, chain_eq_of_stack stack, List.append_assoc, List.singleton_append] at isSuffix once
  exact eq_of_suffix_of_nodup once isSuffix

theorem Searches.meet (searches : Searches graph before) (passes : Passes graph before link) :
    Searches graph (before.meet path pending outer link) where
  starts := by
    rw [order_meet stack]
    exact searches.starts
  once := by
    rw [order_meet stack]
    exact searches.once
  reached := by
    rw [order_meet stack]
    exact searches.reached
  linked := by
    rw [chain_meet stack]
    exact searches.linked
  offers := by
    intro source target awaits
    exact searches.offers source target ((awaits_iff_meet stack).2 (.inl awaits))
  leads := by
    intro source later isSuffix target edge
    rw [order_meet stack] at isSuffix
    rw [Settles, order_meet stack]
    rcases searches.leads source later isSuffix target edge with awaits | settles
    · rcases (awaits_iff_meet stack).1 awaits with awaits | ⟨rfl, rfl⟩
      · exact .inl awaits
      · right
        rw [searches.later_eq_expanded stack isSuffix]
        rcases passes with attributeOnly | ⟨onStack, counts⟩ | isExpanded | ⟨-, isLeaf⟩
        · cases attributeOnly
        · exact .inr (.inr ⟨counts.1, counts.2, List.mem_append_left _ onStack⟩)
        · exact .inr (.inl isExpanded)
        · exact .inl isLeaf
    · exact .inr settles

end Meet

section Enter

variable {pending : List DependencyLink} {outer : List Frame}
  (stack : before.stack = ⟨path, ⟨target, false⟩ :: pending⟩ :: outer)
include stack

theorem order_enter_meet :
    ((before.meet path pending outer ⟨target, false⟩).enter target links).order =
      before.chain ++ target :: before.expanded := by
  rw [order_enter, chain_meet stack]
  rfl

theorem chain_enter_meet :
    ((before.meet path pending outer ⟨target, false⟩).enter target links).chain =
      before.chain ++ [target] := by
  rw [← chain_meet stack]
  simp [chain, enter]

omit stack in
theorem awaits_enter_meet_iff {source next : Path} :
    ((before.meet path pending outer ⟨target, false⟩).enter target links).Awaits source next ↔
      (source = target ∧ ⟨next, false⟩ ∈ links) ∨
        (before.meet path pending outer ⟨target, false⟩).Awaits source next := by
  simp only [Awaits, enter, List.exists_mem_cons_iff, eq_comm]

theorem awaits_first : before.Awaits path target :=
  ⟨⟨path, ⟨target, false⟩ :: pending⟩, stack ▸ List.mem_cons_self, rfl, List.mem_cons_self⟩

theorem Searches.leads_enter (searches : Searches graph before)
    (known : graph.links? target = .ok (some links)) {source next : Path} {later : List Path}
    (isSuffix : source :: later <:+ before.chain ++ target :: before.expanded)
    (edge : graph.ValueEdge source next) :
    ((before.meet path pending outer ⟨target, false⟩).enter target links).Awaits source next ∨
      graph.IsLeaf before.scope next ∨ next ∈ later ∨
        (before.scope = .selfReference ∧ next ≠ before.origin ∧
          next ∈ before.chain ++ target :: before.expanded) := by
  have grows {place : Path} (member : place ∈ before.order) :
      place ∈ before.chain ++ target :: before.expanded := by
    simp only [order, List.mem_append, List.mem_cons] at member ⊢
    exact member.imp_right .inr
  rcases suffix_middle_cases isSuffix with ⟨rfl, -⟩ | ⟨between, onChain, rfl⟩ | isExpanded
  · -- The new place awaits all its dependencies.
    left
    obtain ⟨_, hasLinks, member⟩ := edge
    cases hasLinks.symm.trans known
    exact awaits_enter_meet_iff.2 (.inl ⟨rfl, member⟩)
  · -- The new place comes after all others on the stack.
    obtain ⟨front, chainEq⟩ := onChain
    have isSuffix : source :: (between ++ before.expanded) <:+ before.order := by
      rw [order, ← chainEq, List.append_assoc]
      exact List.suffix_append front _
    rcases searches.leads source _ isSuffix next edge with
      awaits | isLeaf | member | ⟨scope, different, seen⟩
    · rcases (awaits_iff_meet stack).1 awaits with awaits | ⟨rfl, same⟩
      · exact .inl (awaits_enter_meet_iff.2 (.inr awaits))
      · cases same
        exact .inr (.inr (.inl (List.mem_append_right _ List.mem_cons_self)))
    · exact .inr (.inl isLeaf)
    · right; right; left
      simp only [List.mem_append, List.mem_cons] at member ⊢
      exact member.imp_right .inr
    · exact .inr (.inr (.inr ⟨scope, different, grows seen⟩))
  · have isSuffix := isExpanded.trans (List.suffix_append before.chain before.expanded)
    rcases searches.leads source later isSuffix next edge with
      awaits | isLeaf | member | ⟨scope, different, seen⟩
    · exact absurd (isExpanded.mem List.mem_cons_self)
        ((List.disjoint_of_nodup_append searches.once) (mem_chain_of_awaits awaits))
    · exact .inr (.inl isLeaf)
    · exact .inr (.inr (.inl member))
    · exact .inr (.inr (.inr ⟨scope, different, grows seen⟩))

theorem Searches.enter (searches : Searches graph before) (fresh : target ∉ before.order)
    (known : graph.links? target = .ok (some links)) :
    Searches graph ((before.meet path pending outer ⟨target, false⟩).enter target links) where
  starts := by
    have starts := searches.starts
    rw [order_enter_meet stack]
    rw [order, chain_eq_of_stack stack] at starts
    rw [chain_eq_of_stack stack]
    simp only [List.append_assoc, List.singleton_append, List.head?_append, List.head?_cons]
      at starts ⊢
    exact starts
  once := by
    rw [order_enter_meet stack]
    exact List.nodup_middle.2 (List.nodup_cons.2 ⟨fresh, searches.once⟩)
  reached := by
    rw [order_enter_meet stack]
    intro place member
    have edge := searches.offers path target (awaits_first stack)
    have onStack : path ∈ before.order :=
      List.mem_append_left _ (mem_chain_of_awaits (awaits_first stack))
    rcases List.mem_append.1 member with onChain | member
    · exact searches.reached place (List.mem_append_left _ onChain)
    · rcases List.mem_cons.1 member with rfl | isExpanded
      · exact (searches.reached path onStack).tail edge
      · exact searches.reached place (List.mem_append_right _ isExpanded)
  linked := by
    rw [chain_enter_meet stack]
    refine searches.linked.append (.singleton _) ?_
    intro last isLast first isFirst
    rw [chain_eq_of_stack stack, List.getLast?_concat] at isLast
    cases isLast
    cases isFirst
    exact searches.offers path target (awaits_first stack)
  offers := by
    intro source next awaits
    rcases awaits_enter_meet_iff.1 awaits with ⟨rfl, member⟩ | awaits
    · exact ⟨links, known, member⟩
    · exact searches.offers source next ((awaits_iff_meet stack).2 (.inl awaits))
  leads := by
    intro source later isSuffix next edge
    rw [Settles, order_enter_meet stack]
    rw [order_enter_meet stack] at isSuffix
    exact searches.leads_enter stack known isSuffix edge

end Enter

theorem Searches.advance (searches : Searches graph before)
    (advances : Advances graph before after) : Searches graph after := by
  cases advances with
  | leave stack => exact searches.leave stack
  | pass stack passes => exact searches.meet stack passes
  | enter stack fresh known => exact searches.enter stack fresh known

theorem searches_start {scope : FaultScope} {origin : Path}
    (known : graph.links? origin = .ok (some links)) :
    Searches graph (start scope origin links) where
  starts := rfl
  once := List.nodup_singleton origin
  reached := by
    intro path member
    cases List.mem_singleton.1 member
    exact .refl
  linked := .singleton origin
  offers := by
    rintro path target ⟨frame, onStack, rfl, member⟩
    cases List.mem_singleton.1 onStack
    exact ⟨links, known, member⟩
  leads := by
    intro path later isSuffix target edge
    left
    cases List.mem_singleton.1 (isSuffix.mem List.mem_cons_self)
    obtain ⟨_, hasLinks, member⟩ := edge
    cases hasLinks.symm.trans known
    exact ⟨⟨origin, links⟩, List.mem_singleton_self _, rfl, member⟩

/-- The state of a traversal from the origin, in the graph that gives the origin its links. -/
structure SearchesFrom (graph : DependencyGraph) (scope : FaultScope) (origin : Path)
    (links : List DependencyLink) (traversal : Traversal) : Prop where
  origin_eq : traversal.origin = origin
  scope_eq : traversal.scope = scope
  searches : Searches (graph.startingWith origin links) traversal

theorem SearchesFrom.advance {scope : FaultScope} {origin : Path}
    (searchesFrom : SearchesFrom graph scope origin links before)
    (advances : Advances graph before after) :
    SearchesFrom graph scope origin links after := by
  obtain ⟨rfl, rfl, searches⟩ := searchesFrom
  have advances := advances.startingWith links searches.origin_mem_order
  have searches := searches.advance advances
  cases advances with
  | leave stack => exact ⟨rfl, rfl, searches⟩
  | pass stack passes => exact ⟨rfl, rfl, searches⟩
  | enter stack fresh known => exact ⟨rfl, rfl, searches⟩

end Traversal

/-- A traversal ends with an empty stack or fails, and is a depth-first search until then. -/
theorem DependencyGraph.traverse_cases (graph : DependencyGraph) (scope : FaultScope)
    (origin : Path) (links : List DependencyLink) :
    (∃ last, Traversal.SearchesFrom graph scope origin links last ∧ last.stack = [] ∧
        graph.traverse scope origin links = .ok last.met) ∨
      ∃ last error, Traversal.SearchesFrom graph scope origin links last ∧
        Traversal.Fails (graph.startingWith origin links) last error ∧
        graph.traverse scope origin links = .error error := by
  have atStart : Traversal.SearchesFrom graph scope origin links
      (.start scope origin links) :=
    ⟨rfl, rfl, Traversal.searches_start (if_pos rfl)⟩
  rcases Traversal.run_cases (fun _ _ kept advances => kept.advance advances)
      (Traversal.tracks_start scope origin links) atStart with
    ended | ⟨last, error, kept, fails, failed⟩
  · exact .inl ended
  · right
    have fails := fails.startingWith links kept.searches.origin_mem_order
    rw [kept.origin_eq] at fails
    exact ⟨last, error, kept, fails, failed⟩

end InspectionFormula
