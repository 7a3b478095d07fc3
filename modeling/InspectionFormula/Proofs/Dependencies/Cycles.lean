import InspectionFormula.Proofs.Dependencies.Search

/-!
# Finding cycles

A place passes the check exactly if no cycle of value edges can be reached from
it, and so does a formula.  If only cycles through its owner count, a formula
passes exactly if it does not lead back to its owner.  Places without a
well-formed formula lead nowhere.  All of this is shown for any dependencies of
the places, however they come about, and then for those of a plan.
-/

namespace InspectionFormula

namespace Traversal

variable {graph : DependencyGraph} {last : Traversal} {path target : Path}
  {error : EvaluationError}

section Expanded

variable (searches : Searches graph last) (scope : last.scope ≠ .selfReference)
include searches scope

/-- A value edge of an expanded place leads to one that was expanded before it, or to a leaf. -/
theorem later_or_isLeaf_of_valueEdge {later : List Path}
    (isSuffix : path :: later <:+ last.expanded) (edge : graph.ValueEdge path target) :
    target ∈ later ∨ graph.IsLeaf last.scope target := by
  have inOrder := isSuffix.trans (List.suffix_append last.chain last.expanded)
  rcases searches.leads path later inOrder target edge with awaits | isLeaf | isLater | ⟨counts, -⟩
  · exact absurd (isSuffix.mem List.mem_cons_self)
      (List.disjoint_of_nodup_append searches.once (mem_chain_of_awaits awaits))
  · exact .inr isLeaf
  · exact .inl isLater
  · exact absurd counts scope

theorem later_or_isLeaf_of_transGen {later : List Path}
    (isSuffix : path :: later <:+ last.expanded)
    (reaches : Relation.TransGen graph.ValueEdge path target) :
    target ∈ later ∨ graph.IsLeaf last.scope target := by
  induction reaches with
  | single edge => exact later_or_isLeaf_of_valueEdge searches scope isSuffix edge
  | tail _ edge ih =>
      rcases ih with member | isLeaf
      · obtain ⟨earlier, rest, rfl⟩ := List.append_of_mem member
        have isSuffix := (List.suffix_append (path :: earlier) (_ :: rest)).trans isSuffix
        rcases later_or_isLeaf_of_valueEdge searches scope isSuffix edge with isLater | isLeaf
        · exact .inl (List.mem_append_right _ (List.mem_cons_of_mem _ isLater))
        · exact .inr isLeaf
      · exact absurd edge isLeaf.not_valueEdge

theorem mem_expanded_or_isLeaf_of_reaches (member : path ∈ last.expanded)
    (reaches : graph.Reaches path target) :
    target ∈ last.expanded ∨ graph.IsLeaf last.scope target := by
  obtain ⟨earlier, later, equal⟩ := List.append_of_mem member
  rcases Relation.reflTransGen_iff_eq_or_transGen.1 reaches with rfl | leads
  · exact .inl member
  · refine (later_or_isLeaf_of_transGen searches scope ⟨earlier, equal.symm⟩ leads).imp_left ?_
    intro isLater
    rw [equal]
    exact List.mem_append_right _ (List.mem_cons_of_mem _ isLater)

theorem not_onCycle_of_mem_expanded (member : path ∈ last.expanded) : ¬ graph.OnCycle path := by
  intro cycle
  obtain ⟨next, first, -⟩ := Relation.TransGen.head'_iff.1 cycle
  obtain ⟨earlier, later, equal⟩ := List.append_of_mem member
  have isLater := (later_or_isLeaf_of_transGen searches scope ⟨earlier, equal.symm⟩
    cycle).resolve_right fun isLeaf => isLeaf.not_valueEdge first
  have once : last.expanded.Nodup := searches.once.of_append_right
  rw [equal] at once
  exact (List.nodup_cons.1 once.of_append_right).1 isLater

end Expanded

section Ended

variable (searches : Searches graph last) (ended : last.stack = [])
include searches ended

theorem settles_of_ended {later : List Path} (isSuffix : path :: later <:+ last.order)
    (edge : graph.ValueEdge path target) : Settles graph last later target := by
  rcases searches.leads path later isSuffix target edge with ⟨frame, onStack, -⟩ | settles
  · rw [ended] at onStack
    cases onStack
  · exact settles

theorem mem_order_or_isLeaf_of_reaches (reaches : graph.Reaches last.origin target) :
    target ∈ last.order ∨ graph.IsLeaf last.scope target := by
  induction reaches with
  | refl => exact .inl searches.origin_mem_order
  | tail reaches edge ih =>
      rcases ih with member | isLeaf
      · obtain ⟨earlier, later, equal⟩ := List.append_of_mem member
        have isSuffix : _ :: later <:+ last.order := ⟨earlier, equal.symm⟩
        rcases settles_of_ended searches ended isSuffix edge with isLeaf | isLater | ⟨-, -, seen⟩
        · exact .inr isLeaf
        · exact .inl (isSuffix.mem (List.mem_cons_of_mem _ isLater))
        · exact .inl seen
      · exact absurd edge isLeaf.not_valueEdge

theorem not_onCycle_origin_of_ended : ¬ graph.OnCycle last.origin := by
  intro cycle
  obtain ⟨before, reaches, edge⟩ := Relation.TransGen.tail'_iff.1 cycle
  have notLeaf {place next : Path} (edge : graph.ValueEdge place next) :
      ¬ graph.IsLeaf last.scope place := fun isLeaf => isLeaf.not_valueEdge edge
  have member : before ∈ last.order :=
    (mem_order_or_isLeaf_of_reaches searches ended reaches).resolve_right (notLeaf edge)
  obtain ⟨earlier, later, equal⟩ := List.append_of_mem member
  rcases settles_of_ended searches ended ⟨earlier, equal.symm⟩ edge with
    isLeaf | isLater | ⟨-, different, -⟩
  · obtain ⟨next, first, -⟩ := Relation.TransGen.head'_iff.1 cycle
    exact notLeaf first isLeaf
  · exact searches.origin_not_mem_later ⟨earlier, equal.symm⟩ isLater
  · exact different rfl

theorem not_onCycle_of_ended (scope : last.scope ≠ .selfReference)
    (reaches : graph.Reaches last.origin target) : ¬ graph.OnCycle target := by
  intro cycle
  obtain ⟨next, first, -⟩ := Relation.TransGen.head'_iff.1 cycle
  have member := (mem_order_or_isLeaf_of_reaches searches ended reaches).resolve_right
    fun isLeaf => isLeaf.not_valueEdge first
  have isExpanded : target ∈ last.expanded := by simpa [order, chain, ended] using member
  exact not_onCycle_of_mem_expanded searches scope isExpanded cycle

end Ended

/-- What is on the stack leads to the last place on it. -/
theorem Searches.reaches_of_mem_chain (searches : Searches graph last)
    {pending : List DependencyLink} {outer : List Frame}
    (stack : last.stack = ⟨path, pending⟩ :: outer) (onChain : target ∈ last.chain) :
    graph.Reaches target path := by
  have linked := searches.linked
  rw [chain_eq_of_stack stack] at linked onChain
  rcases List.mem_append.1 onChain with isOuter | isLast
  · exact linked.backwards_concat_induction (fun place => graph.Reaches place path) _
      (fun _ _ edge reaches => reaches.head edge) .refl target isOuter
  · rw [List.mem_singleton.1 isLast]

/-- A dependency on a place that is on the stack closes a cycle. -/
theorem Searches.onCycle_of_closes (searches : Searches graph last)
    {pending : List DependencyLink} {outer : List Frame}
    (stack : last.stack = ⟨path, ⟨target, false⟩ :: pending⟩ :: outer)
    (closes : target ∈ last.chain) : graph.Reaches last.origin target ∧ graph.OnCycle target := by
  have edge := searches.offers path target (awaits_first stack)
  have reaches := searches.reaches_of_mem_chain stack closes
  exact ⟨searches.reached target (List.mem_append_left _ closes), .tail' reaches edge⟩

/-- A traversal that takes no malformed formula for a fault fails with a cycle only. -/
theorem onCycle_of_fails (searches : Searches graph last) (fails : Fails graph last error)
    (scope : last.scope ≠ .everything) :
    ∃ cycle place, error = .circular ⟨last.origin, cycle⟩ ∧
      graph.Reaches last.origin place ∧ graph.OnCycle place ∧
      (last.scope = .selfReference → place = last.origin) := by
  cases fails with
  | @circular path target _ _ stack closes counts =>
      obtain ⟨reaches, onCycle⟩ := searches.onCycle_of_closes stack closes
      exact ⟨_, target, rfl, reaches, onCycle, counts⟩
  | malformed stack fresh counts unknown => exact absurd counts scope

end Traversal

namespace DependencyGraph

variable {graph other : DependencyGraph} {origin first path target : Path}
  {links : List DependencyLink}

/-- From the place one comes to the origin or to a cycle. -/
def Returns (graph : DependencyGraph) (origin first : Path) : Prop :=
  graph.Reaches first origin ∨ ∃ place, graph.Reaches first place ∧ graph.OnCycle place

theorem reachable_cycle_iff_returns :
    (∃ place, graph.Reaches origin place ∧ graph.OnCycle place) ↔
      ∃ first, graph.ValueEdge origin first ∧ graph.Returns origin first := by
  constructor
  · rintro ⟨place, reaches, cycle⟩
    rcases Relation.ReflTransGen.cases_head reaches with rfl | ⟨first, edge, reaches⟩
    · obtain ⟨first, edge, reaches⟩ := Relation.TransGen.head'_iff.1 cycle
      exact ⟨first, edge, .inl reaches⟩
    · exact ⟨first, edge, .inr ⟨place, reaches, cycle⟩⟩
  · rintro ⟨first, edge, back | ⟨place, reaches, cycle⟩⟩
    · exact ⟨origin, .refl, .head' edge back⟩
    · exact ⟨place, reaches.head edge, cycle⟩

section Elsewhere

variable (agree : ∀ path, path ≠ origin → graph.links? path = other.links? path)
include agree

theorem reaches_or_reaches_origin (reaches : graph.Reaches path target) :
    other.Reaches path target ∨ other.Reaches path origin := by
  induction reaches with
  | refl => exact .inl .refl
  | @tail middle target _ edge ih =>
      rcases ih with reaches | reaches
      · by_cases same : middle = origin
        · exact .inr (same ▸ reaches)
        · left
          refine reaches.tail ?_
          rwa [ValueEdge, ← agree middle same]
      · exact .inr reaches

theorem Returns.of_agree (returns : graph.Returns origin first) : other.Returns origin first := by
  rcases returns with back | ⟨place, reaches, cycle⟩
  · exact .inl ((reaches_or_reaches_origin agree back).elim id id)
  · rcases reaches_or_reaches_origin agree reaches with reaches | back
    · by_cases same : place = origin
      · exact .inl (same ▸ reaches)
      · obtain ⟨next, edge, reachesPlace⟩ := Relation.TransGen.head'_iff.1 cycle
        have edge : other.ValueEdge place next := by rwa [ValueEdge, ← agree place same]
        rcases reaches_or_reaches_origin agree reachesPlace with around | back
        · exact .inr ⟨place, reaches, .head' edge around⟩
        · exact .inl (reaches.trans (back.head edge))
    · exact .inl back

end Elsewhere

theorem valueEdge_startingWith_origin_iff :
    (graph.startingWith origin links).ValueEdge origin target ↔ ⟨target, false⟩ ∈ links := by
  simp [ValueEdge, startingWith]

theorem reaches_startingWith_origin_iff :
    (graph.startingWith origin links).Reaches path origin ↔ graph.Reaches path origin := by
  constructor
  · intro reaches
    exact or_self_iff.1 (reaches_or_reaches_origin (fun _ => links?_startingWith_of_ne) reaches)
  · intro reaches
    exact or_self_iff.1 (reaches_or_reaches_origin
      (fun _ different => (links?_startingWith_of_ne different).symm) reaches)

theorem returns_startingWith_iff :
    (graph.startingWith origin links).Returns origin first ↔ graph.Returns origin first :=
  ⟨.of_agree fun _ => links?_startingWith_of_ne,
    .of_agree fun _ different => (links?_startingWith_of_ne different).symm⟩

end DependencyGraph

/-- The check fails exactly in the given case, and then with a cycle of its origin. -/
def Detects (outcome : Except EvaluationError Unit) (origin : Path) (fault : Prop) : Prop :=
  ((∃ error, outcome = .error error) ↔ fault) ∧
    ∀ error, outcome = .error error → ∃ cycle, error = .circular ⟨origin, cycle⟩

theorem Detects.eq_ok_iff {outcome : Except EvaluationError Unit} {origin : Path} {fault : Prop}
    (detects : Detects outcome origin fault) : outcome = .ok () ↔ ¬ fault := by
  rw [← detects.1]
  cases outcome <;> simp

namespace DependencyGraph

/-- A traversal for cycles detects a fault that is absent when a search has ended and present when
it has found a cycle. -/
theorem detects_traverse (graph : DependencyGraph) {scope : FaultScope} (origin : Path)
    (links : List DependencyLink) {fault : Prop} (notEverything : scope ≠ .everything)
    (clear : ∀ last, Traversal.SearchesFrom graph scope origin links last → last.stack = [] →
      ¬ fault)
    (found : ∀ place, (graph.startingWith origin links).Reaches origin place →
      (graph.startingWith origin links).OnCycle place →
      (scope = .selfReference → place = origin) → fault) :
    Detects ((graph.traverse scope origin links).map fun _ => ()) origin fault := by
  rcases graph.traverse_cases scope origin links with
    ⟨last, searchesFrom, ended, ok⟩ | ⟨last, error, searchesFrom, fails, failed⟩
  · rw [ok]
    exact ⟨⟨nofun, fun isFault => absurd isFault (clear last searchesFrom ended)⟩, nofun⟩
  · obtain ⟨rfl, rfl, searches⟩ := searchesFrom
    obtain ⟨cycle, place, rfl, reaches, onCycle, counts⟩ :=
      Traversal.onCycle_of_fails searches fails notEverything
    rw [failed]
    refine ⟨⟨fun _ => found place reaches onCycle counts, fun _ => ⟨_, rfl⟩⟩, ?_⟩
    intro error same
    cases same
    exact ⟨cycle, rfl⟩

theorem detects_traverse_cycles (graph : DependencyGraph) (origin : Path)
    (links : List DependencyLink) :
    Detects ((graph.traverse .cycles origin links).map fun _ => ()) origin
      (∃ first, ⟨first, false⟩ ∈ links ∧ graph.Returns origin first) := by
  have fault_iff : (∃ first, ⟨first, false⟩ ∈ links ∧ graph.Returns origin first) ↔
      ∃ place, (graph.startingWith origin links).Reaches origin place ∧
        (graph.startingWith origin links).OnCycle place := by
    simp only [reachable_cycle_iff_returns, valueEdge_startingWith_origin_iff,
      returns_startingWith_iff]
  rw [fault_iff]
  refine graph.detects_traverse origin links (by decide) ?_ ?_
  · rintro last ⟨rfl, scope, searches⟩ ended ⟨place, reaches, onCycle⟩
    exact Traversal.not_onCycle_of_ended searches ended (by simp [scope]) reaches onCycle
  · intro place reaches onCycle _
    exact ⟨place, reaches, onCycle⟩

theorem detects_traverse_selfReference (graph : DependencyGraph) (origin : Path)
    (links : List DependencyLink) :
    Detects ((graph.traverse .selfReference origin links).map fun _ => ()) origin
      (∃ first, ⟨first, false⟩ ∈ links ∧ graph.Reaches first origin) := by
  have fault_iff : (∃ first, ⟨first, false⟩ ∈ links ∧ graph.Reaches first origin) ↔
      (graph.startingWith origin links).OnCycle origin := by
    simp only [OnCycle, Relation.TransGen.head'_iff, valueEdge_startingWith_origin_iff,
      reaches_startingWith_origin_iff]
  rw [fault_iff]
  refine graph.detects_traverse origin links (by decide) ?_ ?_
  · rintro last ⟨rfl, scope, searches⟩ ended onCycle
    exact Traversal.not_onCycle_origin_of_ended searches ended onCycle
  · intro place _ onCycle counts
    rwa [counts rfl] at onCycle

/-- The origin is among its own dependencies, or one of them leads back to it. -/
theorem detects_traverse_back_to_origin (graph : DependencyGraph) (origin : Path)
    (links : List DependencyLink) :
    Detects ((graph.traverse .selfReference origin links).map fun _ => ()) origin
      (⟨origin, false⟩ ∈ links ∨
        ∃ first, ⟨first, false⟩ ∈ links ∧ Relation.TransGen graph.ValueEdge first origin) := by
  obtain ⟨fails_iff, isCircular⟩ := graph.detects_traverse_selfReference origin links
  refine ⟨fails_iff.trans ?_, isCircular⟩
  constructor
  · rintro ⟨first, isLink, reaches⟩
    rcases Relation.reflTransGen_iff_eq_or_transGen.1 reaches with same | leads
    · exact .inl (same ▸ isLink)
    · exact .inr ⟨first, isLink, leads⟩
  · rintro (isLink | ⟨first, isLink, leads⟩)
    · exact ⟨origin, isLink, .refl⟩
    · exact ⟨first, isLink, leads.to_reflTransGen⟩

theorem detects_traverseFrom_cycles (graph : DependencyGraph) (path : Path) :
    Detects ((graph.traverseFrom .cycles path).map fun _ => ()) path
      (∃ place, graph.Reaches path place ∧ graph.OnCycle place) := by
  rw [reachable_cycle_iff_returns]
  have passes (isLeaf : graph.IsLeaf .cycles path) :
      Detects (.ok ()) path (∃ first, graph.ValueEdge path first ∧ graph.Returns path first) := by
    refine ⟨⟨nofun, ?_⟩, nofun⟩
    rintro ⟨first, edge, -⟩
    exact absurd edge isLeaf.not_valueEdge
  cases known : graph.links? path with
  | error error =>
      rw [traverseFrom, known]
      exact passes (.inr ⟨nofun, error, known⟩)
  | ok links? =>
      cases links? with
      | none =>
          rw [traverseFrom, known]
          exact passes (.inl known)
      | some links =>
          have edge_iff (first : Path) : graph.ValueEdge path first ↔ ⟨first, false⟩ ∈ links := by
            simp [ValueEdge, known]
          simp only [traverseFrom, known, edge_iff]
          exact graph.detects_traverse_cycles path links

end DependencyGraph

namespace Dialect

variable {dialect : Dialect} {plan : Plan}

theorem reaches_graph : (dialect.graph plan).Reaches = dialect.Reaches plan :=
  congrArg Relation.ReflTransGen valueEdge_graph

theorem onCycle_graph : (dialect.graph plan).OnCycle = dialect.OnCycle plan := by
  ext path
  rw [DependencyGraph.OnCycle, valueEdge_graph, OnCycle]

theorem detects_checkPlace (dialect : Dialect) (plan : Plan) (path : Path) :
    Detects (dialect.checkPlace plan path) path
      (∃ place, dialect.Reaches plan path place ∧ dialect.OnCycle plan place) := by
  have detects := (dialect.graph plan).detects_traverseFrom_cycles path
  rw [reaches_graph, onCycle_graph] at detects
  exact detects

theorem detects_checkAcyclic (dialect : Dialect) (plan : Plan) (formula : Formula) :
    Detects (dialect.checkAcyclic plan formula) formula.owner
      (∃ first, formula.DependsOnValue plan first ∧
        (dialect.Reaches plan first formula.owner ∨
          ∃ place, dialect.Reaches plan first place ∧ dialect.OnCycle plan place)) := by
  have detects := (dialect.graph plan).detects_traverse_cycles formula.owner
    (formula.dependencies plan.childPaths).links
  simp only [DependencyGraph.Returns, reaches_graph, onCycle_graph,
    Dependencies.mem_links_iff] at detects
  exact detects

theorem detects_checkSelfReference (dialect : Dialect) (plan : Plan) (formula : Formula) :
    Detects (dialect.checkSelfReference plan formula) formula.owner
      (∃ first, formula.DependsOnValue plan first ∧ dialect.Reaches plan first formula.owner) := by
  have detects := (dialect.graph plan).detects_traverse_selfReference formula.owner
    (formula.dependencies plan.childPaths).links
  simp only [reaches_graph, Dependencies.mem_links_iff] at detects
  exact detects

theorem checkPlace_eq_ok_iff {path : Path} :
    dialect.checkPlace plan path = .ok () ↔ ¬ dialect.ReachesCycle plan path :=
  (dialect.detects_checkPlace plan path).eq_ok_iff

theorem not_reaches_owner_of_checkAcyclic {formula : Formula} {first : Path}
    (passes : dialect.checkAcyclic plan formula = .ok ())
    (dependsOnValue : formula.DependsOnValue plan first) :
    ¬ dialect.Reaches plan first formula.owner := by
  intro back
  exact (dialect.detects_checkAcyclic plan formula).eq_ok_iff.1 passes
    ⟨first, dependsOnValue, .inl back⟩

theorem not_reaches_owner_of_checkSelfReference {formula : Formula} {first : Path}
    (passes : dialect.checkSelfReference plan formula = .ok ())
    (dependsOnValue : formula.DependsOnValue plan first) :
    ¬ dialect.Reaches plan first formula.owner := by
  intro back
  exact (dialect.detects_checkSelfReference plan formula).eq_ok_iff.1 passes
    ⟨first, dependsOnValue, back⟩

/-- A place passes the check exactly if it reaches no cycle, and a formula exactly if none of the
places whose values it depends on leads back to its owner or to a cycle. -/
theorem detects_reachable_cycles (dialect : Dialect) (plan : Plan) :
    (∀ path, Detects (dialect.checkPlace plan path) path
      (∃ place, dialect.Reaches plan path place ∧ dialect.OnCycle plan place)) ∧
    ∀ formula, Detects (dialect.checkAcyclic plan formula) formula.owner
      (∃ first, formula.DependsOnValue plan first ∧
        (dialect.Reaches plan first formula.owner ∨
          ∃ place, dialect.Reaches plan first place ∧ dialect.OnCycle plan place)) :=
  ⟨dialect.detects_checkPlace plan, dialect.detects_checkAcyclic plan⟩

/-- A formula that need not be one of the plan passes the check exactly if it does not depend on
the value of its own owner and no value that it depends on leads there.  Other cycles, whatever
they have in common with a way back to the owner, neither cause a failure nor prevent one. -/
theorem checkSelfReference_finds_owner (dialect : Dialect) (plan : Plan) (formula : Formula) :
    ((∃ error, dialect.checkSelfReference plan formula = .error error) ↔
      formula.DependsOnValue plan formula.owner ∨
        ∃ first, formula.DependsOnValue plan first ∧
          Relation.TransGen (dialect.ValueEdge plan) first formula.owner) ∧
    ∀ error, dialect.checkSelfReference plan formula = .error error →
      ∃ cycle, error = .circular ⟨formula.owner, cycle⟩ := by
  have detects := (dialect.graph plan).detects_traverse_back_to_origin formula.owner
    (formula.dependencies plan.childPaths).links
  simp only [valueEdge_graph, Dependencies.mem_links_iff] at detects
  exact detects

end Dialect

end InspectionFormula
