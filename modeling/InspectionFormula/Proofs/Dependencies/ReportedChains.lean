import InspectionFormula.Proofs.Dependencies.Cycles

/-!
# Chains of reported cycles

A traversal that finds a cycle reports the places on its stack, from the origin
on, and then the place that closes the cycle.  They form a chain of value edges
that comes back to one of its places and repeats no other.
-/

namespace InspectionFormula

/-- A chain from the origin along edges, through places that are all different, and then back to one
of them.  Its first step may follow links that are not edges. -/
structure CircularReference.ComesBack (reference : CircularReference) (first : Path → Prop)
    (edge : Path → Path → Prop) : Prop where
  starts : reference.cycle.head? = some reference.origin
  atLeastTwo : 2 ≤ reference.cycle.length
  once : reference.cycle.dropLast.Nodup
  returns : ∀ last ∈ reference.cycle.getLast?, last ∈ reference.cycle.dropLast
  first : ∀ next ∈ reference.cycle[1]?, first next
  rest : reference.cycle.tail.IsChain edge

theorem CircularReference.ComesBack.congr {reference : CircularReference}
    {first otherFirst : Path → Prop} {edge otherEdge : Path → Path → Prop}
    (comesBack : reference.ComesBack first edge)
    (sameFirst : ∀ next, first next ↔ otherFirst next) (sameEdge : edge = otherEdge) :
    reference.ComesBack otherFirst otherEdge := by
  obtain ⟨starts, atLeastTwo, once, returns, isFirst, rest⟩ := comesBack
  subst sameEdge
  exact ⟨starts, atLeastTwo, once, returns,
    fun next isNext => (sameFirst next).1 (isFirst next isNext), rest⟩

namespace Traversal

variable {graph : DependencyGraph} {last : Traversal} {path target : Path}
  {pending : List DependencyLink} {outer : List Frame}

theorem Searches.head?_chain (searches : Searches graph last)
    (stack : last.stack = ⟨path, pending⟩ :: outer) : last.chain.head? = some last.origin := by
  have starts := searches.starts
  have nonempty : last.chain ≠ [] := by simp [chain_eq_of_stack stack]
  rwa [order, List.head?_append_of_ne_nil _ nonempty] at starts

/-- The places on the stack and a dependency that the last of them has yet to look at. -/
theorem Searches.isChain_append (searches : Searches graph last)
    (stack : last.stack = ⟨path, ⟨target, false⟩ :: pending⟩ :: outer) :
    (last.chain ++ [target]).IsChain graph.ValueEdge := by
  refine searches.linked.append (.singleton _) ?_
  intro source isLast next isNext
  rw [chain_eq_of_stack stack, List.getLast?_concat] at isLast
  cases isLast
  cases isNext
  exact searches.offers path target (awaits_first stack)

end Traversal

namespace DependencyGraph

variable {graph : DependencyGraph} {scope : FaultScope} {origin target : Path}
  {links : List DependencyLink} {reference : CircularReference}

/-- A chain that does not come back to its origin before its end follows the given links in its
first step only. -/
theorem isChain_of_startingWith {later : List Path} (once : (origin :: later).Nodup)
    (linked : (origin :: (later ++ [target])).IsChain (graph.startingWith origin links).ValueEdge) :
    (∀ next ∈ (later ++ [target]).head?, ⟨next, false⟩ ∈ links) ∧
      (later ++ [target]).IsChain graph.ValueEdge := by
  constructor
  · intro next isNext
    exact valueEdge_startingWith_origin_iff.1 ((List.isChain_cons.1 linked).1 next isNext)
  · rw [List.isChain_iff_forall_rel_of_append_cons_cons]
    intro source next earlier rest same
    have edge := List.isChain_iff_forall_rel_of_append_cons_cons.1 linked.tail same
    have isLater : source ∈ later := by
      have kept := congrArg List.dropLast same
      rw [List.dropLast_concat, List.dropLast_append_of_ne_nil (by simp)] at kept
      simp [kept]
    have different : source ≠ origin := by
      rintro rfl
      exact (List.nodup_cons.1 once).1 isLater
    rwa [ValueEdge, links?_startingWith_of_ne different] at edge

/-- A reported cycle is a chain from the origin, along one of its links and then along value edges.
If only cycles through the origin count, it ends there. -/
theorem comesBack_of_traverse
    (failed : graph.traverse scope origin links = .error (.circular reference)) :
    reference.origin = origin ∧
      reference.ComesBack (fun next => ⟨next, false⟩ ∈ links) graph.ValueEdge ∧
      (scope = .selfReference → reference.cycle.getLast? = some origin) := by
  rcases graph.traverse_cases scope origin links with
    ⟨last, -, -, ended⟩ | ⟨last, error, ⟨rfl, rfl, searches⟩, fails, refused⟩
  · cases ended.symm.trans failed
  · cases refused.symm.trans failed
    cases fails with
    | @circular path target pending outer stack closes counts =>
        have linked := searches.isChain_append stack
        have once : last.chain.Nodup := searches.once.of_append_left
        obtain ⟨later, chain⟩ := List.head?_eq_some_iff.1 (searches.head?_chain stack)
        rw [chain] at linked once closes ⊢
        obtain ⟨first, rest⟩ := isChain_of_startingWith once linked
        refine ⟨rfl, ⟨rfl, by simp, ?_, ?_, ?_, rest⟩, ?_⟩
        · rwa [List.dropLast_concat]
        · rw [List.dropLast_concat, List.getLast?_concat]
          rintro _ ⟨⟩
          exact closes
        · rwa [List.cons_append, List.getElem?_cons_succ, ← List.head?_eq_getElem?]
        · intro scope
          rw [List.getLast?_concat, counts scope]

/-- So is the cycle that is reported for a place, whose links are those of its own formula. -/
theorem comesBack_of_traverseFrom
    (failed : graph.traverseFrom scope origin = .error (.circular reference)) :
    reference.origin = origin ∧
      reference.ComesBack (graph.ValueEdge origin) graph.ValueEdge := by
  unfold traverseFrom at failed
  split at failed
  · cases failed
  · next links known =>
      obtain ⟨sameOrigin, comesBack, -⟩ := comesBack_of_traverse failed
      refine ⟨sameOrigin, comesBack.congr (fun next => ?_) rfl⟩
      simp [ValueEdge, known]
  · split at failed <;> cases failed

end DependencyGraph

namespace Dialect

variable {dialect : Dialect} {plan : Plan} {path : Path} {formula : Formula}
  {reference : CircularReference} {scope : FaultScope}

/-- The error is a cycle of the formula with value edges of the plan. -/
theorem comesBack_of_traverseFormula
    (failed : dialect.traverseFormula plan scope formula = .error (.circular reference)) :
    reference.origin = formula.owner ∧
      reference.ComesBack (formula.DependsOnValue plan) (dialect.ValueEdge plan) ∧
      (scope = .selfReference → reference.cycle.getLast? = some formula.owner) := by
  obtain ⟨sameOrigin, comesBack, closes⟩ := DependencyGraph.comesBack_of_traverse failed
  refine ⟨sameOrigin, comesBack.congr (fun next => ?_) valueEdge_graph, closes⟩
  exact Dependencies.mem_links_iff

theorem comesBack_of_traverseFrom
    (failed : (dialect.graph plan).traverseFrom scope path = .error (.circular reference)) :
    reference.origin = path ∧
      reference.ComesBack (dialect.ValueEdge plan path) (dialect.ValueEdge plan) := by
  obtain ⟨sameOrigin, comesBack⟩ := DependencyGraph.comesBack_of_traverseFrom failed
  exact ⟨sameOrigin, comesBack.congr (fun _ => valueEdge_graph_iff) valueEdge_graph⟩

end Dialect

end InspectionFormula
