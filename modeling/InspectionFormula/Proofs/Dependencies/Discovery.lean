import InspectionFormula.Proofs.Dependencies.Cycles

/-!
# Discovery

Discovery finds exactly the dependencies of the places that a place reaches.  It
fails if a formula among them is malformed or lies on a cycle, and in no other
case.  This is shown for any dependencies of the places, however they come about,
and then for those of a plan.
-/

namespace InspectionFormula

/-- The source depends on the target, by its value or by attributes only. -/
def DependencyGraph.HasLink (graph : DependencyGraph) (source target : Path) : Prop :=
  ∃ links, graph.links? source = .ok (some links) ∧ target ∈ links.map DependencyLink.path

theorem DependencyGraph.IsLeaf.not_hasLink {graph : DependencyGraph} {scope : FaultScope}
    {source target : Path} (isLeaf : graph.IsLeaf scope source) :
    ¬ graph.HasLink source target := by
  rintro ⟨links, known, -⟩
  rcases isLeaf with none | ⟨-, error, malformed⟩
  · cases known.symm.trans none
  · cases known.symm.trans malformed

namespace Traversal

variable {graph : DependencyGraph} {before after last : Traversal} {path target : Path}
  {link : DependencyLink} {links pending : List DependencyLink} {outer : List Frame}
  {error : EvaluationError}

/-- A place on the stack has yet to look at the target, by its value or by attributes only. -/
def Owes (traversal : Traversal) (source target : Path) : Prop :=
  ∃ frame ∈ traversal.stack, frame.path = source ∧ target ∈ frame.pending.map DependencyLink.path

/-- What a traversal has met are the dependencies of the places it has come to, except those that
it has yet to look at. -/
structure Collects (graph : DependencyGraph) (traversal : Traversal) : Prop where
  known : ∀ path ∈ traversal.order, ∃ links, graph.links? path = .ok (some links)
  owed : ∀ source target, traversal.Owes source target → graph.HasLink source target
  sound : ∀ target ∈ traversal.met.paths, ∃ source ∈ traversal.order, graph.HasLink source target
  complete : ∀ source ∈ traversal.order, ∀ target, graph.HasLink source target →
    target ∈ traversal.met.paths ∨ traversal.Owes source target

theorem owes_leave_iff {source : Path} (stack : before.stack = ⟨path, []⟩ :: outer) :
    (before.leave path outer).Owes source target ↔ before.Owes source target := by
  simp [Owes, leave, stack]

theorem Collects.leave (collects : Collects graph before)
    (stack : before.stack = ⟨path, []⟩ :: outer) : Collects graph (before.leave path outer) where
  known := by
    rw [order_leave stack]
    exact collects.known
  owed := by
    intro source target owes
    exact collects.owed source target ((owes_leave_iff stack).1 owes)
  sound := by
    rw [order_leave stack]
    exact collects.sound
  complete := by
    intro source member target hasLink
    rw [order_leave stack] at member
    rw [owes_leave_iff stack]
    exact collects.complete source member target hasLink

section Meet

variable (stack : before.stack = ⟨path, link :: pending⟩ :: outer)
include stack

theorem owes_iff_meet {source : Path} :
    before.Owes source target ↔
      (before.meet path pending outer link).Owes source target ∨
        source = path ∧ target = link.path := by
  have pending_iff : target ∈ (link :: pending).map DependencyLink.path ↔
      target ∈ pending.map DependencyLink.path ∨ target = link.path := by
    rw [List.map_cons, List.mem_cons, or_comm]
  have same : source = path ↔ path = source := eq_comm
  simp only [Owes, meet, stack, List.exists_mem_cons_iff, pending_iff, same]
  rw [and_or_left, or_right_comm]

theorem Collects.meet (collects : Collects graph before) :
    Collects graph (before.meet path pending outer link) where
  known := by
    rw [order_meet stack]
    exact collects.known
  owed := by
    intro source target owes
    exact collects.owed source target ((owes_iff_meet stack).2 (.inl owes))
  sound := by
    intro target member
    rw [order_meet stack]
    rcases PathSet.mem_paths_insert.1 member with rfl | earlier
    · have onStack : path ∈ before.order := by
        rw [order, chain_eq_of_stack stack]
        simp
      exact ⟨path, onStack, collects.owed path _ ((owes_iff_meet stack).2 (.inr ⟨rfl, rfl⟩))⟩
    · exact collects.sound target earlier
  complete := by
    intro source member target hasLink
    rw [order_meet stack] at member
    rcases collects.complete source member target hasLink with met | owes
    · exact .inl (PathSet.mem_paths_insert.2 (.inr met))
    · rcases (owes_iff_meet stack).1 owes with owes | ⟨-, rfl⟩
      · exact .inr owes
      · exact .inl (PathSet.mem_paths_insert.2 (.inl rfl))

end Meet

theorem owes_enter_iff {traversal : Traversal} {source next : Path} :
    (traversal.enter target links).Owes source next ↔
      (source = target ∧ next ∈ links.map DependencyLink.path) ∨ traversal.Owes source next := by
  simp only [Owes, enter, List.exists_mem_cons_iff, eq_comm]

theorem mem_order_enter_iff {traversal : Traversal} {place : Path} :
    place ∈ (traversal.enter target links).order ↔ place = target ∨ place ∈ traversal.order := by
  rw [order_enter, order, List.mem_append, List.mem_cons, List.mem_append]
  tauto

theorem Collects.enter (collects : Collects graph before)
    (known : graph.links? target = .ok (some links)) :
    Collects graph (before.enter target links) where
  known := by
    intro place member
    rcases mem_order_enter_iff.1 member with rfl | earlier
    · exact ⟨links, known⟩
    · exact collects.known place earlier
  owed := by
    intro source next owes
    rcases owes_enter_iff.1 owes with ⟨rfl, member⟩ | owes
    · exact ⟨links, known, member⟩
    · exact collects.owed source next owes
  sound := by
    intro next member
    obtain ⟨source, earlier, hasLink⟩ := collects.sound next member
    exact ⟨source, mem_order_enter_iff.2 (.inr earlier), hasLink⟩
  complete := by
    intro source member next hasLink
    rw [owes_enter_iff]
    rcases mem_order_enter_iff.1 member with rfl | earlier
    · obtain ⟨_, hasLinks, isPath⟩ := hasLink
      cases hasLinks.symm.trans known
      exact .inr (.inl ⟨rfl, isPath⟩)
    · exact (collects.complete source earlier next hasLink).imp_right .inr

theorem Collects.advance (collects : Collects graph before)
    (advances : Advances graph before after) : Collects graph after := by
  cases advances with
  | leave stack => exact collects.leave stack
  | pass stack passes => exact collects.meet stack
  | enter stack fresh known => exact (collects.meet stack).enter known

theorem collects_start {scope : FaultScope} {origin : Path}
    (known : graph.links? origin = .ok (some links)) :
    Collects graph (start scope origin links) := by
  have nothing : Collects graph ⟨origin, scope, [], [], [], .empty⟩ :=
    ⟨nofun, nofun, nofun, nofun⟩
  exact nothing.enter known

/-- A depth-first search for all dependencies of the origin. -/
structure Discovers (graph : DependencyGraph) (origin : Path) (traversal : Traversal) : Prop where
  origin_eq : traversal.origin = origin
  scope_eq : traversal.scope = .everything
  searches : Searches graph traversal
  collects : Collects graph traversal

theorem Discovers.advance {origin : Path} (discovers : Discovers graph origin before)
    (advances : Advances graph before after) : Discovers graph origin after := by
  have searches := discovers.searches.advance advances
  have collects := discovers.collects.advance advances
  obtain ⟨rfl, scope, -, -⟩ := discovers
  cases advances <;> exact ⟨rfl, scope, searches, collects⟩

theorem Discovers.mem_order_iff_of_ended {origin : Path} (discovers : Discovers graph origin last)
    (ended : last.stack = []) :
    target ∈ last.order ↔
      graph.Reaches origin target ∧ ∃ links, graph.links? target = .ok (some links) := by
  obtain ⟨rfl, scope, searches, collects⟩ := discovers
  constructor
  · intro member
    exact ⟨searches.reached target member, collects.known target member⟩
  · rintro ⟨reaches, links, known⟩
    refine (mem_order_or_isLeaf_of_reaches searches ended reaches).resolve_right ?_
    rintro (none | ⟨counts, -⟩)
    · cases known.symm.trans none
    · exact counts scope

theorem Discovers.mem_met_iff_of_ended {origin : Path} (discovers : Discovers graph origin last)
    (ended : last.stack = []) :
    target ∈ last.met.paths ↔
      ∃ place, graph.Reaches origin place ∧ graph.HasLink place target := by
  constructor
  · intro met
    obtain ⟨source, member, hasLink⟩ := discovers.collects.sound target met
    exact ⟨source, ((discovers.mem_order_iff_of_ended ended).1 member).1, hasLink⟩
  · rintro ⟨source, reaches, links, known, isPath⟩
    have member := (discovers.mem_order_iff_of_ended ended).2 ⟨reaches, links, known⟩
    have hasLink : graph.HasLink source target := ⟨links, known, isPath⟩
    refine (discovers.collects.complete source member target hasLink).resolve_right ?_
    rintro ⟨frame, onStack, -⟩
    rw [ended] at onStack
    cases onStack

end Traversal

namespace DependencyGraph

variable {graph : DependencyGraph} {origin : Path}

/-- What discovery from a place may come to. -/
inductive Discovery (graph : DependencyGraph) (origin : Path) :
    Except EvaluationError PathSet → Prop where
  | found {found : PathSet}
      (wellFormed : ∀ place, graph.Reaches origin place → ∃ links?, graph.links? place = .ok links?)
      (acyclic : ∀ place, graph.Reaches origin place → ¬ graph.OnCycle place)
      (exact : ∀ target,
        target ∈ found.paths ↔ ∃ place, graph.Reaches origin place ∧ graph.HasLink place target) :
      Discovery graph origin (.ok found)
  | malformed {place : Path} {error : SyntaxError} (reaches : graph.Reaches origin place)
      (malformed : graph.links? place = .error error) :
      Discovery graph origin (.error (.malformed error))
  | circular {place : Path} {cycle : List Path} (reaches : graph.Reaches origin place)
      (onCycle : graph.OnCycle place) :
      Discovery graph origin (.error (.circular ⟨origin, cycle⟩))

theorem discovery_of_ended {last : Traversal} (discovers : Traversal.Discovers graph origin last)
    (ended : last.stack = []) : graph.Discovery origin (.ok last.met) := by
  refine .found ?_ ?_ fun target => discovers.mem_met_iff_of_ended ended
  · intro place reaches
    rw [← discovers.origin_eq] at reaches
    rcases Traversal.mem_order_or_isLeaf_of_reaches discovers.searches ended reaches with
      member | none | ⟨counts, -⟩
    · obtain ⟨links, known⟩ := discovers.collects.known place member
      exact ⟨_, known⟩
    · exact ⟨_, none⟩
    · exact absurd discovers.scope_eq counts
  · intro place reaches
    rw [← discovers.origin_eq] at reaches
    apply Traversal.not_onCycle_of_ended discovers.searches ended _ reaches
    rw [discovers.scope_eq]
    nofun

theorem discovery_of_fails {last : Traversal} {error : EvaluationError}
    (discovers : Traversal.Discovers graph origin last) (fails : Traversal.Fails graph last error) :
    graph.Discovery origin (.error error) := by
  obtain ⟨rfl, -, searches, -⟩ := discovers
  cases fails with
  | circular stack closes counts =>
      obtain ⟨reaches, onCycle⟩ := searches.onCycle_of_closes stack closes
      exact .circular reaches onCycle
  | @malformed path target _ _ _ stack fresh counts unknown =>
      have edge := searches.offers path target (Traversal.awaits_first stack)
      have onStack : path ∈ last.order :=
        List.mem_append_left _ (Traversal.mem_chain_of_awaits (Traversal.awaits_first stack))
      exact .malformed ((searches.reached path onStack).tail edge) unknown

theorem discovery_traverseFrom (graph : DependencyGraph) (origin : Path) :
    graph.Discovery origin (graph.traverseFrom .everything origin) := by
  cases known : graph.links? origin with
  | error error =>
      simp only [traverseFrom, known]
      exact .malformed .refl known
  | ok links? =>
      cases links? with
      | none =>
          have isLeaf : graph.IsLeaf .everything origin := .inl known
          have stays {place : Path} (reaches : graph.Reaches origin place) : place = origin := by
            rcases Relation.ReflTransGen.cases_head reaches with rfl | ⟨next, edge, -⟩
            · rfl
            · exact absurd edge isLeaf.not_valueEdge
          simp only [traverseFrom, known]
          refine .found ?_ ?_ ?_
          · intro place reaches
            exact ⟨_, stays reaches ▸ known⟩
          · intro place reaches onCycle
            obtain ⟨next, edge, -⟩ := Relation.TransGen.head'_iff.1 onCycle
            exact isLeaf.not_valueEdge (stays reaches ▸ edge)
          · intro target
            constructor
            · intro member
              cases member
            · rintro ⟨place, reaches, hasLink⟩
              exact absurd (stays reaches ▸ hasLink) isLeaf.not_hasLink
      | some links =>
          simp only [traverseFrom, known]
          have atStart : Traversal.Discovers graph origin
              (.start .everything origin links) :=
            ⟨rfl, rfl, Traversal.searches_start known, Traversal.collects_start known⟩
          rcases Traversal.run_cases (fun _ _ kept advances => kept.advance advances)
              (Traversal.tracks_start _ origin links) atStart with
            ⟨last, discovers, ended, ok⟩ | ⟨last, error, discovers, fails, failed⟩
          · rw [traverse, ok]
            exact discovery_of_ended discovers ended
          · rw [traverse, failed]
            exact discovery_of_fails discovers fails

/-- Discovery succeeds exactly if the dependencies of every place that is reached are known and none
of these places is on a cycle.  It then finds these dependencies and nothing else, the origin itself
only by its attributes, and otherwise it fails for a place without known dependencies or for a cycle
that is reached. -/
theorem traverseFrom_exact_or_faulty (graph : DependencyGraph) (origin : Path) :
    ((∃ found, graph.traverseFrom .everything origin = .ok found) ↔
      ∀ place, graph.Reaches origin place →
        (∃ links?, graph.links? place = .ok links?) ∧ ¬ graph.OnCycle place) ∧
    (∀ found, graph.traverseFrom .everything origin = .ok found →
      (∀ target, target ∈ found.paths ↔
        ∃ place, graph.Reaches origin place ∧ graph.HasLink place target) ∧
      (origin ∈ found.paths → ∃ place links, graph.Reaches origin place ∧
        graph.links? place = .ok (some links) ∧ ⟨origin, true⟩ ∈ links)) ∧
    ∀ error, graph.traverseFrom .everything origin = .error error →
      (∃ place fault, error = .malformed fault ∧ graph.Reaches origin place ∧
        graph.links? place = .error fault) ∨
      ∃ place cycle, error = .circular ⟨origin, cycle⟩ ∧ graph.Reaches origin place ∧
        graph.OnCycle place := by
  have discovery := graph.discovery_traverseFrom origin
  generalize graph.traverseFrom .everything origin = outcome at discovery
  cases discovery with
  | found wellFormed acyclic exact =>
      refine ⟨⟨fun _ place reaches => ⟨wellFormed place reaches, acyclic place reaches⟩,
        fun _ => ⟨_, rfl⟩⟩, ?_, nofun⟩
      rintro _ ⟨⟩
      refine ⟨exact, ?_⟩
      intro member
      obtain ⟨place, reaches, links, known, isPath⟩ := (exact origin).1 member
      obtain ⟨⟨path, attributeOnly⟩, isLink, rfl⟩ := List.mem_map.1 isPath
      cases attributeOnly with
      | true => exact ⟨place, links, reaches, known, isLink⟩
      | false => exact absurd (.tail' reaches ⟨links, known, isLink⟩) (acyclic _ .refl)
  | @malformed place fault reaches malformed =>
      refine ⟨⟨nofun, ?_⟩, nofun, ?_⟩
      · intro sound
        obtain ⟨links?, known⟩ := (sound place reaches).1
        cases malformed.symm.trans known
      · rintro _ ⟨⟩
        exact .inl ⟨place, fault, rfl, reaches, malformed⟩
  | @circular place cycle reaches onCycle =>
      refine ⟨⟨nofun, fun sound => absurd onCycle (sound place reaches).2⟩, nofun, ?_⟩
      rintro _ ⟨⟩
      exact .inr ⟨place, cycle, rfl, reaches, onCycle⟩

end DependencyGraph

namespace Dialect

variable {dialect : Dialect} {plan : Plan} {origin place target : Path} {found : PathSet}

theorem hasLink_graph_iff : (dialect.graph plan).HasLink place target ↔
    ∃ formula, dialect.HasFormula plan place formula ∧
      (formula.dependencies plan.childPaths).contains target = true := by
  have contains_iff (dependencies : Dependencies) :
      target ∈ dependencies.links.map DependencyLink.path ↔
        dependencies.contains target = true := by
    rw [Dependencies.map_path_links, Dependencies.contains, List.contains_iff_mem]
  constructor
  · rintro ⟨links, known, isPath⟩
    obtain ⟨text, formula, has, read, rfl⟩ := links?_graph_eq_some_iff.1 known
    exact ⟨formula, ⟨text, has, read⟩, (contains_iff _).1 isPath⟩
  · rintro ⟨formula, ⟨text, has, read⟩, contains⟩
    have known := links?_graph_eq_some_iff.2 ⟨text, formula, has, read, rfl⟩
    exact ⟨_, known, (contains_iff _).2 contains⟩

/-- The dependencies of a place are known unless it has a formula that is malformed. -/
theorem exists_links?_graph_eq_ok_iff : (∃ links?, (dialect.graph plan).links? place = .ok links?) ↔
    ∀ text, plan.formula? place = some text →
      ∃ formula, dialect.read text place = .ok formula := by
  cases known : (dialect.graph plan).links? place with
  | ok links? =>
      refine ⟨fun _ text has => ?_, fun _ => ⟨links?, rfl⟩⟩
      cases read : dialect.read text place with
      | ok formula => exact ⟨formula, rfl⟩
      | error fault => cases known.symm.trans (links?_graph_eq_error_iff.2 ⟨text, has, read⟩)
  | error fault =>
      obtain ⟨text, has, read⟩ := links?_graph_eq_error_iff.1 known
      refine ⟨nofun, fun wellFormed => ?_⟩
      obtain ⟨formula, readsWell⟩ := wellFormed text has
      cases read.symm.trans readsWell

theorem OnCycle.exists_formula (onCycle : dialect.OnCycle plan place) :
    ∃ text, plan.formula? place = some text := by
  obtain ⟨next, ⟨text, _, known, -⟩, -⟩ := Relation.TransGen.head'_iff.1 onCycle
  exact ⟨text, known⟩

/-- What discovery finds, in terms of the formulas of the plan. -/
theorem mem_discover_iff (ok : dialect.discover plan origin = .ok found) :
    target ∈ found.paths ↔ ∃ place formula, dialect.Reaches plan origin place ∧
      dialect.HasFormula plan place formula ∧
        (formula.dependencies plan.childPaths).contains target = true := by
  have exact := (((dialect.graph plan).traverseFrom_exact_or_faulty origin).2.1 found ok).1
  simp only [exact target, reaches_graph, hasLink_graph_iff, exists_and_left]

/-- Discovery succeeds exactly if every formula that is reached is well-formed and on no cycle.  It
then finds the dependencies of all these formulas and nothing else, the place itself only by its
attributes, and otherwise it fails for a malformed formula or for a cycle that is reached. -/
theorem discover_exact_or_faulty (dialect : Dialect) (plan : Plan) (origin : Path) :
    ((∃ found, dialect.discover plan origin = .ok found) ↔
      ∀ place text, dialect.Reaches plan origin place → plan.formula? place = some text →
        (∃ formula, dialect.read text place = .ok formula) ∧ ¬ dialect.OnCycle plan place) ∧
    (∀ found, dialect.discover plan origin = .ok found →
      (∀ target, target ∈ found.paths ↔ ∃ place formula, dialect.Reaches plan origin place ∧
        dialect.HasFormula plan place formula ∧
          (formula.dependencies plan.childPaths).contains target = true) ∧
      (origin ∈ found.paths → ∃ place formula, dialect.Reaches plan origin place ∧
        dialect.HasFormula plan place formula ∧
          (formula.dependencies plan.childPaths).isAttributeOnly origin = true)) ∧
    ∀ error, dialect.discover plan origin = .error error →
      (∃ place text fault, error = .malformed fault ∧ dialect.Reaches plan origin place ∧
        plan.formula? place = some text ∧ dialect.read text place = .error fault) ∨
      ∃ place cycle, error = .circular ⟨origin, cycle⟩ ∧ dialect.Reaches plan origin place ∧
        dialect.OnCycle plan place := by
  obtain ⟨succeeds_iff, ofFound, ofFault⟩ :=
    (dialect.graph plan).traverseFrom_exact_or_faulty origin
  rw [reaches_graph, onCycle_graph] at succeeds_iff ofFault
  refine ⟨succeeds_iff.trans ⟨?_, ?_⟩, ?_, ?_⟩
  · intro sound place text reaches known
    obtain ⟨wellFormed, offCycle⟩ := sound place reaches
    exact ⟨exists_links?_graph_eq_ok_iff.1 wellFormed text known, offCycle⟩
  · intro sound place reaches
    refine ⟨exists_links?_graph_eq_ok_iff.2 ?_, ?_⟩
    · exact fun text known => (sound place text reaches known).1
    · intro onCycle
      obtain ⟨text, known⟩ := onCycle.exists_formula
      exact (sound place text reaches known).2 onCycle
  · intro found ok
    refine ⟨fun target => mem_discover_iff ok, ?_⟩
    intro member
    obtain ⟨place, links, reaches, known, isLink⟩ := (ofFound found ok).2 member
    obtain ⟨text, formula, has, read, rfl⟩ := links?_graph_eq_some_iff.1 known
    rw [reaches_graph] at reaches
    exact ⟨place, formula, reaches, ⟨text, has, read⟩, (Dependencies.mem_links_iff.1 isLink).2⟩
  · intro error failed
    rcases ofFault error failed with ⟨place, fault, rfl, reaches, malformed⟩ | circular
    · obtain ⟨text, known, read⟩ := links?_graph_eq_error_iff.1 malformed
      exact .inl ⟨place, text, fault, rfl, reaches, known, read⟩
    · exact .inr circular

theorem discover_of_attribute_of_origin :
    ∃ (plan faulty : Plan) (origin other : Path) (found : PathSet) (error : EvaluationError),
      standard.discover plan origin = .ok found ∧ found.paths = [origin, other] ∧
      (∃ place formula, standard.Reaches plan origin place ∧
        standard.HasFormula plan place formula ∧
          (formula.dependencies plan.childPaths).isAttributeOnly origin = true) ∧
      standard.discover faulty origin = .error error ∧
      ((∃ place text fault, error = .malformed fault ∧ standard.Reaches faulty origin place ∧
        faulty.formula? place = some text ∧ standard.read text place = .error fault) ∨
      ∃ place cycle, error = .circular ⟨origin, cycle⟩ ∧ standard.Reaches faulty origin place ∧
        standard.OnCycle faulty place) := by
  let origin : Path := ⟨[⟨.characteristic, "A"⟩]⟩
  let other : Path := ⟨[⟨.characteristic, "B"⟩]⟩
  let store := (Store.empty.setFormula origin "\x7bB\x7d+1").setFormula other "\x7bA(17)\x7d*2"
  let faulty := store.setFormula other "\x7bA(17)\x7d*\x7bB\x7d"
  let found : PathSet := (PathSet.empty.insert origin).insert other
  have ok : standard.discover store.plan origin = .ok found := by decide +kernel
  have failed : standard.discover faulty.plan origin =
      .error (.circular ⟨origin, [origin, other, other]⟩) := by decide +kernel
  exact ⟨store.plan, faulty.plan, origin, other, found, _, ok, rfl,
    ((discover_exact_or_faulty standard store.plan origin).2.1 found ok).2 (by decide), failed,
    (discover_exact_or_faulty standard faulty.plan origin).2.2 _ failed⟩

end Dialect

end InspectionFormula
