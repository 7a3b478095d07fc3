import InspectionFormula.Proofs.Dependencies.ChildOrder
import InspectionFormula.Proofs.Parsing.Cutouts

/-!
# Occurrences in source order

A walk of a tree from left to right emits an occurrence for every reference, but
for the arguments of operations on points and on groups, which stand for the
places below them.  The dependencies of a formula record what the walk emits, and
the text of every occurrence is read as the reference that it comes from.
-/

namespace InspectionFormula

/-- The operation reads the coordinates of its arguments along some axes. -/
def Operation.IsOnPoints (axes : List Axis) (operation : Operation) : Prop :=
  ∃ name, operation = .pointDistance name axes ∨ operation = .truePosition name axes

/-- The operation reads all places that are listed below its argument. -/
def Operation.IsOnGroup (operation : Operation) : Prop :=
  ∃ name reduce, operation = .grade name reduce

theorem Operation.IsOnPoints.reads_eq {operation : Operation} {axes : List Axis}
    (isOnPoints : operation.IsOnPoints axes) :
    operation.reads = some (Coordinates.places axes) := by
  obtain ⟨name, rfl | rfl⟩ := isOnPoints <;> rfl

theorem Operation.IsOnGroup.reads_eq {operation : Operation} (isOnGroup : operation.IsOnGroup) :
    operation.reads = some fun childPaths group => childPaths group := by
  obtain ⟨name, reduce, rfl⟩ := isOnGroup
  rfl

/-- All other operations of the standard catalog read what their arguments refer to. -/
theorem Catalog.reads_cases : ∀ operation ∈ standard.operations.values,
    (∃ axes, operation.IsOnPoints axes) ∨ operation.IsOnGroup ∨ operation.reads = none := by
  apply standard_cases
  case unary | binary | aggregate => exact fun _ _ => .inr (.inr rfl)
  case round | coalesce | count => exact .inr (.inr rfl)
  case pointDistance => exact fun name axes => .inl ⟨axes, name, .inl rfl⟩
  case truePosition => exact fun name axes => .inl ⟨axes, name, .inr rfl⟩
  case grade => exact fun name reduce => .inr (.inl ⟨name, reduce, rfl⟩)

/-- An occurrence with the reference of the formula that it comes from. -/
structure Emission where
  origin : Reference
  occurrence : Occurrence

def Emission.path (emission : Emission) : Path := emission.occurrence.path

def Emission.span (emission : Emission) : Span := emission.occurrence.span

namespace Expression

variable {childPaths : Path → List Path} {source : String} {tree : Expression}
  {walk : List Emission} {emission : Emission}

/-- What a reference emits that stands for itself. -/
def emitted (source : String) (target : Reference) (span : Span) : Emission :=
  ⟨target, target, span, span.cut source⟩

/-- What an argument emits that stands for other places, if it refers to a value. -/
def emittedFor (source : String) (places : Path → List Path) : Expression → List Emission
  | reference ⟨place, none⟩ span =>
      (places place).map fun path => ⟨⟨place, none⟩, ⟨path, none⟩, span, span.cut source⟩
  | _ => []

/-- What a walk of the tree from left to right emits. -/
inductive Emits (childPaths : Path → List Path) (source : String) :
    Expression → List Emission → Prop where
  | number {value : Binary64} {span : Span} : Emits childPaths source (.number value span) []
  | constant {found : Constant} {span : Span} : Emits childPaths source (.constant found span) []
  | reference {target : Reference} {span : Span} :
      Emits childPaths source (.reference target span) [emitted source target span]
  | negate {operand : Expression} {span : Span} {walk : List Emission}
      (inner : Emits childPaths source operand walk) :
      Emits childPaths source (.negate operand span) walk
  | points {operation : Operation} {axes : List Axis} {arguments : List Expression} {span : Span}
      (isOnPoints : operation.IsOnPoints axes) :
      Emits childPaths source (.call operation arguments span)
        (arguments.flatMap (emittedFor source fun point =>
          axes.filterMap (Coordinates.place? point (childPaths point))))
  | group {operation : Operation} {arguments : List Expression} {span : Span}
      (isOnGroup : operation.IsOnGroup) :
      Emits childPaths source (.call operation arguments span)
        (arguments.flatMap (emittedFor source childPaths))
  | call {operation : Operation} {arguments : List Expression} {span : Span}
      {walks : Expression → List Emission} (notOnPoints : ∀ axes, ¬ operation.IsOnPoints axes)
      (notOnGroup : ¬ operation.IsOnGroup)
      (each : ∀ argument ∈ arguments, Emits childPaths source argument (walks argument)) :
      Emits childPaths source (.call operation arguments span) (arguments.flatMap walks)

theorem exists_emits (childPaths : Path → List Path) (source : String) {catalog : Catalog}
    (isOver : tree.IsOver catalog) : ∃ walk, tree.Emits childPaths source walk := by
  induction isOver with
  | number => exact ⟨[], .number⟩
  | constant => exact ⟨[], .constant⟩
  | reference => exact ⟨_, .reference⟩
  | negate inner ih =>
      obtain ⟨walk, emits⟩ := ih
      exact ⟨walk, .negate emits⟩
  | @call operation arguments span known each ih =>
      by_cases isOnPoints : ∃ axes, operation.IsOnPoints axes
      · obtain ⟨axes, isOnPoints⟩ := isOnPoints
        exact ⟨_, .points isOnPoints⟩
      by_cases isOnGroup : operation.IsOnGroup
      · exact ⟨_, .group isOnGroup⟩
      choose! walks emits using ih
      exact ⟨_, .call (not_exists.1 isOnPoints) isOnGroup emits⟩

theorem readOccurrences_eq_map_emittedFor (places : Path → List Path) (argument : Expression) :
    readOccurrences source places argument =
      (argument.emittedFor source places).map Emission.occurrence := by
  cases argument with
  | reference target span =>
      obtain ⟨place, key⟩ := target
      cases key with
      | none =>
          rw [emittedFor, List.map_map]
          rfl
      | some key => rfl
  | number | constant | literal | negate | call => rfl

/-- The occurrences of a tree are those that a walk emits. -/
theorem Emits.occurrences_eq (emits : tree.Emits childPaths source walk)
    (isOver : tree.IsOver .standard) :
    tree.occurrences childPaths source = walk.map Emission.occurrence := by
  induction emits with
  | number | constant | reference => rfl
  | negate inner ih =>
      cases isOver with
      | negate innerOver => exact ih innerOver
  | points isOnPoints =>
      rw [occurrences, isOnPoints.reads_eq, List.map_flatMap]
      exact List.flatMap_congr fun argument _ => readOccurrences_eq_map_emittedFor _ argument
  | group isOnGroup =>
      rw [occurrences, isOnGroup.reads_eq, List.map_flatMap]
      exact List.flatMap_congr fun argument _ => readOccurrences_eq_map_emittedFor _ argument
  | @call operation arguments span walks notOnPoints notOnGroup each ih =>
      cases isOver with
      | call known eachOver =>
          have plain : operation.reads = none := by
            rcases Catalog.reads_cases operation known with ⟨axes, onPoints⟩ | onGroup | plain
            · exact absurd onPoints (notOnPoints axes)
            · exact absurd onGroup notOnGroup
            · exact plain
          rw [occurrences, plain, List.map_flatMap]
          simp only [occurrencesInEach_eq_flatMap]
          exact List.flatMap_congr fun argument member =>
            ih argument member (eachOver argument member)

/-- The emission is over a node of the tree that is the reference it comes from. -/
def Has (source : String) (tree : Expression) (emission : Emission) : Prop :=
  tree.HasNode (.reference emission.origin emission.span) ∧
    emission.occurrence.raw = emission.span.cut source

theorem Has.inChild {child : Expression} (isChild : child ∈ tree.children)
    (has : child.Has source emission) : tree.Has source emission :=
  ⟨.inChild isChild has.1, has.2⟩

theorem has_of_mem_emittedFor {places : Path → List Path} {argument : Expression}
    (member : emission ∈ argument.emittedFor source places) :
    argument.Has source emission ∧ emission.span = argument.span := by
  cases argument with
  | reference target span =>
      obtain ⟨place, key⟩ := target
      cases key with
      | none =>
          obtain ⟨path, -, rfl⟩ := List.mem_map.1 member
          exact ⟨⟨.root, rfl⟩, rfl⟩
      | some key => cases member
  | number | constant | literal | negate | call => cases member

theorem Emits.has (emits : tree.Emits childPaths source walk) (member : emission ∈ walk) :
    tree.Has source emission := by
  induction emits with
  | number | constant => cases member
  | reference =>
      rw [List.mem_singleton.1 member]
      exact ⟨.root, rfl⟩
  | negate inner ih => exact .inChild (List.mem_singleton_self _) (ih member)
  | points | group =>
      obtain ⟨argument, isChild, member⟩ := List.mem_flatMap.1 member
      exact .inChild isChild (has_of_mem_emittedFor member).1
  | call notOnPoints notOnGroup each ih =>
      obtain ⟨argument, isChild, member⟩ := List.mem_flatMap.1 member
      exact .inChild isChild (ih argument isChild member)

/-- Every node of the tree has the spans of its children inside its own, one after the other. -/
def IsNestedThroughout (tree : Expression) : Prop :=
  ∀ node, tree.HasNode node → Grammar.IsNested node

theorem IsNestedThroughout.child {child : Expression} (nested : tree.IsNestedThroughout)
    (isChild : child ∈ tree.children) : child.IsNestedThroughout :=
  fun node hasNode => nested node (.inChild isChild hasNode)

theorem IsNestedThroughout.within {node : Expression} (nested : tree.IsNestedThroughout)
    (hasNode : tree.HasNode node) :
    tree.span.start ≤ node.span.start ∧ node.span.stop ≤ tree.span.stop := by
  induction hasNode with
  | root => exact ⟨le_rfl, le_rfl⟩
  | @inChild tree child node isChild hasNode ih =>
      obtain ⟨starts, stops⟩ := (nested tree .root).within child isChild
      obtain ⟨nodeStarts, nodeStops⟩ := ih (nested.child isChild)
      exact ⟨starts.trans nodeStarts, nodeStops.trans stops⟩

/-- Emissions in the order of where their spans start. -/
def StartInOrder (walk : List Emission) : Prop :=
  walk.Pairwise fun earlier later => earlier.span.start ≤ later.span.start

/-- The emissions of arguments one after the other are in order, because the arguments are. -/
theorem startInOrder_flatMap {arguments : List Expression} {operation : Operation} {span : Span}
    {walks : Expression → List Emission}
    (nested : (call operation arguments span).IsNestedThroughout)
    (has : ∀ argument ∈ arguments, ∀ emission ∈ walks argument, argument.Has source emission)
    (each : ∀ argument ∈ arguments, StartInOrder (walks argument)) :
    StartInOrder (arguments.flatMap walks) := by
  apply List.pairwise_flatMap.2
  refine ⟨each, (nested _ .root).apart.imp_of_mem ?_⟩
  intro earlier later earlierChild laterChild apart first isFirst second isSecond
  obtain ⟨-, firstStops⟩ :=
    (nested.child earlierChild).within (has earlier earlierChild first isFirst).1
  obtain ⟨secondStarts, -⟩ :=
    (nested.child laterChild).within (has later laterChild second isSecond).1
  calc
    first.span.start ≤ first.span.stop := first.span.start_le_stop
    _ ≤ earlier.span.stop := firstStops
    _ ≤ later.span.start := apart
    _ ≤ second.span.start := secondStarts

theorem startInOrder_emittedFor (places : Path → List Path) (argument : Expression) :
    StartInOrder (argument.emittedFor source places) := by
  apply List.pairwise_of_forall_mem_list
  intro first isFirst second isSecond
  rw [(has_of_mem_emittedFor isFirst).2, (has_of_mem_emittedFor isSecond).2]

theorem Emits.startInOrder (emits : tree.Emits childPaths source walk)
    (nested : tree.IsNestedThroughout) : StartInOrder walk := by
  induction emits with
  | number | constant => exact .nil
  | reference => exact List.pairwise_singleton _ _
  | negate inner ih => exact ih (nested.child (List.mem_singleton_self _))
  | points | group =>
      exact startInOrder_flatMap nested
        (fun _ _ _ member => (has_of_mem_emittedFor member).1)
        fun argument _ => startInOrder_emittedFor _ argument
  | call notOnPoints notOnGroup each ih =>
      exact startInOrder_flatMap nested
        (fun argument isChild _ member => (each argument isChild).has member)
        fun argument isChild => ih argument isChild (nested.child isChild)

end Expression

namespace Dialect

variable {dialect : Dialect} {text : String} {owner : Path} {formula : Formula}
  {walk : List Emission}

/-- The dependencies record a walk: for each path what the walk emits for it, in the same order, by
where the spans start.  The text of an occurrence is that of its span, and is read for the owner as
the reference that the occurrence comes from. -/
structure Records (dialect : Dialect) (dependencies : Dependencies) (formula : Formula)
    (walk : List Emission) : Prop where
  paths : ∀ path, path ∈ dependencies.paths ↔ ∃ emission ∈ walk, emission.path = path
  occurrences : ∀ path, dependencies.occurrences path =
    (walk.map Emission.occurrence).filter fun occurrence => occurrence.path = path
  inOrder : ∀ path, (dependencies.occurrences path).Pairwise fun earlier later =>
    earlier.span.start ≤ later.span.start
  text : ∀ emission ∈ walk,
    Text.slice? formula.text.toList emission.span.start emission.span.stop =
      some emission.occurrence.raw.toList
  origin : ∀ emission ∈ walk, dialect.read emission.occurrence.raw formula.owner =
    .ok ⟨.reference emission.origin ⟨0, emission.span.length⟩, emission.occurrence.raw,
      formula.owner⟩

theorem isNestedThroughout_of_read (builtIn : dialect.catalog = .standard)
    (read : dialect.read text owner = .ok formula) : formula.root.IsNestedThroughout := by
  obtain ⟨root, parsed, rfl⟩ := read_eq_ok_iff.1 read
  rw [builtIn] at parsed
  intro node hasNode
  exact (Expression.parse_of_hasNode Catalog.standard_sparesReserved parsed hasNode).1

/-- The text of an emission is read as its origin. -/
theorem read_of_has (builtIn : dialect.catalog = .standard)
    (read : dialect.read text owner = .ok formula) {emission : Emission}
    (has : formula.root.Has formula.text emission) :
    Text.slice? formula.text.toList emission.span.start emission.span.stop =
        some emission.occurrence.raw.toList ∧
      dialect.read emission.occurrence.raw formula.owner =
        .ok ⟨.reference emission.origin ⟨0, emission.span.length⟩, emission.occurrence.raw,
          formula.owner⟩ := by
  obtain ⟨root, parsed, rfl⟩ := read_eq_ok_iff.1 read
  obtain ⟨hasNode, sameRaw⟩ := has
  rw [builtIn] at parsed
  obtain ⟨-, part, isPart, parsedPart⟩ :=
    Expression.parse_of_hasNode Catalog.standard_sparesReserved parsed hasNode
  have isPart : Text.slice? text.toList emission.span.start emission.span.stop = some part := isPart
  have raw : emission.occurrence.raw = String.ofList part := by
    rw [sameRaw, Span.cut, isPart]
    rfl
  have moved : (Expression.reference emission.origin emission.span).shiftLeft
      emission.span.start = .reference emission.origin ⟨0, emission.span.length⟩ := by
    rw [Expression.shiftLeft, Span.shiftLeft, Nat.sub_self]
  refine ⟨?_, ?_⟩
  · rw [raw, String.toList_ofList]
    exact isPart
  · rw [raw, read_eq_ok_iff, builtIn]
    exact ⟨_, parsedPart, by rw [← moved]; rfl⟩

theorem records_of_emits (builtIn : dialect.catalog = .standard)
    (read : dialect.read text owner = .ok formula) {childPaths : Path → List Path}
    (emits : formula.root.Emits childPaths formula.text walk) :
    dialect.Records (formula.dependencies childPaths) formula walk := by
  have isOver := (isOver_of_read read).1
  rw [builtIn] at isOver
  have occurrences (path : Path) : (formula.dependencies childPaths).occurrences path =
      (walk.map Emission.occurrence).filter fun occurrence => occurrence.path = path := by
    rw [Formula.dependencies, Dependencies.occurrences_ofOccurrences,
      emits.occurrences_eq isOver]
  have inOrder := emits.startInOrder (isNestedThroughout_of_read builtIn read)
  refine ⟨?_, occurrences, ?_, ?_, ?_⟩
  · intro path
    rw [Dependencies.mem_paths_iff, occurrences, ne_eq, List.filter_eq_nil_iff]
    simp [Emission.path]
  · intro path
    rw [occurrences]
    refine List.Pairwise.filter _ ?_
    rw [List.pairwise_map]
    exact inOrder
  · intro emission member
    exact (read_of_has builtIn read (emits.has member)).1
  · intro emission member
    exact (read_of_has builtIn read (emits.has member)).2

/-- The dependencies of a formula that is read record all that a walk of its tree emits, once and in
source order, under paths that rise. -/
theorem dependencies_record_walk (builtIn : dialect.catalog = .standard)
    (read : dialect.read text owner = .ok formula) (plan : Plan) :
    RisingPaths (formula.dependencies plan.childPaths).paths ∧
      (formula.dependencies plan.childPaths).paths.Nodup ∧
      (∃ walk, formula.root.Emits plan.childPaths formula.text walk) ∧
      ∀ walk, formula.root.Emits plan.childPaths formula.text walk →
        dialect.Records (formula.dependencies plan.childPaths) formula walk :=
  ⟨Dependencies.rising _, Dependencies.nodup_paths _,
    Expression.exists_emits plan.childPaths formula.text (isOver_of_read read).1,
    fun _ emits => records_of_emits builtIn read emits⟩

theorem dependencies_record_walk_over_points :
    ∃ (plan : Plan) (text : String) (owner point : Path) (formula : Formula)
      (walk : List Emission),
      text = "grade_max(\x7b/P\x7d)-pt_dist_xy( (\x7b/P\x7d);\x7b /P \x7d)*-\x7bc(3)\x7d" ∧
      standard.catalog = .standard ∧ standard.read text owner = .ok formula ∧
      formula.root.Emits plan.childPaths formula.text walk ∧
      standard.Records (formula.dependencies plan.childPaths) formula walk ∧
      ((formula.dependencies plan.childPaths).occurrences
        (point.child ⟨.characteristic, "X"⟩)).map Occurrence.raw =
          ["\x7b/P\x7d", "(\x7b/P\x7d)", "\x7b /P \x7d"] := by
  let text := "grade_max(\x7b/P\x7d)-pt_dist_xy( (\x7b/P\x7d);\x7b /P \x7d)*-\x7bc(3)\x7d"
  let point : Path := ⟨[⟨.part, "P"⟩]⟩
  let alongX := point.child ⟨.characteristic, "X"⟩
  let alongY := point.child ⟨.characteristic, "y"⟩
  let owner := point.child ⟨.characteristic, "o"⟩
  let plan := (Store.empty.setChildren point [alongY, alongX]).plan
  have accepted : (standard.read text owner).toOption.any (fun formula =>
      ((formula.dependencies plan.childPaths).occurrences alongX).map Occurrence.raw =
        ["\x7b/P\x7d", "(\x7b/P\x7d)", "\x7b /P \x7d"]) = true := by
    decide +kernel
  obtain ⟨formula, read, raws⟩ := exists_eq_ok_of_any accepted
  obtain ⟨-, -, ⟨walk, emits⟩, records⟩ := dependencies_record_walk rfl read plan
  exact ⟨plan, text, owner, point, formula, walk, rfl, rfl, read, emits, records walk emits,
    of_decide_eq_true raws⟩

end Dialect

end InspectionFormula
