import InspectionFormula.Proofs.Dependencies.Agreement
import InspectionFormula.Proofs.Dependencies.Discovery
import InspectionFormula.Proofs.Evaluation.Nesting

/-!
# What a result depends on

The result of a formula is determined by the formulas and measured values of the
places whose values it depends on and by the attributes that it and their
formulas mention.  These places are the ones that discovery finds.
-/

namespace InspectionFormula

namespace Formula

variable {formula nested : Formula} {dialect : Dialect} {plan : Plan} {place path : Path}
  {reference : Reference}

/-- The formula mentions the reference, or a formula does whose value it depends on. -/
def Uses (formula : Formula) (dialect : Dialect) (plan : Plan) (reference : Reference) : Prop :=
  formula.Mentions plan reference ∨
    ∃ place nested, formula.ReachesValue dialect plan place ∧
      dialect.HasFormula plan place nested ∧ nested.Mentions plan reference

theorem reachesValue_iff_uses :
    formula.ReachesValue dialect plan path ↔ formula.Uses dialect plan ⟨path, none⟩ := by
  constructor
  · rintro ⟨first, dependsOnValue, reaches⟩
    rcases Relation.ReflTransGen.cases_tail reaches with rfl | ⟨place, reaches, edge⟩
    · exact .inl (dependsOnValue_iff_mentions.1 dependsOnValue)
    · obtain ⟨nested, has, edgeTo⟩ := Dialect.valueEdge_iff_hasFormula.1 edge
      exact .inr ⟨place, nested, ⟨first, dependsOnValue, reaches⟩, has,
        dependsOnValue_iff_mentions.1 edgeTo⟩
  · rintro (mentions | ⟨place, nested, ⟨first, dependsOnValue, reaches⟩, has, mentions⟩)
    · exact ⟨path, dependsOnValue_iff_mentions.2 mentions, .refl⟩
    · have edge := Dialect.valueEdge_iff_hasFormula.2
        ⟨nested, has, dependsOnValue_iff_mentions.2 mentions⟩
      exact ⟨first, dependsOnValue, reaches.tail edge⟩

/-- What a formula depends on, its value depends on wherever the formula is nested. -/
theorem ReachesValue.of_nested (reachesValue : formula.ReachesValue dialect plan place)
    (has : dialect.HasFormula plan place nested) (deeper : nested.ReachesValue dialect plan path) :
    formula.ReachesValue dialect plan path := by
  obtain ⟨first, dependsOnValue, reaches⟩ := reachesValue
  obtain ⟨next, nestedDepends, onward⟩ := deeper
  have edge := Dialect.valueEdge_iff_hasFormula.2 ⟨nested, has, nestedDepends⟩
  exact ⟨first, dependsOnValue, reaches.trans (onward.head edge)⟩

end Formula

namespace Inspection

variable {here there : Inspection} {formula nested : Formula} {text : String} {owner path : Path}

/-- The inspections agree on the places below each place, on the formulas and measured values of
some places, and on some attributes. -/
structure Agree (here there : Inspection) (places : Path → Prop)
    (attributes : Path → UInt16 → Prop) : Prop where
  dialect : there.dialect = here.dialect
  time : there.time = here.time
  childPaths : there.plan.childPaths = here.plan.childPaths
  formula? : ∀ path, places path → there.plan.formula? path = here.plan.formula? path
  value? : ∀ path, places path → there.measurements.value? path = here.measurements.value? path
  attribute? : ∀ path key, attributes path key →
    there.measurements.attribute? path key here.time =
      here.measurements.attribute? path key here.time

/-- The inspections agree on all that the formula depends on. -/
abbrev AgreeFor (here there : Inspection) (formula : Formula) : Prop :=
  here.Agree there (formula.ReachesValue here.dialect here.plan)
    fun path key => formula.Uses here.dialect here.plan ⟨path, some key⟩

theorem mentions_of_reads (honest : here.dialect.catalog.IsHonest)
    (read : here.dialect.read text owner = .ok formula) {reference : Reference}
    (reads : formula.root.Reads here.surroundings reference) :
    formula.Mentions here.plan reference :=
  Formula.mentions_iff.2 (Expression.exists_occurrence_of_reads honest
    (Dialect.isOver_of_read read).1 formula.text reads)

/-- Two evaluations of a tree agree if they agree on what it reads. -/
theorem Agree.evaluateTree_congr {places : Path → Prop} {attributes : Path → UInt16 → Prop}
    (agree : here.Agree there places attributes) {tree : Expression}
    (values : ∀ path, tree.Reads here.surroundings ⟨path, none⟩ →
      there.valueOf ⟨path, none⟩ = here.valueOf ⟨path, none⟩)
    (within : ∀ path key, tree.Reads here.surroundings ⟨path, some key⟩ → attributes path key) :
    there.evaluateTree tree = here.evaluateTree tree := by
  refine Expression.evaluate_congr agree.childPaths ?_
  rintro ⟨path, _ | key⟩ reads
  · exact values path reads
  · refine congrArg valueOrNone ?_
    rw [resolve_attribute, resolve_attribute, agree.time,
      agree.attribute? path key (within path key reads)]

section AgreeFor

variable (agree : here.AgreeFor there formula)
include agree

theorem readNested_congr (reachesValue : formula.ReachesValue here.dialect here.plan path)
    (known : here.plan.formula? path = some text) :
    there.readNested path text = here.readNested path text := by
  apply readNested_eq_of_check agree.dialect
  intro nested read
  apply Dialect.checkAcyclic_congr agree.childPaths
  intro place deeper
  exact agree.formula? place (reachesValue.of_nested ⟨text, known, read⟩ deeper)

theorem resolve_congr (honest : here.dialect.catalog.IsHonest)
    (reachesValue : formula.ReachesValue here.dialect here.plan path) :
    there.resolve ⟨path, none⟩ = here.resolve ⟨path, none⟩ := by
  induction path using opened_induction honest with
  | step path ih =>
      refine resolve_eq_of_nested honest agree.dialect (agree.formula? path reachesValue)
        (agree.value? path reachesValue) (fun _ => readNested_congr agree reachesValue) ?_
      intro text nested known opened
      obtain ⟨read, -⟩ := readNested_eq_ok_iff.1 opened
      have uses {reference : Reference} (reads : nested.root.Reads here.surroundings reference) :
          formula.Uses here.dialect here.plan reference :=
        .inr ⟨path, nested, reachesValue, ⟨text, known, read⟩, mentions_of_reads honest read reads⟩
      refine agree.evaluateTree_congr ?_ fun place key reads => uses reads
      intro next reads
      exact congrArg valueOrNone
        (ih text nested next known opened reads (Formula.reachesValue_iff_uses.2 (uses reads)))

/-- Inspections that agree on all that a formula depends on give it the same result. -/
theorem evaluate_congr (honest : here.dialect.catalog.IsHonest)
    (read : here.dialect.read text owner = .ok formula) :
    there.evaluate formula = here.evaluate formula := by
  have sameTree : there.evaluateTree formula.root = here.evaluateTree formula.root := by
    refine agree.evaluateTree_congr ?_ ?_
    · intro path reads
      exact congrArg valueOrNone (resolve_congr agree honest
        (Formula.reachesValue_iff_uses.2 (.inl (mentions_of_reads honest read reads))))
    · intro path key reads
      exact .inl (mentions_of_reads honest read reads)
  have sameCheck : there.dialect.checkSelfReference there.plan formula =
      here.dialect.checkSelfReference here.plan formula := by
    rw [agree.dialect]
    exact Dialect.checkSelfReference_congr agree.childPaths agree.formula?
  rw [evaluate, evaluate, sameCheck, sameTree]

end AgreeFor

/-- Inspections that differ only in the formula and the measured value of one place agree on all
that a formula depends on which uses no more than attributes of that place. -/
theorem Agree.agreeFor (agree : here.Agree there (fun place => place ≠ path) (fun _ _ => True))
    (attributesOnly : ∀ key, formula.Uses here.dialect here.plan ⟨path, key⟩ → key.isSome = true) :
    here.AgreeFor there formula := by
  have elsewhere {place : Path} (reachesValue : formula.ReachesValue here.dialect here.plan place) :
      place ≠ path := by
    rintro rfl
    exact nomatch attributesOnly none (Formula.reachesValue_iff_uses.1 reachesValue)
  exact { agree with
    formula? := fun place reachesValue => agree.formula? place (elsewhere reachesValue)
    value? := fun place reachesValue => agree.value? place (elsewhere reachesValue)
    attribute? := fun place key _ => agree.attribute? place key trivial }

/-- All that discovery finds for the owner of a formula is what the formula uses. -/
theorem mem_discover_iff_uses {found : PathSet}
    (ok : here.dialect.discover here.plan owner = .ok found)
    (has : here.dialect.HasFormula here.plan owner formula) :
    path ∈ found.paths ↔ ∃ key, formula.Uses here.dialect here.plan ⟨path, key⟩ := by
  rw [Dialect.mem_discover_iff ok]
  simp only [Formula.contains_iff_mentions]
  constructor
  · rintro ⟨place, nested, reaches, hasNested, key, mentions⟩
    refine ⟨key, ?_⟩
    rcases Relation.ReflTransGen.cases_head reaches with rfl | ⟨first, edge, reaches⟩
    · cases hasNested.unique has
      exact .inl mentions
    · obtain ⟨_, hasOwner, dependsOnValue⟩ := Dialect.valueEdge_iff_hasFormula.1 edge
      cases hasOwner.unique has
      exact .inr ⟨place, nested, ⟨first, dependsOnValue, reaches⟩, hasNested, mentions⟩
  · rintro ⟨key, mentions | ⟨place, nested, ⟨first, dependsOnValue, reaches⟩, hasNested, mentions⟩⟩
    · exact ⟨owner, formula, .refl, has, key, mentions⟩
    · have edge := Dialect.valueEdge_iff_hasFormula.2 ⟨formula, has, dependsOnValue⟩
      exact ⟨place, nested, reaches.head edge, hasNested, key, mentions⟩

/-- The result of a formula depends on nothing but the places whose values it depends on and the
attributes that it uses.  A place of which only attributes are used may have any formula and any
measured value.  Together these are what discovery finds for the owner of the formula. -/
theorem evaluate_determined_by_uses (inspection : Inspection)
    (standard : inspection.dialect.catalog = .standard) {text : String} {owner : Path}
    {formula : Formula} (read : inspection.dialect.read text owner = .ok formula) :
    (∀ other, inspection.AgreeFor other formula →
      other.evaluate formula = inspection.evaluate formula) ∧
    (∀ other path,
      (∀ key, formula.Uses inspection.dialect inspection.plan ⟨path, key⟩ → key.isSome = true) →
      inspection.Agree other (fun place => place ≠ path) (fun _ _ => True) →
      other.evaluate formula = inspection.evaluate formula) ∧
    (inspection.plan.formula? owner = some text →
      ∀ found, inspection.dialect.discover inspection.plan owner = .ok found →
      ∀ path, path ∈ found.paths ↔
        formula.ReachesValue inspection.dialect inspection.plan path ∨
          ∃ key, formula.Uses inspection.dialect inspection.plan ⟨path, some key⟩) := by
  have honest : inspection.dialect.catalog.IsHonest := by
    rw [standard]
    exact Catalog.isHonest_standard
  refine ⟨fun other agree => evaluate_congr agree honest read, ?_, ?_⟩
  · intro other path attributesOnly agree
    exact evaluate_congr (agree.agreeFor attributesOnly) honest read
  · intro known found ok path
    rw [mem_discover_iff_uses ok ⟨text, known, read⟩, Formula.reachesValue_iff_uses]
    constructor
    · rintro ⟨_ | key, uses⟩
      · exact .inl uses
      · exact .inr ⟨key, uses⟩
    · rintro (uses | ⟨key, uses⟩)
      · exact ⟨none, uses⟩
      · exact ⟨some key, uses⟩

theorem agree_put (dialect : Dialect) (store : Store) (path : Path) (text : String)
    (value : Binary64) (time : Option Timestamp) :
    let changed : Store := { store with
      formulas := store.formulas.put path text
      values := store.values.put path value }
    (⟨dialect, store.plan, store.measurements, time⟩ : Inspection).Agree
      ⟨dialect, changed.plan, changed.measurements, time⟩ (fun place => place ≠ path)
      (fun _ _ => True) where
  dialect := rfl
  time := rfl
  childPaths := rfl
  formula? _ different := (Table.get?_put _ _ _ _).trans (if_neg (Ne.symm different))
  value? _ different := (Table.get?_put _ _ _ _).trans (if_neg (Ne.symm different))
  attribute? _ _ _ := rfl

theorem evaluate_of_reference_to_attribute :
    ∃ (here there : Inspection) (formula : Formula) (owner path : Path) (found : PathSet),
      here.dialect.catalog = .standard ∧
      here.dialect.read "\x7bB\x7d+\x7bC(7)\x7d" owner = .ok formula ∧
      here.plan.formula? owner = some "\x7bB\x7d+\x7bC(7)\x7d" ∧
      (∀ key, formula.Uses here.dialect here.plan ⟨path, key⟩ → key.isSome = true) ∧
      here.Agree there (fun place => place ≠ path) (fun _ _ => True) ∧
      here.plan.formula? path = none ∧ there.plan.formula? path = some "\x7bA\x7d" ∧
      here.AgreeFor there formula ∧ there.evaluate formula = here.evaluate formula ∧
      here.dialect.discover here.plan owner = .ok found ∧
      (path ∈ found.paths ↔ formula.ReachesValue here.dialect here.plan path ∨
        ∃ key, formula.Uses here.dialect here.plan ⟨path, some key⟩) := by
  let owner : Path := ⟨[⟨.characteristic, "A"⟩]⟩
  let middle : Path := ⟨[⟨.characteristic, "B"⟩]⟩
  let path : Path := ⟨[⟨.characteristic, "C"⟩]⟩
  let last : Path := ⟨[⟨.characteristic, "D"⟩]⟩
  let store := (((Store.empty.setFormula owner "\x7bB\x7d+\x7bC(7)\x7d").setFormula middle
    "\x7bD\x7d*2").setValue last (Binary64.ofNat 3)).setAttribute path 7 (.fixed (.integer 4))
  let changed : Store := { store with
    formulas := store.formulas.put path "\x7bA\x7d"
    values := store.values.put path (Binary64.ofNat 5) }
  let here : Inspection := ⟨.standard, store.plan, store.measurements, none⟩
  let there : Inspection := ⟨.standard, changed.plan, changed.measurements, none⟩
  let found : PathSet := ((PathSet.empty.insert last).insert path).insert middle
  have ok : here.dialect.discover here.plan owner = .ok found := by decide +kernel
  have ofOwner : (here.dialect.graph here.plan).links? owner =
      .ok (some [⟨middle, false⟩, ⟨path, true⟩]) := by decide +kernel
  have ofMiddle : (here.dialect.graph here.plan).links? middle = .ok (some [⟨last, false⟩]) := by
    decide +kernel
  have known : here.plan.formula? owner = some "\x7bB\x7d+\x7bC(7)\x7d" := rfl
  obtain ⟨_, formula, sameText, read, -⟩ := Dialect.links?_graph_eq_some_iff.1 ofOwner
  cases known.symm.trans sameText
  have ofLast : (here.dialect.graph here.plan).links? last = .ok none := by decide +kernel
  have within {place : Path} (reaches : here.dialect.Reaches here.plan owner place) :
      place = owner ∨ place = middle ∨ place = last := by
    rw [← Dialect.reaches_graph] at reaches
    induction reaches with
    | refl => exact .inl rfl
    | tail _ edge ih =>
        obtain ⟨links, known, member⟩ := edge
        rcases ih with rfl | rfl | rfl
        · cases ofOwner.symm.trans known
          have next := (List.mem_cons.1 member).resolve_right (by simp)
          exact .inr (.inl (congrArg DependencyLink.path next))
        · cases ofMiddle.symm.trans known
          exact .inr (.inr (congrArg DependencyLink.path (List.mem_singleton.1 member)))
        · cases ofLast.symm.trans known
  have attributesOnly : ∀ key, formula.Uses here.dialect here.plan ⟨path, key⟩ →
      key.isSome = true := by
    rintro (_ | key) uses
    · obtain ⟨first, dependsOnValue, reaches⟩ := Formula.reachesValue_iff_uses.2 uses
      have edge : here.dialect.ValueEdge here.plan owner first :=
        ⟨_, formula, known, read, dependsOnValue⟩
      exact absurd (within (reaches.head edge)) (by decide)
    · rfl
  have agree : here.Agree there (fun place => place ≠ path) (fun _ _ => True) :=
    agree_put .standard store path "\x7bA\x7d" (Binary64.ofNat 5) none
  obtain ⟨determined, -, discovered⟩ := evaluate_determined_by_uses here rfl read
  have agreeFor := agree.agreeFor attributesOnly
  exact ⟨here, there, formula, owner, path, found, rfl, read, known, attributesOnly, agree, rfl,
    (Table.get?_put _ _ _ _).trans (if_pos rfl), agreeFor, determined there agreeFor, ok,
    discovered known found ok path⟩

end Inspection

end InspectionFormula
