import InspectionFormula.Proofs.Dependencies.References
import InspectionFormula.Proofs.Expression.Aggregation

/-!
# Grade functions written out

A grade function of a group comes to what the aggregation of its name comes to
over the places below the group, and it depends on the same places.  It may be
written out anywhere, in a formula or in the formulas of a plan.
-/

namespace InspectionFormula

namespace Operation

/-- The first operation of the standard catalog is there for groups what the second one is for
arguments. -/
def Abbreviates (grade plain : Operation) : Prop :=
  ∃ name ∈ ["max", "min", "mean"],
    Catalog.standard.operation? ("grade_" ++ name) = some grade ∧
      Catalog.standard.operation? name = some plain

theorem Abbreviates.exists_reduce {grade plain : Operation}
    (abbreviates : grade.Abbreviates plain) :
    ∃ gradeName name reduce, reduce [] = none ∧ grade = .grade gradeName reduce ∧
      plain = .aggregate name reduce := by
  obtain ⟨name, isName, isGrade, isPlain⟩ := abbreviates
  simp only [List.mem_cons, List.not_mem_nil, or_false] at isName
  rcases isName with rfl | rfl | rfl
  · have grades : Catalog.standard.operation? ("grade_" ++ "max") =
        some (.grade "grade_max" Aggregate.maximum) := rfl
    have plains : Catalog.standard.operation? "max" =
        some (.aggregate "max" Aggregate.maximum) := rfl
    exact ⟨_, _, Aggregate.maximum, rfl, Option.some.inj (isGrade.symm.trans grades),
      Option.some.inj (isPlain.symm.trans plains)⟩
  · have grades : Catalog.standard.operation? ("grade_" ++ "min") =
        some (.grade "grade_min" Aggregate.minimum) := rfl
    have plains : Catalog.standard.operation? "min" =
        some (.aggregate "min" Aggregate.minimum) := rfl
    exact ⟨_, _, Aggregate.minimum, rfl, Option.some.inj (isGrade.symm.trans grades),
      Option.some.inj (isPlain.symm.trans plains)⟩
  · have grades : Catalog.standard.operation? ("grade_" ++ "mean") =
        some (.grade "grade_mean" Aggregate.mean) := rfl
    have plains : Catalog.standard.operation? "mean" =
        some (.aggregate "mean" Aggregate.mean) := rfl
    exact ⟨_, _, Aggregate.mean, rfl, Option.some.inj (isGrade.symm.trans grades),
      Option.some.inj (isPlain.symm.trans plains)⟩

end Operation

namespace Expression

variable {childPaths : Path → List Path} {tree other : Expression} {group : Path}
  {surroundings : Surroundings} {grade plain : Operation}

/-- The call of an operation with references to some places as its arguments, spans aside. -/
def callOver (operation : Operation) (places : List Path) : Expression :=
  .call operation (places.map fun place => .reference ⟨place, none⟩ ⟨0, 0⟩) ⟨0, 0⟩

/-- Spans aside, the second tree has the aggregation over the places below a group in place of one
call of a grade function of the group. -/
def WritesOutOne (childPaths : Path → List Path) (tree other : Expression) : Prop :=
  ∃ grade plain group, grade.Abbreviates plain ∧
    Exchanges (callOver grade [group]) (callOver plain (childPaths group)) tree.eraseSpans
      other.eraseSpans

/-- Any number of calls of grade functions are written out in the second tree. -/
abbrev WritesOut (childPaths : Path → List Path) : Expression → Expression → Prop :=
  Relation.ReflTransGen (WritesOutOne childPaths)

theorem evaluate_callOver_plain (abbreviates : grade.Abbreviates plain) (group : Path) :
    (callOver plain (surroundings.childPaths group)).evaluate surroundings =
      (callOver grade [group]).evaluate surroundings := by
  obtain ⟨gradeName, name, reduce, nothing, rfl, rfl⟩ := abbreviates.exists_reduce
  have values : (fun place => evaluate surroundings (.reference ⟨place, none⟩ ⟨0, 0⟩)) =
      fun place => (pure (surroundings.valueOf ⟨place, none⟩) : Outcome) := rfl
  rw [callOver, evaluate_aggregate nothing, List.mapM_map, Function.comp_def, values,
    List.mapM_pure, callOver, List.map_singleton, evaluate_grade]
  rfl

theorem references_callOver_plain (abbreviates : grade.Abbreviates plain) (group : Path) :
    (callOver plain (childPaths group)).references childPaths =
      (callOver grade [group]).references childPaths := by
  obtain ⟨gradeName, name, reduce, -, rfl, rfl⟩ := abbreviates.exists_reduce
  have ofPlain : (callOver (.aggregate name reduce) (childPaths group)).references childPaths =
      (childPaths group).map fun place => ⟨place, none⟩ := by
    rw [references, callOver, map_reference_call]
    simp only [Operation.aggregate, List.map_map, ← List.flatMap_def]
    exact List.map_eq_flatMap.symm
  have ofGrade : (callOver (.grade gradeName reduce) [group]).references childPaths =
      (childPaths group).map fun place => ⟨place, none⟩ := by
    rw [references, callOver, map_reference_call]
    simp only [Operation.grade, List.map_singleton, List.flatMap_singleton]
    rfl
  rw [ofPlain, ofGrade]

/-- What a call of a grade function has in common with the aggregation that is written out for it,
the trees around them have in common. -/
theorem WritesOut.meaning_eq {Meaning : Type} {meaning : Expression → Meaning}
    (compositional : IsCompositional meaning)
    (same : ∀ grade plain group, grade.Abbreviates plain →
      meaning (callOver plain (childPaths group)) = meaning (callOver grade [group]))
    (writesOut : tree.WritesOut childPaths other) : meaning other = meaning tree := by
  induction writesOut with
  | refl => rfl
  | @tail middle last _ one ih =>
      obtain ⟨grade, plain, group, abbreviates, exchanges⟩ := one
      have step := compositional.exchange exchanges rfl (same grade plain group abbreviates)
      rw [compositional.eraseSpans, compositional.eraseSpans] at step
      exact step.trans ih

theorem WritesOut.references_eq (writesOut : tree.WritesOut childPaths other) :
    other.references childPaths = tree.references childPaths :=
  writesOut.meaning_eq (isCompositional_references childPaths)
    fun _ _ group abbreviates => references_callOver_plain abbreviates group

theorem WritesOut.evaluate_eq (writesOut : tree.WritesOut surroundings.childPaths other) :
    other.evaluate surroundings = tree.evaluate surroundings :=
  writesOut.meaning_eq (isCompositional_evaluate surroundings)
    fun _ _ group abbreviates => evaluate_callOver_plain abbreviates group

end Expression

/-- The second plan has the formulas of the first one, with grade functions written out in some. -/
structure Plan.WritesOut (dialect : Dialect) (plan another : Plan) : Prop where
  childPaths : another.childPaths = plan.childPaths
  formulas : ∀ path, another.formula? path = plan.formula? path ∨ ∃ formula written : Formula,
    dialect.HasFormula plan path formula ∧ dialect.HasFormula another path written ∧
      formula.root.WritesOut plan.childPaths written.root

theorem Plan.WritesOut.refersAlike {dialect : Dialect} {plan another : Plan}
    (writesOut : plan.WritesOut dialect another) : plan.RefersAlike dialect another where
  childPaths := writesOut.childPaths
  formulas path := by
    refine (writesOut.formulas path).imp_right ?_
    rintro ⟨formula, written, has, hasWritten, writesOut⟩
    exact ⟨formula, written, has, hasWritten, writesOut.references_eq⟩

namespace Inspection

variable {inspection : Inspection} {another : Plan} {tree other : Expression}

/-- The same measurements with another plan. -/
def withPlan (inspection : Inspection) (plan : Plan) : Inspection :=
  { inspection with plan := plan }

section Plans

variable (honest : inspection.dialect.catalog.IsHonest)
  (writesOut : inspection.plan.WritesOut inspection.dialect another)
include honest writesOut

theorem resolve_withPlan (reference : Reference) :
    (inspection.withPlan another).resolve reference = inspection.resolve reference := by
  obtain ⟨path, _ | key⟩ := reference
  swap
  · rw [resolve_attribute, resolve_attribute]
    rfl
  induction path using opened_induction honest with
  | step path ih =>
      have sameTree {text : String} {nested : Formula}
          (known : inspection.plan.formula? path = some text)
          (opened : inspection.readNested path text = .ok nested) :
          (inspection.withPlan another).evaluateTree nested.root =
            inspection.evaluateTree nested.root := by
        refine Expression.evaluate_congr writesOut.childPaths ?_
        rintro ⟨next, _ | key⟩ reads
        · exact congrArg valueOrNone (ih text nested next known opened reads)
        · refine congrArg valueOrNone ?_
          rw [resolve_attribute, resolve_attribute]
          rfl
      rcases writesOut.formulas path with sameFormula | ⟨formula, written, has, hasWritten, writes⟩
      · refine resolve_eq_of_nested honest rfl sameFormula rfl ?_
          fun _ _ known opened => sameTree known opened
        intro text _
        refine readNested_eq_of_check rfl fun nested _ => ?_
        rw [Dialect.checkAcyclic, Dialect.checkAcyclic]
        exact congrArg _ (writesOut.refersAlike.traverseFormula_eq rfl rfl .cycles)
      · have samePlace : inspection.dialect.checkPlace another path =
            inspection.dialect.checkPlace inspection.plan path := by
          rw [Dialect.checkPlace, Dialect.checkPlace,
            writesOut.refersAlike.traverseFrom_eq]
        have there : (inspection.withPlan another).resolve ⟨path, none⟩ =
            (inspection.dialect.checkPlace another path).bind fun _ =>
              (inspection.withPlan another).evaluateTree written.root :=
          resolve_eq_of_hasFormula honest hasWritten
        rw [there, resolve_eq_of_hasFormula honest has, samePlace]
        cases passes : inspection.dialect.checkPlace inspection.plan path with
        | error error => rfl
        | ok =>
            rw [← Dialect.checkAcyclic_eq_checkPlace has] at passes
            obtain ⟨text, known, read⟩ := has
            rw [← writesOut.childPaths] at writes
            calc
              (inspection.withPlan another).evaluateTree written.root =
                  (inspection.withPlan another).evaluateTree formula.root := writes.evaluate_eq
              _ = inspection.evaluateTree formula.root :=
                  sameTree known (readNested_eq_ok_iff.2 ⟨read, passes⟩)

theorem surroundings_withPlan :
    (inspection.withPlan another).surroundings = inspection.surroundings := by
  have sameValues : (inspection.withPlan another).valueOf = inspection.valueOf :=
    funext fun reference => congrArg valueOrNone (resolve_withPlan honest writesOut reference)
  have sameChildren : (inspection.withPlan another).plan.childPaths = inspection.plan.childPaths :=
    writesOut.childPaths
  rw [surroundings, surroundings, sameValues, sameChildren]

theorem evaluateTree_withPlan (writes : tree.WritesOut inspection.plan.childPaths other) :
    (inspection.withPlan another).evaluateTree other = inspection.evaluateTree tree := by
  rw [evaluateTree, surroundings_withPlan honest writesOut]
  exact writes.evaluate_eq

theorem evaluate_withPlan {formula written : Formula} (sameOwner : written.owner = formula.owner)
    (writes : formula.root.WritesOut inspection.plan.childPaths written.root) :
    (inspection.withPlan another).evaluate written = inspection.evaluate formula := by
  have sameCheck : inspection.dialect.checkSelfReference another written =
      inspection.dialect.checkSelfReference inspection.plan formula := by
    rw [Dialect.checkSelfReference, Dialect.checkSelfReference,
      writesOut.refersAlike.traverseFormula_eq sameOwner writes.references_eq]
  rw [evaluate, evaluate, evaluateTree_withPlan honest writesOut writes]
  exact congrArg (· >>= _) sameCheck

theorem evaluateAt_withPlan (path : Path) :
    (inspection.withPlan another).evaluateAt path = inspection.evaluateAt path := by
  rcases writesOut.formulas path with sameFormula | ⟨formula, written, has, hasWritten, writes⟩
  · cases known : inspection.plan.formula? path with
    | none =>
        rw [evaluateAt_measured known]
        exact evaluateAt_measured (sameFormula.trans known)
    | some text =>
        have there : (inspection.withPlan another).plan.formula? path = some text :=
          sameFormula.trans known
        rw [evaluateAt_calculated known, evaluateAt_calculated there]
        refine congrArg _ (funext fun formula => ?_)
        exact evaluate_withPlan honest writesOut rfl .refl
  · have sameOwner : written.owner = formula.owner := by
      obtain ⟨_, -, read⟩ := id has
      obtain ⟨_, -, readWritten⟩ := id hasWritten
      rw [(Dialect.isOver_of_read read).2.2, (Dialect.isOver_of_read readWritten).2.2]
    have there : (inspection.withPlan another).evaluateAt path =
        (inspection.withPlan another).evaluate written :=
      evaluateAt_eq_of_hasFormula hasWritten
    rw [there, evaluateAt_eq_of_hasFormula has, evaluate_withPlan honest writesOut sameOwner writes]

end Plans

/-- Grade functions abbreviate the aggregations over the places below their groups.  Written out in
a tree, they leave it the same outcome.  Written out in a formula and in the formulas of a plan, if
only in some or in none, they leave the same dependencies, the same cycles and faults, and with the
operations of the standard catalog the same outcome everywhere. -/
theorem grade_functions_abbreviate_aggregations (inspection : Inspection) :
    (∀ tree other, tree.WritesOut inspection.plan.childPaths other →
      inspection.evaluateTree other = inspection.evaluateTree tree) ∧
    ∀ another, inspection.plan.WritesOut inspection.dialect another →
      (∀ formula written : Formula, written.owner = formula.owner →
        formula.root.WritesOut inspection.plan.childPaths written.root →
        (formula.dependencies inspection.plan.childPaths).UseAlike
          (written.dependencies another.childPaths) ∧
        inspection.dialect.checkAcyclic another written =
          inspection.dialect.checkAcyclic inspection.plan formula ∧
        inspection.dialect.checkSelfReference another written =
          inspection.dialect.checkSelfReference inspection.plan formula) ∧
      (∀ path, inspection.dialect.discover another path =
          inspection.dialect.discover inspection.plan path ∧
        inspection.dialect.checkPlace another path =
          inspection.dialect.checkPlace inspection.plan path) ∧
      (inspection.dialect.catalog = .standard →
        (∀ formula written : Formula, written.owner = formula.owner →
          formula.root.WritesOut inspection.plan.childPaths written.root →
          (inspection.withPlan another).evaluate written = inspection.evaluate formula) ∧
        ∀ path, (inspection.withPlan another).evaluateAt path = inspection.evaluateAt path ∧
          (inspection.withPlan another).resolve ⟨path, none⟩ =
            inspection.resolve ⟨path, none⟩) := by
  refine ⟨fun tree other writes => writes.evaluate_eq, fun another writesOut => ⟨?_, ?_, ?_⟩⟩
  · intro formula written sameOwner writes
    have traverses := writesOut.refersAlike.traverseFormula_eq sameOwner writes.references_eq
    refine ⟨?_, ?_, ?_⟩
    · rw [writesOut.childPaths]
      exact Formula.useAlike_dependencies writes.references_eq
    · rw [Dialect.checkAcyclic, Dialect.checkAcyclic, traverses]
    · rw [Dialect.checkSelfReference, Dialect.checkSelfReference, traverses]
  · intro path
    refine ⟨writesOut.refersAlike.traverseFrom_eq .everything path, ?_⟩
    rw [Dialect.checkPlace, Dialect.checkPlace, writesOut.refersAlike.traverseFrom_eq]
  · intro standard
    have honest : inspection.dialect.catalog.IsHonest := by
      rw [standard]
      exact Catalog.isHonest_standard
    refine ⟨fun formula written => evaluate_withPlan honest writesOut, fun path => ?_⟩
    exact ⟨evaluateAt_withPlan honest writesOut path, resolve_withPlan honest writesOut _⟩

theorem grade_of_repeated_and_unmeasured_places :
    ∃ (inspection : Inspection) (another : Plan) (owner group : Path) (formula written : Formula),
      inspection.dialect.catalog = .standard ∧
      (inspection.plan.childPaths group).length = 4 ∧
      inspection.plan.WritesOut inspection.dialect another ∧
      inspection.plan.formula? owner = some "-grade_max(\x7bG\x7d)" ∧
      another.formula? owner = some "-max(\x7bG/a\x7d;\x7bG/b\x7d;\x7bG/a\x7d;\x7bG/c\x7d)" ∧
      inspection.dialect.HasFormula inspection.plan owner formula ∧
      inspection.dialect.HasFormula another owner written ∧
      formula.root.WritesOut inspection.plan.childPaths written.root ∧
      inspection.evaluateTree formula.root = .ok (some (-Binary64.ofNat 6)) ∧
      inspection.evaluateTree written.root = inspection.evaluateTree formula.root ∧
      (formula.dependencies inspection.plan.childPaths).UseAlike
        (written.dependencies another.childPaths) ∧
      inspection.dialect.discover another owner =
        inspection.dialect.discover inspection.plan owner ∧
      (inspection.withPlan another).evaluateAt owner = inspection.evaluateAt owner := by
  let owner : Path := ⟨[⟨.characteristic, "A"⟩]⟩
  let group : Path := ⟨[⟨.characteristic, "G"⟩]⟩
  let measured := group.child ⟨.characteristic, "a"⟩
  let calculated := group.child ⟨.characteristic, "b"⟩
  let unmeasured := group.child ⟨.characteristic, "c"⟩
  let text := "-grade_max(\x7bG\x7d)"
  let writtenText := "-max(\x7bG/a\x7d;\x7bG/b\x7d;\x7bG/a\x7d;\x7bG/c\x7d)"
  let store := (((Store.empty.setFormula owner text).setFormula calculated
    "\x7ba\x7d*2").setValue measured (Binary64.ofNat 3)).setChildren group
      [measured, calculated, measured, unmeasured]
  let changed : Store := { store with formulas := store.formulas.put owner writtenText }
  let inspection : Inspection := ⟨.standard, store.plan, store.measurements, none⟩
  let grade : Operation := .grade "grade_max" Aggregate.maximum
  let plain : Operation := .aggregate "max" Aggregate.maximum
  let formula : Formula :=
    ⟨.negate (.call grade [.reference ⟨group, none⟩ ⟨11, 3⟩] ⟨1, 14⟩) ⟨0, 15⟩, text, owner⟩
  let written : Formula :=
    ⟨.negate (.call plain [.reference ⟨measured, none⟩ ⟨5, 5⟩,
      .reference ⟨calculated, none⟩ ⟨11, 5⟩, .reference ⟨measured, none⟩ ⟨17, 5⟩,
      .reference ⟨unmeasured, none⟩ ⟨23, 5⟩] ⟨1, 28⟩) ⟨0, 29⟩, writtenText, owner⟩
  have known : inspection.plan.formula? owner = some text := by decide +kernel
  have knownThere : changed.plan.formula? owner = some writtenText :=
    (Table.get?_put _ _ _ _).trans (if_pos rfl)
  have read : Dialect.standard.read text owner = .ok formula := by
    subst formula text owner
    rfl
  have readWritten : Dialect.standard.read writtenText owner = .ok written := by
    subst written writtenText owner
    rfl
  have has : inspection.dialect.HasFormula inspection.plan owner formula := ⟨text, known, read⟩
  have hasWritten : inspection.dialect.HasFormula changed.plan owner written :=
    ⟨writtenText, knownThere, readWritten⟩
  have places : inspection.plan.childPaths group =
      [measured, calculated, measured, unmeasured] := by
    decide +kernel
  have writes : formula.root.WritesOut inspection.plan.childPaths written.root := by
    refine .single ⟨grade, plain, group, ⟨"max", by simp, rfl, rfl⟩, ?_⟩
    rw [places]
    exact .negate .here
  have writesOut : inspection.plan.WritesOut inspection.dialect changed.plan := by
    refine ⟨rfl, fun path => ?_⟩
    by_cases here : path = owner
    · subst here
      exact .inr ⟨formula, written, has, hasWritten, writes⟩
    · exact .inl ((Table.get?_put _ _ _ _).trans (if_neg (Ne.symm here)))
  obtain ⟨ofTrees, ofPlans⟩ := grade_functions_abbreviate_aggregations inspection
  obtain ⟨ofFormulas, ofPlaces, ofOutcomes⟩ := ofPlans changed.plan writesOut
  exact ⟨inspection, changed.plan, owner, group, formula, written, rfl, by rw [places]; rfl,
    writesOut, known, knownThere, has, hasWritten, writes, by decide +kernel, ofTrees _ _ writes,
    (ofFormulas formula written rfl writes).1, (ofPlaces owner).1, ((ofOutcomes rfl).2 owner).1⟩

end Inspection

end InspectionFormula
