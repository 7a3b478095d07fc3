import InspectionFormula.Proofs.Evaluation.Nesting
import InspectionFormula.Proofs.Operation.Success

/-!
# Evaluating a place and referring to it

A place can be evaluated by itself, or as what a reference to it comes to.  The
two differ only for a place that leads to a cycle and lies on none: it has an
outcome of its own, but a reference to it has no value.
-/

namespace InspectionFormula

namespace Inspection

variable {inspection : Inspection} {path : Path} {formula : Formula}

section Checks

variable (has : inspection.dialect.HasFormula inspection.plan path formula)
include has

theorem evaluateAt_of_not_onCycle
    (offCycle : ¬ inspection.dialect.OnCycle inspection.plan path) :
    inspection.evaluateAt path = inspection.evaluateTree formula.root := by
  rw [evaluateAt_eq_of_hasFormula has]
  exact evaluate_passing (has.detects_checkSelfReference.eq_ok_iff.2 offCycle)

theorem evaluateAt_of_onCycle (onCycle : inspection.dialect.OnCycle inspection.plan path) :
    ∃ cycle, inspection.evaluateAt path = .error (.circular ⟨path, cycle⟩) := by
  obtain ⟨fails_iff, isCircular⟩ := has.detects_checkSelfReference
  obtain ⟨error, refused⟩ := fails_iff.2 onCycle
  obtain ⟨cycle, rfl⟩ := isCircular error refused
  exact ⟨cycle, by rw [evaluateAt_eq_of_hasFormula has, evaluate_refused refused]⟩

theorem resolve_of_not_reachesCycle (honest : inspection.dialect.catalog.IsHonest)
    (acyclic : ¬ inspection.dialect.ReachesCycle inspection.plan path) :
    inspection.resolve ⟨path, none⟩ = inspection.evaluateTree formula.root := by
  rw [resolve_eq_of_hasFormula honest has, Dialect.checkPlace_eq_ok_iff.2 acyclic]
  rfl

end Checks

theorem resolve_of_reachesCycle (honest : inspection.dialect.catalog.IsHonest)
    (reachesCycle : inspection.dialect.ReachesCycle inspection.plan path) :
    ∃ cycle, inspection.resolve ⟨path, none⟩ = .error (.circular ⟨path, cycle⟩) := by
  obtain ⟨formula, has⟩ := reachesCycle.exists_hasFormula
  obtain ⟨fails_iff, isCircular⟩ := inspection.dialect.detects_checkPlace inspection.plan path
  obtain ⟨error, refused⟩ := fails_iff.2 reachesCycle
  obtain ⟨cycle, rfl⟩ := isCircular error refused
  exact ⟨cycle, by rw [resolve_eq_of_hasFormula honest has, refused]; rfl⟩

/-- A place that leads to no cycle comes to the same by itself and as a reference. -/
theorem evaluateAt_eq_resolve (honest : inspection.dialect.catalog.IsHonest)
    (acyclic : ¬ inspection.dialect.ReachesCycle inspection.plan path) :
    inspection.evaluateAt path = inspection.resolve ⟨path, none⟩ := by
  cases known : inspection.plan.formula? path with
  | none => rw [evaluateAt_measured known, resolve_measured known]
  | some text =>
      cases read : inspection.dialect.read text path with
      | error fault => rw [evaluateAt_malformed known read, resolve_malformed honest known read]
      | ok formula =>
          have has : inspection.dialect.HasFormula inspection.plan path formula :=
            ⟨text, known, read⟩
          have offCycle : ¬ inspection.dialect.OnCycle inspection.plan path :=
            fun onCycle => acyclic onCycle.reachesCycle
          rw [evaluateAt_of_not_onCycle has offCycle,
            resolve_of_not_reachesCycle has honest acyclic]

/-- A measured place and one whose formula is malformed come to the same by themselves and as
references.  So does a place with a formula that leads to no cycle, and it has an outcome other than
an error.  On a cycle both fail for it, and above a cycle only the reference does. -/
theorem evaluateAt_and_resolve_agree (inspection : Inspection)
    (standard : inspection.dialect.catalog = .standard) (path : Path) :
    (inspection.plan.formula? path = none →
      inspection.resolve ⟨path, none⟩ = .ok (inspection.measurements.value? path) ∧
        inspection.evaluateAt path = .ok (inspection.measurements.value? path)) ∧
    (∀ text fault, inspection.plan.formula? path = some text →
      inspection.dialect.read text path = .error fault →
      inspection.resolve ⟨path, none⟩ = .error (.malformed fault) ∧
        inspection.evaluateAt path = .error (.malformed fault)) ∧
    ∀ formula, inspection.dialect.HasFormula inspection.plan path formula →
      (¬ inspection.dialect.ReachesCycle inspection.plan path →
        ∃ value, inspection.resolve ⟨path, none⟩ = .ok value ∧
          inspection.evaluateAt path = .ok value) ∧
      (inspection.dialect.OnCycle inspection.plan path →
        (∃ cycle, inspection.resolve ⟨path, none⟩ = .error (.circular ⟨path, cycle⟩)) ∧
          ∃ cycle, inspection.evaluateAt path = .error (.circular ⟨path, cycle⟩)) ∧
      (inspection.dialect.ReachesCycle inspection.plan path →
        ¬ inspection.dialect.OnCycle inspection.plan path →
        (∃ cycle, inspection.resolve ⟨path, none⟩ = .error (.circular ⟨path, cycle⟩)) ∧
          (∀ span, inspection.evaluateTree (.reference ⟨path, none⟩ span) = .ok none) ∧
            ∃ value, inspection.evaluateAt path = .ok value) := by
  have honest : inspection.dialect.catalog.IsHonest := by
    rw [standard]
    exact Catalog.isHonest_standard
  have total : ∀ operation ∈ inspection.dialect.catalog.operations.values, operation.IsTotal := by
    rw [standard]
    exact Catalog.isTotal_of_mem_standard
  refine ⟨fun measured => ⟨resolve_measured measured, evaluateAt_measured measured⟩,
    fun text fault known malformed =>
      ⟨resolve_malformed honest known malformed, evaluateAt_malformed known malformed⟩, ?_⟩
  intro formula has
  obtain ⟨value, evaluates⟩ : ∃ value, inspection.evaluateTree formula.root = .ok value := by
    obtain ⟨text, -, read⟩ := id has
    exact Expression.exists_evaluate_eq_ok total (Dialect.isOver_of_read read).1 _
  refine ⟨?_, ?_, ?_⟩
  · intro acyclic
    have resolved := (resolve_of_not_reachesCycle has honest acyclic).trans evaluates
    exact ⟨value, resolved, (evaluateAt_eq_resolve honest acyclic).trans resolved⟩
  · intro onCycle
    exact ⟨resolve_of_reachesCycle honest onCycle.reachesCycle,
      evaluateAt_of_onCycle has onCycle⟩
  · intro reachesCycle offCycle
    obtain ⟨cycle, refused⟩ := resolve_of_reachesCycle honest reachesCycle
    refine ⟨⟨cycle, refused⟩, ?_, value, (evaluateAt_of_not_onCycle has offCycle).trans evaluates⟩
    intro span
    have valueless : inspection.valueOf ⟨path, none⟩ = none := by
      rw [valueOf, refused]
      rfl
    exact congrArg Except.ok valueless

theorem evaluateAt_and_resolve_above_cycle :
    ∃ (inspection : Inspection) (sound circular above malformed measured : Path),
      inspection.dialect.catalog = .standard ∧
      ¬ inspection.dialect.ReachesCycle inspection.plan sound ∧
      (∃ value, inspection.resolve ⟨sound, none⟩ = .ok value ∧
        inspection.evaluateAt sound = .ok value) ∧
      inspection.dialect.OnCycle inspection.plan circular ∧
      (∃ cycle, inspection.resolve ⟨circular, none⟩ = .error (.circular ⟨circular, cycle⟩)) ∧
      (∃ cycle, inspection.evaluateAt circular = .error (.circular ⟨circular, cycle⟩)) ∧
      inspection.dialect.ReachesCycle inspection.plan above ∧
      ¬ inspection.dialect.OnCycle inspection.plan above ∧
      (∃ cycle, inspection.resolve ⟨above, none⟩ = .error (.circular ⟨above, cycle⟩)) ∧
      (∃ value, inspection.evaluateAt above = .ok value) ∧
      (∃ error, inspection.resolve ⟨malformed, none⟩ = .error error ∧
        inspection.evaluateAt malformed = .error error) ∧
      inspection.plan.formula? measured = none ∧
      inspection.resolve ⟨measured, none⟩ = inspection.evaluateAt measured := by
  let sound : Path := ⟨[⟨.characteristic, "A"⟩]⟩
  let circular : Path := ⟨[⟨.characteristic, "B"⟩]⟩
  let above : Path := ⟨[⟨.characteristic, "C"⟩]⟩
  let malformed : Path := ⟨[⟨.characteristic, "D"⟩]⟩
  let measured : Path := ⟨[⟨.characteristic, "E"⟩]⟩
  let store := ((((Store.empty.setFormula sound "\x7bE\x7d*2").setFormula circular
    "\x7bB\x7d").setFormula above "sum(\x7bB\x7d;\x7bE\x7d)").setFormula malformed
    "1+(").setValue measured (Binary64.ofNat 3)
  let inspection : Inspection := ⟨.standard, store.plan, store.measurements, none⟩
  have ofSound : (inspection.dialect.graph inspection.plan).links? sound =
      .ok (some [⟨measured, false⟩]) := by
    decide +kernel
  have ofCircular : (inspection.dialect.graph inspection.plan).links? circular =
      .ok (some [⟨circular, false⟩]) := by
    decide +kernel
  have ofAbove : (inspection.dialect.graph inspection.plan).links? above =
      .ok (some [⟨circular, false⟩, ⟨measured, false⟩]) := by
    decide +kernel
  have ofMalformed : (inspection.dialect.graph inspection.plan).links? malformed =
      .error ⟨.missing .value none, 3⟩ := by
    decide +kernel
  have ofMeasured : (inspection.dialect.graph inspection.plan).links? measured = .ok none := by
    decide +kernel
  have passes : inspection.dialect.checkPlace inspection.plan sound = .ok () := by decide +kernel
  have acyclic := Dialect.checkPlace_eq_ok_iff.1 passes
  have edge {source target : Path} {links : List DependencyLink}
      (known : (inspection.dialect.graph inspection.plan).links? source = .ok (some links))
      (member : ⟨target, false⟩ ∈ links) :
      inspection.dialect.ValueEdge inspection.plan source target :=
    Dialect.valueEdge_graph_iff.1 ⟨links, known, member⟩
  have onCycle : inspection.dialect.OnCycle inspection.plan circular :=
    .single (edge ofCircular (by decide))
  have reachesCycle : inspection.dialect.ReachesCycle inspection.plan above :=
    ⟨circular, .single (edge ofAbove (by decide)), onCycle⟩
  -- Nothing leads back: the circular place leads to itself only, and the measured one nowhere.
  have below {place : Path}
      (reaches : Relation.TransGen (inspection.dialect.ValueEdge inspection.plan) above place) :
      place = circular ∨ place = measured := by
    rw [← Dialect.valueEdge_graph] at reaches
    induction reaches with
    | single edge =>
        obtain ⟨links, known, member⟩ := edge
        cases ofAbove.symm.trans known
        simpa using member
    | tail _ edge ih =>
        obtain ⟨links, known, member⟩ := edge
        rcases ih with rfl | rfl
        · cases ofCircular.symm.trans known
          exact .inl (congrArg DependencyLink.path (List.mem_singleton.1 member))
        · cases ofMeasured.symm.trans known
  have offCycle : ¬ inspection.dialect.OnCycle inspection.plan above :=
    fun onCycle => absurd (below onCycle) (by decide)
  have agree := evaluateAt_and_resolve_agree inspection rfl
  obtain ⟨_, formula, known, read, -⟩ := Dialect.links?_graph_eq_some_iff.1 ofSound
  obtain ⟨value, resolved, evaluated⟩ := ((agree sound).2.2 formula ⟨_, known, read⟩).1 acyclic
  obtain ⟨_, formula, known, read, -⟩ := Dialect.links?_graph_eq_some_iff.1 ofCircular
  obtain ⟨refused, alsoRefused⟩ := ((agree circular).2.2 formula ⟨_, known, read⟩).2.1 onCycle
  obtain ⟨_, formula, known, read, -⟩ := Dialect.links?_graph_eq_some_iff.1 ofAbove
  obtain ⟨aboveRefused, -, aboveEvaluates⟩ :=
    ((agree above).2.2 formula ⟨_, known, read⟩).2.2 reachesCycle offCycle
  obtain ⟨_, known, faulty⟩ := Dialect.links?_graph_eq_error_iff.1 ofMalformed
  have unmeasured : inspection.plan.formula? measured = none := by decide +kernel
  obtain ⟨resolvedMeasured, evaluatedMeasured⟩ := (agree measured).1 unmeasured
  exact ⟨inspection, sound, circular, above, malformed, measured, rfl, acyclic,
    ⟨value, resolved, evaluated⟩, onCycle, refused, alsoRefused, reachesCycle, offCycle,
    aboveRefused, aboveEvaluates, ⟨_, (agree malformed).2.1 _ _ known faulty⟩, unmeasured,
    resolvedMeasured.trans evaluatedMeasured.symm⟩

end Inspection

end InspectionFormula
