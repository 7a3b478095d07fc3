import InspectionFormula.Proofs.Dependencies.Cycles
import InspectionFormula.Proofs.Dependencies.Occurrences
import InspectionFormula.Proofs.Expression.Reads
import Mathlib.Data.Finset.Card

/-!
# Nested formulas

A formula that is opened reaches fewer calculated places than the one that reads
its value.  There is therefore always enough depth, and a reference comes to what
its formula comes to, however deep it is nested.
-/

namespace InspectionFormula

def Catalog.IsHonest (catalog : Catalog) : Prop :=
  ∀ operation ∈ catalog.operations.values, operation.IsHonest

theorem Catalog.isHonest_standard : standard.IsHonest := fun _ => isHonest_of_mem_standard

namespace Plan

variable {plan : Plan} {path : Path}

/-- The places with a formula. -/
def calculated (plan : Plan) : Finset Path :=
  plan.formulaPaths.toFinset.filter fun path => (plan.formula? path).isSome

theorem mem_calculated_iff : path ∈ plan.calculated ↔ ∃ text, plan.formula? path = some text := by
  rw [calculated, Finset.mem_filter, List.mem_toFinset, Option.isSome_iff_exists]
  constructor
  · exact fun member => member.2
  · rintro ⟨text, known⟩
    exact ⟨plan.mem_formulaPaths known, text, known⟩

theorem card_calculated_le (plan : Plan) : plan.calculated.card ≤ plan.formulaPaths.length :=
  (Finset.card_filter_le _ _).trans (List.toFinset_card_le _)

end Plan

namespace Dialect

variable {dialect : Dialect} {plan : Plan} {path next : Path} {text : String} {formula : Formula}
  {surroundings : Surroundings}

open Classical in
/-- The calculated places that a place reaches. -/
noncomputable def reached (dialect : Dialect) (plan : Plan) (path : Path) : Finset Path :=
  plan.calculated.filter (dialect.Reaches plan path)

theorem mem_reached_iff : next ∈ dialect.reached plan path ↔
    next ∈ plan.calculated ∧ dialect.Reaches plan path next := by
  simp [reached]

theorem card_reached_le (dialect : Dialect) (plan : Plan) (path : Path) :
    (dialect.reached plan path).card ≤ plan.formulaPaths.length :=
  (Finset.card_le_card fun _ member => (mem_reached_iff.1 member).1).trans
    plan.card_calculated_le

theorem mem_reached_self (known : plan.formula? path = some text) :
    path ∈ dialect.reached plan path :=
  mem_reached_iff.2 ⟨Plan.mem_calculated_iff.2 ⟨text, known⟩, .refl⟩

theorem card_reached_pos (dialect : Dialect) (known : plan.formula? path = some text) :
    0 < (dialect.reached plan path).card :=
  Finset.card_pos.2 ⟨path, mem_reached_self known⟩

theorem card_reached_lt (edge : dialect.ValueEdge plan path next)
    (forward : ¬ dialect.Reaches plan next path) :
    (dialect.reached plan next).card < (dialect.reached plan path).card := by
  apply Finset.card_lt_card
  constructor
  · intro place member
    obtain ⟨calculated, reaches⟩ := mem_reached_iff.1 member
    exact mem_reached_iff.2 ⟨calculated, reaches.head edge⟩
  · intro subset
    obtain ⟨text, _, known, -⟩ := edge
    exact forward (mem_reached_iff.1 (subset (mem_reached_self known))).2

theorem isOver_of_read {owner : Path} (read : dialect.read text owner = .ok formula) :
    formula.root.IsOver dialect.catalog ∧ formula.text = text ∧ formula.owner = owner := by
  obtain ⟨root, parsed, rfl⟩ := read_eq_ok_iff.1 read
  exact ⟨(Expression.isInherited_isOver _ _).of_parse parsed, rfl, rfl⟩

/-- The check of the formula of a place is the check of the place. -/
theorem checkAcyclic_eq_checkPlace (has : dialect.HasFormula plan path formula) :
    dialect.checkAcyclic plan formula = dialect.checkPlace plan path := by
  obtain ⟨text, known, read⟩ := has
  have links := links?_graph_eq_some_iff.2 ⟨text, formula, known, read, rfl⟩
  rw [checkPlace, DependencyGraph.traverseFrom, links, checkAcyclic, traverseFormula,
    (isOver_of_read read).2.2]

/-- The formula of a place reaches its own owner exactly if the place lies on a cycle. -/
theorem HasFormula.detects_checkSelfReference (has : dialect.HasFormula plan path formula) :
    Detects (dialect.checkSelfReference plan formula) path (dialect.OnCycle plan path) := by
  have detects := dialect.detects_checkSelfReference plan formula
  obtain ⟨text, known, read⟩ := id has
  rw [(isOver_of_read read).2.2] at detects
  simp only [← has.valueEdge_iff] at detects
  rwa [OnCycle, Relation.TransGen.head'_iff]

/-- What the evaluation of a formula reads, the formula depends on. -/
theorem dependsOnValue_of_reads (honest : dialect.catalog.IsHonest) {owner : Path}
    (read : dialect.read text owner = .ok formula)
    (sameChildren : surroundings.childPaths = plan.childPaths)
    (reads : formula.root.Reads surroundings ⟨next, none⟩) : formula.DependsOnValue plan next := by
  rw [Formula.dependsOnValue_iff, ← sameChildren]
  exact Expression.exists_occurrence_of_reads honest (isOver_of_read read).1 formula.text reads

end Dialect

namespace Inspection

variable {inspection : Inspection} {path next : Path} {text : String} {nested : Formula}
  {surroundings : Surroundings}

theorem readNested_eq_ok_iff :
    inspection.readNested path text = .ok nested ↔
      inspection.dialect.read text path = .ok nested ∧
        inspection.dialect.checkAcyclic inspection.plan nested = .ok () := by
  unfold readNested
  cases inspection.dialect.read text path with
  | error fault => simp [Except.mapError, bind, Except.bind]
  | ok formula =>
      simp only [Except.mapError, bind, Except.bind, pure, Except.pure]
      cases checked : inspection.dialect.checkAcyclic inspection.plan formula with
      | error fault => simp; rintro rfl; simp [checked]
      | ok => simp; rintro rfl; exact checked

/-- A place whose formula is opened and the places that the formula reads. -/
theorem valueEdge_of_reads (honest : inspection.dialect.catalog.IsHonest)
    (known : inspection.plan.formula? path = some text)
    (opened : inspection.readNested path text = .ok nested)
    (sameChildren : surroundings.childPaths = inspection.plan.childPaths)
    (reads : nested.root.Reads surroundings ⟨next, none⟩) :
    inspection.dialect.ValueEdge inspection.plan path next ∧
      ¬ inspection.dialect.Reaches inspection.plan next path := by
  obtain ⟨read, passes⟩ := readNested_eq_ok_iff.1 opened
  have dependsOnValue := Dialect.dependsOnValue_of_reads honest read sameChildren reads
  refine ⟨⟨text, nested, known, read, dependsOnValue⟩, ?_⟩
  have forward := Dialect.not_reaches_owner_of_checkAcyclic passes dependsOnValue
  rwa [(Dialect.isOver_of_read read).2.2] at forward

/-- What expressions are evaluated with when formulas may nest to some depth. -/
def surroundingsWithin (inspection : Inspection) (depth : Nat) : Surroundings where
  valueOf reference := valueOrNone (inspection.resolveWithin depth reference)
  childPaths := inspection.plan.childPaths

theorem resolveWithin_attribute (depth : Nat) (key : UInt16) :
    inspection.resolveWithin depth ⟨path, some key⟩ =
      .ok ((inspection.measurements.attribute? path key inspection.time).bind
        Attribute.number?) := by
  unfold resolveWithin
  rfl

theorem resolveWithin_measured (depth : Nat) (measured : inspection.plan.formula? path = none) :
    inspection.resolveWithin depth ⟨path, none⟩ = .ok (inspection.measurements.value? path) := by
  unfold resolveWithin
  simp only [measured]

theorem resolveWithin_calculated (depth : Nat)
    (known : inspection.plan.formula? path = some text) :
    inspection.resolveWithin (depth + 1) ⟨path, none⟩ =
      (inspection.readNested path text).bind fun nested =>
        nested.root.evaluate (inspection.surroundingsWithin depth) := by
  rw [resolveWithin]
  simp only [known]
  rfl

/-- Depth for all calculated places that a place reaches is enough. -/
theorem resolveWithin_eq (honest : inspection.dialect.catalog.IsHonest) {depth other : Nat}
    (enough : (inspection.dialect.reached inspection.plan path).card ≤ depth)
    (alsoEnough : (inspection.dialect.reached inspection.plan path).card ≤ other) :
    inspection.resolveWithin depth ⟨path, none⟩ = inspection.resolveWithin other ⟨path, none⟩ := by
  induction depth generalizing path other with
  | zero =>
      cases known : inspection.plan.formula? path with
      | none => rw [resolveWithin_measured 0 known, resolveWithin_measured other known]
      | some text =>
          have := inspection.dialect.card_reached_pos known
          omega
  | succ depth ih =>
      cases known : inspection.plan.formula? path with
      | none => rw [resolveWithin_measured _ known, resolveWithin_measured other known]
      | some text =>
          have := inspection.dialect.card_reached_pos known
          obtain ⟨other, rfl⟩ : ∃ less, other = less + 1 := ⟨other - 1, by omega⟩
          rw [resolveWithin_calculated depth known, resolveWithin_calculated other known]
          cases opened : inspection.readNested path text with
          | error fault => rfl
          | ok nested =>
              refine Expression.evaluate_congr rfl ?_
              rintro ⟨next, key⟩ reads
              cases key with
              | some key =>
                  simp only [surroundingsWithin, resolveWithin_attribute]
              | none =>
                  obtain ⟨edge, forward⟩ := valueEdge_of_reads honest known opened rfl reads
                  have fewer := Dialect.card_reached_lt edge forward
                  exact congrArg valueOrNone (ih (by omega) (by omega))

theorem resolve_attribute (key : UInt16) :
    inspection.resolve ⟨path, some key⟩ =
      .ok ((inspection.measurements.attribute? path key inspection.time).bind
        Attribute.number?) :=
  resolveWithin_attribute _ key

theorem resolve_measured (measured : inspection.plan.formula? path = none) :
    inspection.resolve ⟨path, none⟩ = .ok (inspection.measurements.value? path) :=
  resolveWithin_measured _ measured

/-- A reference to a calculated place comes to what its formula comes to. -/
theorem resolve_calculated (honest : inspection.dialect.catalog.IsHonest)
    (known : inspection.plan.formula? path = some text) :
    inspection.resolve ⟨path, none⟩ =
      (inspection.readNested path text).bind fun nested => inspection.evaluateTree nested.root := by
  have enough := inspection.dialect.card_reached_le inspection.plan path
  have oneMore : inspection.resolve ⟨path, none⟩ =
      inspection.resolveWithin (inspection.plan.formulaPaths.length + 1) ⟨path, none⟩ :=
    resolveWithin_eq honest enough (by omega)
  rw [oneMore, resolveWithin_calculated _ known]
  rfl

theorem resolve_eq_of_hasFormula (honest : inspection.dialect.catalog.IsHonest)
    (has : inspection.dialect.HasFormula inspection.plan path nested) :
    inspection.resolve ⟨path, none⟩ =
      (inspection.dialect.checkPlace inspection.plan path).bind fun _ =>
        inspection.evaluateTree nested.root := by
  rw [← Dialect.checkAcyclic_eq_checkPlace has]
  obtain ⟨text, known, read⟩ := has
  rw [resolve_calculated honest known]
  simp only [readNested, read, Except.mapError, bind, Except.bind]
  cases inspection.dialect.checkAcyclic inspection.plan nested <;> rfl

theorem resolve_malformed (honest : inspection.dialect.catalog.IsHonest)
    (known : inspection.plan.formula? path = some text) {fault : SyntaxError}
    (malformed : inspection.dialect.read text path = .error fault) :
    inspection.resolve ⟨path, none⟩ = .error (.malformed fault) := by
  rw [resolve_calculated honest known, readNested, malformed]
  rfl

section Pair

variable {other : Inspection}

theorem readNested_eq_of_check (sameDialect : other.dialect = inspection.dialect)
    (same : ∀ nested, inspection.dialect.read text path = .ok nested →
      inspection.dialect.checkAcyclic other.plan nested =
        inspection.dialect.checkAcyclic inspection.plan nested) :
    other.readNested path text = inspection.readNested path text := by
  rw [readNested, readNested, sameDialect]
  cases read : inspection.dialect.read text path with
  | error fault => simp only [Except.mapError, bind, Except.bind]
  | ok nested => simp only [Except.mapError, bind, Except.bind, same nested read]

/-- A reference comes to the same in two inspections if its place has the same formula in both,
which is opened alike and evaluated alike, or the same measured value. -/
theorem resolve_eq_of_nested (honest : inspection.dialect.catalog.IsHonest)
    (sameDialect : other.dialect = inspection.dialect)
    (sameFormula : other.plan.formula? path = inspection.plan.formula? path)
    (sameValue : other.measurements.value? path = inspection.measurements.value? path)
    (sameNested : ∀ text, inspection.plan.formula? path = some text →
      other.readNested path text = inspection.readNested path text)
    (sameTree : ∀ text nested, inspection.plan.formula? path = some text →
      inspection.readNested path text = .ok nested →
      other.evaluateTree nested.root = inspection.evaluateTree nested.root) :
    other.resolve ⟨path, none⟩ = inspection.resolve ⟨path, none⟩ := by
  have honestThere : other.dialect.catalog.IsHonest := sameDialect ▸ honest
  cases known : inspection.plan.formula? path with
  | none => rw [resolve_measured known, resolve_measured (sameFormula.trans known), sameValue]
  | some text =>
      rw [resolve_calculated honest known, resolve_calculated honestThere (sameFormula.trans known),
        sameNested text known]
      cases opened : inspection.readNested path text with
      | error fault => rfl
      | ok nested => exact sameTree text nested known opened

end Pair

/-- Induction along the references that opened formulas read, which never come back to a formula
that has been opened. -/
theorem opened_induction (honest : inspection.dialect.catalog.IsHonest) {holds : Path → Prop}
    (step : ∀ path,
      (∀ text nested next, inspection.plan.formula? path = some text →
        inspection.readNested path text = .ok nested →
        nested.root.Reads inspection.surroundings ⟨next, none⟩ → holds next) → holds path)
    (path : Path) : holds path := by
  generalize size : (inspection.dialect.reached inspection.plan path).card = count
  induction count using Nat.strong_induction_on generalizing path with
  | h count ih =>
      apply step path
      intro text nested next known opened reads
      obtain ⟨edge, forward⟩ := valueEdge_of_reads honest known opened rfl reads
      exact ih _ (size ▸ Dialect.card_reached_lt edge forward) next rfl

theorem evaluate_refused {formula : Formula} {error : EvaluationError}
    (refused : inspection.dialect.checkSelfReference inspection.plan formula = .error error) :
    inspection.evaluate formula = .error error := by
  rw [evaluate, refused]
  rfl

theorem evaluate_passing {formula : Formula}
    (passes : inspection.dialect.checkSelfReference inspection.plan formula = .ok ()) :
    inspection.evaluate formula = inspection.evaluateTree formula.root := by
  rw [evaluate, passes]
  rfl

theorem evaluateAt_measured (measured : inspection.plan.formula? path = none) :
    inspection.evaluateAt path = .ok (inspection.measurements.value? path) := by
  simp only [evaluateAt, measured]

theorem evaluateAt_calculated (known : inspection.plan.formula? path = some text) :
    inspection.evaluateAt path =
      ((inspection.dialect.read text path).mapError .malformed).bind inspection.evaluate := by
  simp only [evaluateAt, known]
  rfl

theorem evaluateAt_eq_of_hasFormula
    (has : inspection.dialect.HasFormula inspection.plan path nested) :
    inspection.evaluateAt path = inspection.evaluate nested := by
  obtain ⟨text, known, read⟩ := has
  rw [evaluateAt_calculated known, read]
  rfl

theorem evaluateAt_malformed (known : inspection.plan.formula? path = some text)
    {fault : SyntaxError} (malformed : inspection.dialect.read text path = .error fault) :
    inspection.evaluateAt path = .error (.malformed fault) := by
  rw [evaluateAt_calculated known, malformed]
  rfl

end Inspection

end InspectionFormula
