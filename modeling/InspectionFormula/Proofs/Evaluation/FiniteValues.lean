import InspectionFormula.Proofs.Binary64.Overflow
import InspectionFormula.Proofs.Evaluation.Nesting
import InspectionFormula.Proofs.Expression.Readable

/-!
# Finite values

Only the results of calls are checked for being finite.  Numbers and constants
that are read are finite anyway, so a value that is not finite comes from the
host, through references and negations alone.
-/

namespace InspectionFormula

namespace Binary64

/-- Whole numbers of 64 bits are far from infinity. -/
theorem isFinite_ofInt (word : Int64) : (ofInt word.toInt).isFinite = true := by
  have least := word.le_toInt
  have most := word.toInt_lt
  have small : word.toInt.natAbs < 2 ^ 64 := by omega
  exact decide_eq_true (magnitudeOfRatio_whole_lt small (by decide))

end Binary64

/-- An outcome that is an error, no value or a finite number. -/
def Outcome.IsFinite (outcome : Outcome) : Prop :=
  ∀ value, outcome = .ok (some value) → value.isFinite = true

/-- Measured values and floating-point attributes are finite.  The other numbers are whole and have
64 bits. -/
structure Measurements.AreFinite (measurements : Measurements) : Prop where
  measured : ∀ path value, measurements.value? path = some value → value.isFinite = true
  float : ∀ path key time value,
    measurements.attribute? path key time = some (.float value) → value.isFinite = true
  integer : ∀ path key time value,
    measurements.attribute? path key time = some (.integer value) →
      ∃ word : Int64, value = word.toInt

theorem Measurements.AreFinite.isFinite_number? {measurements : Measurements}
    (areFinite : measurements.AreFinite) {path : Path} {key : UInt16} {time : Option Timestamp}
    {stored : Attribute} {value : Binary64}
    (answer : measurements.attribute? path key time = some stored)
    (isNumber : stored.number? = some value) : value.isFinite = true := by
  cases stored with
  | integer whole =>
      obtain ⟨word, rfl⟩ := areFinite.integer path key time whole answer
      cases isNumber
      exact Binary64.isFinite_ofInt word
  | float number =>
      cases isNumber
      exact areFinite.float path key time value answer
  | text | date => cases isNumber

/-- All constants of the catalog are finite. -/
def Catalog.HasFiniteConstants (catalog : Catalog) : Prop :=
  ∀ constant ∈ catalog.constants.values, constant.value.isFinite = true

theorem Catalog.hasFiniteConstants_standard : standard.HasFiniteConstants := by
  unfold HasFiniteConstants
  decide +kernel

namespace Expression

variable {catalog : Catalog} {surroundings : Surroundings}

/-- What the tree negates, or is, is no infinite number or constant. -/
def HasFiniteNumber : Expression → Prop
  | number value _ => value.isFinite = true
  | constant found _ => found.value.isFinite = true
  | negate operand _ => operand.HasFiniteNumber
  | literal .. | reference .. | call .. => True

theorem isInherited_hasFiniteNumber (finiteConstants : catalog.HasFiniteConstants)
    (resolve : String → Option Path) : IsInherited catalog resolve HasFiniteNumber where
  number _ read := (Binary64.isFinite_of_readLiteral? read).1
  constant _ known := finiteConstants _ known
  reference _ _ _ := trivial
  withSpan _ inner := by
    rename_i value _
    cases value <;> exact inner
  negate _ inner := inner
  operator _ _ _ _ := trivial
  call _ _ _ _ := trivial

/-- The result of a call is checked, whatever its arguments and the host answer. -/
theorem isFinite_evaluate_call (operation : Operation) (arguments : List Expression) (span : Span) :
    ((call operation arguments span).evaluate surroundings).IsFinite := by
  intro value evaluated
  rw [evaluate_call] at evaluated
  cases ran : (operation.compute (arguments.map shape)).run (surroundings.answers arguments) with
  | error error =>
      rw [ran] at evaluated
      cases evaluated
  | ok result =>
      rw [ran] at evaluated
      exact (Option.filter_eq_some_iff.1 (Except.ok.inj evaluated)).2

end Expression

namespace Inspection

variable {inspection : Inspection} {tree : Expression} {value : Binary64} {formula : Formula}

/-- The tree passes a value of the host on: it is a reference to a measured value, to an attribute
or to a calculated place whose formula passes the value on, or the negation of such a tree. -/
inductive PassesOn (inspection : Inspection) : Expression → Binary64 → Prop where
  | measured {path : Path} {span : Span} {value : Binary64}
      (isMeasured : inspection.plan.formula? path = none)
      (answer : inspection.measurements.value? path = some value) :
      PassesOn inspection (.reference ⟨path, none⟩ span) value
  | keyed {path : Path} {key : UInt16} {span : Span} {stored : Attribute} {value : Binary64}
      (answer : inspection.measurements.attribute? path key inspection.time = some stored)
      (isNumber : stored.number? = some value) :
      PassesOn inspection (.reference ⟨path, some key⟩ span) value
  | calculated {path : Path} {span : Span} {nested : Formula} {value : Binary64}
      (has : inspection.dialect.HasFormula inspection.plan path nested)
      (inner : PassesOn inspection nested.root value) :
      PassesOn inspection (.reference ⟨path, none⟩ span) value
  | negate {operand : Expression} {span : Span} {value : Binary64}
      (inner : PassesOn inspection operand value) :
      PassesOn inspection (.negate operand span) (-value)

theorem PassesOn.isFinite (passesOn : inspection.PassesOn tree value)
    (areFinite : inspection.measurements.AreFinite) : value.isFinite = true := by
  induction passesOn with
  | measured isMeasured answer => exact areFinite.measured _ _ answer
  | keyed answer isNumber => exact areFinite.isFinite_number? answer isNumber
  | calculated has inner ih => exact ih
  | negate inner ih => exact ih

theorem hasFiniteNumber_of_read {dialect : Dialect} {text : String} {owner : Path}
    (finiteConstants : dialect.catalog.HasFiniteConstants)
    (read : dialect.read text owner = .ok formula) : formula.root.HasFiniteNumber := by
  obtain ⟨root, parsed, rfl⟩ := Dialect.read_eq_ok_iff.1 read
  exact (Expression.isInherited_hasFiniteNumber finiteConstants _).of_parse parsed

theorem eq_ok_of_valueOrNone {outcome : Outcome} (has : valueOrNone outcome = some value) :
    outcome = .ok (some value) := by
  cases outcome with
  | ok result => rw [show result = some value from has]
  | error error => cases has

/-- A reference comes to what is not finite only if the formula or the host does. -/
theorem passesOn_of_resolveWithin {depth : Nat} {reference : Reference} {span : Span}
    (ofNested : ∀ less path nested, depth = less + 1 →
      inspection.dialect.HasFormula inspection.plan path nested →
      nested.root.evaluate (inspection.surroundingsWithin less) = .ok (some value) →
      inspection.PassesOn nested.root value)
    (resolved : inspection.resolveWithin depth reference = .ok (some value)) :
    inspection.PassesOn (.reference reference span) value := by
  obtain ⟨path, key⟩ := reference
  cases key with
  | some key =>
      rw [resolveWithin_attribute] at resolved
      obtain ⟨stored, answer, isNumber⟩ := Option.bind_eq_some_iff.1 (Except.ok.inj resolved)
      exact .keyed answer isNumber
  | none =>
      cases known : inspection.plan.formula? path with
      | none =>
          rw [resolveWithin_measured depth known] at resolved
          exact .measured known (Except.ok.inj resolved)
      | some text =>
          cases depth with
          | zero =>
              rw [resolveWithin] at resolved
              simp only [known] at resolved
              cases resolved
          | succ less =>
              rw [resolveWithin_calculated less known] at resolved
              cases opened : inspection.readNested path text with
              | error error =>
                  rw [opened] at resolved
                  cases resolved
              | ok nested =>
                  rw [opened] at resolved
                  have has : inspection.dialect.HasFormula inspection.plan path nested :=
                    ⟨text, known, (readNested_eq_ok_iff.1 opened).1⟩
                  exact .calculated has (ofNested less path nested rfl has resolved)

/-- The induction is on how deep formulas may nest and, within a formula, on its tree. -/
theorem passesOn_of_evaluate_within
    (finiteConstants : inspection.dialect.catalog.HasFiniteConstants) (depth : Nat)
    (hasFiniteNumber : tree.HasFiniteNumber)
    (evaluated : tree.evaluate (inspection.surroundingsWithin depth) = .ok (some value))
    (infinite : value.isFinite = false) : inspection.PassesOn tree value := by
  induction depth using Nat.strong_induction_on generalizing tree value with
  | h depth shallower =>
  induction tree using Expression.children_induction generalizing value with
  | step tree ih =>
      cases tree with
      | number | constant =>
          cases evaluated
          exact absurd hasFiniteNumber (by simp [Expression.HasFiniteNumber, infinite])
      | literal => cases evaluated
      | reference target span =>
          refine passesOn_of_resolveWithin ?_ (eq_ok_of_valueOrNone (Except.ok.inj evaluated))
          rintro less path nested rfl ⟨text, -, read⟩ nestedEvaluated
          exact shallower less (Nat.lt_succ_self less)
            (hasFiniteNumber_of_read finiteConstants read) nestedEvaluated infinite
      | negate operand span =>
          rw [Expression.evaluate] at evaluated
          cases inner : operand.evaluate (inspection.surroundingsWithin depth) with
          | error error =>
              rw [inner] at evaluated
              cases evaluated
          | ok result =>
              rw [inner] at evaluated
              obtain ⟨number, rfl, rfl⟩ := Option.map_eq_some_iff.1 (Except.ok.inj evaluated)
              exact .negate (ih operand (List.mem_singleton_self _) hasFiniteNumber inner infinite)
      | call operation arguments span =>
          have finite := Expression.isFinite_evaluate_call operation arguments span value evaluated
          exact absurd finite (by simp [infinite])

theorem passesOn_of_evaluate (finiteConstants : inspection.dialect.catalog.HasFiniteConstants)
    (hasFiniteNumber : formula.root.HasFiniteNumber)
    (evaluated : inspection.evaluate formula = .ok (some value))
    (infinite : value.isFinite = false) : inspection.PassesOn formula.root value := by
  cases checked : inspection.dialect.checkSelfReference inspection.plan formula with
  | ok =>
      rw [evaluate_passing checked] at evaluated
      exact passesOn_of_evaluate_within finiteConstants inspection.plan.formulaPaths.length
        hasFiniteNumber evaluated infinite
  | error error =>
      rw [evaluate_refused checked] at evaluated
      cases evaluated

theorem passesOn_of_resolve (finiteConstants : inspection.dialect.catalog.HasFiniteConstants)
    {reference : Reference} (span : Span)
    (resolved : inspection.resolve reference = .ok (some value))
    (infinite : value.isFinite = false) :
    inspection.PassesOn (.reference reference span) value := by
  refine passesOn_of_resolveWithin ?_ resolved
  rintro less path nested - ⟨text, -, read⟩ evaluated
  exact passesOn_of_evaluate_within finiteConstants less
    (hasFiniteNumber_of_read finiteConstants read) evaluated infinite

/-- If what is not finite is only passed on, then finite data leads to finite values. -/
theorem isFinite_of_passesOn {outcome : Outcome} {tree : Expression}
    (areFinite : inspection.measurements.AreFinite)
    (passedOn : ∀ value, outcome = .ok (some value) → value.isFinite = false →
      inspection.PassesOn tree value) : outcome.IsFinite := by
  intro value isValue
  cases isFinite : value.isFinite with
  | true => rfl
  | false => exact isFinite.symm.trans ((passedOn value isValue isFinite).isFinite areFinite)

/-- With finite data, formulas and references come to errors, no values or finite numbers, however
deep calculated places are nested.  Whatever the data, a call comes to no other number, so a result
that is not finite is a value of the host that the formula passes on. -/
theorem finite_unless_passed_on (inspection : Inspection)
    (builtIn : inspection.dialect.catalog = .standard) :
    (inspection.measurements.AreFinite →
      (∀ (reader : Dialect) text owner formula, reader.catalog = .standard →
        reader.read text owner = .ok formula → (inspection.evaluate formula).IsFinite) ∧
      (∀ reference, (inspection.resolve reference).IsFinite) ∧
      ∀ path, (inspection.evaluateAt path).IsFinite) ∧
    (∀ surroundings operation arguments span,
      ((Expression.call operation arguments span).evaluate surroundings).IsFinite) ∧
    ∀ (reader : Dialect) text owner formula value, reader.catalog = .standard →
      reader.read text owner = .ok formula → inspection.evaluate formula = .ok (some value) →
      value.isFinite = false → inspection.PassesOn formula.root value := by
  have standardFinite {dialect : Dialect} (isStandard : dialect.catalog = .standard) :
      dialect.catalog.HasFiniteConstants :=
    isStandard ▸ Catalog.hasFiniteConstants_standard
  have ofRead {reader : Dialect} {text : String} {owner : Path} {formula : Formula}
      {value : Binary64} (standardReader : reader.catalog = .standard)
      (read : reader.read text owner = .ok formula) :
      inspection.evaluate formula = .ok (some value) → value.isFinite = false →
        inspection.PassesOn formula.root value :=
    passesOn_of_evaluate (standardFinite builtIn)
      (hasFiniteNumber_of_read (standardFinite standardReader) read)
  refine ⟨fun areFinite => ⟨?_, ?_, ?_⟩, ?_, ?_⟩
  · intro reader text owner formula standardReader read
    exact isFinite_of_passesOn areFinite fun _ => ofRead standardReader read
  · intro reference
    exact isFinite_of_passesOn areFinite fun _ =>
      passesOn_of_resolve (standardFinite builtIn) ⟨0, 0⟩
  · intro path
    cases known : inspection.plan.formula? path with
    | none =>
        rw [evaluateAt_measured known]
        intro value measured
        exact areFinite.measured path value (Except.ok.inj measured)
    | some text =>
        rw [evaluateAt_calculated known]
        cases read : inspection.dialect.read text path with
        | error fault => nofun
        | ok formula => exact isFinite_of_passesOn areFinite fun _ => ofRead builtIn read
  · intro surroundings operation arguments span
    exact Expression.isFinite_evaluate_call operation arguments span
  · intro reader text owner formula value standardReader read
    exact ofRead standardReader read

theorem finite_unless_passed_on_through_negations :
    ∃ (finite infinite : Inspection) (formula : Formula),
      finite.dialect.catalog = .standard ∧ finite.measurements.AreFinite ∧
      finite.dialect.read formula.text formula.owner = .ok formula ∧
      (finite.evaluate formula).IsFinite ∧
      finite.evaluate formula = .ok (some (.ofRatio false (3 * Binary64.unitsPerOne) 2)) ∧
      infinite.dialect.catalog = .standard ∧
      infinite.evaluate formula = .ok (some (Binary64.infinity false)) ∧
      infinite.PassesOn formula.root (Binary64.infinity false) := by
  let above : Path := ⟨[⟨.characteristic, "A"⟩]⟩
  let below : Path := ⟨[⟨.characteristic, "B"⟩]⟩
  let owner : Path := ⟨[⟨.characteristic, "C"⟩]⟩
  let finiteStore := ((Store.empty.setFormula above "-\x7bB\x7d/\x7bB(7)\x7d").setValue below
    (Binary64.ofNat 6)).setAttribute below 7 (.fixed (.integer 4))
  let infiniteStore := (Store.empty.setFormula above "-\x7bB\x7d").setValue below
    (Binary64.infinity false)
  let finite : Inspection := ⟨.standard, finiteStore.plan, finiteStore.measurements, none⟩
  let infinite : Inspection := ⟨.standard, infiniteStore.plan, infiniteStore.measurements, none⟩
  have areFinite : finite.measurements.AreFinite := by
    have attributes {path : Path} {key : UInt16} {time : Option Timestamp} {stored : Attribute}
        (answer : finite.measurements.attribute? path key time = some stored) :
        stored = .integer 4 := by
      obtain ⟨known, isKnown, answers⟩ := Option.bind_eq_some_iff.1 answer
      have member := Table.mem_values_iff.2 ⟨_, Table.get?_eq_some_iff.1 isKnown⟩
      rw [List.mem_singleton.1 member] at answers
      exact (Option.some.inj answers).symm
    constructor
    · intro path value known
      have member := Table.mem_values_iff.2 ⟨_, Table.get?_eq_some_iff.1 known⟩
      rw [List.mem_singleton.1 member]
      decide +kernel
    · intro path key time value answer
      cases attributes answer
    · intro path key time value answer
      cases attributes answer
      exact ⟨4, rfl⟩
  have accepted : (finite.dialect.read "-\x7bA\x7d" owner).toOption.any (fun formula =>
      finite.evaluate formula = .ok (some (.ofRatio false (3 * Binary64.unitsPerOne) 2)) ∧
        infinite.evaluate formula = .ok (some (Binary64.infinity false))) = true := by
    decide +kernel
  obtain ⟨formula, read, evaluated⟩ := exists_eq_ok_of_any accepted
  obtain ⟨hasValue, isInfinite⟩ := of_decide_eq_true evaluated
  obtain ⟨-, sameText, sameOwner⟩ := Dialect.isOver_of_read read
  refine ⟨finite, infinite, formula, rfl, areFinite, ?_, ?_, hasValue, rfl, isInfinite, ?_⟩
  · rw [sameText, sameOwner]
    exact read
  · exact ((finite_unless_passed_on finite rfl).1 areFinite).1 _ _ _ formula rfl read
  · exact (finite_unless_passed_on infinite rfl).2.2 _ _ _ formula _ rfl read isInfinite (by decide)

end Inspection

end InspectionFormula
