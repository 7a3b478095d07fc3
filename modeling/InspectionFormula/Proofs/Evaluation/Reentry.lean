import InspectionFormula.Proofs.Evaluation.Unbounded

/-!
# No formula is opened while it is evaluated

The formulas that an evaluation opens one inside another belong to different
places, none of them the place where the evaluation starts.  They are therefore
no more than there are formulas.
-/

namespace InspectionFormula

namespace Inspection

variable {inspection : Inspection} {tree : Expression} {formula : Formula} {chain : List Path}
  {path : Path}

/-- The evaluation of an expression comes to the formula of the first place, the evaluation of that
formula to the formula of the second, and so on. -/
inductive Opens (inspection : Inspection) : Expression → List Path → Prop where
  | none {tree : Expression} : Opens inspection tree []
  | nested {tree : Expression} {path : Path} {text : String} {nested : Formula}
      {chain : List Path} (reads : tree.Reads inspection.surroundings ⟨path, none⟩)
      (known : inspection.plan.formula? path = some text)
      (opened : inspection.readNested path text = .ok nested)
      (deeper : Opens inspection nested.root chain) : Opens inspection tree (path :: chain)

/-- The chains of formulas that the evaluation of a formula opens. -/
def FormulaOpens (inspection : Inspection) (formula : Formula) (chain : List Path) : Prop :=
  inspection.dialect.checkSelfReference inspection.plan formula = .ok () ∧
    inspection.Opens formula.root chain

/-- The chains of formulas inside the formula of a place, when the place is evaluated. -/
def PlaceOpens (inspection : Inspection) (path : Path) (chain : List Path) : Prop :=
  ∃ text formula, inspection.plan.formula? path = some text ∧
    inspection.dialect.read text path = .ok formula ∧ inspection.FormulaOpens formula chain

/-- The chains of formulas that are opened when a reference is resolved. -/
def ReferenceOpens (inspection : Inspection) (reference : Reference) (chain : List Path) : Prop :=
  inspection.Opens (.reference reference ⟨0, 0⟩) chain

theorem exists_reads_of_opens (honest : inspection.dialect.catalog.IsHonest)
    (opens : inspection.Opens tree chain) (member : path ∈ chain) :
    ∃ first, tree.Reads inspection.surroundings ⟨first, none⟩ ∧
      inspection.dialect.Reaches inspection.plan first path := by
  induction opens with
  | none => cases member
  | @nested tree head text nested chain reads known opened deeper ih =>
      refine ⟨head, reads, ?_⟩
      rcases List.mem_cons.1 member with rfl | later
      · exact .refl
      · obtain ⟨next, readsNext, reaches⟩ := ih later
        exact reaches.head (valueEdge_of_reads honest known opened rfl readsNext).1

theorem nodup_of_opens (honest : inspection.dialect.catalog.IsHonest)
    (opens : inspection.Opens tree chain) : chain.Nodup := by
  induction opens with
  | none => exact .nil
  | @nested tree head text nested chain reads known opened deeper ih =>
      refine List.nodup_cons.2 ⟨?_, ih⟩
      intro again
      obtain ⟨next, readsNext, reaches⟩ := exists_reads_of_opens honest deeper again
      exact (valueEdge_of_reads honest known opened rfl readsNext).2 reaches

theorem mem_calculated_of_opens (opens : inspection.Opens tree chain) (member : path ∈ chain) :
    path ∈ inspection.plan.calculated := by
  induction opens with
  | none => cases member
  | nested reads known opened deeper ih =>
      rcases List.mem_cons.1 member with rfl | later
      · exact Plan.mem_calculated_iff.2 ⟨_, known⟩
      · exact ih later

theorem owner_not_mem_of_formulaOpens (honest : inspection.dialect.catalog.IsHonest)
    {text : String} {owner : Path} (read : inspection.dialect.read text owner = .ok formula)
    (opens : inspection.FormulaOpens formula chain) : owner ∉ chain := by
  obtain ⟨passes, opens⟩ := opens
  intro member
  obtain ⟨first, reads, reaches⟩ := exists_reads_of_opens honest opens member
  have dependsOnValue := Dialect.dependsOnValue_of_reads honest read rfl reads
  have forward := Dialect.not_reaches_owner_of_checkSelfReference passes dependsOnValue
  rw [(Dialect.isOver_of_read read).2.2] at forward
  exact forward reaches

theorem length_le_of_nodup (nodup : chain.Nodup)
    (calculated : ∀ path ∈ chain, path ∈ inspection.plan.calculated) :
    chain.length ≤ inspection.plan.calculated.card := by
  rw [← List.toFinset_card_of_nodup nodup]
  apply Finset.card_le_card
  intro path member
  exact calculated path (List.mem_toFinset.1 member)

/-- Evaluation without a bound on the depth has exactly the outcome that is computed, and it never
opens a formula that is being evaluated. -/
theorem evaluation_ends_without_reentry (inspection : Inspection)
    (standard : inspection.dialect.catalog = .standard) :
    (∀ text owner formula, inspection.dialect.read text owner = .ok formula →
      (∀ outcome,
        inspection.EvaluatesFormula formula outcome ↔ inspection.evaluate formula = outcome) ∧
      ∀ chain, inspection.FormulaOpens formula chain →
        (owner :: chain).Nodup ∧ chain.length ≤ inspection.plan.calculated.card) ∧
    (∀ path,
      (∀ outcome,
        inspection.EvaluatesPlace path outcome ↔ inspection.evaluateAt path = outcome) ∧
      ∀ chain, inspection.PlaceOpens path chain →
        (path :: chain).Nodup ∧ (path :: chain).length ≤ inspection.plan.calculated.card) ∧
    ∀ reference,
      (∀ outcome, inspection.Resolves reference outcome ↔ inspection.resolve reference = outcome) ∧
      ∀ chain, inspection.ReferenceOpens reference chain →
        chain.Nodup ∧ chain.length ≤ inspection.plan.calculated.card := by
  have honest : inspection.dialect.catalog.IsHonest := by
    intro operation member
    rw [standard] at member
    exact Catalog.isHonest_of_mem_standard member
  refine ⟨?_, ?_, ?_⟩
  · intro text owner formula read
    refine ⟨fun outcome => evaluatesFormula_iff honest, ?_⟩
    intro chain opens
    have nodup := nodup_of_opens honest opens.2
    exact ⟨List.nodup_cons.2 ⟨owner_not_mem_of_formulaOpens honest read opens, nodup⟩,
      length_le_of_nodup nodup fun path => mem_calculated_of_opens opens.2⟩
  · intro path
    refine ⟨fun outcome => evaluatesPlace_iff honest, ?_⟩
    rintro chain ⟨text, formula, known, read, opens⟩
    have nodup : (path :: chain).Nodup :=
      List.nodup_cons.2 ⟨owner_not_mem_of_formulaOpens honest read opens,
        nodup_of_opens honest opens.2⟩
    refine ⟨nodup, length_le_of_nodup nodup ?_⟩
    intro place member
    rcases List.mem_cons.1 member with rfl | isNested
    · exact Plan.mem_calculated_iff.2 ⟨text, known⟩
    · exact mem_calculated_of_opens opens.2 isNested
  · intro reference
    refine ⟨fun outcome => resolves_iff honest, ?_⟩
    intro chain opens
    have nodup := nodup_of_opens honest opens
    exact ⟨nodup, length_le_of_nodup nodup fun path => mem_calculated_of_opens opens⟩

theorem reads_of_shape {surroundings : Surroundings} {target : Reference}
    (refers : (tree.shape == some target) = true) : tree.Reads surroundings target := by
  obtain ⟨span, rfl⟩ := Expression.eq_reference_of_shape (eq_of_beq refers)
  exact .reference

theorem opens_of_reference_to_reference :
    ∃ (inspection : Inspection) (formula : Formula) (owner first second : Path),
      inspection.dialect.catalog = .standard ∧
      inspection.dialect.read "\x7bB\x7d" owner = .ok formula ∧
      inspection.FormulaOpens formula [first, second] ∧
      [owner, first, second].Nodup ∧ [first, second].length ≤ inspection.plan.calculated.card := by
  let owner : Path := ⟨[⟨.characteristic, "A"⟩]⟩
  let first : Path := ⟨[⟨.characteristic, "B"⟩]⟩
  let second : Path := ⟨[⟨.characteristic, "C"⟩]⟩
  let store := (Store.empty.setFormula first "\x7bC\x7d").setFormula second "3"
  let inspection : Inspection := ⟨.standard, store.plan, store.measurements, none⟩
  have outer : ((inspection.dialect.read "\x7bB\x7d" owner).toOption.any fun formula =>
      formula.root.shape == some ⟨first, none⟩ &&
        (inspection.dialect.checkSelfReference inspection.plan formula).isOk) = true := by
    decide +kernel
  have middle : ((inspection.readNested first "\x7bC\x7d").toOption.any fun formula =>
      formula.root.shape == some ⟨second, none⟩) = true := by
    decide +kernel
  have inner : ((inspection.readNested second "3").toOption.any fun _ => true) = true := by
    decide +kernel
  obtain ⟨formula, read, refers⟩ := exists_eq_ok_of_any outer
  obtain ⟨nested, opened, refersOn⟩ := exists_eq_ok_of_any middle
  obtain ⟨last, openedLast, -⟩ := exists_eq_ok_of_any inner
  rw [Bool.and_eq_true] at refers
  have passes : inspection.dialect.checkSelfReference inspection.plan formula = .ok () := by
    cases checked : inspection.dialect.checkSelfReference inspection.plan formula with
    | error => rw [checked] at refers; cases refers.2
    | ok => rfl
  have opens : inspection.FormulaOpens formula [first, second] :=
    ⟨passes, .nested (reads_of_shape refers.1) rfl opened
      (.nested (reads_of_shape refersOn) rfl openedLast .none)⟩
  exact ⟨inspection, formula, owner, first, second, rfl, read, opens,
    ((evaluation_ends_without_reentry inspection rfl).1 _ owner formula read).2 _ opens⟩

end Inspection

end InspectionFormula
