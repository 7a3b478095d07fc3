import InspectionFormula.Dialect
import InspectionFormula.Proofs.Expression.Derivation
import InspectionFormula.Proofs.Expression.Readable
import InspectionFormula.Proofs.Parsing.Completeness

/-!
# Writing and reading expressions

An expression that can be written is read back from its text, and what was read
can be written.
-/

namespace InspectionFormula

open Grammar

namespace Expression

variable {anchor : Path} {tree : Expression}

theorem spellEach_eq_map (expressions : List Expression) :
    spellEach expressions = expressions.map spell := by
  induction expressions with
  | nil => rfl
  | cons first rest ih => rw [spellEach, ih, List.map_cons]

theorem spell_number {value : Binary64} {span : Span} (finite : value.isFinite = true) :
    (number value span).spell =
      if value.negative then '-' :: value.absoluteText else value.absoluteText := by
  have notNaN : value.isNaN = false := by
    simp only [Binary64.isFinite, Binary64.isNaN, decide_eq_true_eq, decide_eq_false_iff_not]
      at finite ⊢
    omega
  rw [spell, Binary64.text, if_neg (by simp [notNaN])]
  split
  · rw [String.toList_ofList]
  · rw [String.toList_ofList]

theorem spell_operator {operation : Operation} {left right : Expression} {span : Span}
    (between : isInfix operation.name = true) :
    (call operation [left, right] span).spell =
      '(' :: left.spell ++ ' ' :: operation.name.toList ++ ' ' :: right.spell ++ [')'] := by
  rw [spell, between]
  rfl

theorem spell_call {operation : Operation} {arguments : List Expression} {span : Span}
    (before : isInfix operation.name = false) :
    (call operation arguments span).spell =
      operation.name.toList ++ '(' :: Spells.listText (arguments.map spell) ++ [')'] := by
  rw [spell, before, spellEach_eq_map]
  rfl

/-- The text of an expression derives a factor, and an operand unless it starts with a sign. -/
theorem IsPrintable.spells (isPrintable : IsPrintable anchor tree) :
    Spells IsFactor (Path.resolve? anchor) tree.spell tree.withNegations ∧
      (tree.startsWithSign = false →
        Spells IsOperand (Path.resolve? anchor) tree.spell tree.withNegations) := by
  have ofOperand {tree : Expression}
      (spells : Spells IsOperand (Path.resolve? anchor) tree.spell tree.withNegations) :
      Spells IsFactor (Path.resolve? anchor) tree.spell tree.withNegations ∧
        (tree.startsWithSign = false →
          Spells IsOperand (Path.resolve? anchor) tree.spell tree.withNegations) :=
    ⟨spells.factor, fun _ => spells⟩
  induction isPrintable with
  | @number value span finite =>
      have spells : Spells IsOperand (Path.resolve? anchor) value.absoluteText
          (.number value.abs span) :=
        .number (Binary64.isWord_absoluteText finite) (Binary64.readLiteral?_absoluteText finite)
      cases negative : value.negative with
      | true =>
          refine ⟨?_, fun plain => absurd negative (by simpa [startsWithSign] using plain)⟩
          rw [spell_number finite, withNegations, if_pos negative, if_pos negative]
          exact spells.minus
      | false =>
          apply ofOperand
          have same : value.abs = value := Binary64.eq_of_magnitude negative.symm rfl
          rw [spell_number finite, withNegations, if_neg (by simp [negative]),
            if_neg (by simp [negative])]
          rwa [same] at spells
  | constant known => exact ofOperand (.constant known)
  | reference renderable follow =>
      exact ofOperand (.reference renderable (Path.resolve?_text renderable follow))
  | @negate operand span _ ih =>
      refine ⟨?_, fun plain => absurd plain (by simp [startsWithSign])⟩
      rw [spell, withNegations]
      split
      · exact ih.1.term.expression.group.minus
      · next plain => exact (ih.2 (by simpa using plain)).minus
  | operator known between _ _ leftSpells rightSpells =>
      apply ofOperand
      rw [spell_operator between, withNegations_call]
      exact .operator known between leftSpells.1 rightSpells.1
  | call known before accepted _ spellEach =>
      apply ofOperand
      rw [spell_call before, withNegations_call]
      exact .call known before accepted fun argument member =>
        (spellEach argument member).1.term.expression

/-- An expression that can be written is read back, with negations for negative numbers. -/
theorem IsPrintable.parse_text (isPrintable : IsPrintable anchor tree) :
    ∃ value, parse .standard (Path.resolve? anchor) tree.text = .ok value ∧
      value.eraseSpans = tree.withNegations.eraseSpans := by
  obtain ⟨value, derived, same⟩ := isPrintable.spells.1.term.expression [] []
  refine ⟨value, parse_of_isExpression Catalog.standard_sparesReserved ?_, same⟩
  rw [Token.scan_eq_scanFrom, text, String.toList_ofList]
  simpa using derived

theorem isReadable_of_parse {formula : String} (renderable : anchor.isRenderable = true)
    (read : parse .standard (Path.resolve? anchor) formula = .ok tree) :
    IsReadable anchor tree :=
  (isInherited_isReadable renderable).of_parse read

end Expression

namespace Dialect

theorem read_eq_ok {text : String} {owner : Path} {root : Expression}
    (read : Expression.parse .standard (Path.resolve? owner.parent) text = .ok root) :
    standard.read text owner = .ok ⟨root, text, owner⟩ :=
  read_eq_ok_iff.2 ⟨root, read, rfl⟩

theorem parse_of_read {text : String} {owner : Path} {formula : Formula}
    (read : standard.read text owner = .ok formula) :
    Expression.parse .standard (Path.resolve? owner.parent) text = .ok formula.root := by
  obtain ⟨root, parsed, rfl⟩ := read_eq_ok_iff.1 read
  exact parsed

theorem isRenderable_parent {owner : Path} (renderable : owner.isRenderable = true) :
    owner.parent.isRenderable = true := by
  rw [Path.isRenderable, List.all_eq_true] at renderable ⊢
  exact fun segment member => renderable segment (List.dropLast_subset _ member)

/-- Expressions are read back from their texts, with negations for negative numbers, and whatever
was read is read back as it is. -/
theorem read_text_eraseSpans (owner : Path) :
    (∀ tree : Expression, tree.IsPrintable owner.parent →
      ∃ formula, standard.read tree.text owner = .ok formula ∧
        formula.root.eraseSpans = tree.withNegations.eraseSpans) ∧
    (owner.isRenderable = true → ∀ text formula, standard.read text owner = .ok formula →
      ∃ again, standard.read formula.root.text owner = .ok again ∧
        again.root.eraseSpans = formula.root.eraseSpans) := by
  have readText (tree : Expression) (isPrintable : tree.IsPrintable owner.parent) :
      ∃ formula, standard.read tree.text owner = .ok formula ∧
        formula.root.eraseSpans = tree.withNegations.eraseSpans := by
    obtain ⟨root, read, same⟩ := isPrintable.parse_text
    exact ⟨_, read_eq_ok read, same⟩
  refine ⟨readText, fun renderable text formula read => ?_⟩
  obtain ⟨isPrintable, positive⟩ :=
    Expression.isReadable_of_parse (isRenderable_parent renderable) (parse_of_read read)
  obtain ⟨again, readAgain, same⟩ := readText formula.root isPrintable
  exact ⟨again, readAgain, by rw [same, positive]⟩

theorem read_text_of_sum :
    ∃ (owner : Path) (tree : Expression) (formula : Formula),
      tree.IsPrintable owner.parent ∧ standard.read tree.text owner = .ok formula ∧
        formula.root.eraseSpans = tree.withNegations.eraseSpans ∧ owner.isRenderable = true ∧
          ∃ again, standard.read formula.root.text owner = .ok again ∧
            again.root.eraseSpans = formula.root.eraseSpans := by
  have plus : standard.catalog.operations.values.any (·.name == "+") = true := by decide +kernel
  obtain ⟨operation, known, named⟩ := List.any_eq_true.1 plus
  have between : Expression.isInfix operation.name = true := by rw [eq_of_beq named]; rfl
  have isPrintable : Expression.IsPrintable ⟨[⟨.part, "a/b"⟩]⟩
      (.call operation [.negate (.number (.zero true) ⟨0, 0⟩) ⟨0, 0⟩,
        .reference ⟨⟨[⟨.part, "a/b"⟩, ⟨.characteristic, ".."⟩]⟩, some 17⟩ ⟨0, 0⟩] ⟨0, 0⟩) := by
    refine .operator known between (.negate (.number (by decide))) (.reference (by decide) ?_)
    exact .shared (.apart (by simp) (by simp))
  obtain ⟨readBack, readAgain⟩ :=
    read_text_eraseSpans ⟨[⟨.part, "a/b"⟩, ⟨.characteristic, "c"⟩]⟩
  obtain ⟨formula, read, same⟩ := readBack _ isPrintable
  exact ⟨⟨[⟨.part, "a/b"⟩, ⟨.characteristic, "c"⟩]⟩, _, formula, isPrintable, read, same,
    by decide, readAgain (by decide) _ _ read⟩

end Dialect

end InspectionFormula
