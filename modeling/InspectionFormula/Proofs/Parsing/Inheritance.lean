import InspectionFormula.Expression.Render
import InspectionFormula.Proofs.Parsing.Soundness
import InspectionFormula.Proofs.Token.Classification

/-!
# What all read expressions have

A property of trees that every rule of the grammar passes on holds of every tree
that is read.
-/

namespace InspectionFormula

variable {catalog : Catalog} {resolve : String → Option Path} {holds : Expression → Prop}
  {source : List Char}

namespace Expression

theorem isInfix_iff {name : String} :
    isInfix name = true ↔ ∃ character, name.toList = [character] ∧
      (character = '+' ∨ character = '-' ∨ character = '*' ∨ character = '/') := by
  have spelled (character : Char) :
      name = String.ofList [character] ↔ name.toList = [character] := by
    rw [← String.toList_inj, String.toList_ofList]
  simp only [isInfix, Bool.or_eq_true, beq_iff_eq]
  constructor
  · rintro (((plus | minus) | times) | divided)
    · exact ⟨'+', (spelled '+').1 plus, .inl rfl⟩
    · exact ⟨'-', (spelled '-').1 minus, .inr (.inl rfl)⟩
    · exact ⟨'*', (spelled '*').1 times, .inr (.inr (.inl rfl))⟩
    · exact ⟨'/', (spelled '/').1 divided, .inr (.inr (.inr rfl))⟩
  · rintro ⟨character, named, rfl | rfl | rfl | rfl⟩
    · exact .inl (.inl (.inl ((spelled '+').2 named)))
    · exact .inl (.inl (.inr ((spelled '-').2 named)))
    · exact .inl (.inr ((spelled '*').2 named))
    · exact .inr ((spelled '/').2 named)

/-- An operator's token has the name of its operation. -/
theorem toList_name_of_operator {operator : Token} {operation : Operation} {character : Char}
    (kind : TokenKind.classify catalog operator.text = .operation operation)
    (symbol : operator.isSymbol character = true)
    (isOperator : character = '+' ∨ character = '-' ∨ character = '*' ∨ character = '/') :
    operation.name.toList = [character] := by
  obtain ⟨-, named⟩ := Catalog.operation?_eq_some_iff.1 (Token.operation?_of_classify kind)
  have reserved : Text.isReserved character = true := by
    rcases isOperator with rfl | rfl | rfl | rfl <;> rfl
  have text : operator.text = [character] := eq_of_beq symbol
  rw [text] at named
  exact Text.eq_of_lowercase_reserved reserved named

/-- An operator's token names an infix operation of the catalog. -/
theorem isInfix_of_operator {operator : Token} {operation : Operation} {character : Char}
    (kind : TokenKind.classify catalog operator.text = .operation operation)
    (symbol : operator.isSymbol character = true)
    (isOperator : character = '+' ∨ character = '-' ∨ character = '*' ∨ character = '/') :
    operation ∈ catalog.operations.values ∧ isInfix operation.name = true :=
  ⟨(Catalog.operation?_eq_some_iff.1 (Token.operation?_of_classify kind)).1,
    isInfix_iff.2 ⟨character, toList_name_of_operator kind symbol isOperator, isOperator⟩⟩

/-- A name that is not reserved calls no infix operation. -/
theorem isInfix_eq_false_of_call {name : Token} {operation : Operation}
    (kind : TokenKind.classify catalog name.text = .operation operation)
    (plain : name.isReserved = false) :
    operation ∈ catalog.operations.values ∧ isInfix operation.name = false := by
  obtain ⟨known, named⟩ := Catalog.operation?_eq_some_iff.1 (Token.operation?_of_classify kind)
  refine ⟨known, ?_⟩
  cases between : isInfix operation.name with
  | false => rfl
  | true =>
      obtain ⟨character, spelled, isOperator⟩ := isInfix_iff.1 between
      have reserved : Text.isReserved character = true := by
        rcases isOperator with rfl | rfl | rfl | rfl <;> rfl
      have same : Text.lowercase (String.ofList name.text) =
          Text.lowercase (String.ofList [character]) := by
        rw [← named, ← spelled, String.ofList_toList]
      have text := Text.eq_of_lowercase_reserved reserved same
      rw [String.toList_ofList] at text
      rw [Token.isReserved, text] at plain
      exact absurd reserved (by simpa using plain)

end Expression

/-- The kinds of tokens are those of the catalog. -/
def AreClassified (catalog : Catalog) (tokens : List Token) : Prop :=
  ∀ token ∈ tokens, token.kind = TokenKind.classify catalog token.text

namespace AreClassified

variable {front back tokens : List Token} {token : Token}

theorem left (classified : AreClassified catalog (front ++ back)) : AreClassified catalog front :=
  fun token member => classified token (List.mem_append_left _ member)

theorem right (classified : AreClassified catalog (front ++ back)) : AreClassified catalog back :=
  fun token member => classified token (List.mem_append_right _ member)

theorem head (classified : AreClassified catalog (token :: tokens)) :
    token.kind = TokenKind.classify catalog token.text :=
  classified token List.mem_cons_self

theorem tail (classified : AreClassified catalog (token :: tokens)) :
    AreClassified catalog tokens :=
  fun other member => classified other (List.mem_cons_of_mem _ member)

end AreClassified

/-- A property that every way of reading an expression passes on. -/
structure IsInherited (catalog : Catalog) (resolve : String → Option Path)
    (holds : Expression → Prop) : Prop where
  number {text : List Char} {value : Binary64} (span : Span)
    (read : Binary64.readLiteral? text = some value) : holds (.number value span)
  constant {constant : Constant} (span : Span) (known : constant ∈ catalog.constants.values) :
    holds (.constant constant span)
  reference {text : String} {target : Path} (key : Option UInt16) (span : Span)
    (resolves : resolve text = some target) : holds (.reference ⟨target, key⟩ span)
  withSpan {value : Expression} (span : Span) (inner : holds value) : holds (value.withSpan span)
  negate {operand : Expression} (span : Span) (inner : holds operand) : holds (.negate operand span)
  operator {operation : Operation} {left right : Expression} (span : Span)
    (known : operation ∈ catalog.operations.values ∧ Expression.isInfix operation.name = true)
    (leftHolds : holds left) (rightHolds : holds right) : holds (.call operation [left, right] span)
  call {operation : Operation} {arguments : List Expression} (span : Span)
    (known : operation ∈ catalog.operations.values ∧ Expression.isInfix operation.name = false)
    (accepted : operation.arity.accepts arguments.length = true)
    (each : ∀ argument ∈ arguments, holds argument) : holds (.call operation arguments span)

namespace IsInherited

open Grammar Expression

mutual

theorem of_isExpression (isInherited : IsInherited catalog resolve holds)
    {tokens : List Token} {value : Expression} :
    IsExpression ⟨source, resolve⟩ tokens value → AreClassified catalog tokens → holds value
  | .term isTerm, classified => isInherited.of_isTerm isTerm classified
  | @IsExpression.sum _ _ _ _ _ operator _ isSum isTerm isOperator known, classified =>
      have kind := classified.right.head.symm.trans known
      have known := isOperator.elim (fun plus => isInfix_of_operator kind plus (by simp))
        fun minus => isInfix_of_operator kind minus (by simp)
      isInherited.operator _ known (isInherited.of_isExpression isSum classified.left)
        (isInherited.of_isTerm isTerm classified.right.tail)

theorem of_isTerm (isInherited : IsInherited catalog resolve holds)
    {tokens : List Token} {value : Expression} :
    IsTerm ⟨source, resolve⟩ tokens value → AreClassified catalog tokens → holds value
  | .factor isFactor, classified => isInherited.of_isFactor isFactor classified
  | @IsTerm.product _ _ _ _ _ operator _ isProduct isFactor isOperator known, classified =>
      have kind := classified.right.head.symm.trans known
      have known := isOperator.elim (fun times => isInfix_of_operator kind times (by simp))
        fun divides => isInfix_of_operator kind divides (by simp)
      isInherited.operator _ known (isInherited.of_isTerm isProduct classified.left)
        (isInherited.of_isFactor isFactor classified.right.tail)

theorem of_isFactor (isInherited : IsInherited catalog resolve holds)
    {tokens : List Token} {value : Expression} :
    IsFactor ⟨source, resolve⟩ tokens value → AreClassified catalog tokens → holds value
  | .operand isOperand, classified => isInherited.of_isOperand isOperand classified
  | .plus _ isOperand, classified => isInherited.of_isOperand isOperand classified.tail
  | .minus _ isOperand, classified =>
      isInherited.negate _ (isInherited.of_isOperand isOperand classified.tail)

theorem of_isOperand (isInherited : IsInherited catalog resolve holds)
    {tokens : List Token} {value : Expression} :
    IsOperand ⟨source, resolve⟩ tokens value → AreClassified catalog tokens → holds value
  | @IsOperand.number _ token _ isNumber, classified =>
      have kind := classified.head.symm.trans isNumber
      isInherited.number _ (Token.readLiteral?_of_classify kind)
  | @IsOperand.constant _ token _ isConstant, classified =>
      have kind := classified.head.symm.trans isConstant
      isInherited.constant _
        (Catalog.constant?_eq_some_iff.1 (Token.constant?_of_classify kind)).1
  | .group _ isExpression _, classified =>
      isInherited.withSpan _ (isInherited.of_isExpression isExpression classified.left.tail)
  | @IsOperand.call _ name _ _ operation _ _ isOperation plain _ areArguments _ accepted,
      classified =>
    have kind := classified.head.symm.trans isOperation
    isInherited.call _ (isInfix_eq_false_of_call kind plain) accepted
      (isInherited.of_areArguments areArguments classified.left.tail.tail)
  | .reference _ _ _ _ resolves, _ => isInherited.reference _ _ resolves

theorem of_areArguments (isInherited : IsInherited catalog resolve holds)
    {tokens : List Token} {values : List Expression} :
    AreArguments ⟨source, resolve⟩ tokens values → AreClassified catalog tokens →
      ∀ value ∈ values, holds value
  | .none, _ => fun _ member => nomatch member
  | .some areListed, classified => isInherited.of_areListed areListed classified

theorem of_areListed (isInherited : IsInherited catalog resolve holds)
    {tokens : List Token} {values : List Expression} :
    AreListed ⟨source, resolve⟩ tokens values → AreClassified catalog tokens →
      ∀ value ∈ values, holds value
  | .one isExpression, classified => by
      intro value member
      rw [List.mem_singleton.1 member]
      exact isInherited.of_isExpression isExpression classified
  | .more areListed _ isExpression, classified => by
      intro value member
      rcases List.mem_append.1 member with earlier | last
      · exact isInherited.of_areListed areListed classified.left value earlier
      · rw [List.mem_singleton.1 last]
        exact isInherited.of_isExpression isExpression classified.right.tail

end

theorem of_parse (isInherited : IsInherited catalog resolve holds) {formula : String}
    {value : Expression} (read : parse catalog resolve formula = .ok value) : holds value :=
  isInherited.of_isExpression (isExpression_of_ofTokens? read)
    fun _ member => Token.kind_of_mem_scan member

end IsInherited

end InspectionFormula
