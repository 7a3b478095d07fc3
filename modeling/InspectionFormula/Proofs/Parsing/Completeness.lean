import InspectionFormula.Proofs.Catalog.Standard
import InspectionFormula.Proofs.Parsing.Soundness

/-!
# Reading what the grammar derives

Every derivation drives the reader from the phase in which its first token is
due to the phase after its last one, whatever stands around it.  The reader
therefore accepts exactly the texts whose tokens the grammar derives, and it
builds the tree of the derivation.
-/

namespace InspectionFormula

namespace ParseState

variable {rules : ReferenceRules} {after : ParseState} {token : Token} {tokens : List Token}

open Grammar

section Paths

variable {outer : List Context} {level : Level} {start : ReferenceStart} {phase : Phase}

theorem readEach_insideQuotes {quote : Nat}
    (within : ∀ token ∈ tokens, token.isSymbol '"' = false) :
    readEach rules ⟨outer, level, .insideQuotes start quote⟩ tokens =
      .ok ⟨outer, level, .insideQuotes start quote⟩ := by
  induction tokens with
  | nil => rfl
  | cons token tokens ih =>
      have inside : token.isSymbol '"' = false := within token List.mem_cons_self
      rw [readEach_cons_of_ok (by simp [read, inside]; rfl)]
      exact ih fun later member => within later (List.mem_cons_of_mem _ member)

/-- A step is read in every phase that takes its first token for the start of a step. -/
theorem readEach_of_isStep (isStep : IsStep tokens)
    (named : ∀ token ∈ tokens, token.isReserved = false → token.isName = true)
    (due : ∀ token, tokens.head? = some token → token.isSymbol '/' = false →
      token.isSymbol '}' = false → token.isSymbol '(' = false →
        read rules ⟨outer, level, phase⟩ token = readStep ⟨outer, level, phase⟩ start token) :
    readEach rules ⟨outer, level, phase⟩ tokens =
      .ok ⟨outer, level, .afterStep start (stopOf tokens)⟩ := by
  cases isStep with
  | @name token plain =>
      have isName : token.isName = true := named token (by simp) plain
      rw [readEach_singleton, due token rfl (Token.isSymbol_eq_false plain rfl)
        (Token.isSymbol_eq_false plain rfl) (Token.isSymbol_eq_false plain rfl), readStep,
        Token.isSymbol_eq_false plain rfl, isName]
      rfl
  | @quoted opening closing inner opens within closes =>
      have opened : read rules ⟨outer, level, phase⟩ opening =
          .ok ⟨outer, level, .insideQuotes start opening.start⟩ := by
        rw [due opening rfl (Token.isSymbol_eq_beq opens _) (Token.isSymbol_eq_beq opens _)
          (Token.isSymbol_eq_beq opens _), readStep, opens]
        rfl
      rw [List.cons_append, readEach_cons_of_ok opened,
        readEach_append_of_ok (readEach_insideQuotes within), readEach_singleton,
        ← List.cons_append, stopOf_append _ (by simp)]
      simp [read, closes]

theorem readEach_of_areSteps (areSteps : AreSteps tokens)
    (named : ∀ token ∈ tokens, token.isReserved = false → token.isName = true)
    (due : ∀ token, tokens.head? = some token → token.isSymbol '/' = false →
      token.isSymbol '}' = false → token.isSymbol '(' = false →
        read rules ⟨outer, level, phase⟩ token = readStep ⟨outer, level, phase⟩ start token) :
    readEach rules ⟨outer, level, phase⟩ tokens =
      .ok ⟨outer, level, .afterStep start (stopOf tokens)⟩ := by
  induction areSteps with
  | one isStep => exact readEach_of_isStep isStep named due
  | @more tokens last slash steps separates isStep ih =>
      have slashed : read rules ⟨outer, level, .afterStep start (stopOf tokens)⟩ slash =
          .ok ⟨outer, level, .afterSlash start⟩ := by
        simp [read, separates]
      have stepped : readEach rules ⟨outer, level, .afterSlash start⟩ last =
          .ok ⟨outer, level, .afterStep start (stopOf last)⟩ :=
        readEach_of_isStep isStep (fun token member => named token (by simp [member]))
          fun _ _ _ _ _ => rfl
      have earlier : readEach rules ⟨outer, level, phase⟩ tokens =
          .ok ⟨outer, level, .afterStep start (stopOf tokens)⟩ := by
        refine ih (fun token member => named token (by simp [member])) fun token first => ?_
        exact due token (by rw [List.head?_append, first]; rfl)
      rw [readEach_append_of_ok earlier,
        readEach_cons_of_ok slashed, stepped, stopOf_append _ (by simp),
        stopOf_cons slash isStep.ne_nil]

/-- After a path the reader waits for a key or a closing brace. -/
theorem readEach_of_isPath {opening : Span} (isPath : IsPath tokens)
    (named : ∀ token ∈ tokens, token.isReserved = false → token.isName = true) :
    ∃ phase, readEach rules ⟨outer, level, .referenceStart opening⟩ tokens =
        .ok ⟨outer, level, phase⟩ ∧
      (phase = .afterRoot ⟨opening, startOf tokens⟩ (stopOf tokens) ∨
        phase = .afterStep ⟨opening, startOf tokens⟩ (stopOf tokens)) := by
  cases isPath with
  | @root slash isSlash =>
      refine ⟨_, ?_, .inl rfl⟩
      simp [readEach_singleton, read, isSlash]
  | relative areSteps =>
      refine ⟨_, ?_, .inr rfl⟩
      refine readEach_of_areSteps areSteps named fun token first plain _ _ => ?_
      obtain ⟨rest, rfl⟩ : ∃ rest, tokens = token :: rest := List.head?_eq_some_iff.1 first
      simp [read, plain]
  | @absolute slash tokens isSlash areSteps =>
      refine ⟨_, ?_, .inr rfl⟩
      have slashed : read rules ⟨outer, level, .referenceStart opening⟩ slash =
          .ok ⟨outer, level, .afterRoot ⟨opening, slash.start⟩ slash.stop⟩ := by
        simp [read, isSlash]
      rw [readEach_cons_of_ok slashed, startOf_cons, stopOf_cons slash areSteps.ne_nil]
      refine readEach_of_areSteps areSteps (fun token member => named token (by simp [member])) ?_
      intro token _ _ notClosing notOpening
      simp [read, notClosing, notOpening]

/-- A key and the closing brace end a reference, whichever way its path ended. -/
theorem readEach_of_isKey {key : List Token} {number : Option UInt16} {pathStop : Nat}
    {closing : Token} (isKey : IsKey key number) (closes : closing.isSymbol '}' = true)
    (ending : phase = .afterRoot start pathStop ∨ phase = .afterStep start pathStop) :
    readEach rules ⟨outer, level, phase⟩ (key ++ [closing]) = (do
      supply outer level (← rules.reference start pathStop number closing)) := by
  cases isKey with
  | none =>
      rw [List.nil_append, readEach_singleton]
      rcases ending with rfl | rfl <;>
        simp [read, readAfterPath, closeReference, Token.isSymbol_eq_beq closes]
  | @some opening number closer value key opens isNumber isDecimal ends =>
      have opened : read rules ⟨outer, level, phase⟩ opening =
          .ok ⟨outer, level, .keyStart start pathStop⟩ := by
        rcases ending with rfl | rfl <;> simp [read, readAfterPath, Token.isSymbol_eq_beq opens]
      have numbered : read rules ⟨outer, level, .keyStart start pathStop⟩ number =
          .ok ⟨outer, level, .afterKey start pathStop key⟩ := by
        simp [read, isNumber, readKey?_eq_some_iff.2 isDecimal]
      have closed : read rules ⟨outer, level, .afterKey start pathStop key⟩ closer =
          .ok ⟨outer, level, .keyClosed start pathStop key⟩ := by
        simp [read, ends]
      rw [List.cons_append, readEach_cons_of_ok opened, List.cons_append,
        readEach_cons_of_ok numbered, List.cons_append, readEach_cons_of_ok closed,
        List.nil_append, readEach_singleton]
      simp [read, closeReference, closes]

end Paths

section Operators

variable {outer : List Context} {level : Level} {phase : Phase} {value term : Expression}

theorem read_first_of_operand (notMinus : token.isSymbol '-' = false)
    (notPlus : token.isSymbol '+' = false) (due : phase = .factor ∨ phase = .signed) :
    read rules ⟨outer, level, phase⟩ token = readOperand ⟨outer, level, phase⟩ token := by
  rcases due with rfl | rfl
  · simp [read, readFactor, notMinus, notPlus]
  · rfl

/-- A token that ends a term and a sum is looked at with the finished sum. -/
theorem read_after_sum (notProduct : token.isSymbol '*' = false ∧ token.isSymbol '/' = false)
    (notSum : token.isSymbol '+' = false ∧ token.isSymbol '-' = false)
    (joined : level.joinSum term = .ok value) :
    read rules ⟨outer, level, .term term⟩ token = closeExpression outer value token := by
  simp only [read, readAfterFactor, notProduct, notSum, joined]
  rfl

/-- The operator that waits has an operation. -/
theorem joinTo_of_known {left : Expression} {operation : Operation} {operator : Token}
    (known : operator.kind = .operation operation) (right : Expression) :
    PendingOperator.joinTo (some ⟨left, operator⟩) right =
      .ok (.call operation [left, right] (left.span.through right.span)) := by
  simp [PendingOperator.joinTo, PendingOperator.join, known]

theorem read_number {number : Binary64} (isNumber : token.kind = .number number)
    (plain : token.isReserved = false) (due : phase = .factor ∨ phase = .signed) :
    read rules ⟨outer, level, phase⟩ token = supply outer level (.number number token.span) := by
  rw [read_first_of_operand (Token.isSymbol_eq_false plain rfl)
    (Token.isSymbol_eq_false plain rfl) due, readOperand, Token.isSymbol_eq_false plain rfl,
    Token.isSymbol_eq_false plain rfl, isNumber]
  rfl

theorem read_constant {constant : Constant} (isConstant : token.kind = .constant constant)
    (plain : token.isReserved = false) (due : phase = .factor ∨ phase = .signed) :
    read rules ⟨outer, level, phase⟩ token =
      supply outer level (.constant constant token.span) := by
  rw [read_first_of_operand (Token.isSymbol_eq_false plain rfl)
    (Token.isSymbol_eq_false plain rfl) due, readOperand, Token.isSymbol_eq_false plain rfl,
    Token.isSymbol_eq_false plain rfl, isConstant]
  rfl

theorem readEach_group {opening closing : Token} {inner : Level}
    (opens : opening.isSymbol '(' = true) (closes : closing.isSymbol ')' = true)
    (inside : readEach rules ⟨⟨level, .group opening.span⟩ :: outer, .opened, .factor⟩ tokens =
      .ok ⟨⟨level, .group opening.span⟩ :: outer, inner, .term term⟩)
    (joined : inner.joinSum term = .ok value) (due : phase = .factor ∨ phase = .signed) :
    readEach rules ⟨outer, level, phase⟩ (opening :: tokens ++ [closing]) =
      supply outer level (value.withSpan (opening.span.through closing.span)) := by
  have opened : read rules ⟨outer, level, phase⟩ opening =
      .ok ⟨⟨level, .group opening.span⟩ :: outer, .opened, .factor⟩ := by
    rw [read_first_of_operand (Token.isSymbol_eq_beq opens _) (Token.isSymbol_eq_beq opens _)
      due, readOperand, opens]
    rfl
  rw [List.cons_append, readEach_cons_of_ok opened, readEach_append_of_ok inside,
    readEach_singleton, read_after_sum (by simp [Token.isSymbol_eq_beq closes])
      (by simp [Token.isSymbol_eq_beq closes]) joined]
  simp [closeExpression, closes]

section Calls

variable {operation : Operation} {name opening closing : Token}

theorem readEach_callStart (isOperation : name.kind = .operation operation)
    (plain : name.isReserved = false) (opens : opening.isSymbol '(' = true)
    (due : phase = .factor ∨ phase = .signed) :
    readEach rules ⟨outer, level, phase⟩ (name :: opening :: tokens) =
      readEach rules ⟨outer, level, .callStart operation name⟩ tokens := by
  have named : read rules ⟨outer, level, phase⟩ name =
      .ok ⟨outer, level, .callName operation name⟩ := by
    rw [read_first_of_operand (Token.isSymbol_eq_false plain rfl)
      (Token.isSymbol_eq_false plain rfl) due, readOperand, Token.isSymbol_eq_false plain rfl,
      Token.isSymbol_eq_false plain rfl, isOperation]
    simp [plain]
  have opened : read rules ⟨outer, level, .callName operation name⟩ opening =
      .ok ⟨outer, level, .callStart operation name⟩ := by
    simp [read, opens]
  rw [readEach_cons_of_ok named, readEach_cons_of_ok opened]

/-- No expression starts with a closing bracket. -/
theorem read_closing_ne_ok (regular : token.IsRegular) (closes : token.isSymbol ')' = true) :
    read rules ⟨outer, level, .factor⟩ token ≠ .ok after := by
  have reserved : token.isReserved = true := Token.isReserved_of_isSymbol closes
  simp only [read, readFactor, readOperand, Token.isSymbol_eq_beq closes]
  unfold Token.IsRegular at regular
  split at regular <;> simp_all

/-- Arguments are read after the opening bracket as an expression at its start would be. -/
theorem readEach_arguments (regular : ∀ token ∈ tokens, token.IsRegular)
    (nonempty : tokens ≠ [])
    (inside : readEach rules ⟨⟨level, .call operation name []⟩ :: outer, .opened, .factor⟩ tokens =
      .ok after) :
    readEach rules ⟨outer, level, .callStart operation name⟩ tokens = .ok after := by
  cases tokens with
  | nil => exact absurd rfl nonempty
  | cons token tokens =>
      have notClosing : token.isSymbol ')' = false := by
        cases closes : token.isSymbol ')' with
        | false => rfl
        | true =>
            rw [readEach_cons] at inside
            cases first :
                read rules ⟨⟨level, .call operation name []⟩ :: outer, .opened, .factor⟩ token with
            | error => simp [first, Except.bind] at inside
            | ok next => exact absurd first (read_closing_ne_ok (regular token (by simp)) closes)
      rw [readEach_cons] at inside ⊢
      have same : read rules ⟨outer, level, .callStart operation name⟩ token =
          read rules ⟨⟨level, .call operation name []⟩ :: outer, .opened, .factor⟩ token := by
        simp [read, notClosing]
      rw [same, inside]

/-- The arguments of a call and its closing bracket. -/
theorem readEach_listed {earlier : List Expression} {inner : Level}
    (regular : ∀ token ∈ tokens, token.IsRegular) (closes : closing.isSymbol ')' = true)
    (inside : readEach rules ⟨⟨level, .call operation name []⟩ :: outer, .opened, .factor⟩ tokens =
      .ok ⟨⟨level, .call operation name earlier⟩ :: outer, inner, .term term⟩)
    (joined : inner.joinSum term = .ok value) :
    readEach rules ⟨outer, level, .callStart operation name⟩ (tokens ++ [closing]) =
      supplyCall outer level operation name (earlier ++ [value]) closing := by
  have nonempty : tokens ≠ [] := by
    rintro rfl
    simp at inside
  rw [readEach_append_of_ok (readEach_arguments regular nonempty inside), readEach_singleton,
    read_after_sum (by simp [Token.isSymbol_eq_beq closes])
      (by simp [Token.isSymbol_eq_beq closes]) joined]
  simp only [closeExpression, Token.isSymbol_eq_beq closes]
  rfl

end Calls

theorem readEach_reference {opening closing : Token} {path key : List Token} {target : Path}
    {number : Option UInt16} (opens : opening.isSymbol '{' = true) (isPath : IsPath path)
    (isKey : IsKey key number) (closes : closing.isSymbol '}' = true)
    (resolves : rules.resolve (textThrough rules.source path) = some target)
    (named : ∀ token ∈ path, token.isReserved = false → token.isName = true)
    (due : phase = .factor ∨ phase = .signed) :
    readEach rules ⟨outer, level, phase⟩ (opening :: path ++ key ++ [closing]) =
      supply outer level (.reference ⟨target, number⟩ (opening.span.through closing.span)) := by
  have opened : read rules ⟨outer, level, phase⟩ opening =
      .ok ⟨outer, level, .referenceStart opening.span⟩ := by
    rw [read_first_of_operand (Token.isSymbol_eq_beq opens _) (Token.isSymbol_eq_beq opens _)
      due]
    simp [readOperand, Token.isSymbol_eq_beq opens]
  obtain ⟨ending, readPath, ends⟩ :
      ∃ ending, readEach rules ⟨outer, level, .referenceStart opening.span⟩ path =
        .ok ⟨outer, level, ending⟩ ∧ _ := readEach_of_isPath isPath named
  have found : rules.reference ⟨opening.span, startOf path⟩ (stopOf path) number closing =
      .ok (.reference ⟨target, number⟩ (opening.span.through closing.span)) := by
    have raw : rules.raw ⟨opening.span, startOf path⟩ (stopOf path) =
      textThrough rules.source path := rfl
    simp only [ReferenceRules.reference, raw, resolves]
  rw [List.append_assoc, List.cons_append, readEach_cons_of_ok opened,
    readEach_append_of_ok readPath, readEach_of_isKey isKey closes ends, found]
  rfl

end Operators

mutual

theorem readEach_of_isExpression {tokens : List Token} {value : Expression} :
    IsExpression rules tokens value → (∀ token ∈ tokens, token.IsRegular) →
      ∀ outer, ∃ level term, readEach rules ⟨outer, .opened, .factor⟩ tokens =
        .ok ⟨outer, level, .term term⟩ ∧ level.joinSum term = .ok value
  | .term isTerm, regular, outer =>
      ⟨_, _, readEach_of_isTerm isTerm regular outer none, rfl⟩
  | @IsExpression.sum _ tokens last left right operator operation isSum isTerm isOperator known,
      regular, outer => by
    obtain ⟨level, term, before, joined⟩ := readEach_of_isExpression isSum
      (fun token member => regular token (by simp [member])) outer
    have waiting : read rules ⟨outer, level, .term term⟩ operator =
        .ok ⟨outer, ⟨some ⟨left, operator⟩, none, none⟩, .factor⟩ := by
      rcases isOperator with isSign | isSign <;>
        simp [read, readAfterFactor, Token.isSymbol_eq_beq isSign, joined] <;> rfl
    refine ⟨⟨some ⟨left, operator⟩, none, none⟩, right, ?_, joinTo_of_known known right⟩
    rw [readEach_append_of_ok before, readEach_cons_of_ok waiting]
    exact readEach_of_isTerm isTerm (fun token member => regular token (by simp [member]))
      outer _

theorem readEach_of_isTerm {tokens : List Token} {value : Expression} :
    IsTerm rules tokens value → (∀ token ∈ tokens, token.IsRegular) → ∀ outer sum,
      readEach rules ⟨outer, ⟨sum, none, none⟩, .factor⟩ tokens =
        .ok ⟨outer, ⟨sum, none, none⟩, .term value⟩
  | .factor isFactor, regular, outer, sum => by
      rw [readEach_of_isFactor isFactor regular]
      rfl
  | @IsTerm.product _ tokens last left right operator operation isProduct isFactor isOperator
      known, regular, outer, sum => by
    have before := readEach_of_isTerm isProduct
      (fun token member => regular token (by simp [member])) outer sum
    have waiting : read rules ⟨outer, ⟨sum, none, none⟩, .term left⟩ operator =
        .ok ⟨outer, ⟨sum, some ⟨left, operator⟩, none⟩, .factor⟩ := by
      rcases isOperator with isSign | isSign <;> simp [read, readAfterFactor, isSign]
    rw [readEach_append_of_ok before, readEach_cons_of_ok waiting,
      readEach_of_isFactor isFactor fun token member => regular token (by simp [member])]
    simp only [supply, Level.joinProduct, Level.applySign, joinTo_of_known known]
    rfl

theorem readEach_of_isFactor {tokens : List Token} {value : Expression} :
    IsFactor rules tokens value → (∀ token ∈ tokens, token.IsRegular) → ∀ outer sum product,
      readEach rules ⟨outer, ⟨sum, product, none⟩, .factor⟩ tokens =
        supply outer ⟨sum, product, none⟩ value
  | .operand isOperand, regular, outer, sum, product =>
      readEach_of_isOperand isOperand regular _ _ _ (.inl rfl)
  | @IsFactor.plus _ sign tokens value isSign isOperand, regular, outer, sum, product => by
      have signed : read rules ⟨outer, ⟨sum, product, none⟩, .factor⟩ sign =
          .ok ⟨outer, ⟨sum, product, none⟩, .signed⟩ := by
        simp [read, readFactor, Token.isSymbol_eq_beq isSign]
      rw [readEach_cons_of_ok signed]
      exact readEach_of_isOperand isOperand (fun token member => regular token (by simp [member]))
        _ _ _ (.inr rfl)
  | @IsFactor.minus _ sign tokens value isSign isOperand, regular, outer, sum, product => by
      have signed : read rules ⟨outer, ⟨sum, product, none⟩, .factor⟩ sign =
          .ok ⟨outer, ⟨sum, product, some sign.span⟩, .signed⟩ := by
        simp [read, readFactor, isSign]
      rw [readEach_cons_of_ok signed, readEach_of_isOperand isOperand
        (fun token member => regular token (by simp [member])) _ _ _ (.inr rfl)]
      rfl

theorem readEach_of_isOperand {tokens : List Token} {value : Expression} :
    IsOperand rules tokens value → (∀ token ∈ tokens, token.IsRegular) →
      ∀ outer level phase, phase = .factor ∨ phase = .signed →
        readEach rules ⟨outer, level, phase⟩ tokens = supply outer level value
  | @IsOperand.number _ token _ isNumber, regular, outer, level, phase, due => by
      have plain : token.isReserved = false := by
        simpa [Token.IsRegular, isNumber] using regular token (by simp)
      rw [readEach_singleton, read_number isNumber plain due]
  | @IsOperand.constant _ token _ isConstant, regular, outer, level, phase, due => by
      have plain : token.isReserved = false := by
        simpa [Token.IsRegular, isConstant] using regular token (by simp)
      rw [readEach_singleton, read_constant isConstant plain due]
  | .group opens isExpression closes, regular, outer, level, phase, due => by
      obtain ⟨inner, term, inside, joined⟩ := readEach_of_isExpression isExpression
        (fun token member => regular token (by simp [member])) _
      exact readEach_group opens closes inside joined due
  | .call isOperation plain opens areArguments closes accepted, regular, outer, level, phase,
      due => by
    rw [List.cons_append, List.cons_append, readEach_callStart isOperation plain opens due,
      readEach_of_areArguments areArguments
        (fun token member => regular token (by simp [member])) outer level _ _ _ closes,
      supplyCall, if_pos accepted]
  | .reference opens isPath isKey closes resolves, regular, outer, level, phase, due =>
      readEach_reference opens isPath isKey closes resolves
        (fun token member => (Token.isName_iff (regular token (by simp [member]))).2) due

theorem readEach_of_areArguments {tokens : List Token} {arguments : List Expression} :
    AreArguments rules tokens arguments → (∀ token ∈ tokens, token.IsRegular) →
      ∀ outer level operation name closing, Token.isSymbol closing ')' = true →
        readEach rules ⟨outer, level, .callStart operation name⟩ (tokens ++ [closing]) =
          supplyCall outer level operation name arguments closing
  | .none, _, outer, level, operation, name, closing, closes => by
      rw [List.nil_append, readEach_singleton]
      simp [read, closes]
  | .some areListed, regular, outer, level, operation, name, closing, closes => by
      obtain ⟨earlier, inner, term, last, rfl, inside, joined⟩ :=
        readEach_of_areListed areListed regular outer level operation name
      exact readEach_listed regular closes inside joined

theorem readEach_of_areListed {tokens : List Token} {arguments : List Expression} :
    AreListed rules tokens arguments → (∀ token ∈ tokens, token.IsRegular) →
      ∀ outer around operation name, ∃ earlier level term last, arguments = earlier ++ [last] ∧
        readEach rules ⟨⟨around, .call operation name []⟩ :: outer, .opened, .factor⟩ tokens =
          .ok ⟨⟨around, .call operation name earlier⟩ :: outer, level, .term term⟩ ∧
        level.joinSum term = .ok last
  | .one isExpression, regular, outer, around, operation, name => by
      obtain ⟨level, term, inside, joined⟩ := readEach_of_isExpression isExpression regular
        (⟨around, .call operation name []⟩ :: outer)
      exact ⟨[], level, term, _, rfl, inside, joined⟩
  | @AreListed.more _ tokens last listed value separator areListed separates isExpression,
      regular, outer, around, operation, name => by
    obtain ⟨earlier, level, term, final, rfl, before, joined⟩ := readEach_of_areListed areListed
      (fun token member => regular token (by simp [member])) outer around operation name
    obtain ⟨nextLevel, nextTerm, inside, nextJoined⟩ := readEach_of_isExpression isExpression
      (fun token member => regular token (by simp [member]))
      (⟨around, .call operation name (earlier ++ [final])⟩ :: outer)
    have separated : read rules ⟨⟨around, .call operation name earlier⟩ :: outer, level, .term term⟩
        separator =
          .ok ⟨⟨around, .call operation name (earlier ++ [final])⟩ :: outer, .opened, .factor⟩ := by
      rcases separates with isComma | isComma <;>
      · rw [read_after_sum (by simp [Token.isSymbol_eq_beq isComma])
          (by simp [Token.isSymbol_eq_beq isComma]) joined]
        simp [closeExpression, Token.isSymbol_eq_beq isComma]
    refine ⟨earlier ++ [final], nextLevel, nextTerm, value, rfl, ?_, nextJoined⟩
    rw [readEach_append_of_ok before, readEach_cons_of_ok separated, inside]

end

end ParseState

/-- What the grammar derives is read. -/
theorem Expression.ofTokens?_of_isExpression {rules : ReferenceRules} {tokens : List Token}
    {value : Expression} (derived : Grammar.IsExpression rules tokens value)
    (regular : ∀ token ∈ tokens, token.IsRegular) (stop : Nat) :
    ofTokens? rules tokens stop = .ok value := by
  obtain ⟨level, term, read, joined⟩ :=
    ParseState.readEach_of_isExpression derived regular []
  rw [ofTokens?_eq, read]
  simp only [Except.bind, ParseState.finish, joined]
  rfl

namespace Expression

variable {catalog : Catalog} {resolve : String → Option Path} {formula : String}
  {value : Expression}

theorem isExpression_of_parse (read : parse catalog resolve formula = .ok value) :
    Grammar.IsExpression ⟨formula.toList, resolve⟩ (Token.scan catalog formula) value :=
  isExpression_of_ofTokens? read

theorem parse_of_isExpression (spares : catalog.SparesReserved)
    (derived : Grammar.IsExpression ⟨formula.toList, resolve⟩ (Token.scan catalog formula) value) :
    parse catalog resolve formula = .ok value :=
  ofTokens?_of_isExpression derived (fun _ member => Token.isRegular_of_mem_scan spares member) _

/-- A text is read as an expression if and only if the grammar derives that expression from its
tokens. -/
theorem parse_eq_ok_iff_isExpression (catalog : Catalog) (spares : catalog.SparesReserved)
    (resolve : String → Option Path) (formula : String) (value : Expression) :
    parse catalog resolve formula = .ok value ↔
      Grammar.IsExpression ⟨formula.toList, resolve⟩ (Token.scan catalog formula) value :=
  ⟨isExpression_of_parse, parse_of_isExpression spares⟩

theorem isExpression_of_nested_call :
    Catalog.standard.SparesReserved ∧ ∃ formula value,
      formula = "-max(\x7ba/\"b/c\"(17)\x7d; 2 - PI, 3) * +(1 / 4)" ∧
      parse .standard (Path.resolve? .root) formula = .ok value ∧
      Grammar.IsExpression ⟨formula.toList, Path.resolve? .root⟩
        (Token.scan .standard formula) value := by
  refine ⟨Catalog.standard_sparesReserved, ?_⟩
  have accepted : (parse .standard (Path.resolve? .root)
      "-max(\x7ba/\"b/c\"(17)\x7d; 2 - PI, 3) * +(1 / 4)").isOk = true := by
    decide +kernel
  cases read : parse .standard (Path.resolve? .root)
      "-max(\x7ba/\"b/c\"(17)\x7d; 2 - PI, 3) * +(1 / 4)" with
  | error => rw [read] at accepted; cases accepted
  | ok value =>
      exact ⟨_, value, rfl, read,
        (parse_eq_ok_iff_isExpression .standard Catalog.standard_sparesReserved
          (Path.resolve? .root) _ value).1 read⟩

end Expression

end InspectionFormula
