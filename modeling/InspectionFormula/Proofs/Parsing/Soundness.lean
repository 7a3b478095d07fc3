import InspectionFormula.Proofs.Parsing.Progress

/-!
# Deriving what is read

Each token keeps what the reader's state tells of the tokens before it, so a
state at which a formula may end has a derivation behind it.
-/

namespace InspectionFormula

open Grammar

section Steps

variable {rules : ReferenceRules} {outer : List Context} {level : Level} {phase : Phase}
  {value : Expression} {token : Token} {state after : ParseState}
  {tokens outerTokens levelTokens operandTokens : List Token}

/-- What waits for an operand has an operation, if joining succeeds. -/
theorem joinTo_eq_ok {left right : Expression} {operator : Token}
    (joined : PendingOperator.joinTo (some ⟨left, operator⟩) right = .ok value) :
    ∃ operation, operator.kind = .operation operation ∧
      value = .call operation [left, right] (left.span.through right.span) := by
  simp only [PendingOperator.joinTo, PendingOperator.join] at joined
  split at joined
  · next operation known =>
    cases joined
    exact ⟨operation, known, rfl⟩
  · cases joined

theorem isTerm_of_joinTo {product : Option PendingOperator} {operand : Expression}
    {productTokens factorTokens : List Token}
    (productRead : ProductRead rules product productTokens)
    (isFactor : IsFactor rules factorTokens operand)
    (joined : PendingOperator.joinTo product operand = .ok value) :
    IsTerm rules (productTokens ++ factorTokens) value := by
  cases productRead with
  | none =>
      cases joined
      exact .factor isFactor
  | some isProduct isOperator =>
      obtain ⟨operation, known, rfl⟩ := joinTo_eq_ok joined
      rw [List.append_assoc]
      exact .product isProduct isFactor isOperator known

theorem isExpression_of_joinTo {sum : Option PendingOperator} {term : Expression}
    {sumTokens termTokens : List Token} (sumRead : SumRead rules sum sumTokens)
    (isTerm : IsTerm rules termTokens term)
    (joined : PendingOperator.joinTo sum term = .ok value) :
    IsExpression rules (sumTokens ++ termTokens) value := by
  cases sumRead with
  | none =>
      cases joined
      exact .term isTerm
  | some isSum isOperator =>
      obtain ⟨operation, known, rfl⟩ := joinTo_eq_ok joined
      rw [List.append_assoc]
      exact .sum isSum isTerm isOperator known

theorem isFactor_of_signRead {sign : Option Span} {signTokens : List Token}
    (signRead : SignRead sign signTokens) (isOperand : IsOperand rules operandTokens value)
    (sum product : Option PendingOperator) :
    IsFactor rules (signTokens ++ operandTokens) (Level.applySign ⟨sum, product, sign⟩ value) := by
  cases signRead with
  | none => exact .operand isOperand
  | plus isSign => exact .plus isSign isOperand
  | minus isSign => exact .minus isSign isOperand

/-- After an operand a term has been read. -/
theorem stateRead_of_supply (outerRead : OuterRead rules outer outerTokens)
    (levelRead : LevelRead rules level levelTokens)
    (isOperand : IsOperand rules operandTokens value)
    (same : tokens = outerTokens ++ levelTokens ++ operandTokens)
    (supplied : ParseState.supply outer level value = .ok after) :
    StateRead rules after tokens := by
  obtain ⟨sumRead, productRead, signRead, rfl⟩ := levelRead
  rename_i sum product sign sumTokens productTokens signTokens
  have isFactor := isFactor_of_signRead signRead isOperand sum product
  obtain ⟨term, joined, supplied⟩ := exists_eq_ok_of_bind supplied
  have isTerm := isTerm_of_joinTo productRead isFactor joined
  cases supplied
  exact .term outerRead sumRead isTerm (by simp [same])

theorem stateRead_of_readOperand (outerRead : OuterRead rules outer outerTokens)
    (levelRead : LevelRead rules level levelTokens)
    (same : tokens = outerTokens ++ levelTokens)
    (next : ParseState.readOperand ⟨outer, level, phase⟩ token = .ok after) :
    StateRead rules after (tokens ++ [token]) := by
  unfold ParseState.readOperand at next
  split at next
  · next opens =>
    cases next
    exact .factor (.cons outerRead levelRead (.group opens) rfl) .none .none (by simp [same])
  · split at next
    · next opens =>
      cases next
      exact .operand outerRead levelRead (.referenceStart opens) (by simp [same])
    · split at next
      · next value isNumber =>
        exact stateRead_of_supply outerRead levelRead (.number isNumber) (by simp [same]) next
      · next constant isConstant =>
        exact stateRead_of_supply outerRead levelRead (.constant isConstant) (by simp [same]) next
      · next operation isOperation =>
        split at next
        · cases next
        · next plain =>
          cases next
          exact .operand outerRead levelRead (.callName isOperation (by simpa using plain))
            (by simp [same])
      · cases next
        exact .operand outerRead levelRead .unknownName (by simp [same])
      all_goals cases next

theorem stateRead_of_readFactor {sum product : Option PendingOperator}
    {sumTokens productTokens : List Token} (outerRead : OuterRead rules outer outerTokens)
    (sumRead : SumRead rules sum sumTokens) (productRead : ProductRead rules product productTokens)
    (same : tokens = outerTokens ++ sumTokens ++ productTokens)
    (next : ParseState.readFactor ⟨outer, ⟨sum, product, none⟩, phase⟩ token = .ok after) :
    StateRead rules after (tokens ++ [token]) := by
  unfold ParseState.readFactor at next
  split at next
  · next isSign =>
    cases next
    exact .operand outerRead (.mk sumRead productRead (.minus isSign) rfl) .signed
      (by simp [same])
  · split at next
    · next isSign =>
      cases next
      exact .operand outerRead (.mk sumRead productRead (.plus isSign) rfl) .signed
        (by simp [same])
    · exact stateRead_of_readOperand outerRead (.mk sumRead productRead .none rfl)
        (by simp [same]) next

theorem stateRead_of_supplyCall {operation : Operation} {name opening closing : Token}
    {argumentTokens : List Token} {arguments : List Expression}
    (outerRead : OuterRead rules outer outerTokens)
    (levelRead : LevelRead rules level levelTokens)
    (isOperation : name.kind = .operation operation) (plain : name.isReserved = false)
    (opens : opening.isSymbol '(' = true) (closes : closing.isSymbol ')' = true)
    (areArguments : AreArguments rules argumentTokens arguments)
    (same : tokens = outerTokens ++ levelTokens ++ (name :: opening :: argumentTokens))
    (supplied : ParseState.supplyCall outer level operation name arguments closing = .ok after) :
    StateRead rules after (tokens ++ [closing]) := by
  unfold ParseState.supplyCall at supplied
  split at supplied
  · next accepted =>
    exact stateRead_of_supply outerRead levelRead
      (.call isOperation plain opens areArguments closes accepted) (by simp [same]) supplied
  · cases supplied

/-- An open bracket with one more argument before the next token. -/
theorem areListed_of_openerRead {operation : Operation} {name : Token}
    {arguments : List Expression} {openerTokens valueTokens : List Token}
    (openerRead : OpenerRead rules (.call operation name arguments) openerTokens)
    (isExpression : IsExpression rules valueTokens value) :
    ∃ opening listed, openerTokens ++ valueTokens = name :: opening :: listed ∧
      name.kind = .operation operation ∧ name.isReserved = false ∧
        opening.isSymbol '(' = true ∧ AreListed rules listed (arguments ++ [value]) := by
  cases openerRead with
  | @call _ opening _ isOperation plain opens =>
      exact ⟨opening, valueTokens, rfl, isOperation, plain, opens, .one isExpression⟩
  | @listed _ opening separator _ tokens _ isOperation plain opens areListed separates =>
      exact ⟨opening, tokens ++ separator :: valueTokens, by simp, isOperation, plain, opens,
        .more areListed separates isExpression⟩

theorem stateRead_of_closeExpression {valueTokens : List Token}
    (outerRead : OuterRead rules outer outerTokens)
    (isExpression : IsExpression rules valueTokens value)
    (same : tokens = outerTokens ++ valueTokens)
    (next : ParseState.closeExpression outer value token = .ok after) :
    StateRead rules after (tokens ++ [token]) := by
  cases outerRead with
  | nil => cases next
  | @cons outer level opener _ outerTokens levelTokens openerTokens outerRead levelRead openerRead
      split =>
    cases opener with
    | group opening =>
        cases openerRead with
        | group opens =>
            simp only [ParseState.closeExpression] at next
            split at next
            · next closes =>
              exact stateRead_of_supply outerRead levelRead (.group opens isExpression closes)
                (by simp [same, split]) next
            · cases next
    | call operation name arguments =>
        obtain ⟨opening, listed, joined, isOperation, plain, opens, areListed⟩ :=
          areListed_of_openerRead openerRead isExpression
        simp only [ParseState.closeExpression] at next
        split at next
        · next separates =>
          cases next
          refine .factor (.cons outerRead levelRead (.listed isOperation plain opens areListed
            (by simpa using separates)) rfl) .none .none ?_
          simp [same, split, ← joined]
        · split at next
          · next closes =>
            refine stateRead_of_supplyCall outerRead levelRead isOperation plain opens closes
              (.some areListed) ?_ next
            simp [same, split, ← joined]
          · cases next

theorem stateRead_of_readAfterFactor {sum : Option PendingOperator}
    {sumTokens termTokens : List Token} (outerRead : OuterRead rules outer outerTokens)
    (sumRead : SumRead rules sum sumTokens) (isTerm : IsTerm rules termTokens value)
    (same : tokens = outerTokens ++ sumTokens ++ termTokens)
    (next : ParseState.readAfterFactor ⟨outer, ⟨sum, none, none⟩, phase⟩ value token = .ok after) :
    StateRead rules after (tokens ++ [token]) := by
  unfold ParseState.readAfterFactor at next
  split at next
  · next isOperator =>
    cases next
    exact .factor outerRead sumRead (.some isTerm (by simpa using isOperator)) (by simp [same])
  · obtain ⟨total, joined, next⟩ := exists_eq_ok_of_bind next
    have isExpression := isExpression_of_joinTo sumRead isTerm joined
    split at next
    · next isOperator =>
      cases next
      exact .factor outerRead (.some isExpression (by simpa using isOperator)) .none
        (by simp [same])
    · exact stateRead_of_closeExpression outerRead isExpression (by simp [same]) next

theorem stateRead_of_readStep {opening : Token} {path : List Token} {start : ReferenceStart}
    (outerRead : OuterRead rules outer outerTokens) (levelRead : LevelRead rules level levelTokens)
    (opens : opening.isSymbol '{' = true) (isBeforeStep : IsBeforeStep path)
    (starts : start = ⟨opening.span, startOf (path ++ [token])⟩)
    (same : tokens = outerTokens ++ levelTokens ++ (opening :: path))
    (next : ParseState.readStep ⟨outer, level, phase⟩ start token = .ok after) :
    StateRead rules after (tokens ++ [token]) := by
  subst starts
  unfold ParseState.readStep at next
  split at next
  · next quotes =>
    cases next
    exact .operand outerRead levelRead (.insideQuotes opens isBeforeStep quotes
      fun _ member => absurd member List.not_mem_nil) (by simp [same])
  · split at next
    · next isName =>
      cases next
      have plain : token.isReserved = false := by
        simp only [Token.isName, Bool.and_eq_true, Bool.not_eq_true'] at isName
        exact isName.1
      have ends : token.stop = stopOf (path ++ [token]) := by
        rw [stopOf_append path (by simp), stopOf_singleton]
      rw [ends]
      exact .operand outerRead levelRead
        (.afterStep opens (isBeforeStep.isStepped_append (.name plain))) (by simp [same])
    · cases next

theorem stateRead_of_closeReference {opening : Token} {path key : List Token}
    {number : Option UInt16}
    (outerRead : OuterRead rules outer outerTokens) (levelRead : LevelRead rules level levelTokens)
    (opens : opening.isSymbol '{' = true) (isPath : IsPath path) (isKey : IsKey key number)
    (same : tokens = outerTokens ++ levelTokens ++ (opening :: path ++ key))
    (next : ParseState.closeReference rules ⟨outer, level, phase⟩
      ⟨opening.span, startOf path⟩ (stopOf path) number token = .ok after) :
    StateRead rules after (tokens ++ [token]) := by
  unfold ParseState.closeReference at next
  split at next
  · next closes =>
    obtain ⟨value, found, next⟩ := exists_eq_ok_of_bind next
    have raw : rules.raw ⟨opening.span, startOf path⟩ (stopOf path) =
      textThrough rules.source path := rfl
    simp only [ReferenceRules.reference, raw] at found
    split at found
    · next target resolves =>
      cases found
      exact stateRead_of_supply outerRead levelRead
        (.reference opens isPath isKey closes resolves) (by simp [same]) next
    · cases found
  · cases next

theorem stateRead_of_readAfterPath {opening : Token} {path : List Token}
    (outerRead : OuterRead rules outer outerTokens) (levelRead : LevelRead rules level levelTokens)
    (opens : opening.isSymbol '{' = true) (isPath : IsPath path)
    (same : tokens = outerTokens ++ levelTokens ++ (opening :: path))
    (next : ParseState.readAfterPath rules ⟨outer, level, phase⟩
      ⟨opening.span, startOf path⟩ (stopOf path) token = .ok after) :
    StateRead rules after (tokens ++ [token]) := by
  unfold ParseState.readAfterPath at next
  split at next
  · next isBracket =>
    cases next
    exact .operand outerRead levelRead (.keyStart opens isPath isBracket) (by simp [same])
  · exact stateRead_of_closeReference outerRead levelRead opens isPath .none (by simp [same]) next

theorem stateRead_of_read_insideQuotes {opening quote : Token} {path inner : List Token}
    (outerRead : OuterRead rules outer outerTokens) (levelRead : LevelRead rules level levelTokens)
    (opens : opening.isSymbol '{' = true) (isBeforeStep : IsBeforeStep path)
    (quotes : quote.isSymbol '"' = true) (within : ∀ token ∈ inner, token.isSymbol '"' = false)
    (same : tokens = outerTokens ++ levelTokens ++ (opening :: path ++ quote :: inner))
    (next : ParseState.read rules ⟨outer, level, .insideQuotes
      ⟨opening.span, startOf (path ++ [quote])⟩ quote.start⟩ token = .ok after) :
    StateRead rules after (tokens ++ [token]) := by
  simp only [ParseState.read] at next
  split at next
  · next closes =>
    cases next
    have isStepped : IsStepped (path ++ (quote :: inner ++ [token])) :=
      isBeforeStep.isStepped_append (.quoted quotes within closes)
    have starts : startOf (path ++ [quote]) = startOf (path ++ (quote :: inner ++ [token])) := by
      have regroup : path ++ (quote :: inner ++ [token]) =
          path ++ [quote] ++ (inner ++ [token]) := by simp
      rw [regroup]
      exact (startOf_append (by simp) _).symm
    have ends : token.stop = stopOf (path ++ (quote :: inner ++ [token])) := by
      rw [← List.append_assoc, stopOf_append _ (by simp), stopOf_singleton]
    rw [starts, ends]
    exact .operand outerRead levelRead (.afterStep opens isStepped) (by simp [same])
  · next notQuote =>
    cases next
    have stillWithin : ∀ other ∈ inner ++ [token], other.isSymbol '"' = false := by
      intro other member
      rcases List.mem_append.1 member with earlier | last
      · exact within other earlier
      · rw [List.mem_singleton.1 last]
        simpa using notQuote
    exact .operand outerRead levelRead (.insideQuotes opens isBeforeStep quotes stillWithin)
      (by simp [same])

theorem stateRead_of_read_operand (outerRead : OuterRead rules outer outerTokens)
    (levelRead : LevelRead rules level levelTokens)
    (operandRead : OperandRead phase operandTokens)
    (same : tokens = outerTokens ++ levelTokens ++ operandTokens)
    (next : ParseState.read rules ⟨outer, level, phase⟩ token = .ok after) :
    StateRead rules after (tokens ++ [token]) := by
  cases operandRead with
  | signed => exact stateRead_of_readOperand outerRead levelRead (by simp [same]) next
  | callName isOperation plain =>
      simp only [ParseState.read] at next
      split at next
      · next opens =>
        cases next
        exact .operand outerRead levelRead (.callStart isOperation plain opens) (by simp [same])
      · cases next
  | callStart isOperation plain opens =>
      simp only [ParseState.read] at next
      split at next
      · next closes =>
        exact stateRead_of_supplyCall outerRead levelRead isOperation plain opens closes .none same
          next
      · exact stateRead_of_readFactor
          (.cons outerRead levelRead (.call isOperation plain opens) rfl) .none .none
          (by simp [same]) next
  | unknownName =>
      simp only [ParseState.read] at next
      split at next <;> cases next
  | referenceStart opens =>
      simp only [ParseState.read] at next
      split at next
      · next isSlash =>
        cases next
        exact .operand outerRead levelRead (.afterRoot opens isSlash) (by simp [same])
      · exact stateRead_of_readStep outerRead levelRead opens .start rfl same next
  | @afterRoot opening slash opens isSlash =>
      simp only [ParseState.read] at next
      split at next
      · exact stateRead_of_readAfterPath outerRead levelRead opens (.root isSlash) same next
      · exact stateRead_of_readStep outerRead levelRead opens (.root isSlash) rfl same next
  | @afterSlash opening slash path opens isStepped isSlash =>
      refine stateRead_of_readStep outerRead levelRead opens (.stepped isStepped isSlash) ?_
        (by simp [same]) next
      rw [startOf_append (by simp), startOf_append isStepped.isPath.ne_nil]
  | insideQuotes opens isBeforeStep quotes within =>
      exact stateRead_of_read_insideQuotes outerRead levelRead opens isBeforeStep quotes within same
        next
  | @afterStep opening path opens isStepped =>
      simp only [ParseState.read] at next
      split at next
      · next isSlash =>
        cases next
        exact .operand outerRead levelRead (.afterSlash opens isStepped isSlash) (by simp [same])
      · exact stateRead_of_readAfterPath outerRead levelRead opens isStepped.isPath same next
  | keyStart opens isPath isBracket =>
      simp only [ParseState.read] at next
      split at next
      · next value isNumber =>
        split at next
        · next key found =>
          cases next
          exact .operand outerRead levelRead
            (.afterKey opens isPath isBracket isNumber (readKey?_eq_some_iff.1 found))
            (by simp [same])
        · cases next
      · cases next
  | @afterKey opening bracket number path value key opens isPath isBracket isNumber isKey =>
      simp only [ParseState.read] at next
      split at next
      · next closes =>
        cases next
        exact .operand outerRead levelRead
          (.keyClosed opens isPath (.some isBracket isNumber isKey closes)) (by simp [same])
      · cases next
  | keyClosed opens isPath isKey =>
      exact stateRead_of_closeReference outerRead levelRead opens isPath isKey (by simp [same]) next

/-- One more token keeps what the state tells of the tokens so far. -/
theorem stateRead_of_read (read : StateRead rules state tokens)
    (next : ParseState.read rules state token = .ok after) :
    StateRead rules after (tokens ++ [token]) := by
  cases read with
  | factor outerRead sumRead productRead same =>
      exact stateRead_of_readFactor outerRead sumRead productRead same next
  | operand outerRead levelRead operandRead same =>
      exact stateRead_of_read_operand outerRead levelRead operandRead same next
  | term outerRead sumRead isTerm same =>
      exact stateRead_of_readAfterFactor outerRead sumRead isTerm same next

theorem stateRead_start : StateRead rules ⟨[], .opened, .factor⟩ [] :=
  .factor .nil .none .none rfl

/-- The state after some tokens tells what they are. -/
theorem stateRead_of_readEach {more : List Token} (read : StateRead rules state tokens)
    (next : ParseState.readEach rules state more = .ok after) :
    StateRead rules after (tokens ++ more) := by
  induction more generalizing state tokens with
  | nil =>
      cases next
      simpa using read
  | cons token more ih =>
      rw [ParseState.readEach_cons] at next
      obtain ⟨middle, first, next⟩ := exists_eq_ok_of_bind next
      simpa using ih (stateRead_of_read read first) next

theorem isExpression_of_finish {stop : Nat} (read : StateRead rules state tokens)
    (finished : state.finish stop = .ok value) : IsExpression rules tokens value := by
  cases read with
  | factor => cases finished
  | operand _ _ operandRead => cases operandRead <;> cases finished
  | @term outer sum term _ outerTokens sumTokens termTokens outerRead sumRead isTerm same =>
      obtain ⟨total, joined, finished⟩ := exists_eq_ok_of_bind finished
      cases outerRead with
      | nil =>
          cases finished
          simpa [same] using isExpression_of_joinTo sumRead isTerm joined
      | cons => cases finished

end Steps

/-- What is read is derived. -/
theorem Expression.isExpression_of_ofTokens? {rules : ReferenceRules} {tokens : List Token}
    {value : Expression} {stop : Nat} (read : ofTokens? rules tokens stop = .ok value) :
    IsExpression rules tokens value := by
  rw [ofTokens?_eq] at read
  obtain ⟨state, through, finished⟩ := exists_eq_ok_of_bind read
  have stateRead := stateRead_of_readEach stateRead_start through
  exact isExpression_of_finish (by simpa using stateRead) finished

end InspectionFormula
