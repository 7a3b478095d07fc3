import InspectionFormula.Proofs.Parsing.Grammar

/-!
# What has been read

Between two tokens the reader's state tells what the tokens so far are: the open
brackets with the operators that wait around each of them, the operators that
wait at the reading place, and a part of an operand.
-/

namespace InspectionFormula

theorem exists_eq_ok_of_any {Error Value : Type} {outcome : Except Error Value}
    {test : Value → Bool} (passes : outcome.toOption.any test = true) :
    ∃ value, outcome = .ok value ∧ test value = true := by
  cases outcome with
  | error => cases passes
  | ok value => exact ⟨value, rfl, passes⟩

section Bind

variable {Error First Second : Type} {outcome : Except Error First}
  {following : First → Except Error Second}

theorem exists_eq_ok_of_bind {result : Second} (succeeded : outcome.bind following = .ok result) :
    ∃ value, outcome = .ok value ∧ following value = .ok result := by
  cases outcome with
  | error => cases succeeded
  | ok value => exact ⟨value, rfl, succeeded⟩

theorem eq_error_of_bind {error : Error} (failed : outcome.bind following = .error error) :
    outcome = .error error ∨ ∃ value, outcome = .ok value ∧ following value = .error error := by
  cases outcome with
  | error fault =>
      cases failed
      exact .inl rfl
  | ok value => exact .inr ⟨value, rfl, failed⟩

end Bind

theorem eq_error_of_map {Error First Second : Type} {outcome : Except Error First}
    {change : First → Second} {error : Error} (failed : outcome.map change = .error error) :
    outcome = .error error := by
  cases outcome with
  | ok value => cases failed
  | error fault =>
      cases failed
      rfl

namespace ParseState

/-- The state after some tokens. -/
def readEach (rules : ReferenceRules) (state : ParseState) (tokens : List Token) :
    Reading ParseState :=
  tokens.foldlM (read rules) state

variable {rules : ReferenceRules} {state middle after : ParseState} {token : Token}
  {tokens more : List Token}

@[simp] theorem readEach_nil : readEach rules state [] = .ok state := rfl

theorem readEach_cons : readEach rules state (token :: tokens) =
    (read rules state token).bind fun next => readEach rules next tokens := rfl

theorem readEach_append : readEach rules state (tokens ++ more) =
    (readEach rules state tokens).bind fun next => readEach rules next more := by
  simp only [readEach, List.foldlM_append]
  rfl

theorem readEach_cons_of_ok (first : read rules state token = .ok middle) :
    readEach rules state (token :: tokens) = readEach rules middle tokens := by
  rw [readEach_cons, first]
  rfl

theorem readEach_append_of_ok (first : readEach rules state tokens = .ok middle) :
    readEach rules state (tokens ++ more) = readEach rules middle more := by
  rw [readEach_append, first]
  rfl

theorem readEach_singleton : readEach rules state [token] = read rules state token := by
  rw [readEach_cons]
  cases read rules state token <;> rfl

end ParseState

/-- A formula is what its tokens leave when they are read from the start. -/
theorem Expression.ofTokens?_eq (rules : ReferenceRules) (tokens : List Token) (stop : Nat) :
    ofTokens? rules tokens stop =
      (ParseState.readEach rules ⟨[], .opened, .factor⟩ tokens).bind fun state =>
        state.finish stop := rfl

namespace Grammar

/-- Steps with or without a slash before them. -/
inductive IsStepped : List Token → Prop where
  | relative {tokens : List Token} (areSteps : AreSteps tokens) : IsStepped tokens
  | absolute {slash : Token} {tokens : List Token} (isSlash : slash.isSymbol '/' = true)
      (areSteps : AreSteps tokens) : IsStepped (slash :: tokens)

/-- What may stand before a step of a path. -/
inductive IsBeforeStep : List Token → Prop where
  | start : IsBeforeStep []
  | root {slash : Token} (isSlash : slash.isSymbol '/' = true) : IsBeforeStep [slash]
  | stepped {slash : Token} {tokens : List Token} (isStepped : IsStepped tokens)
      (isSlash : slash.isSymbol '/' = true) : IsBeforeStep (tokens ++ [slash])

theorem IsStepped.isPath {tokens : List Token} (isStepped : IsStepped tokens) :
    IsPath tokens := by
  cases isStepped with
  | relative areSteps => exact .relative areSteps
  | absolute isSlash areSteps => exact .absolute isSlash areSteps

theorem IsBeforeStep.isStepped_append {tokens step : List Token}
    (isBeforeStep : IsBeforeStep tokens) (isStep : IsStep step) : IsStepped (tokens ++ step) := by
  cases isBeforeStep with
  | start => exact .relative (.one isStep)
  | root isSlash => exact .absolute isSlash (.one isStep)
  | @stepped slash tokens isStepped isSlash =>
      rw [List.append_assoc]
      cases isStepped with
      | relative areSteps => exact .relative (.more areSteps isSlash isStep)
      | absolute isRoot areSteps => exact .absolute isRoot (.more areSteps isSlash isStep)

end Grammar

open Grammar

section Reading

variable (rules : ReferenceRules)

/-- The tokens of a sum that waits for its right operand. -/
inductive SumRead : Option PendingOperator → List Token → Prop where
  | none : SumRead none []
  | some {left : Expression} {operator : Token} {tokens : List Token}
      (isSum : IsExpression rules tokens left)
      (isOperator : operator.isSymbol '+' = true ∨ operator.isSymbol '-' = true) :
      SumRead (some ⟨left, operator⟩) (tokens ++ [operator])

/-- The tokens of a product that waits for its right operand. -/
inductive ProductRead : Option PendingOperator → List Token → Prop where
  | none : ProductRead none []
  | some {left : Expression} {operator : Token} {tokens : List Token}
      (isProduct : IsTerm rules tokens left)
      (isOperator : operator.isSymbol '*' = true ∨ operator.isSymbol '/' = true) :
      ProductRead (some ⟨left, operator⟩) (tokens ++ [operator])

/-- The token of a sign, if there is one. -/
inductive SignRead : Option Span → List Token → Prop where
  | none : SignRead none []
  | plus {sign : Token} (isSign : sign.isSymbol '+' = true) : SignRead Option.none [sign]
  | minus {sign : Token} (isSign : sign.isSymbol '-' = true) : SignRead (some sign.span) [sign]

inductive LevelRead : Level → List Token → Prop where
  | mk {sum product : Option PendingOperator} {sign : Option Span}
      {tokens sumTokens productTokens signTokens : List Token}
      (sumRead : SumRead rules sum sumTokens)
      (productRead : ProductRead rules product productTokens)
      (signRead : SignRead sign signTokens)
      (same : tokens = sumTokens ++ productTokens ++ signTokens) :
      LevelRead ⟨sum, product, sign⟩ tokens

/-- The tokens from an open bracket on, or from the name before it. -/
inductive OpenerRead : Opener → List Token → Prop where
  | group {opening : Token} (opens : opening.isSymbol '(' = true) :
      OpenerRead (.group opening.span) [opening]
  | call {name opening : Token} {operation : Operation}
      (isOperation : name.kind = .operation operation) (plain : name.isReserved = false)
      (opens : opening.isSymbol '(' = true) :
      OpenerRead (.call operation name []) [name, opening]
  | listed {name opening separator : Token} {operation : Operation} {tokens : List Token}
      {arguments : List Expression}
      (isOperation : name.kind = .operation operation) (plain : name.isReserved = false)
      (opens : opening.isSymbol '(' = true) (areListed : AreListed rules tokens arguments)
      (separates : separator.isSymbol ',' = true ∨ separator.isSymbol ';' = true) :
      OpenerRead (.call operation name arguments) (name :: opening :: tokens ++ [separator])

inductive OuterRead : List Context → List Token → Prop where
  | nil : OuterRead [] []
  | cons {outer : List Context} {level : Level} {opener : Opener}
      {tokens outerTokens levelTokens openerTokens : List Token}
      (outerRead : OuterRead outer outerTokens) (levelRead : LevelRead rules level levelTokens)
      (openerRead : OpenerRead rules opener openerTokens)
      (same : tokens = outerTokens ++ levelTokens ++ openerTokens) :
      OuterRead (⟨level, opener⟩ :: outer) tokens

/-- The tokens of an operand so far.  An unknown name is no part of any operand, and the reader
stops after it. -/
inductive OperandRead : Phase → List Token → Prop where
  | signed : OperandRead .signed []
  | callName {name : Token} {operation : Operation}
      (isOperation : name.kind = .operation operation) (plain : name.isReserved = false) :
      OperandRead (.callName operation name) [name]
  | callStart {name opening : Token} {operation : Operation}
      (isOperation : name.kind = .operation operation) (plain : name.isReserved = false)
      (opens : opening.isSymbol '(' = true) :
      OperandRead (.callStart operation name) [name, opening]
  | unknownName {name : Token} : OperandRead (.unknownName name) [name]
  | referenceStart {opening : Token} (opens : opening.isSymbol '{' = true) :
      OperandRead (.referenceStart opening.span) [opening]
  | afterRoot {opening slash : Token} (opens : opening.isSymbol '{' = true)
      (isSlash : slash.isSymbol '/' = true) :
      OperandRead (.afterRoot ⟨opening.span, slash.start⟩ slash.stop) [opening, slash]
  | afterSlash {opening slash : Token} {path : List Token} (opens : opening.isSymbol '{' = true)
      (isStepped : IsStepped path) (isSlash : slash.isSymbol '/' = true) :
      OperandRead (.afterSlash ⟨opening.span, startOf path⟩) (opening :: path ++ [slash])
  | insideQuotes {opening quote : Token} {path inner : List Token}
      (opens : opening.isSymbol '{' = true) (isBeforeStep : IsBeforeStep path)
      (quotes : quote.isSymbol '"' = true)
      (within : ∀ token ∈ inner, token.isSymbol '"' = false) :
      OperandRead (.insideQuotes ⟨opening.span, startOf (path ++ [quote])⟩ quote.start)
        (opening :: path ++ quote :: inner)
  | afterStep {opening : Token} {path : List Token} (opens : opening.isSymbol '{' = true)
      (isStepped : IsStepped path) :
      OperandRead (.afterStep ⟨opening.span, startOf path⟩ (stopOf path)) (opening :: path)
  | keyStart {opening bracket : Token} {path : List Token} (opens : opening.isSymbol '{' = true)
      (isPath : IsPath path) (isBracket : bracket.isSymbol '(' = true) :
      OperandRead (.keyStart ⟨opening.span, startOf path⟩ (stopOf path))
        (opening :: path ++ [bracket])
  | afterKey {opening bracket number : Token} {path : List Token} {value : Binary64}
      {key : UInt16} (opens : opening.isSymbol '{' = true) (isPath : IsPath path)
      (isBracket : bracket.isSymbol '(' = true) (isNumber : number.kind = .number value)
      (isKey : IsDecimalKey number.text key) :
      OperandRead (.afterKey ⟨opening.span, startOf path⟩ (stopOf path) key)
        (opening :: path ++ [bracket, number])
  | keyClosed {opening : Token} {path bracketed : List Token} {key : UInt16}
      (opens : opening.isSymbol '{' = true) (isPath : IsPath path)
      (isKey : IsKey bracketed (some key)) :
      OperandRead (.keyClosed ⟨opening.span, startOf path⟩ (stopOf path) key)
        (opening :: path ++ bracketed)

/-- What some tokens are when the reader's state is the one after them. -/
inductive StateRead : ParseState → List Token → Prop where
  | factor {outer : List Context} {sum product : Option PendingOperator}
      {tokens outerTokens sumTokens productTokens : List Token}
      (outerRead : OuterRead rules outer outerTokens) (sumRead : SumRead rules sum sumTokens)
      (productRead : ProductRead rules product productTokens)
      (same : tokens = outerTokens ++ sumTokens ++ productTokens) :
      StateRead ⟨outer, ⟨sum, product, none⟩, .factor⟩ tokens
  | operand {outer : List Context} {level : Level} {phase : Phase}
      {tokens outerTokens levelTokens operandTokens : List Token}
      (outerRead : OuterRead rules outer outerTokens)
      (levelRead : LevelRead rules level levelTokens)
      (operandRead : OperandRead phase operandTokens)
      (same : tokens = outerTokens ++ levelTokens ++ operandTokens) :
      StateRead ⟨outer, level, phase⟩ tokens
  | term {outer : List Context} {sum : Option PendingOperator} {value : Expression}
      {tokens outerTokens sumTokens termTokens : List Token}
      (outerRead : OuterRead rules outer outerTokens) (sumRead : SumRead rules sum sumTokens)
      (isTerm : IsTerm rules termTokens value)
      (same : tokens = outerTokens ++ sumTokens ++ termTokens) :
      StateRead ⟨outer, ⟨sum, none, none⟩, .term value⟩ tokens

end Reading

end InspectionFormula
