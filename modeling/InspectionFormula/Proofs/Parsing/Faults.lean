import InspectionFormula.Proofs.Parsing.Soundness
import InspectionFormula.Proofs.Token.Partition

/-!
# Where a formula is at fault

A fault points at a token of its formula, however much has been read since.  The
tokens that may turn out to be at fault are kept by the reader's state: the
operators that wait, the names of open calls, the first tokens of paths and the
quotes that open their steps.
-/

namespace InspectionFormula

namespace Grammar

def IsOperator (token : Token) : Prop :=
  ∃ symbol ∈ ['+', '-', '*', '/'], token.isSymbol symbol = true

/-- What is wrong with a formula of the given tokens, by cause, and the token that the fault points
at.  Tokens that would be right elsewhere are misplaced. -/
inductive IsFault (rules : ReferenceRules) (tokens : List Token) : SyntaxError → Prop where
  | misplaced {expected : Expected} {token : Token} (member : token ∈ tokens) :
      IsFault rules tokens ⟨.missing expected (some token.name), token.start⟩
  | ended {expected : Expected} {stop : Nat} (isEnd : Token.endOfInput stop ∈ tokens) :
      IsFault rules tokens ⟨.missing expected none, stop⟩
  | unavailableOperator {operator : Token} (member : operator ∈ tokens)
      (isOperator : IsOperator operator)
      (unknown : ∀ operation, operator.kind ≠ .operation operation) :
      IsFault rules tokens ⟨.unavailableOperator operator.name, operator.start⟩
  | unknownFunction {name opening : Token} {before after : List Token}
      (opens : opening.isSymbol '(' = true) (same : tokens = before ++ name :: opening :: after) :
      IsFault rules tokens ⟨.unknownFunction name.name, name.start⟩
  | unexpectedIdentifier {name next : Token} {before after : List Token}
      (notCalled : next.isSymbol '(' = false) (same : tokens = before ++ name :: next :: after) :
      IsFault rules tokens ⟨.unexpectedIdentifier name.name, name.start⟩
  | wrongCount {name opening closing : Token} {operation : Operation}
      {before inner after : List Token} {arguments : List Expression}
      (isOperation : name.kind = .operation operation) (plain : name.isReserved = false)
      (opens : opening.isSymbol '(' = true) (areArguments : AreArguments rules inner arguments)
      (closes : closing.isSymbol ')' = true)
      (refused : operation.arity.accepts arguments.length = false)
      (same : tokens = before ++ name :: opening :: inner ++ closing :: after) :
      IsFault rules tokens
        ⟨.wrongCount operation.name operation.arity arguments.length, name.start⟩
  | unterminatedQuote {opening quote : Token} {before path inner : List Token} {stop : Nat}
      (opens : opening.isSymbol '{' = true) (isBeforeStep : IsBeforeStep path)
      (quotes : quote.isSymbol '"' = true) (within : ∀ token ∈ inner, token.isSymbol '"' = false)
      (same : tokens = before ++ opening :: path ++ quote :: inner ++ [Token.endOfInput stop]) :
      IsFault rules tokens ⟨.unterminatedQuote, quote.start⟩
  | invalidAttributeKey {opening bracket number : Token} {before path after : List Token}
      {value : Binary64} (opens : opening.isSymbol '{' = true) (isPath : IsPath path)
      (isBracket : bracket.isSymbol '(' = true) (isNumber : number.kind = .number value)
      (noKey : ∀ key, ¬ IsDecimalKey number.text key)
      (same : tokens = before ++ opening :: path ++ bracket :: number :: after) :
      IsFault rules tokens ⟨.invalidAttributeKey number.name, number.start⟩
  | unresolvedPath {opening first closing : Token} {before others key after : List Token}
      {number : Option UInt16} (opens : opening.isSymbol '{' = true)
      (isPath : IsPath (first :: others)) (isKey : IsKey key number)
      (closes : closing.isSymbol '}' = true)
      (unresolved : rules.resolve (textThrough rules.source (first :: others)) = none)
      (same : tokens = before ++ opening :: (first :: others) ++ key ++ closing :: after) :
      IsFault rules tokens
        ⟨.unresolvedPath (textThrough rules.source (first :: others)), first.start⟩

theorem IsFault.exists_token {rules : ReferenceRules} {tokens : List Token} {error : SyntaxError}
    (isFault : IsFault rules tokens error) : ∃ token ∈ tokens, token.start = error.position := by
  cases isFault with
  | misplaced member | unavailableOperator member => exact ⟨_, member, rfl⟩
  | ended isEnd => exact ⟨_, isEnd, rfl⟩
  | @unknownFunction name _ _ _ _ same | @unexpectedIdentifier name _ _ _ _ same
  | @wrongCount name _ _ _ _ _ _ _ _ _ _ _ _ _ same => exact ⟨name, by simp [same], rfl⟩
  | @unterminatedQuote _ quote _ _ _ _ _ _ _ _ same => exact ⟨quote, by simp [same], rfl⟩
  | @invalidAttributeKey _ _ number _ _ _ _ _ _ _ _ _ same => exact ⟨number, by simp [same], rfl⟩
  | @unresolvedPath _ first _ _ _ _ _ _ _ _ _ _ _ same => exact ⟨first, by simp [same], rfl⟩

end Grammar

open Grammar

section Operators

variable {rules : ReferenceRules} {pending : PendingOperator} {level : Level} {tokens : List Token}

theorem SumRead.operator (sumRead : SumRead rules (Option.some pending) tokens) :
    pending.operator ∈ tokens ∧ IsOperator pending.operator := by
  cases sumRead with
  | some isSum isOperator =>
      refine ⟨by simp, ?_⟩
      rcases isOperator with isPlus | isMinus
      · exact ⟨'+', by simp, isPlus⟩
      · exact ⟨'-', by simp, isMinus⟩

theorem ProductRead.operator (productRead : ProductRead rules (Option.some pending) tokens) :
    pending.operator ∈ tokens ∧ IsOperator pending.operator := by
  cases productRead with
  | some isProduct isOperator =>
      refine ⟨by simp, ?_⟩
      rcases isOperator with isTimes | isSlash
      · exact ⟨'*', by simp, isTimes⟩
      · exact ⟨'/', by simp, isSlash⟩

theorem LevelRead.product_operator (levelRead : LevelRead rules level tokens)
    (waits : level.product = some pending) :
    pending.operator ∈ tokens ∧ IsOperator pending.operator := by
  obtain ⟨sumRead, productRead, signRead, rfl⟩ := levelRead
  cases waits
  obtain ⟨member, isOperator⟩ := productRead.operator
  exact ⟨by simp [member], isOperator⟩

end Operators

section Steps

variable {rules : ReferenceRules} {outer : List Context} {level : Level} {phase : Phase}
  {value : Expression} {token : Token} {state : ParseState} {error : SyntaxError}
  {all seen before later outerTokens levelTokens : List Token}

/-- Joining what waits fails for an operator that has no operation. -/
theorem isFault_of_joinTo {pending : Option PendingOperator} {operand : Expression}
    (waits : ∀ operator, pending = some operator →
      operator.operator ∈ all ∧ IsOperator operator.operator)
    (failed : PendingOperator.joinTo pending operand = .error error) :
    IsFault rules all error := by
  cases pending with
  | none => cases failed
  | some operator =>
      obtain ⟨member, isOperator⟩ := waits operator rfl
      simp only [PendingOperator.joinTo, PendingOperator.join] at failed
      split at failed
      · cases failed
      · next unknown =>
          cases failed
          exact .unavailableOperator member isOperator unknown

theorem isFault_of_joinSum {sum product : Option PendingOperator} {sign : Option Span}
    {sumTokens : List Token} (sumRead : SumRead rules sum sumTokens) (read : sumTokens ⊆ all)
    (failed : Level.joinSum ⟨sum, product, sign⟩ value = .error error) :
    IsFault rules all error := by
  refine isFault_of_joinTo (fun operator waits => ?_) failed
  cases waits
  obtain ⟨member, isOperator⟩ := sumRead.operator
  exact ⟨read member, isOperator⟩

theorem isFault_of_supply (levelRead : LevelRead rules level levelTokens)
    (read : levelTokens ⊆ all) (failed : ParseState.supply outer level value = .error error) :
    IsFault rules all error := by
  rcases eq_error_of_bind failed with joined | ⟨term, -, supplied⟩
  · refine isFault_of_joinTo (fun operator waits => ?_) joined
    obtain ⟨member, isOperator⟩ := levelRead.product_operator waits
    exact ⟨read member, isOperator⟩
  · cases supplied

theorem isFault_of_supplyCall {operation : Operation} {name opening closing : Token}
    {inner : List Token} {arguments : List Expression}
    (levelRead : LevelRead rules level levelTokens) (read : levelTokens ⊆ all)
    (isOperation : name.kind = .operation operation) (plain : name.isReserved = false)
    (opens : opening.isSymbol '(' = true) (areArguments : AreArguments rules inner arguments)
    (closes : closing.isSymbol ')' = true)
    (same : all = before ++ name :: opening :: inner ++ closing :: later)
    (failed : ParseState.supplyCall outer level operation name arguments closing = .error error) :
    IsFault rules all error := by
  unfold ParseState.supplyCall at failed
  split at failed
  · exact isFault_of_supply levelRead read failed
  · next refused =>
      cases failed
      exact .wrongCount isOperation plain opens areArguments closes (by simpa using refused) same

theorem isFault_of_readOperand (levelRead : LevelRead rules level levelTokens)
    (read : levelTokens ⊆ all) (member : token ∈ all)
    (failed : ParseState.readOperand ⟨outer, level, phase⟩ token = .error error) :
    IsFault rules all error := by
  unfold ParseState.readOperand at failed
  split at failed
  · cases failed
  · split at failed
    · cases failed
    · split at failed
      · exact isFault_of_supply levelRead read failed
      · exact isFault_of_supply levelRead read failed
      · split at failed
        · cases failed
          exact .misplaced member
        · cases failed
      · cases failed
      all_goals
        cases failed
        exact .misplaced member

theorem isFault_of_readFactor (levelRead : LevelRead rules level levelTokens)
    (read : levelTokens ⊆ all) (member : token ∈ all)
    (failed : ParseState.readFactor ⟨outer, level, phase⟩ token = .error error) :
    IsFault rules all error := by
  unfold ParseState.readFactor at failed
  split at failed
  · cases failed
  · split at failed
    · cases failed
    · exact isFault_of_readOperand levelRead read member failed

theorem isFault_of_closeExpression {valueTokens : List Token}
    (outerRead : OuterRead rules outer outerTokens)
    (isExpression : IsExpression rules valueTokens value)
    (same : all = outerTokens ++ valueTokens ++ token :: later)
    (failed : ParseState.closeExpression outer value token = .error error) :
    IsFault rules all error := by
  have misplaced (expected : Expected) :
      IsFault rules all (InspectionFormula.misplaced expected token) := .misplaced (by simp [same])
  cases outerRead with
  | nil =>
      cases failed
      exact misplaced _
  | @cons outer level opener _ outerTokens levelTokens openerTokens outerRead levelRead openerRead
      split =>
      have read : levelTokens ⊆ all := by simp [same, split]
      cases opener with
      | group opening =>
          simp only [ParseState.closeExpression] at failed
          split at failed
          · exact isFault_of_supply levelRead read failed
          · cases failed
            exact misplaced _
      | call operation name arguments =>
          obtain ⟨opening, listed, joined, isOperation, plain, opens, areListed⟩ :=
            areListed_of_openerRead openerRead isExpression
          simp only [ParseState.closeExpression] at failed
          split at failed
          · cases failed
          · split at failed
            · next closes =>
                have same : all =
                    outerTokens ++ levelTokens ++ name :: opening :: listed ++ token :: later := by
                  simp [same, split, ← joined]
                exact isFault_of_supplyCall levelRead read isOperation plain opens
                  (.some areListed) closes same failed
            · cases failed
              exact misplaced _

theorem isFault_of_readAfterFactor {sum : Option PendingOperator}
    {sumTokens termTokens : List Token} (outerRead : OuterRead rules outer outerTokens)
    (sumRead : SumRead rules sum sumTokens) (isTerm : IsTerm rules termTokens value)
    (same : all = outerTokens ++ sumTokens ++ termTokens ++ token :: later)
    (failed : ParseState.readAfterFactor ⟨outer, ⟨sum, none, none⟩, phase⟩ value token =
      .error error) : IsFault rules all error := by
  unfold ParseState.readAfterFactor at failed
  split at failed
  · cases failed
  · rcases eq_error_of_bind failed with joined | ⟨total, joined, failed⟩
    · exact isFault_of_joinSum sumRead (by simp [same]) joined
    · have isExpression := isExpression_of_joinTo sumRead isTerm joined
      split at failed
      · cases failed
      · have same : all = outerTokens ++ (sumTokens ++ termTokens) ++ token :: later := by
          simp [same]
        exact isFault_of_closeExpression outerRead isExpression same failed

theorem isFault_of_readStep {start : ReferenceStart} (member : token ∈ all)
    (failed : ParseState.readStep state start token = .error error) : IsFault rules all error := by
  unfold ParseState.readStep at failed
  split at failed
  · cases failed
  · split at failed
    · cases failed
    · cases failed
      exact .misplaced member

theorem isFault_of_closeReference {opening : Token} {path key : List Token}
    {number : Option UInt16} (levelRead : LevelRead rules level levelTokens)
    (read : levelTokens ⊆ all) (opens : opening.isSymbol '{' = true) (isPath : IsPath path)
    (isKey : IsKey key number) (same : all = before ++ opening :: path ++ key ++ token :: later)
    (failed : ParseState.closeReference rules ⟨outer, level, phase⟩
      ⟨opening.span, startOf path⟩ (stopOf path) number token = .error error) :
    IsFault rules all error := by
  unfold ParseState.closeReference at failed
  split at failed
  · next closes =>
      rcases eq_error_of_bind failed with unfound | ⟨value, -, failed⟩
      · have raw : rules.raw ⟨opening.span, startOf path⟩ (stopOf path) =
          textThrough rules.source path := rfl
        simp only [ReferenceRules.reference, raw] at unfound
        split at unfound
        · cases unfound
        · next unresolved =>
            cases unfound
            obtain ⟨first, others, rfl⟩ := List.exists_cons_of_ne_nil isPath.ne_nil
            exact .unresolvedPath opens isPath isKey closes unresolved same
      · exact isFault_of_supply levelRead read failed
  · cases failed
    exact .misplaced (by simp [same])

theorem isFault_of_readAfterPath {opening : Token} {path : List Token}
    (levelRead : LevelRead rules level levelTokens) (read : levelTokens ⊆ all)
    (opens : opening.isSymbol '{' = true) (isPath : IsPath path)
    (same : all = before ++ opening :: path ++ token :: later)
    (failed : ParseState.readAfterPath rules ⟨outer, level, phase⟩
      ⟨opening.span, startOf path⟩ (stopOf path) token = .error error) :
    IsFault rules all error := by
  unfold ParseState.readAfterPath at failed
  split at failed
  · cases failed
  · exact isFault_of_closeReference levelRead read opens isPath .none
      (same.trans (by rw [List.append_nil])) failed

theorem isFault_of_readKey {opening bracket : Token} {path : List Token}
    {start : ReferenceStart} {pathStop : Nat} (opens : opening.isSymbol '{' = true)
    (isPath : IsPath path) (isBracket : bracket.isSymbol '(' = true)
    (same : all = before ++ opening :: path ++ bracket :: token :: later)
    (failed : ParseState.read rules ⟨outer, level, .keyStart start pathStop⟩ token = .error error) :
    IsFault rules all error := by
  simp only [ParseState.read] at failed
  split at failed
  · next value isNumber =>
      split at failed
      · cases failed
      · next unreadable =>
          cases failed
          refine .invalidAttributeKey opens isPath isBracket isNumber (fun key isKey => ?_) same
          rw [readKey?_eq_some_iff.2 isKey] at unreadable
          cases unreadable
  · cases failed
    exact .misplaced (by simp [same])

theorem isFault_of_read_operand {operandTokens : List Token}
    (levelRead : LevelRead rules level levelTokens) (read : levelTokens ⊆ all)
    (operandRead : OperandRead phase operandTokens)
    (same : all = before ++ operandTokens ++ token :: later)
    (failed : ParseState.read rules ⟨outer, level, phase⟩ token = .error error) :
    IsFault rules all error := by
  have member : token ∈ all := by simp [same]
  cases operandRead with
  | signed => exact isFault_of_readOperand levelRead read member failed
  | callName =>
      simp only [ParseState.read] at failed
      split at failed
      · cases failed
      · cases failed
        exact .misplaced member
  | callStart isOperation plain opens =>
      simp only [ParseState.read] at failed
      split at failed
      · next closes =>
          exact isFault_of_supplyCall levelRead read isOperation plain opens .none closes same
            failed
      · exact isFault_of_readFactor (.mk .none .none .none rfl) (by simp) member failed
  | unknownName =>
      simp only [ParseState.read] at failed
      split at failed
      · next opens =>
          cases failed
          exact .unknownFunction opens (by simpa using same)
      · next notCalled =>
          cases failed
          exact .unexpectedIdentifier (by simpa using notCalled) (by simpa using same)
  | referenceStart =>
      simp only [ParseState.read] at failed
      split at failed
      · cases failed
      · exact isFault_of_readStep member failed
  | afterRoot opens isSlash =>
      simp only [ParseState.read] at failed
      split at failed
      · exact isFault_of_readAfterPath levelRead read opens (.root isSlash) same failed
      · exact isFault_of_readStep member failed
  | afterSlash => exact isFault_of_readStep member failed
  | insideQuotes =>
      simp only [ParseState.read] at failed
      split at failed <;> cases failed
  | afterStep opens isStepped =>
      simp only [ParseState.read] at failed
      split at failed
      · cases failed
      · exact isFault_of_readAfterPath levelRead read opens isStepped.isPath same failed
  | keyStart opens isPath isBracket =>
      exact isFault_of_readKey opens isPath isBracket (by simpa using same) failed
  | afterKey =>
      simp only [ParseState.read] at failed
      split at failed
      · cases failed
      · cases failed
        exact .misplaced member
  | @keyClosed opening path key _ opens isPath isKey =>
      have same : all = before ++ opening :: path ++ key ++ token :: later := by simp [same]
      exact isFault_of_closeReference levelRead read opens isPath isKey same failed

/-- A token that cannot be read shows a fault of the tokens up to it. -/
theorem isFault_of_read (stateRead : StateRead rules state seen)
    (same : all = seen ++ token :: later)
    (failed : ParseState.read rules state token = .error error) : IsFault rules all error := by
  have member : token ∈ all := by simp [same]
  cases stateRead with
  | @factor _ _ _ _ outerTokens sumTokens productTokens outerRead sumRead productRead split =>
      have here : sumTokens ++ productTokens ++ [] <:+: all :=
        ⟨outerTokens, token :: later, by simp [same, split]⟩
      exact isFault_of_readFactor (.mk sumRead productRead .none rfl) here.subset member failed
  | operand outerRead levelRead operandRead split =>
      exact isFault_of_read_operand levelRead (by simp [same, split]) operandRead (split ▸ same)
        failed
  | term outerRead sumRead isTerm split =>
      exact isFault_of_readAfterFactor outerRead sumRead isTerm (split ▸ same) failed

/-- What is missing at the end is a fault at the end, or at a token before it. -/
theorem isFault_of_missingAtEnd (stop : Nat) (stateRead : StateRead rules state seen) :
    IsFault rules (seen ++ [.endOfInput stop]) (state.missingAtEnd stop) := by
  have ended (expected : Expected) :
      IsFault rules (seen ++ [.endOfInput stop]) (endedBefore expected stop) := .ended (by simp)
  cases stateRead with
  | factor | term => exact ended _
  | @operand _ _ _ _ outerTokens levelTokens _ outerRead levelRead operandRead split =>
      cases operandRead with
      | @unknownName name =>
          have same : seen ++ [.endOfInput stop] =
              outerTokens ++ levelTokens ++ name :: .endOfInput stop :: [] := by simp [split]
          exact .unexpectedIdentifier rfl same
      | @insideQuotes opening quote path inner opens isBeforeStep quotes within =>
          have same : seen ++ [.endOfInput stop] = outerTokens ++ levelTokens ++ opening :: path ++
              quote :: inner ++ [.endOfInput stop] := by simp [split]
          exact .unterminatedQuote opens isBeforeStep quotes within same
      | _ => exact ended _

theorem isFault_of_finish {stop : Nat} (stateRead : StateRead rules state seen)
    (failed : state.finish stop = .error error) :
    IsFault rules (seen ++ [.endOfInput stop]) error := by
  have missing := isFault_of_missingAtEnd stop stateRead
  cases stateRead with
  | factor =>
      cases failed
      exact missing
  | operand _ _ operandRead =>
      cases operandRead <;>
        · cases failed
          exact missing
  | @term outer sum term _ _ sumTokens _ outerRead sumRead isTerm split =>
      rcases eq_error_of_bind failed with joined | ⟨total, -, failed⟩
      · exact isFault_of_joinSum sumRead (by simp [split]) joined
      · cases outer with
        | nil => cases failed
        | cons =>
            cases failed
            exact missing

theorem isFault_of_readEach {more : List Token} (stateRead : StateRead rules state seen)
    (same : all = seen ++ more ++ later)
    (failed : ParseState.readEach rules state more = .error error) : IsFault rules all error := by
  induction more generalizing state seen with
  | nil => cases failed
  | cons token more ih =>
      rw [ParseState.readEach_cons] at failed
      rcases eq_error_of_bind failed with next | ⟨middle, next, failed⟩
      · exact isFault_of_read stateRead (by simpa using same) next
      · exact ih (stateRead_of_read stateRead next) (by simpa using same) failed

end Steps

namespace Expression

variable {catalog : Catalog} {resolve : String → Option Path} {formula : String}
  {error : SyntaxError}

theorem isFault_of_parse (failed : parse catalog resolve formula = .error error) :
    IsFault ⟨formula.toList, resolve⟩ (Token.stream catalog formula) error := by
  rw [parse, ofTokens?_eq] at failed
  rcases eq_error_of_bind failed with read | ⟨last, read, failed⟩
  · exact isFault_of_readEach stateRead_start rfl read
  · exact isFault_of_finish (stateRead_of_readEach stateRead_start read) failed

/-- A token, or the end, stands between two parts of the formula. -/
theorem exists_split_of_mem_stream {token : Token} (member : token ∈ Token.stream catalog formula) :
    ∃ front back, formula.toList = front ++ back ∧ Text.byteLength front = token.start := by
  rcases List.mem_append.1 member with member | isEnd
  · obtain ⟨front, back, same, starts⟩ :=
      (Token.laidOut_scan catalog formula).exists_text token member
    exact ⟨front, token.text ++ back, same, by simpa using starts⟩
  · rw [List.mem_singleton.1 isEnd]
    exact ⟨formula.toList, [], by simp, rfl⟩

/-- A formula that is not read is at fault where one of its tokens starts, or at its end, and so
between two of its characters.  A wrong count of arguments and an unknown function are at fault at
the name of the call, a path that denotes nothing at the first token after the brace, and a quote
that is not closed at the quote. -/
theorem fault_points_at_token (catalog : Catalog) (resolve : String → Option Path)
    (formula : String) (error : SyntaxError)
    (failed : parse catalog resolve formula = .error error) :
    (∃ token ∈ Token.stream catalog formula, token.start = error.position) ∧
      error.position ≤ Text.byteLength formula.toList ∧
      (∃ front back, formula.toList = front ++ back ∧ Text.byteLength front = error.position) ∧
      IsFault ⟨formula.toList, resolve⟩ (Token.stream catalog formula) error := by
  have isFault := isFault_of_parse failed
  obtain ⟨token, member, starts⟩ := isFault.exists_token
  obtain ⟨front, back, same, length⟩ := exists_split_of_mem_stream member
  rw [starts] at length
  refine ⟨⟨token, member, starts⟩, ?_, ⟨front, back, same, length⟩, isFault⟩
  rw [same, Text.byteLength_append]
  omega

theorem fault_points_at_token_of_late_faults :
    ∃ (called undenoted : String) (first second : SyntaxError),
      called = "1 + sqrt(round(1; 2; 3))" ∧
      undenoted = "abs(\x7bä\x7d) * \x7b ../x (3)\x7d" ∧
      first = ⟨.wrongCount "round" (.between 1 2) 3, 9⟩ ∧ second = ⟨.unresolvedPath "../x", 14⟩ ∧
      parse .standard (Path.resolve? .root) called = .error first ∧
      IsFault ⟨called.toList, Path.resolve? .root⟩ (Token.stream .standard called) first ∧
      parse .standard (Path.resolve? .root) undenoted = .error second ∧
      (∃ token ∈ Token.stream .standard undenoted, token.start = second.position) ∧
      second.position ≤ Text.byteLength undenoted.toList ∧
      (∃ front back, undenoted.toList = front ++ back ∧
        Text.byteLength front = second.position) ∧
      IsFault ⟨undenoted.toList, Path.resolve? .root⟩ (Token.stream .standard undenoted)
        second := by
  have refused := eq_error_of_map (show
    (parse .standard (Path.resolve? .root) "1 + sqrt(round(1; 2; 3))").map (fun _ => ()) =
      .error ⟨.wrongCount "round" (.between 1 2) 3, 9⟩ by decide +kernel)
  have unresolved := eq_error_of_map (show
    (parse .standard (Path.resolve? .root) "abs(\x7bä\x7d) * \x7b ../x (3)\x7d").map
      (fun _ => ()) = .error ⟨.unresolvedPath "../x", 14⟩ by decide +kernel)
  obtain ⟨-, -, -, atName⟩ := fault_points_at_token .standard (Path.resolve? .root) _ _ refused
  exact ⟨_, _, _, _, rfl, rfl, rfl, rfl, refused, atName, unresolved,
    fault_points_at_token .standard (Path.resolve? .root) _ _ unresolved⟩

end Expression

end InspectionFormula
