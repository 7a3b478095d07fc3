import InspectionFormula.Dialect
import InspectionFormula.Proofs.Parsing.Progress
import InspectionFormula.Proofs.Token.Classification

/-!
# Reading with an extended catalog

A new name may turn any identifier, and any reserved character, of any formula
into the name of an operation or of a constant.  Where a formula is well-formed
without the name, this decides about nothing: reserved characters are known by
their texts, the steps of a path may be names of all kinds, and an identifier in
place of a value is no formula.
-/

namespace InspectionFormula

variable {catalog extended : Catalog}

/-- In an extended catalog a text is taken for what it is in the catalog, unless it has no meaning
there. -/
theorem TokenKind.classify_extended (extension : catalog.Extends extended) (text : List Char) :
    classify catalog text = .identifier ∨ classify catalog text = .terminal ∨
      classify extended text = classify catalog text := by
  unfold classify
  cases Binary64.readLiteral? text with
  | some value => exact .inr (.inr rfl)
  | none =>
      cases named : catalog.operation? (String.ofList text) with
      | some operation =>
          rw [extension.operation?_eq named]
          exact .inr (.inr rfl)
      | none =>
          cases known : catalog.constant? (String.ofList text) with
          | some constant =>
              rw [extension.operation?_eq_none known named, extension.constant?_eq known]
              exact .inr (.inr rfl)
          | none =>
              dsimp only
              split
              · split
                · exact .inr (.inl rfl)
                · exact .inl rfl
              · exact .inl rfl

namespace Token

variable {token : Token}

/-- The token with the kind that a catalog gives it, if it has no meaning so far. -/
def reclassify (catalog : Catalog) (token : Token) : Token :=
  match token.kind with
  | .identifier | .terminal => { token with kind := TokenKind.classify catalog token.text }
  | .number _ | .operation _ | .constant _ | .endOfInput => token

@[simp] theorem text_reclassify : (token.reclassify catalog).text = token.text := by
  unfold reclassify
  split <;> rfl

@[simp] theorem start_reclassify : (token.reclassify catalog).start = token.start := by
  unfold reclassify
  split <;> rfl

@[simp] theorem span_reclassify : (token.reclassify catalog).span = token.span := by
  simp [span, length]

@[simp] theorem stop_reclassify : (token.reclassify catalog).stop = token.stop := by
  simp [stop, length]

@[simp] theorem isSymbol_reclassify (character : Char) :
    (token.reclassify catalog).isSymbol character = token.isSymbol character := by
  simp [isSymbol]

@[simp] theorem isReserved_reclassify :
    (token.reclassify catalog).isReserved = token.isReserved := by
  simp [isReserved]

theorem reclassify_number {value : Binary64} (kind : token.kind = .number value) :
    token.reclassify catalog = token := by
  rw [reclassify, kind]

theorem reclassify_operation {operation : Operation} (kind : token.kind = .operation operation) :
    token.reclassify catalog = token := by
  rw [reclassify, kind]

theorem reclassify_constant {constant : Constant} (kind : token.kind = .constant constant) :
    token.reclassify catalog = token := by
  rw [reclassify, kind]

/-- What can be a step of a path still can. -/
theorem isName_reclassify (named : token.isName = true) :
    (token.reclassify catalog).isName = true := by
  obtain ⟨kind, text, start⟩ := token
  cases kind with
  | identifier =>
      have plain : isReserved ⟨.identifier, text, start⟩ = false := by
        simpa [isName] using named
      have plainThere : isReserved ⟨TokenKind.classify catalog text, text, start⟩ = false := plain
      simp only [reclassify, isName, plainThere, Bool.not_false, Bool.true_and]
      cases kind : TokenKind.classify catalog text with
      | terminal =>
          have reserved : isReserved ⟨.identifier, text, start⟩ = true :=
            isReserved_of_classify kind
          rw [plain] at reserved
          cases reserved
      | endOfInput => exact absurd kind (classify_ne_endOfInput text)
      | number | operation | constant | identifier => rfl
  | terminal | endOfInput => simp [isName] at named
  | number | operation | constant => exact named

theorem reclassify_classify (extension : catalog.Extends extended) (text : List Char)
    (start : Nat) : reclassify extended ⟨TokenKind.classify catalog text, text, start⟩ =
      ⟨TokenKind.classify extended text, text, start⟩ := by
  rcases TokenKind.classify_extended extension text with plain | reserved | same
  · rw [plain]
    rfl
  · rw [reserved]
    rfl
  · rw [same]
    cases kind : TokenKind.classify catalog text with
    | identifier | terminal => rw [reclassify, same, kind]
    | number | operation | constant | endOfInput => rfl

theorem ofPiece?_extended (extension : catalog.Extends extended) (offset : Nat)
    (piece : List Char) :
    ofPiece? extended offset piece = (ofPiece? catalog offset piece).map (reclassify extended) := by
  simp only [ofPiece?]
  split
  · rfl
  · rw [Option.map_some, reclassify_classify extension]

theorem ofPieces_extended (extension : catalog.Extends extended) (offset : Nat)
    (pieces : List (List Char)) : ofPieces extended offset pieces =
      (ofPieces catalog offset pieces).map (reclassify extended) := by
  induction pieces generalizing offset with
  | nil => rfl
  | cons piece others ih =>
      rw [ofPieces, ofPieces, List.map_append, ofPiece?_extended extension, Option.toList_map, ih]

theorem scan_extended (extension : catalog.Extends extended) (formula : String) :
    scan extended formula = (scan catalog formula).map (reclassify extended) :=
  ofPieces_extended extension 0 _

end Token

/-! ## States of the reader -/

def PendingOperator.reclassify (catalog : Catalog) (pending : PendingOperator) : PendingOperator :=
  { pending with operator := pending.operator.reclassify catalog }

def Level.reclassify (catalog : Catalog) (level : Level) : Level where
  sum := level.sum.map (PendingOperator.reclassify catalog)
  product := level.product.map (PendingOperator.reclassify catalog)
  sign := level.sign

def Context.reclassify (catalog : Catalog) (context : Context) : Context :=
  { context with level := context.level.reclassify catalog }

/-- The state with the kinds that a catalog gives to the operators that wait.  The names of calls
that wait have a meaning already. -/
def ParseState.reclassify (catalog : Catalog) (state : ParseState) : ParseState where
  outer := state.outer.map (Context.reclassify catalog)
  level := state.level.reclassify catalog
  phase := state.phase

/-- The second reading comes to the state of the first one, but for what a catalog makes of the
operators that wait, unless the state of the first one cannot lead to a formula. -/
def Reading.CarriesOver (catalog : Catalog) (reading other : Reading ParseState) : Prop :=
  ∀ next, reading = .ok next →
    (∃ name, next.phase = .unknownName name) ∨ other = .ok (next.reclassify catalog)

namespace Reading.CarriesOver

variable {reading other : Reading ParseState}

theorem ok {state : ParseState} :
    CarriesOver catalog (.ok state) (.ok (state.reclassify catalog)) :=
  fun _ same => .inr (congrArg _ (congrArg _ (Except.ok.inj same)))

theorem error {fault : SyntaxError} : CarriesOver catalog (.error fault) other :=
  fun _ same => nomatch same

theorem unknownName {outer : List Context} {level : Level} {name : Token} :
    CarriesOver catalog (.ok ⟨outer, level, .unknownName name⟩) other :=
  fun _ same => .inl ⟨name, (Except.ok.inj same).symm ▸ rfl⟩

theorem ite {condition otherCondition : Bool} {yes no otherYes otherNo : Reading ParseState}
    (same : otherCondition = condition) (whenTrue : CarriesOver catalog yes otherYes)
    (whenFalse : CarriesOver catalog no otherNo) :
    CarriesOver catalog (if condition then yes else no)
      (if otherCondition then otherYes else otherNo) := by
  subst same
  cases otherCondition with
  | true => exact whenTrue
  | false => exact whenFalse

theorem bind {Result : Type} {first second : Reading Result}
    {following otherFollowing : Result → Reading ParseState}
    (same : ∀ result, first = .ok result → second = .ok result)
    (next : ∀ result, CarriesOver catalog (following result) (otherFollowing result)) :
    CarriesOver catalog (first >>= following) (second >>= otherFollowing) := by
  cases first with
  | error fault => exact error
  | ok result =>
      rw [same result rfl]
      exact next result

end Reading.CarriesOver

theorem PendingOperator.joinTo_reclassify {pending : Option PendingOperator}
    {operand joined : Expression} (joins : joinTo pending operand = .ok joined) :
    joinTo (pending.map (reclassify catalog)) operand = .ok joined := by
  cases pending with
  | none => exact joins
  | some pending =>
      cases kind : pending.operator.kind with
      | operation operation =>
          have known : pending.reclassify catalog = pending := by
            rw [reclassify, Token.reclassify_operation kind]
          rwa [Option.map_some, known]
      | number | constant | identifier | terminal | endOfInput =>
          simp [joinTo, join, kind] at joins

namespace ParseState

open Reading

variable {outer : List Context} {level : Level} {state : ParseState} {token : Token}
  {rules : ReferenceRules}

theorem supply_reclassify (operand : Expression) :
    CarriesOver catalog (supply outer level operand)
      (supply (outer.map (Context.reclassify catalog)) (level.reclassify catalog) operand) :=
  .bind (fun _ => PendingOperator.joinTo_reclassify) fun _ => .ok

theorem supplyCall_reclassify (operation : Operation) (name closing : Token)
    (arguments : List Expression) :
    CarriesOver catalog (supplyCall outer level operation name arguments closing)
      (supplyCall (outer.map (Context.reclassify catalog)) (level.reclassify catalog) operation name
        arguments (closing.reclassify catalog)) := by
  refine .ite rfl ?_ .error
  rw [Token.span_reclassify]
  exact supply_reclassify _

theorem readOperand_reclassify :
    CarriesOver catalog (state.readOperand token)
      ((state.reclassify catalog).readOperand (token.reclassify catalog)) := by
  refine .ite (Token.isSymbol_reclassify _) ?_ (.ite (Token.isSymbol_reclassify _) ?_ ?_)
  · rw [Token.span_reclassify]
    exact .ok
  · rw [Token.span_reclassify]
    exact .ok
  · cases kind : token.kind with
    | number value =>
        rw [Token.reclassify_number kind, kind]
        exact supply_reclassify _
    | constant constant =>
        rw [Token.reclassify_constant kind, kind]
        exact supply_reclassify _
    | operation operation =>
        rw [Token.reclassify_operation kind, kind]
        exact .ite rfl .error .ok
    -- Here the other catalog may well give a value, but this one gives no formula.
    | identifier => exact .unknownName
    | terminal | endOfInput => exact .error

theorem readFactor_reclassify :
    CarriesOver catalog (state.readFactor token)
      ((state.reclassify catalog).readFactor (token.reclassify catalog)) := by
  refine .ite (Token.isSymbol_reclassify _) ?_ (.ite (Token.isSymbol_reclassify _) .ok ?_)
  · rw [Token.span_reclassify]
    exact .ok
  · exact readOperand_reclassify

theorem closeExpression_reclassify (value : Expression) :
    CarriesOver catalog (closeExpression outer value token)
      (closeExpression (outer.map (Context.reclassify catalog)) value
        (token.reclassify catalog)) := by
  cases outer with
  | nil => exact .error
  | cons context outer =>
      obtain ⟨level, opener⟩ := context
      cases opener with
      | group opening =>
          refine .ite (Token.isSymbol_reclassify _) ?_ .error
          rw [Token.span_reclassify]
          exact supply_reclassify _
      | call operation name arguments =>
          refine .ite ?_ .ok (.ite (Token.isSymbol_reclassify _) ?_ .error)
          · rw [Token.isSymbol_reclassify, Token.isSymbol_reclassify]
          · exact supplyCall_reclassify _ _ _ _

theorem readAfterFactor_reclassify (term : Expression) :
    CarriesOver catalog (state.readAfterFactor term token)
      ((state.reclassify catalog).readAfterFactor term (token.reclassify catalog)) := by
  have symbol (character : Char) : (token.reclassify catalog).isSymbol character =
      token.isSymbol character := Token.isSymbol_reclassify character
  refine .ite (by rw [symbol, symbol]) .ok ?_
  refine .bind (fun _ => PendingOperator.joinTo_reclassify) fun value => ?_
  exact .ite (by rw [symbol, symbol]) .ok (closeExpression_reclassify value)

theorem readStep_reclassify (start : ReferenceStart) :
    CarriesOver catalog (state.readStep start token)
      ((state.reclassify catalog).readStep start (token.reclassify catalog)) := by
  refine .ite (Token.isSymbol_reclassify _) ?_ ?_
  · rw [Token.start_reclassify]
    exact .ok
  · cases named : token.isName with
    | false => exact .error
    | true =>
        rw [Token.isName_reclassify named, Token.stop_reclassify]
        exact .ok

theorem closeReference_reclassify (start : ReferenceStart) (pathStop : Nat)
    (key : Option UInt16) :
    CarriesOver catalog (closeReference rules state start pathStop key token)
      (closeReference rules (state.reclassify catalog) start pathStop key
        (token.reclassify catalog)) := by
  refine .ite (Token.isSymbol_reclassify _) (.bind ?_ fun reference => ?_) .error
  · intro reference closes
    simpa only [ReferenceRules.reference, Token.span_reclassify] using closes
  · exact supply_reclassify reference

theorem readAfterPath_reclassify (start : ReferenceStart) (pathStop : Nat) :
    CarriesOver catalog (readAfterPath rules state start pathStop token)
      (readAfterPath rules (state.reclassify catalog) start pathStop (token.reclassify catalog)) :=
  .ite (Token.isSymbol_reclassify _) .ok (closeReference_reclassify _ _ _)

/-- What one token leads to, it leads to with any kind that a catalog may give it. -/
theorem read_reclassify :
    CarriesOver catalog (read rules state token)
      (read rules (state.reclassify catalog) (token.reclassify catalog)) := by
  have symbol (character : Char) : (token.reclassify catalog).isSymbol character =
      token.isSymbol character := Token.isSymbol_reclassify character
  obtain ⟨outer, level, phase⟩ := state
  cases phase with
  | factor => exact readFactor_reclassify
  | signed => exact readOperand_reclassify
  | term value => exact readAfterFactor_reclassify value
  | callName => exact .ite (symbol _) .ok .error
  | callStart operation name =>
      refine .ite (symbol _) (supplyCall_reclassify _ _ _ _) ?_
      let inside : ParseState := ⟨⟨level, .call operation name []⟩ :: outer, .opened, .factor⟩
      exact (readFactor_reclassify : CarriesOver catalog (inside.readFactor token) _)
  | unknownName => exact .ite (symbol _) .error .error
  | referenceStart opening =>
      refine .ite (symbol _) ?_ ?_
      · rw [Token.start_reclassify, Token.stop_reclassify]
        exact .ok
      · rw [Token.start_reclassify]
        exact readStep_reclassify _
  | afterRoot start pathStop =>
      refine .ite ?_ (readAfterPath_reclassify start pathStop) (readStep_reclassify start)
      rw [symbol, symbol]
  | afterSlash start => exact readStep_reclassify start
  | insideQuotes start quote =>
      refine .ite (symbol _) ?_ .ok
      rw [Token.stop_reclassify]
      exact .ok
  | afterStep start pathStop =>
      exact .ite (symbol _) .ok (readAfterPath_reclassify start pathStop)
  | keyStart start pathStop =>
      cases kind : token.kind with
      | number value =>
          rw [Token.reclassify_number kind]
          simp only [read, reclassify, kind]
          cases readKey? token.text with
          | none => exact .error
          | some key => exact .ok
      | operation | constant | identifier | terminal | endOfInput =>
          simp only [read, kind]
          exact .error
  | afterKey => exact .ite (symbol _) .ok .error
  | keyClosed start pathStop key => exact closeReference_reclassify _ _ _

theorem finish_reclassify {stop : Nat} {root : Expression}
    (finishes : state.finish stop = .ok root) :
    (state.reclassify catalog).finish stop = .ok root := by
  obtain ⟨outer, level, phase⟩ := state
  cases phase with
  | term value =>
      obtain ⟨joined, joins, finishes⟩ := exists_eq_ok_of_bind finishes
      have joinsThere : (level.reclassify catalog).joinSum value = .ok joined :=
        PendingOperator.joinTo_reclassify joins
      cases outer with
      | nil =>
          simp only [finish, reclassify, joinsThere, bind, Except.bind]
          exact finishes
      | cons => cases finishes
  | _ => cases finishes

/-- An unknown name in place of a value cannot become part of a formula. -/
theorem ne_ok_of_unknownName {name : Token} (unknown : state.phase = .unknownName name)
    (tokens : List Token) (stop : Nat) (root : Expression) :
    (tokens.foldlM (read rules) state >>= fun last => last.finish stop) ≠ .ok root := by
  obtain ⟨outer, level, phase⟩ := state
  cases unknown
  intro formula
  cases tokens with
  | nil => cases formula
  | cons token tokens =>
      cases opens : token.isSymbol '(' with
      | true | false => simp [List.foldlM_cons, read, opens, bind, Except.bind] at formula

/-- What becomes a formula stays the same formula, whatever a catalog makes of its tokens. -/
theorem finish_foldlM_reclassify {tokens : List Token} {stop : Nat} {root : Expression}
    (reads : (tokens.foldlM (read rules) state >>= fun last => last.finish stop) = .ok root) :
    ((tokens.map (Token.reclassify catalog)).foldlM (read rules) (state.reclassify catalog) >>=
      fun last => last.finish stop) = .ok root := by
  induction tokens generalizing state with
  | nil => exact finish_reclassify reads
  | cons token tokens ih =>
      rw [List.foldlM_cons, bind_assoc] at reads
      rw [List.map_cons, List.foldlM_cons, bind_assoc]
      cases first : read rules state token with
      | error fault =>
          rw [first] at reads
          cases reads
      | ok next =>
          rw [first] at reads
          rcases read_reclassify next first with ⟨name, unknown⟩ | there
          · exact absurd reads (ne_ok_of_unknownName unknown tokens stop root)
          · rw [there]
            exact ih reads

end ParseState

/-- A formula that is well-formed for a catalog is read as the same tree with any operations and
constants added, if their names are new to the catalog. -/
theorem Expression.parse_extended (extension : catalog.Extends extended)
    (resolve : String → Option Path) {formula : String} {root : Expression}
    (parsed : parse catalog resolve formula = .ok root) :
    parse extended resolve formula = .ok root := by
  rw [parse, ofTokens?, Token.scan_extended extension]
  exact ParseState.finish_foldlM_reclassify parsed

theorem Expression.parse_extended_by_step_and_brace :
    ∃ (extended : Catalog) (operation : Operation) (constant : Constant) (root : Expression),
      Catalog.standard.Extends extended ∧
      TokenKind.classify .standard ['a'] = .identifier ∧
      TokenKind.classify extended ['a'] = .operation operation ∧
      TokenKind.classify .standard ['\x7b'] = .terminal ∧
      TokenKind.classify extended ['\x7b'] = .constant constant ∧
      Expression.parse .standard (Path.resolve? .root)
        "sum(\x7ba\x7d;2)*-\x7b\"a)\"(7)\x7d" = .ok root ∧
      Expression.parse extended (Path.resolve? .root)
        "sum(\x7ba\x7d;2)*-\x7b\"a)\"(7)\x7d" = .ok root ∧ root.span = ⟨0, 21⟩ := by
  let operation : Operation := .unary "A" fun value => value
  let constant : Constant := ⟨"\x7b", .ofNat 1⟩
  let extended := (Catalog.standard.withOperation operation).withConstant constant
  have extension : Catalog.standard.Extends extended :=
    .withConstant (.withOperation .refl ⟨by decide +kernel, by decide +kernel⟩)
      ⟨by decide +kernel, by decide +kernel⟩
  have isOperation : TokenKind.classify extended ['a'] = .operation operation := by
    subst extended constant operation
    rfl
  have isConstant : TokenKind.classify extended ['\x7b'] = .constant constant := by
    subst extended constant operation
    rfl
  have wellFormed : ((Expression.parse .standard (Path.resolve? .root)
      "sum(\x7ba\x7d;2)*-\x7b\"a)\"(7)\x7d").toOption.any
        fun root => root.span == ⟨0, 21⟩) = true := by
    decide +kernel
  obtain ⟨root, parsed, whole⟩ := exists_eq_ok_of_any wellFormed
  exact ⟨extended, operation, constant, root, extension, rfl, isOperation, rfl, isConstant,
    parsed, parse_extended extension _ parsed, eq_of_beq whole⟩

end InspectionFormula
