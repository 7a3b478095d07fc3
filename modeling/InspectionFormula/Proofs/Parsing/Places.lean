import InspectionFormula.Proofs.Expression.Nodes
import InspectionFormula.Proofs.Parsing.Recognition
import Mathlib.Data.Option.Basic

/-!
# Reading without places

Where tokens stand decides about nothing but spans, the places of faults and the
texts of references.  Two readers that are given the same tokens at other places
pass through the same states but for places, as long as references that they
close denote the same paths.
-/

namespace InspectionFormula

/-- The token as if it stood at the start of a text. -/
def Token.placeless (token : Token) : Token := { token with start := 0 }

/-- Two trees that differ in spans only. -/
def Expression.SameTree (tree other : Expression) : Prop := other.eraseSpans = tree.eraseSpans

structure PendingOperator.Alike (pending other : PendingOperator) : Prop where
  left : pending.left.SameTree other.left
  kind : other.operator.kind = pending.operator.kind

structure Level.Alike (level other : Level) : Prop where
  sum : Option.Rel PendingOperator.Alike level.sum other.sum
  product : Option.Rel PendingOperator.Alike level.product other.product
  sign : Option.Rel (fun _ _ => True) level.sign other.sign

inductive Opener.Alike : Opener → Opener → Prop where
  | group {opening other : Span} : Alike (.group opening) (.group other)
  | call {operation : Operation} {name other : Token} {arguments others : List Expression}
      (same : others.map Expression.eraseSpans = arguments.map Expression.eraseSpans) :
      Alike (.call operation name arguments) (.call operation other others)

structure Context.Alike (context other : Context) : Prop where
  level : context.level.Alike other.level
  opener : context.opener.Alike other.opener

/-- Two phases that differ in places only. -/
inductive Phase.Alike : Phase → Phase → Prop where
  | factor : Alike .factor .factor
  | signed : Alike .signed .signed
  | term {value other : Expression} (same : value.SameTree other) :
      Alike (.term value) (.term other)
  | callName {operation : Operation} {name other : Token} :
      Alike (.callName operation name) (.callName operation other)
  | callStart {operation : Operation} {name other : Token} :
      Alike (.callStart operation name) (.callStart operation other)
  | unknownName {name other : Token} : Alike (.unknownName name) (.unknownName other)
  | referenceStart {opening other : Span} : Alike (.referenceStart opening) (.referenceStart other)
  | afterRoot {start other : ReferenceStart} {pathStop otherStop : Nat} :
      Alike (.afterRoot start pathStop) (.afterRoot other otherStop)
  | afterSlash {start other : ReferenceStart} : Alike (.afterSlash start) (.afterSlash other)
  | insideQuotes {start other : ReferenceStart} {quote otherQuote : Nat} :
      Alike (.insideQuotes start quote) (.insideQuotes other otherQuote)
  | afterStep {start other : ReferenceStart} {pathStop otherStop : Nat} :
      Alike (.afterStep start pathStop) (.afterStep other otherStop)
  | keyStart {start other : ReferenceStart} {pathStop otherStop : Nat} :
      Alike (.keyStart start pathStop) (.keyStart other otherStop)
  | afterKey {start other : ReferenceStart} {pathStop otherStop : Nat} {key : UInt16} :
      Alike (.afterKey start pathStop key) (.afterKey other otherStop key)
  | keyClosed {start other : ReferenceStart} {pathStop otherStop : Nat} {key : UInt16} :
      Alike (.keyClosed start pathStop key) (.keyClosed other otherStop key)

/-- Two states that differ in places only. -/
structure ParseState.Alike (state other : ParseState) : Prop where
  outer : List.Forall₂ Context.Alike state.outer other.outer
  level : state.level.Alike other.level
  phase : state.phase.Alike other.phase

/-- Two readings that both fail, or both come to alike results. -/
inductive Reading.Alike {First Second : Type} (alike : First → Second → Prop) :
    Reading First → Reading Second → Prop where
  | ok {first : First} {second : Second} (same : alike first second) :
      Alike alike (.ok first) (.ok second)
  | error {fault other : SyntaxError} : Alike alike (.error fault) (.error other)

namespace Reading.Alike

variable {First Second Third Fourth : Type} {alike : First → Second → Prop}
  {after : Third → Fourth → Prop}

theorem bind {reading : Reading First} {other : Reading Second} {following : First → Reading Third}
    {otherFollowing : Second → Reading Fourth} (first : Alike alike reading other)
    (next : ∀ value otherValue, alike value otherValue →
      Alike after (following value) (otherFollowing otherValue)) :
    Alike after (reading >>= following) (other >>= otherFollowing) := by
  cases first with
  | ok same => exact next _ _ same
  | error => exact .error

theorem ite {condition other : Bool} {yes no : Reading First} {otherYes otherNo : Reading Second}
    (same : other = condition) (whenTrue : condition = true → Alike alike yes otherYes)
    (whenFalse : condition = false → Alike alike no otherNo) :
    Alike alike (if condition then yes else no) (if other then otherYes else otherNo) := by
  subst same
  cases other with
  | true => exact whenTrue rfl
  | false => exact whenFalse rfl

end Reading.Alike

section Tokens

variable {token other : Token}

/-- What does not depend on the place of a token is the same for tokens at different places. -/
theorem Token.eq_of_placeless {Value : Type} (read : Token → Value)
    (independent : ∀ token, read token.placeless = read token)
    (same : other.placeless = token.placeless) : read other = read token := by
  rw [← independent other, same, independent]

theorem Token.kind_of_placeless (same : other.placeless = token.placeless) :
    other.kind = token.kind :=
  eq_of_placeless Token.kind (fun _ => rfl) same

theorem Token.text_of_placeless (same : other.placeless = token.placeless) :
    other.text = token.text :=
  eq_of_placeless Token.text (fun _ => rfl) same

theorem Token.isSymbol_of_placeless (same : other.placeless = token.placeless) (character : Char) :
    other.isSymbol character = token.isSymbol character :=
  eq_of_placeless (Token.isSymbol · character) (fun _ => rfl) same

theorem Token.isReserved_of_placeless (same : other.placeless = token.placeless) :
    other.isReserved = token.isReserved :=
  eq_of_placeless Token.isReserved (fun _ => rfl) same

theorem Token.isName_of_placeless (same : other.placeless = token.placeless) :
    other.isName = token.isName :=
  eq_of_placeless Token.isName (fun _ => rfl) same

end Tokens

theorem PendingOperator.joinTo_alike {pending other : Option PendingOperator}
    {operand otherOperand : Expression} (alike : Option.Rel PendingOperator.Alike pending other)
    (same : operand.SameTree otherOperand) :
    Reading.Alike Expression.SameTree (joinTo pending operand) (joinTo other otherOperand) := by
  cases alike with
  | none => exact .ok same
  | @some pending other alike =>
      simp only [joinTo, join, alike.kind]
      cases pending.operator.kind with
      | operation operation =>
          refine .ok ?_
          simp only [Expression.SameTree, Expression.eraseSpans_call, List.map_cons, List.map_nil]
          rw [alike.left, same]
      | number | constant | identifier | terminal | endOfInput => exact .error

theorem Level.Alike.applySign {level other : Level} {operand otherOperand : Expression}
    (alike : level.Alike other) (same : operand.SameTree otherOperand) :
    (level.applySign operand).SameTree (other.applySign otherOperand) := by
  obtain ⟨sum, product, sign⟩ := level
  obtain ⟨otherSum, otherProduct, otherSign⟩ := other
  cases alike.sign with
  | none => exact same
  | some =>
      simp only [Level.applySign, Expression.SameTree, Expression.eraseSpans]
      rw [same]

theorem Level.alike_opened : Level.opened.Alike .opened := ⟨.none, .none, .none⟩

namespace ParseState

variable {outer otherOuter : List Context} {level otherLevel : Level} {token otherToken : Token}
  {state other : ParseState} {rules otherRules : ReferenceRules}

theorem supply_alike {operand otherOperand : Expression}
    (outerAlike : List.Forall₂ Context.Alike outer otherOuter) (levelAlike : level.Alike otherLevel)
    (same : operand.SameTree otherOperand) :
    Reading.Alike Alike (supply outer level operand) (supply otherOuter otherLevel otherOperand) :=
  (PendingOperator.joinTo_alike levelAlike.product (levelAlike.applySign same)).bind
    fun _ _ same => .ok ⟨outerAlike, ⟨levelAlike.sum, .none, .none⟩, .term same⟩

theorem supplyCall_alike {operation : Operation} {name otherName closing otherClosing : Token}
    {arguments others : List Expression} (outerAlike : List.Forall₂ Context.Alike outer otherOuter)
    (levelAlike : level.Alike otherLevel)
    (same : others.map Expression.eraseSpans = arguments.map Expression.eraseSpans) :
    Reading.Alike Alike (supplyCall outer level operation name arguments closing)
      (supplyCall otherOuter otherLevel operation otherName others otherClosing) := by
  have sameLength : others.length = arguments.length := by
    simpa using congrArg List.length same
  refine .ite (by rw [sameLength]) (fun _ => supply_alike outerAlike levelAlike ?_) fun _ => .error
  rw [Expression.SameTree, Expression.eraseSpans_call, Expression.eraseSpans_call, same]

theorem Alike.readOperand (alike : state.Alike other)
    (same : otherToken.placeless = token.placeless) :
    Reading.Alike Alike (state.readOperand token) (other.readOperand otherToken) := by
  obtain ⟨outerAlike, levelAlike, -⟩ := alike
  refine .ite (Token.isSymbol_of_placeless same _) (fun _ => ?_) fun _ => ?_
  · exact .ok ⟨.cons ⟨levelAlike, .group⟩ outerAlike, Level.alike_opened, .factor⟩
  refine .ite (Token.isSymbol_of_placeless same _) (fun _ => ?_) fun _ => ?_
  · exact .ok ⟨outerAlike, levelAlike, .referenceStart⟩
  rw [Token.kind_of_placeless same]
  cases token.kind with
  | number value => exact supply_alike outerAlike levelAlike rfl
  | constant found => exact supply_alike outerAlike levelAlike rfl
  | operation operation =>
      refine .ite (Token.isReserved_of_placeless same) (fun _ => .error) fun _ => ?_
      exact .ok ⟨outerAlike, levelAlike, .callName⟩
  | identifier => exact .ok ⟨outerAlike, levelAlike, .unknownName⟩
  | terminal | endOfInput => exact .error

theorem Alike.readFactor (alike : state.Alike other)
    (same : otherToken.placeless = token.placeless) :
    Reading.Alike Alike (state.readFactor token) (other.readFactor otherToken) := by
  obtain ⟨outerAlike, levelAlike, -⟩ := id alike
  refine .ite (Token.isSymbol_of_placeless same _) (fun _ => ?_) fun _ => ?_
  · exact .ok ⟨outerAlike, ⟨levelAlike.sum, levelAlike.product, .some trivial⟩, .signed⟩
  refine .ite (Token.isSymbol_of_placeless same _) (fun _ => ?_) fun _ => ?_
  · exact .ok ⟨outerAlike, levelAlike, .signed⟩
  exact alike.readOperand same

theorem closeExpression_alike {value otherValue : Expression}
    (outerAlike : List.Forall₂ Context.Alike outer otherOuter)
    (sameValue : value.SameTree otherValue) (same : otherToken.placeless = token.placeless) :
    Reading.Alike Alike (closeExpression outer value token)
      (closeExpression otherOuter otherValue otherToken) := by
  have symbol := Token.isSymbol_of_placeless same
  cases outerAlike with
  | nil => exact .error
  | @cons context otherContext outer otherOuter contextAlike outerAlike =>
      obtain ⟨level, opener⟩ := context
      obtain ⟨otherLevel, otherOpener⟩ := otherContext
      obtain ⟨levelAlike, openerAlike⟩ := contextAlike
      cases openerAlike with
      | group =>
          refine .ite (symbol _) (fun _ => supply_alike outerAlike levelAlike ?_) fun _ => .error
          simpa [Expression.SameTree] using sameValue
      | @call operation name other arguments others sameArguments =>
          have longer : (others ++ [otherValue]).map Expression.eraseSpans =
              (arguments ++ [value]).map Expression.eraseSpans := by
            rw [List.map_append, List.map_append, sameArguments, List.map_singleton, sameValue,
              List.map_singleton]
          refine .ite (by rw [symbol, symbol]) (fun _ => ?_) fun _ => ?_
          · exact .ok ⟨.cons ⟨levelAlike, .call longer⟩ outerAlike, Level.alike_opened, .factor⟩
          · exact .ite (symbol _) (fun _ => supplyCall_alike outerAlike levelAlike longer)
              fun _ => .error

theorem Alike.readAfterFactor {term otherTerm : Expression} (alike : state.Alike other)
    (sameTerm : term.SameTree otherTerm) (same : otherToken.placeless = token.placeless) :
    Reading.Alike Alike (state.readAfterFactor term token)
      (other.readAfterFactor otherTerm otherToken) := by
  have symbol := Token.isSymbol_of_placeless same
  have kind := Token.kind_of_placeless same
  obtain ⟨outerAlike, levelAlike, -⟩ := alike
  refine .ite (by rw [symbol, symbol]) (fun _ => ?_) fun _ => ?_
  · exact .ok ⟨outerAlike, ⟨levelAlike.sum, .some ⟨sameTerm, kind⟩, levelAlike.sign⟩, .factor⟩
  refine (PendingOperator.joinTo_alike levelAlike.sum sameTerm).bind fun _ _ joined => ?_
  refine .ite (by rw [symbol, symbol]) (fun _ => ?_) fun _ => ?_
  · exact .ok ⟨outerAlike, ⟨.some ⟨joined, kind⟩, .none, .none⟩, .factor⟩
  · exact closeExpression_alike outerAlike joined same

theorem Alike.readStep {start otherStart : ReferenceStart} (alike : state.Alike other)
    (same : otherToken.placeless = token.placeless) :
    Reading.Alike Alike (state.readStep start token) (other.readStep otherStart otherToken) := by
  obtain ⟨outerAlike, levelAlike, -⟩ := alike
  refine .ite (Token.isSymbol_of_placeless same _) (fun _ => ?_) fun _ => ?_
  · exact .ok ⟨outerAlike, levelAlike, .insideQuotes⟩
  refine .ite (Token.isName_of_placeless same) (fun _ => ?_) fun _ => .error
  exact .ok ⟨outerAlike, levelAlike, .afterStep⟩

/-- Two references that may end denote the same path, or none. -/
def ResolveAlike (rules otherRules : ReferenceRules) (phase otherPhase : Phase) : Prop :=
  ∀ start pathStop key otherStart otherStop, phase.ended? = some (start, pathStop, key) →
    otherPhase.ended? = some (otherStart, otherStop, key) →
    otherRules.resolve (otherRules.raw otherStart otherStop) =
      rules.resolve (rules.raw start pathStop)

theorem Alike.closeReference {start otherStart : ReferenceStart} {pathStop otherStop : Nat}
    {key : Option UInt16} (alike : state.Alike other)
    (same : otherToken.placeless = token.placeless)
    (resolved : otherRules.resolve (otherRules.raw otherStart otherStop) =
      rules.resolve (rules.raw start pathStop)) :
    Reading.Alike Alike (closeReference rules state start pathStop key token)
      (closeReference otherRules other otherStart otherStop key otherToken) := by
  refine .ite (Token.isSymbol_of_placeless same _) (fun _ => ?_) fun _ => .error
  have references : Reading.Alike Expression.SameTree (rules.reference start pathStop key token)
      (otherRules.reference otherStart otherStop key otherToken) := by
    simp only [ReferenceRules.reference, resolved]
    cases rules.resolve (rules.raw start pathStop) with
    | none => exact .error
    | some target => exact .ok rfl
  exact references.bind fun _ _ sameReference => supply_alike alike.outer alike.level sameReference

theorem Alike.readAfterPath {start otherStart : ReferenceStart} {pathStop otherStop : Nat}
    (alike : state.Alike other) (same : otherToken.placeless = token.placeless)
    (resolved : otherRules.resolve (otherRules.raw otherStart otherStop) =
      rules.resolve (rules.raw start pathStop)) :
    Reading.Alike Alike (readAfterPath rules state start pathStop token)
      (readAfterPath otherRules other otherStart otherStop otherToken) := by
  refine .ite (Token.isSymbol_of_placeless same _) (fun _ => ?_) fun _ => ?_
  · exact .ok ⟨alike.outer, alike.level, .keyStart⟩
  · exact alike.closeReference same resolved

/-- One token leads from alike states to alike states. -/
theorem Alike.read (alike : state.Alike other) (same : otherToken.placeless = token.placeless)
    (resolved : ResolveAlike rules otherRules state.phase other.phase) :
    Reading.Alike Alike (read rules state token) (ParseState.read otherRules other otherToken) := by
  have symbol := Token.isSymbol_of_placeless same
  obtain ⟨outer, level, phase⟩ := state
  obtain ⟨otherOuter, otherLevel, otherPhase⟩ := other
  obtain ⟨outerAlike, levelAlike, phaseAlike⟩ := id alike
  cases phaseAlike with
  | factor => exact alike.readFactor same
  | signed => exact alike.readOperand same
  | term sameTerm => exact alike.readAfterFactor sameTerm same
  | callName =>
      exact .ite (symbol _) (fun _ => .ok ⟨outerAlike, levelAlike, .callStart⟩) fun _ => .error
  | callStart =>
      refine .ite (symbol _) (fun _ => supplyCall_alike outerAlike levelAlike rfl) fun _ => ?_
      exact Alike.readFactor ⟨.cons ⟨levelAlike, .call rfl⟩ outerAlike, Level.alike_opened, .factor⟩
        same
  | unknownName => exact .ite (symbol _) (fun _ => .error) fun _ => .error
  | referenceStart =>
      refine .ite (symbol _) (fun _ => ?_) fun _ => alike.readStep same
      exact .ok ⟨outerAlike, levelAlike, .afterRoot⟩
  | afterRoot =>
      refine .ite (by rw [symbol, symbol]) (fun _ => ?_) fun _ => alike.readStep same
      exact alike.readAfterPath same (resolved _ _ none _ _ rfl rfl)
  | afterSlash => exact alike.readStep same
  | insideQuotes =>
      exact .ite (symbol _) (fun _ => .ok ⟨outerAlike, levelAlike, .afterStep⟩) fun _ => .ok alike
  | afterStep =>
      refine .ite (symbol _) (fun _ => .ok ⟨outerAlike, levelAlike, .afterSlash⟩) fun _ => ?_
      exact alike.readAfterPath same (resolved _ _ none _ _ rfl rfl)
  | keyStart =>
      simp only [ParseState.read, Token.kind_of_placeless same, Token.text_of_placeless same]
      cases token.kind with
      | number =>
          cases readKey? token.text with
          | none => exact .error
          | some key => exact .ok ⟨outerAlike, levelAlike, .afterKey⟩
      | operation | constant | identifier | terminal | endOfInput => exact .error
  | afterKey =>
      exact .ite (symbol _) (fun _ => .ok ⟨outerAlike, levelAlike, .keyClosed⟩) fun _ => .error
  | keyClosed => exact alike.closeReference same (resolved _ _ (some _) _ _ rfl rfl)

theorem Alike.finish (alike : state.Alike other) (stop otherStop : Nat) :
    Reading.Alike Expression.SameTree (state.finish stop) (other.finish otherStop) := by
  obtain ⟨outer, level, phase⟩ := state
  obtain ⟨otherOuter, otherLevel, otherPhase⟩ := other
  obtain ⟨outerAlike, levelAlike, phaseAlike⟩ := alike
  cases phaseAlike with
  | term sameTerm =>
      refine (PendingOperator.joinTo_alike levelAlike.sum sameTerm).bind fun _ _ joined => ?_
      cases outerAlike with
      | nil => exact .ok joined
      | cons => exact .error
  | _ => exact .error

theorem alike_initial : initial.Alike initial := ⟨.nil, Level.alike_opened, .factor⟩

end ParseState

end InspectionFormula
