import InspectionFormula.Parsing.Transition

/-!
# The grammar of formulas

Which tokens form an expression and the tree that they form, said without a
reading order.  Sums and products are left recursive, so chains of operators
associate to the left.  A derivation also fixes the spans of the tree.
-/

namespace InspectionFormula.Grammar

/-- A step of a path: a token that is not reserved, or tokens in quotes. -/
inductive IsStep : List Token → Prop where
  | name {token : Token} (plain : token.isReserved = false) : IsStep [token]
  | quoted {opening closing : Token} {inner : List Token}
      (opens : opening.isSymbol '"' = true)
      (within : ∀ token ∈ inner, token.isSymbol '"' = false)
      (closes : closing.isSymbol '"' = true) :
      IsStep (opening :: inner ++ [closing])

/-- Steps between slashes. -/
inductive AreSteps : List Token → Prop where
  | one {tokens : List Token} (step : IsStep tokens) : AreSteps tokens
  | more {tokens last : List Token} {slash : Token} (steps : AreSteps tokens)
      (separates : slash.isSymbol '/' = true) (step : IsStep last) :
      AreSteps (tokens ++ slash :: last)

/-- A slash alone, or steps with or without a slash before them. -/
inductive IsPath : List Token → Prop where
  | root {slash : Token} (isSlash : slash.isSymbol '/' = true) : IsPath [slash]
  | relative {tokens : List Token} (steps : AreSteps tokens) : IsPath tokens
  | absolute {slash : Token} {tokens : List Token} (isSlash : slash.isSymbol '/' = true)
      (steps : AreSteps tokens) : IsPath (slash :: tokens)

/-- A decimal number in the range of keys. -/
structure IsDecimalKey (text : List Char) (key : UInt16) : Prop where
  nonempty : text ≠ []
  digits : ∀ character ∈ text, character.isDigit = true
  value : Nat.ofDigitChars 10 text 0 = key.toNat

theorem readKey?_eq_some_iff {text : List Char} {key : UInt16} :
    readKey? text = some key ↔ IsDecimalKey text key := by
  have range : key.toNat < Nat.pow 2 16 := key.toNat_lt
  constructor
  · intro found
    simp only [readKey?] at found
    split at found
    · next decimal =>
      simp only [Bool.and_eq_true, Bool.not_eq_true', List.isEmpty_eq_false_iff,
        List.all_eq_true] at decimal
      split at found
      · next small =>
        refine ⟨decimal.1, decimal.2, ?_⟩
        rw [← Option.some.inj found, UInt16.toNat_ofNat_of_lt' small]
      · cases found
    · cases found
  · rintro ⟨nonempty, digits, value⟩
    have decimal : (!text.isEmpty && text.all Char.isDigit) = true := by
      simpa [nonempty] using digits
    simp only [readKey?, decimal, if_true, value, range, UInt16.ofNat_toNat]

/-- Nothing, or a key in parentheses. -/
inductive IsKey : List Token → Option UInt16 → Prop where
  | none : IsKey [] none
  | some {opening number closing : Token} {value : Binary64} {key : UInt16}
      (opens : opening.isSymbol '(' = true) (isNumber : number.kind = .number value)
      (isKey : IsDecimalKey number.text key) (closes : closing.isSymbol ')' = true) :
      IsKey [opening, number, closing] (some key)

/-- Where the first of some tokens starts. -/
def startOf (tokens : List Token) : Nat := (tokens.head?.map Token.start).getD 0

/-- Where the last of some tokens ends. -/
def stopOf (tokens : List Token) : Nat := (tokens.getLast?.map Token.stop).getD 0

/-- The source text from the first of some tokens through the last. -/
def textThrough (source : List Char) (tokens : List Token) : String :=
  String.ofList ((Text.slice? source (startOf tokens) (stopOf tokens)).getD [])

@[simp] theorem startOf_cons (token : Token) (tokens : List Token) :
    startOf (token :: tokens) = token.start := rfl

theorem startOf_append {tokens : List Token} (nonempty : tokens ≠ []) (more : List Token) :
    startOf (tokens ++ more) = startOf tokens := by
  cases tokens with
  | nil => exact absurd rfl nonempty
  | cons token tokens => rfl

@[simp] theorem stopOf_singleton (token : Token) : stopOf [token] = token.stop := rfl

theorem stopOf_append (tokens : List Token) {more : List Token} (nonempty : more ≠ []) :
    stopOf (tokens ++ more) = stopOf more := by
  rw [stopOf, stopOf, List.getLast?_append, List.getLast?_eq_some_getLast nonempty]
  rfl

theorem stopOf_cons (token : Token) {more : List Token} (nonempty : more ≠ []) :
    stopOf (token :: more) = stopOf more :=
  stopOf_append [token] nonempty

theorem IsStep.ne_nil {tokens : List Token} (isStep : IsStep tokens) : tokens ≠ [] := by
  cases isStep <;> simp

theorem AreSteps.ne_nil {tokens : List Token} (areSteps : AreSteps tokens) : tokens ≠ [] := by
  cases areSteps with
  | one isStep => exact isStep.ne_nil
  | more => simp

theorem IsPath.ne_nil {tokens : List Token} (isPath : IsPath tokens) : tokens ≠ [] := by
  cases isPath with
  | root => simp
  | relative areSteps => exact areSteps.ne_nil
  | absolute => simp

mutual

inductive IsExpression (rules : ReferenceRules) : List Token → Expression → Prop where
  | term {tokens : List Token} {value : Expression} (isTerm : IsTerm rules tokens value) :
      IsExpression rules tokens value
  | sum {tokens last : List Token} {left right : Expression} {operator : Token}
      {operation : Operation} (isSum : IsExpression rules tokens left)
      (isTerm : IsTerm rules last right)
      (isOperator : operator.isSymbol '+' = true ∨ operator.isSymbol '-' = true)
      (known : operator.kind = .operation operation) :
      IsExpression rules (tokens ++ operator :: last)
        (.call operation [left, right] (left.span.through right.span))

inductive IsTerm (rules : ReferenceRules) : List Token → Expression → Prop where
  | factor {tokens : List Token} {value : Expression}
      (isFactor : IsFactor rules tokens value) : IsTerm rules tokens value
  | product {tokens last : List Token} {left right : Expression} {operator : Token}
      {operation : Operation} (isProduct : IsTerm rules tokens left)
      (isFactor : IsFactor rules last right)
      (isOperator : operator.isSymbol '*' = true ∨ operator.isSymbol '/' = true)
      (known : operator.kind = .operation operation) :
      IsTerm rules (tokens ++ operator :: last)
        (.call operation [left, right] (left.span.through right.span))

/-- An operand, which a minus negates and a plus leaves as it is. -/
inductive IsFactor (rules : ReferenceRules) : List Token → Expression → Prop where
  | operand {tokens : List Token} {value : Expression}
      (isOperand : IsOperand rules tokens value) : IsFactor rules tokens value
  | plus {sign : Token} {tokens : List Token} {value : Expression}
      (isSign : sign.isSymbol '+' = true) (isOperand : IsOperand rules tokens value) :
      IsFactor rules (sign :: tokens) value
  | minus {sign : Token} {tokens : List Token} {value : Expression}
      (isSign : sign.isSymbol '-' = true) (isOperand : IsOperand rules tokens value) :
      IsFactor rules (sign :: tokens) (.negate value (sign.span.through value.span))

/-- A number, a constant, an expression in parentheses, a call, or a reference in braces.  A
reserved character is not called, even if an operation bears its name. -/
inductive IsOperand (rules : ReferenceRules) : List Token → Expression → Prop where
  | number {token : Token} {value : Binary64} (isNumber : token.kind = .number value) :
      IsOperand rules [token] (.number value token.span)
  | constant {token : Token} {constant : Constant} (isConstant : token.kind = .constant constant) :
      IsOperand rules [token] (.constant constant token.span)
  | group {opening closing : Token} {tokens : List Token} {value : Expression}
      (opens : opening.isSymbol '(' = true) (isExpression : IsExpression rules tokens value)
      (closes : closing.isSymbol ')' = true) :
      IsOperand rules (opening :: tokens ++ [closing])
        (value.withSpan (opening.span.through closing.span))
  | call {name opening closing : Token} {operation : Operation} {tokens : List Token}
      {arguments : List Expression} (isOperation : name.kind = .operation operation)
      (plain : name.isReserved = false) (opens : opening.isSymbol '(' = true)
      (areArguments : AreArguments rules tokens arguments)
      (closes : closing.isSymbol ')' = true)
      (accepted : operation.arity.accepts arguments.length = true) :
      IsOperand rules (name :: opening :: tokens ++ [closing])
        (.call operation arguments (name.span.through closing.span))
  | reference {opening closing : Token} {path key : List Token} {target : Path}
      {number : Option UInt16} (opens : opening.isSymbol '{' = true) (isPath : IsPath path)
      (isKey : IsKey key number) (closes : closing.isSymbol '}' = true)
      (resolves : rules.resolve (textThrough rules.source path) = some target) :
      IsOperand rules (opening :: path ++ key ++ [closing])
        (.reference ⟨target, number⟩ (opening.span.through closing.span))

/-- No expression, or expressions between commas or semicolons. -/
inductive AreArguments (rules : ReferenceRules) : List Token → List Expression → Prop where
  | none : AreArguments rules [] []
  | some {tokens : List Token} {arguments : List Expression}
      (areListed : AreListed rules tokens arguments) : AreArguments rules tokens arguments

inductive AreListed (rules : ReferenceRules) : List Token → List Expression → Prop where
  | one {tokens : List Token} {value : Expression}
      (isExpression : IsExpression rules tokens value) : AreListed rules tokens [value]
  | more {tokens last : List Token} {earlier : List Expression} {value : Expression}
      {separator : Token} (areListed : AreListed rules tokens earlier)
      (separates : separator.isSymbol ',' = true ∨ separator.isSymbol ';' = true)
      (isExpression : IsExpression rules last value) :
      AreListed rules (tokens ++ separator :: last) (earlier ++ [value])

end

end InspectionFormula.Grammar
