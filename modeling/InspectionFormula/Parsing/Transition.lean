import InspectionFormula.Parsing.State

/-!
# Reading a formula

A formula is read token by token, each deciding the next state or the fault.  The
grammar is

* expression: terms between `+` and `-`;
* term: factors between `*` and `/`;
* factor: an operand after an optional sign;
* operand: a number, a constant, a call, an expression in parentheses or a
  reference in braces;
* call: an operation and its arguments in parentheses, between `,` or `;`;
* reference: an optional `/`, steps between `/`, and an optional key in
  parentheses;
* step: a name, or any tokens in quotes.
-/

namespace InspectionFormula

/-- A key in decimal digits, within the range of keys. -/
def readKey? (text : List Char) : Option UInt16 :=
  if !text.isEmpty && text.all Char.isDigit then
    let value := Nat.ofDigitChars 10 text 0
    if value < Nat.pow 2 16 then some (UInt16.ofNat value) else none
  else none

def misplaced (expected : Expected) (token : Token) : SyntaxError :=
  ⟨.missing expected (some token.name), token.start⟩

def endedBefore (expected : Expected) (stop : Nat) : SyntaxError := ⟨.missing expected none, stop⟩

/-- What references are read with: the text that they stand in and the paths that they denote. -/
structure ReferenceRules where
  source : List Char
  resolve : String → Option Path

namespace ReferenceRules

def raw (rules : ReferenceRules) (start : ReferenceStart) (pathStop : Nat) : String :=
  String.ofList ((Text.slice? rules.source start.pathStart pathStop).getD [])

def reference (rules : ReferenceRules) (start : ReferenceStart) (pathStop : Nat)
    (key : Option UInt16) (closing : Token) : Reading Expression :=
  let raw := rules.raw start pathStop
  match rules.resolve raw with
  | some path => .ok (.reference ⟨path, key⟩ (start.opening.through closing.span))
  | none => .error ⟨.unresolvedPath raw, start.pathStart⟩

end ReferenceRules

namespace ParseState

def readOperand (state : ParseState) (token : Token) : Reading ParseState :=
  if token.isSymbol '(' then
    .ok ⟨⟨state.level, .group token.span⟩ :: state.outer, .opened, .factor⟩
  else if token.isSymbol '{' then .ok { state with phase := .referenceStart token.span }
  else match token.kind with
    | .number value => supply state.outer state.level (.number value token.span)
    | .constant found => supply state.outer state.level (.constant found token.span)
    | .operation operation =>
        if token.isReserved then .error (misplaced .value token)
        else .ok { state with phase := .callName operation token }
    | .identifier => .ok { state with phase := .unknownName token }
    | .terminal | .endOfInput => .error (misplaced .value token)

def readFactor (state : ParseState) (token : Token) : Reading ParseState :=
  if token.isSymbol '-' then
    .ok { state with level := { state.level with sign := some token.span }, phase := .signed }
  else if token.isSymbol '+' then .ok { state with phase := .signed }
  else state.readOperand token

/-- The state after the token that ends an expression between brackets. -/
def closeExpression (outer : List Context) (value : Expression) (token : Token) :
    Reading ParseState :=
  match outer with
  | [] => .error (misplaced .endOfFormula token)
  | ⟨level, .group opening⟩ :: outer =>
      if token.isSymbol ')' then supply outer level (value.withSpan (opening.through token.span))
      else .error (misplaced (.symbol ')') token)
  | ⟨level, .call operation name arguments⟩ :: outer =>
      if token.isSymbol ',' || token.isSymbol ';' then
        .ok ⟨⟨level, .call operation name (arguments ++ [value])⟩ :: outer, .opened, .factor⟩
      else if token.isSymbol ')' then
        supplyCall outer level operation name (arguments ++ [value]) token
      else .error (misplaced (.symbol ')') token)

/-- The state after the token that follows a factor. -/
def readAfterFactor (state : ParseState) (term : Expression) (token : Token) :
    Reading ParseState :=
  if token.isSymbol '*' || token.isSymbol '/' then
    .ok ⟨state.outer, { state.level with product := some ⟨term, token⟩ }, .factor⟩
  else do
    let value ← state.level.joinSum term
    if token.isSymbol '+' || token.isSymbol '-' then
      .ok ⟨state.outer, ⟨some ⟨value, token⟩, none, none⟩, .factor⟩
    else closeExpression state.outer value token

def readStep (state : ParseState) (start : ReferenceStart) (token : Token) : Reading ParseState :=
  if token.isSymbol '"' then .ok { state with phase := .insideQuotes start token.start }
  else if token.isName then .ok { state with phase := .afterStep start token.stop }
  else .error (misplaced .pathSegment token)

def closeReference (rules : ReferenceRules) (state : ParseState) (start : ReferenceStart)
    (pathStop : Nat) (key : Option UInt16) (token : Token) : Reading ParseState :=
  if token.isSymbol '}' then do
    supply state.outer state.level (← rules.reference start pathStop key token)
  else .error (misplaced (.symbol '}') token)

/-- The state after the token that follows a path which may end. -/
def readAfterPath (rules : ReferenceRules) (state : ParseState) (start : ReferenceStart)
    (pathStop : Nat) (token : Token) : Reading ParseState :=
  if token.isSymbol '(' then .ok { state with phase := .keyStart start pathStop }
  else closeReference rules state start pathStop none token

def read (rules : ReferenceRules) (state : ParseState) (token : Token) : Reading ParseState :=
  match state.phase with
  | .factor => state.readFactor token
  | .signed => state.readOperand token
  | .term value => state.readAfterFactor value token
  | .callName operation name =>
      if token.isSymbol '(' then .ok { state with phase := .callStart operation name }
      else .error (misplaced (.symbol '(') token)
  | .callStart operation name =>
      if token.isSymbol ')' then supplyCall state.outer state.level operation name [] token
      else
        readFactor ⟨⟨state.level, .call operation name []⟩ :: state.outer, .opened, .factor⟩ token
  | .unknownName name =>
      if token.isSymbol '(' then .error ⟨.unknownFunction name.name, name.start⟩
      else .error ⟨.unexpectedIdentifier name.name, name.start⟩
  | .referenceStart opening =>
      let start : ReferenceStart := ⟨opening, token.start⟩
      if token.isSymbol '/' then .ok { state with phase := .afterRoot start token.stop }
      else state.readStep start token
  | .afterRoot start pathStop =>
      if token.isSymbol '}' || token.isSymbol '(' then
        readAfterPath rules state start pathStop token
      else state.readStep start token
  | .afterSlash start => state.readStep start token
  | .insideQuotes start _ =>
      if token.isSymbol '"' then .ok { state with phase := .afterStep start token.stop }
      else .ok state
  | .afterStep start pathStop =>
      if token.isSymbol '/' then .ok { state with phase := .afterSlash start }
      else readAfterPath rules state start pathStop token
  | .keyStart start pathStop =>
      match token.kind with
      | .number _ => match readKey? token.text with
        | some key => .ok { state with phase := .afterKey start pathStop key }
        | none => .error ⟨.invalidAttributeKey token.name, token.start⟩
      | _ => .error (misplaced .attributeKey token)
  | .afterKey start pathStop key =>
      if token.isSymbol ')' then .ok { state with phase := .keyClosed start pathStop key }
      else .error (misplaced (.symbol ')') token)
  | .keyClosed start pathStop key => closeReference rules state start pathStop (some key) token

/-- What is missing at the end of a formula that ends too early. -/
def missingAtEnd (state : ParseState) (stop : Nat) : SyntaxError :=
  match state.phase with
  | .factor | .signed | .callStart _ _ => endedBefore .value stop
  | .term _ | .afterKey _ _ _ => endedBefore (.symbol ')') stop
  | .callName _ _ => endedBefore (.symbol '(') stop
  | .unknownName name => ⟨.unexpectedIdentifier name.name, name.start⟩
  | .referenceStart _ | .afterRoot _ _ | .afterSlash _ => endedBefore .pathSegment stop
  | .insideQuotes _ quote => ⟨.unterminatedQuote, quote⟩
  | .afterStep _ _ | .keyClosed _ _ _ => endedBefore (.symbol '}') stop
  | .keyStart _ _ => endedBefore .attributeKey stop

/-- The expression that has been read at the end of a formula. -/
def finish (state : ParseState) (stop : Nat) : Reading Expression :=
  match state.phase with
  | .term value => do
      let value ← state.level.joinSum value
      match state.outer with
      | [] => .ok value
      | _ => .error (state.missingAtEnd stop)
  | _ => .error (state.missingAtEnd stop)

end ParseState

def Expression.ofTokens? (rules : ReferenceRules) (tokens : List Token) (stop : Nat) :
    Reading Expression := do
  let state ← tokens.foldlM (ParseState.read rules) ParseState.initial
  state.finish stop

def Expression.parse (catalog : Catalog) (resolve : String → Option Path) (formula : String) :
    Reading Expression :=
  ofTokens? ⟨formula.toList, resolve⟩ (Token.scan catalog formula)
    (Text.byteLength formula.toList)

end InspectionFormula
