import InspectionFormula.Catalog
import InspectionFormula.Decimal

/-!
# Tokens

The parts of a formula's text: numbers, names, and reserved characters that
stand for themselves.  Every reserved character is a token.  Between them, every
run of other characters is one, trimmed, unless it is blank.
-/

namespace InspectionFormula

/-- What a token is taken for, with what it stands for. -/
inductive TokenKind where
  | number (value : Binary64)
  | operation (operation : Operation)
  | constant (constant : Constant)
  | identifier
  | terminal
  | endOfInput

structure Token where
  kind : TokenKind
  text : List Char
  start : Nat

namespace Token

/-- The token after all others. -/
def endOfInput (position : Nat) : Token := ⟨.endOfInput, [], position⟩

def length (token : Token) : Nat := Text.byteLength token.text

def stop (token : Token) : Nat := token.start + token.length

def span (token : Token) : Span := ⟨token.start, token.length⟩

/-- Whether a token is a certain reserved character.  Operators are known by their text, whether or
not the catalog has an operation of that name. -/
def isSymbol (token : Token) (character : Char) : Bool := token.text == [character]

def isReserved (token : Token) : Bool :=
  match token.text with
  | [character] => Text.isReserved character
  | _ => false

/-- Whether a token can be a step of a path without quotes. -/
def isName (token : Token) : Bool :=
  !token.isReserved && match token.kind with
    | .number _ | .operation _ | .constant _ | .identifier => true
    | .terminal | .endOfInput => false

def name (token : Token) : String := String.ofList token.text

def display (token : Token) : String :=
  match token.kind with
  | .endOfInput => "end of formula"
  | _ => quoteText token.name

@[simp] theorem start_span (token : Token) : token.span.start = token.start := rfl

@[simp] theorem stop_span (token : Token) : token.span.stop = token.stop := rfl

end Token

namespace Text

/-- A text cut at its reserved characters, each a piece of its own. -/
def pieces : List Char → List (List Char)
  | [] => []
  | character :: rest =>
      if isReserved character then [character] :: pieces rest
      else match pieces rest with
        | (next :: run) :: others =>
            if isReserved next then [character] :: (next :: run) :: others
            else (character :: next :: run) :: others
        | others => [character] :: others

@[simp] theorem flatten_pieces (text : List Char) : (pieces text).flatten = text := by
  induction text with
  | nil => rfl
  | cons character rest ih =>
      unfold pieces
      split
      · simp [ih]
      · split
        · next next run others equation =>
          rw [equation] at ih
          split <;> simp_all
        · simp [ih]

end Text

namespace TokenKind

/-- What a text is taken for: the first of a number, an operation, a constant, a reserved character
and an identifier that it can be. -/
def classify (catalog : Catalog) (text : List Char) : TokenKind :=
  match Binary64.readLiteral? text with
  | some value => .number value
  | none => match catalog.operation? (String.ofList text) with
    | some found => .operation found
    | none => match catalog.constant? (String.ofList text) with
      | some found => .constant found
      | none => match text with
        | [character] => if Text.isReserved character then .terminal else .identifier
        | _ => .identifier

end TokenKind

namespace Token

/-- The token in a piece of text at an offset, if the piece is not blank. -/
def ofPiece? (catalog : Catalog) (offset : Nat) (piece : List Char) : Option Token :=
  let text := Text.trim piece
  if text.isEmpty then none
  else
    let blanks := Text.byteLength (piece.takeWhile Text.isWhiteSpace)
    some ⟨TokenKind.classify catalog text, text, offset + blanks⟩

def ofPieces (catalog : Catalog) (offset : Nat) : List (List Char) → List Token
  | [] => []
  | piece :: others =>
      (ofPiece? catalog offset piece).toList ++
        ofPieces catalog (offset + Text.byteLength piece) others

def scan (catalog : Catalog) (formula : String) : List Token :=
  ofPieces catalog 0 (Text.pieces formula.toList)

/-- The tokens of a formula and the end after them. -/
def stream (catalog : Catalog) (formula : String) : List Token :=
  scan catalog formula ++ [endOfInput (Text.byteLength formula.toList)]

end Token

end InspectionFormula
