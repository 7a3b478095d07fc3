import InspectionFormula.Token
import InspectionFormula.Proofs.Catalog.Lookup
import InspectionFormula.Proofs.Text.ReservedCase

/-!
# The kinds of scanned tokens

A token is at most one reserved character, and a regular one is taken for a name
or a value only if it is none.  A scanned token is taken for what its text is.
Reserved characters are regular tokens unless a constant bears the name of one.
-/

namespace InspectionFormula

namespace Token

variable {token : Token} {character : Char}

theorem text_of_isSymbol (symbol : token.isSymbol character = true) :
    token.text = [character] := by
  simpa [isSymbol] using symbol

/-- A token that is one character is no other. -/
theorem isSymbol_eq_beq (symbol : token.isSymbol character = true) (other : Char) :
    token.isSymbol other = (character == other) := by
  simp [isSymbol, text_of_isSymbol symbol]

theorem isReserved_of_isSymbol (symbol : token.isSymbol character = true) :
    token.isReserved = Text.isReserved character := by
  simp [isReserved, text_of_isSymbol symbol]

theorem isSymbol_eq_false (plain : token.isReserved = false)
    (reserved : Text.isReserved character = true) : token.isSymbol character = false := by
  cases symbol : token.isSymbol character with
  | false => rfl
  | true =>
      rw [isReserved_of_isSymbol symbol, reserved] at plain
      exact Bool.noConfusion plain

/-- A token is regular if it is no end, and a value or a name only if it is not reserved. -/
def IsRegular (token : Token) : Prop :=
  match token.kind with
  | .operation _ => True
  | .terminal => token.isReserved = true
  | .number _ | .constant _ | .identifier => token.isReserved = false
  | .endOfInput => False

theorem isName_iff (regular : token.IsRegular) :
    token.isName = true ↔ token.isReserved = false := by
  unfold IsRegular at regular
  unfold isName
  split at regular <;> simp_all

end Token

/-- No constant bears the name of a reserved character. -/
def Catalog.SparesReserved (catalog : Catalog) : Prop :=
  ∀ constant ∈ catalog.constants.values, ∀ character,
    Text.isReserved character = true → constant.name.toList ≠ [character]

namespace Token

variable {catalog : Catalog} {token : Token}

theorem ofPiece?_eq_some {offset : Nat} {piece : List Char}
    (found : ofPiece? catalog offset piece = some token) :
    token.kind = TokenKind.classify catalog token.text := by
  simp only [ofPiece?] at found
  split at found
  · cases found
  · cases found
    rfl

theorem kind_of_mem_ofPieces {offset : Nat} {pieces : List (List Char)}
    (member : token ∈ ofPieces catalog offset pieces) :
    token.kind = TokenKind.classify catalog token.text := by
  induction pieces generalizing offset with
  | nil => cases member
  | cons piece pieces ih =>
      rcases List.mem_append.1 member with here | later
      · exact ofPiece?_eq_some (Option.mem_toList.1 here)
      · exact ih later

theorem kind_of_mem_scan {formula : String} (member : token ∈ scan catalog formula) :
    token.kind = TokenKind.classify catalog token.text :=
  kind_of_mem_ofPieces member

theorem readLiteral?_reserved {character : Char} (reserved : Text.isReserved character = true) :
    Binary64.readLiteral? [character] = none := by
  have each : Text.reservedCharacters.all
      (fun character => (Binary64.readLiteral? [character]).isNone) = true := by
    decide +kernel
  exact Option.isNone_iff_eq_none.1 (Text.property_of_isReserved each reserved)

theorem exists_of_isReserved (reserved : token.isReserved = true) :
    ∃ character, token.text = [character] ∧ Text.isReserved character = true := by
  unfold isReserved at reserved
  split at reserved
  · next character single => exact ⟨character, single, reserved⟩
  · cases reserved

theorem constant?_reserved (spares : catalog.SparesReserved) {character : Char}
    (reserved : Text.isReserved character = true) :
    catalog.constant? (String.ofList [character]) = none := by
  cases found : catalog.constant? (String.ofList [character]) with
  | none => rfl
  | some constant =>
      obtain ⟨member, named⟩ := Catalog.constant?_eq_some_iff.1 found
      exact absurd (Text.eq_of_lowercase_reserved reserved named)
        (spares constant member character reserved)

/-- A reserved character is taken for an operation of its name or for itself. -/
theorem classify_reserved (spares : catalog.SparesReserved) {character : Char}
    (reserved : Text.isReserved character = true) :
    TokenKind.classify catalog [character] = .terminal ∨
      ∃ operation, TokenKind.classify catalog [character] = .operation operation := by
  unfold TokenKind.classify
  rw [readLiteral?_reserved reserved, constant?_reserved spares reserved]
  cases catalog.operation? (String.ofList [character]) with
  | none => simp [reserved]
  | some operation => exact .inr ⟨operation, rfl⟩

theorem readLiteral?_of_classify {text : List Char} {value : Binary64}
    (kind : TokenKind.classify catalog text = .number value) :
    Binary64.readLiteral? text = some value := by
  unfold TokenKind.classify at kind
  split at kind
  · next read =>
      cases kind
      exact read
  · repeat' split at kind
    all_goals cases kind

theorem operation?_of_classify {text : List Char} {operation : Operation}
    (kind : TokenKind.classify catalog text = .operation operation) :
    catalog.operation? (String.ofList text) = some operation := by
  unfold TokenKind.classify at kind
  split at kind
  · cases kind
  · split at kind
    · next found =>
        cases kind
        exact found
    · repeat' split at kind
      all_goals cases kind

theorem constant?_of_classify {text : List Char} {constant : Constant}
    (kind : TokenKind.classify catalog text = .constant constant) :
    catalog.constant? (String.ofList text) = some constant := by
  unfold TokenKind.classify at kind
  split at kind
  · cases kind
  · split at kind
    · cases kind
    · split at kind
      · next found =>
          cases kind
          exact found
      · repeat' split at kind
        all_goals cases kind

theorem isReserved_of_classify (terminal : TokenKind.classify catalog token.text = .terminal) :
    token.isReserved = true := by
  unfold TokenKind.classify at terminal
  split at terminal
  · cases terminal
  · split at terminal
    · cases terminal
    · split at terminal
      · cases terminal
      · split at terminal
        · next character single =>
          split at terminal
          · next reserved => simpa [isReserved, single] using reserved
          · cases terminal
        · cases terminal

theorem classify_ne_endOfInput (text : List Char) :
    TokenKind.classify catalog text ≠ .endOfInput := by
  unfold TokenKind.classify
  repeat' split
  all_goals exact TokenKind.noConfusion

/-- A scanned token that is not reserved can be a step of a path. -/
theorem isName_of_mem_scan {formula : String} (member : token ∈ scan catalog formula)
    (plain : token.isReserved = false) : token.isName = true := by
  have kind := kind_of_mem_scan member
  cases named : token.kind with
  | terminal =>
      rw [isReserved_of_classify (kind.symm.trans named)] at plain
      cases plain
  | endOfInput => exact absurd (kind.symm.trans named) (classify_ne_endOfInput token.text)
  | number | operation | constant | identifier => simp [isName, plain, named]

/-- Scanned tokens are regular. -/
theorem isRegular_of_mem_scan (spares : catalog.SparesReserved) {formula : String}
    (member : token ∈ scan catalog formula) : token.IsRegular := by
  have kind := kind_of_mem_scan member
  have plain (other : token.kind ≠ .terminal)
      (unnamed : ∀ operation, token.kind ≠ .operation operation) : token.isReserved = false := by
    cases reserved : token.isReserved with
    | false => rfl
    | true =>
        obtain ⟨character, single, isReserved⟩ := exists_of_isReserved reserved
        rw [kind, single] at other unnamed
        rcases classify_reserved spares isReserved with terminal | ⟨operation, named⟩
        · exact absurd terminal other
        · exact absurd named (unnamed operation)
  unfold IsRegular
  split
  · trivial
  · next terminal => exact isReserved_of_classify (kind ▸ terminal)
  · next number => exact plain (by simp [number]) (by simp [number])
  · next constant => exact plain (by simp [constant]) (by simp [constant])
  · next identifier => exact plain (by simp [identifier]) (by simp [identifier])
  · next ended => exact classify_ne_endOfInput _ (kind ▸ ended)

end Token

end InspectionFormula
