import InspectionFormula.Proofs.Text.ReservedCase
import InspectionFormula.Proofs.Text.Basic
import InspectionFormula.Token

/-!
# Tokens of composed texts

A reserved character cuts a text in two that are scanned apart, and blanks at
the ends of a text are not seen.
-/

namespace InspectionFormula

namespace Text

variable {reserved : Char}

theorem pieces_cons_reserved (isReserved : isReserved reserved = true) (text : List Char) :
    pieces (reserved :: text) = [reserved] :: pieces text := by
  rw [pieces, if_pos isReserved]

theorem pieces_append_reserved (isReserved : isReserved reserved = true)
    (front back : List Char) :
    pieces (front ++ reserved :: back) = pieces front ++ [reserved] :: pieces back := by
  induction front with
  | nil => exact pieces_cons_reserved isReserved back
  | cons character front ih =>
      rw [List.cons_append, pieces, pieces, ih]
      split
      · rfl
      · cases pieces front with
        | nil => simp [isReserved]
        | cons piece others =>
            cases piece with
            | nil => rfl
            | cons next run =>
                simp only [List.cons_append]
                split <;> rfl

/-- A text without reserved characters is one piece. -/
theorem pieces_of_unreserved {text : List Char} (nonempty : text ≠ [])
    (unreserved : ∀ character ∈ text, Text.isReserved character = false) :
    pieces text = [text] := by
  induction text with
  | nil => exact absurd rfl nonempty
  | cons character text ih =>
      rw [pieces, if_neg (by simp [unreserved character])]
      cases text with
      | nil => rfl
      | cons next run =>
          rw [ih (by simp) fun other member =>
            unreserved other (List.mem_cons_of_mem _ member)]
          simp [unreserved next]

/-- A text has no reserved character, or one after which there is no other. -/
theorem unreserved_or_last_reserved (text : List Char) :
    (∀ character ∈ text, Text.isReserved character = false) ∨
      ∃ front reserved word, text = front ++ reserved :: word ∧
        Text.isReserved reserved = true ∧
          ∀ character ∈ word, Text.isReserved character = false := by
  induction text with
  | nil => exact .inl (by simp)
  | cons character text ih =>
      rcases ih with plain | ⟨front, reserved, word, rfl, isReserved, plain⟩
      · cases own : Text.isReserved character with
        | false => exact .inl (by simpa [own] using plain)
        | true => exact .inr ⟨[], character, text, rfl, own, plain⟩
      · exact .inr ⟨character :: front, reserved, word, rfl, isReserved, plain⟩

theorem unreserved_or_first_reserved (text : List Char) :
    (∀ character ∈ text, Text.isReserved character = false) ∨
      ∃ word reserved back, text = word ++ reserved :: back ∧
        Text.isReserved reserved = true ∧
          ∀ character ∈ word, Text.isReserved character = false := by
  rcases unreserved_or_last_reserved text.reverse with
    plain | ⟨front, reserved, word, same, isReserved, plain⟩
  · exact .inl fun character member => plain character (List.mem_reverse.2 member)
  · refine .inr ⟨word.reverse, reserved, front.reverse, ?_, isReserved, by simpa using plain⟩
    rw [← List.reverse_reverse text, same]
    simp

/-- A text that is scanned as one token. -/
structure IsWord (text : List Char) : Prop where
  nonempty : text ≠ []
  trimmed : trim text = text
  unreserved : ∀ character ∈ text, Text.isReserved character = false

end Text

namespace Token

variable {catalog : Catalog}

/-- The tokens of a text that stands at an offset. -/
def scanFrom (catalog : Catalog) (offset : Nat) (text : List Char) : List Token :=
  ofPieces catalog offset (Text.pieces text)

/-- The token that a whole text is. -/
def ofText (catalog : Catalog) (offset : Nat) (text : List Char) : Token :=
  ⟨TokenKind.classify catalog text, text, offset⟩

theorem kind_ofText (offset : Nat) (text : List Char) :
    (ofText catalog offset text).kind = TokenKind.classify catalog text := rfl

@[simp] theorem start_ofText (offset : Nat) (text : List Char) :
    (ofText catalog offset text).start = offset := rfl

@[simp] theorem stop_ofText (offset : Nat) (text : List Char) :
    (ofText catalog offset text).stop = offset + Text.byteLength text := rfl

theorem scan_eq_scanFrom (formula : String) :
    scan catalog formula = scanFrom catalog 0 formula.toList := rfl

theorem ofPieces_append (offset : Nat) (front back : List (List Char)) :
    ofPieces catalog offset (front ++ back) =
      ofPieces catalog offset front ++
        ofPieces catalog (offset + Text.byteLength front.flatten) back := by
  induction front generalizing offset with
  | nil => simp [ofPieces]
  | cons piece front ih =>
      rw [List.cons_append, ofPieces, ofPieces, ih, List.flatten_cons, Text.byteLength_append,
        List.append_assoc, Nat.add_assoc]

theorem isWhiteSpace_of_isReserved {reserved : Char}
    (isReserved : Text.isReserved reserved = true) : Text.isWhiteSpace reserved = false := by
  have each : Text.reservedCharacters.all (fun reserved => !Text.isWhiteSpace reserved) = true := by
    decide
  simpa using Text.property_of_isReserved each isReserved

theorem ofPiece?_of_trimmed (offset : Nat) {text : List Char} (nonempty : text ≠ [])
    (trimmed : Text.trim text = text) :
    ofPiece? catalog offset text = some (ofText catalog offset text) := by
  cases text with
  | nil => exact absurd rfl nonempty
  | cons first rest =>
      have ink : Text.isWhiteSpace first = false := (Text.trim_eq_self_iff.1 trimmed).1 first rfl
      rw [ofPiece?, trimmed]
      simp [ink, ofText]

theorem ofPiece?_cons_blank (offset : Nat) {blank : Char}
    (isBlank : Text.isWhiteSpace blank = true) (text : List Char) :
    ofPiece? catalog offset (blank :: text) =
      ofPiece? catalog (offset + blank.utf8Size) text := by
  rw [ofPiece?, ofPiece?, Text.trim_cons_blank isBlank, List.takeWhile_cons_of_pos isBlank,
    Text.byteLength_cons]
  simp only [Nat.add_assoc]

theorem ofPiece?_append_blank (offset : Nat) {blank : Char}
    (isBlank : Text.isWhiteSpace blank = true) (text : List Char) :
    ofPiece? catalog offset (text ++ [blank]) = ofPiece? catalog offset text := by
  rw [ofPiece?, ofPiece?, Text.trim_append_blank isBlank]
  split
  · rfl
  · next ink =>
      have stops : (text ++ [blank]).takeWhile Text.isWhiteSpace =
          text.takeWhile Text.isWhiteSpace := by
        rw [List.takeWhile_append, if_neg]
        intro all
        have whole : text.takeWhile Text.isWhiteSpace = text :=
          (List.takeWhile_prefix _).eq_of_length all
        have blankText : Text.trimStart text = [] := by
          have parts := List.takeWhile_append_dropWhile (p := Text.isWhiteSpace) (l := text)
          rw [whole] at parts
          exact List.append_cancel_left (parts.trans (List.append_nil text).symm)
        rw [Text.trim, blankText] at ink
        exact ink rfl
      rw [stops]

theorem scanFrom_of_unreserved (offset : Nat) {text : List Char}
    (unreserved : ∀ character ∈ text, Text.isReserved character = false) :
    scanFrom catalog offset text = (ofPiece? catalog offset text).toList := by
  cases text with
  | nil => rfl
  | cons first rest =>
      rw [scanFrom, Text.pieces_of_unreserved (by simp) unreserved]
      exact List.append_nil _

theorem scanFrom_append_reserved (offset : Nat) (front : List Char) {reserved : Char}
    (isReserved : Text.isReserved reserved = true) (back : List Char) :
    scanFrom catalog offset (front ++ reserved :: back) =
      scanFrom catalog offset front ++
        ofText catalog (offset + Text.byteLength front) [reserved] ::
          scanFrom catalog (offset + Text.byteLength front + reserved.utf8Size) back := by
  have trimmed : Text.trim [reserved] = [reserved] := by
    rw [Text.trim_eq_self_iff]
    simp [isWhiteSpace_of_isReserved isReserved]
  rw [scanFrom, Text.pieces_append_reserved isReserved, ofPieces_append, Text.flatten_pieces,
    ofPieces, ofPiece?_of_trimmed _ (by simp) trimmed]
  rfl

theorem scanFrom_cons_reserved (offset : Nat) {reserved : Char}
    (isReserved : Text.isReserved reserved = true) (back : List Char) :
    scanFrom catalog offset (reserved :: back) =
      ofText catalog offset [reserved] :: scanFrom catalog (offset + reserved.utf8Size) back :=
  scanFrom_append_reserved offset [] isReserved back

theorem scanFrom_word (offset : Nat) {word : List Char} (isWord : Text.IsWord word) :
    scanFrom catalog offset word = [ofText catalog offset word] := by
  rw [scanFrom_of_unreserved offset isWord.unreserved,
    ofPiece?_of_trimmed offset isWord.nonempty isWord.trimmed]
  rfl

theorem isReserved_of_isWhiteSpace {blank : Char} (isBlank : Text.isWhiteSpace blank = true) :
    Text.isReserved blank = false := by
  cases reserved : Text.isReserved blank with
  | false => rfl
  | true =>
      rw [isWhiteSpace_of_isReserved reserved] at isBlank
      cases isBlank

theorem scanFrom_cons_blank (offset : Nat) {blank : Char}
    (isBlank : Text.isWhiteSpace blank = true) (text : List Char) :
    scanFrom catalog offset (blank :: text) =
      scanFrom catalog (offset + blank.utf8Size) text := by
  have plainBlank := isReserved_of_isWhiteSpace isBlank
  have wordCase (word : List Char)
      (plain : ∀ character ∈ word, Text.isReserved character = false) :
      scanFrom catalog offset (blank :: word) =
        scanFrom catalog (offset + blank.utf8Size) word := by
    rw [scanFrom_of_unreserved offset (by simpa [plainBlank] using plain),
      scanFrom_of_unreserved _ plain, ofPiece?_cons_blank offset isBlank]
  rcases Text.unreserved_or_first_reserved text with
    plain | ⟨word, reserved, back, rfl, isReserved, plain⟩
  · exact wordCase text plain
  · rw [← List.cons_append, scanFrom_append_reserved offset _ isReserved,
      scanFrom_append_reserved _ _ isReserved, wordCase word plain, Text.byteLength_cons,
      ← Nat.add_assoc offset]

theorem scanFrom_append_blank (offset : Nat) {blank : Char}
    (isBlank : Text.isWhiteSpace blank = true) (text : List Char) :
    scanFrom catalog offset (text ++ [blank]) = scanFrom catalog offset text := by
  have plainBlank := isReserved_of_isWhiteSpace isBlank
  have wordCase (offset : Nat) (word : List Char)
      (plain : ∀ character ∈ word, Text.isReserved character = false) :
      scanFrom catalog offset (word ++ [blank]) = scanFrom catalog offset word := by
    have plainEnd : ∀ character ∈ word ++ [blank], Text.isReserved character = false := by
      intro character member
      rcases List.mem_append.1 member with inside | last
      · exact plain character inside
      · rwa [List.mem_singleton.1 last]
    rw [scanFrom_of_unreserved offset plainEnd, scanFrom_of_unreserved _ plain,
      ofPiece?_append_blank offset isBlank]
  rcases Text.unreserved_or_last_reserved text with
    plain | ⟨front, reserved, word, rfl, isReserved, plain⟩
  · exact wordCase offset text plain
  · rw [List.append_assoc, List.cons_append, scanFrom_append_reserved offset _ isReserved,
      scanFrom_append_reserved offset _ isReserved, wordCase _ word plain]

theorem mem_of_mem_ofPieces {offset : Nat} {pieces : List (List Char)} {token : Token}
    (scanned : token ∈ ofPieces catalog offset pieces) {character : Char}
    (member : character ∈ token.text) : character ∈ pieces.flatten := by
  induction pieces generalizing offset with
  | nil => cases scanned
  | cons piece pieces ih =>
      rw [List.flatten_cons, List.mem_append]
      rcases List.mem_append.1 scanned with here | later
      · left
        rw [Option.mem_toList, ofPiece?] at here
        split at here
        · cases here
        · cases here
          exact Text.mem_of_mem_trim member
      · exact .inr (ih later)

/-- A token holds characters of the text only. -/
theorem mem_of_mem_scanFrom {offset : Nat} {text : List Char} {token : Token}
    (scanned : token ∈ scanFrom catalog offset text) {character : Char}
    (member : character ∈ token.text) : character ∈ text := by
  rw [← Text.flatten_pieces text]
  exact mem_of_mem_ofPieces scanned member

end Token

end InspectionFormula
