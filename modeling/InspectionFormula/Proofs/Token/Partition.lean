import Mathlib.Data.List.Chain
import InspectionFormula.Proofs.Token.Classification
import InspectionFormula.Proofs.Token.Layout

/-!
# Tokens partition their text

The tokens of a text are its reserved characters and the trimmed runs between
them, in the order of the text.  They do not overlap, and what lies outside them
is white space.
-/

namespace InspectionFormula

namespace Text

/-- A stretch of a text without reserved characters, which goes from a reserved character or the
start of the text to a reserved character or its end. -/
structure IsRun (front run back : List Char) : Prop where
  unreserved : ∀ character ∈ run, isReserved character = false
  starts : ∀ character, front.getLast? = some character → isReserved character = true
  stops : ∀ character, back.head? = some character → isReserved character = true

theorem takeWhile_unreserved {word rest : List Char}
    (plain : ∀ character ∈ word, isReserved character = false)
    (stops : ∀ character, rest.head? = some character → isReserved character = true) :
    (word ++ rest).takeWhile (fun character => !isReserved character) = word := by
  rw [List.takeWhile_append_of_pos (by simpa using plain)]
  cases rest with
  | nil => simp
  | cons character rest =>
      rw [List.takeWhile_cons_of_neg (by simp [stops character rfl]), List.append_nil]

namespace IsRun

variable {front run back word rest : List Char} {reserved : Char}

/-- A run that comes after no reserved character starts the text. -/
theorem front_eq_nil (isRun : IsRun front run back)
    (unreserved : ∀ character ∈ front, isReserved character = false) : front = [] := by
  cases last : front.getLast? with
  | none => exact List.getLast?_eq_none_iff.1 last
  | some character =>
      have plain := unreserved character (List.mem_of_getLast? last)
      rw [isRun.starts character last] at plain
      cases plain

/-- Before the first reserved character of a text there is one run. -/
theorem eq_of_front_eq_nil (isRun : IsRun [] run back)
    (plain : ∀ character ∈ word, isReserved character = false)
    (stops : ∀ character, rest.head? = some character → isReserved character = true)
    (same : word ++ rest = run ++ back) : run = word := by
  rw [← takeWhile_unreserved plain stops, same, takeWhile_unreserved isRun.unreserved isRun.stops]

/-- A run lies before the first reserved character of a text, or after it. -/
theorem before_or_after (isRun : IsRun front run back) (nonempty : run ≠ [])
    (plain : ∀ character ∈ word, isReserved character = false)
    (isReserved : isReserved reserved = true)
    (same : word ++ reserved :: rest = front ++ (run ++ back)) :
    (front = [] ∧ run = word) ∨
      ∃ between, front = word ++ reserved :: between ∧ rest = between ++ (run ++ back) ∧
        IsRun between run back := by
  rcases List.append_eq_append_iff.1 same with ⟨between, rfl, split⟩ | ⟨tail, rfl, -⟩
  · right
    cases between with
    | nil =>
        obtain ⟨first, more, rfl⟩ := List.exists_cons_of_ne_nil nonempty
        obtain ⟨rfl, -⟩ := List.cons.inj split
        rw [isRun.unreserved reserved List.mem_cons_self] at isReserved
        cases isReserved
    | cons first between =>
        obtain ⟨rfl, rfl⟩ := List.cons.inj split
        refine ⟨between, rfl, rfl, isRun.unreserved, ?_, isRun.stops⟩
        intro character isLast
        apply isRun.starts character
        rw [List.getLast?_append, List.getLast?_cons, isLast]
        rfl
  · left
    obtain rfl := isRun.front_eq_nil fun character member =>
      plain character (List.mem_append_left _ member)
    exact ⟨rfl, isRun.eq_of_front_eq_nil plain (by simpa using isReserved) same⟩

/-- A run stays one if more text with a reserved character at its end is put before it. -/
theorem after_reserved (isRun : IsRun front run back) (isReserved : isReserved reserved = true)
    (word : List Char) : IsRun (word ++ reserved :: front) run back := by
  refine ⟨isRun.unreserved, ?_, isRun.stops⟩
  intro character isLast
  rw [List.getLast?_append, List.getLast?_cons, Option.some_or, Option.some.injEq] at isLast
  cases last : front.getLast? with
  | none =>
      rw [last] at isLast
      rwa [← isLast]
  | some other =>
      rw [last] at isLast
      rw [← isLast]
      exact isRun.starts other last

end IsRun

/-- A character of two texts put together stands in the first or in the second. -/
theorem in_first_or_second {first second front back : List Char} {character : Char}
    (same : first ++ second = front ++ character :: back) :
    (∃ more, first = front ++ character :: more) ∨
      ∃ between, front = first ++ between ∧ second = between ++ character :: back := by
  rcases List.append_eq_append_iff.1 same with ⟨between, rfl, split⟩ | ⟨tail, rfl, split⟩
  · exact .inr ⟨between, rfl, split⟩
  · cases tail with
    | nil => exact .inr ⟨[], by simp, split.symm⟩
    | cons other more =>
        obtain ⟨rfl, -⟩ := List.cons.inj split
        exact .inl ⟨more, rfl⟩

/-- A reserved character of a text is the first one, or stands after it. -/
theorem first_or_after {word rest front back : List Char} {reserved character : Char}
    (plain : ∀ character ∈ word, isReserved character = false)
    (isCharacter : isReserved character = true)
    (same : word ++ reserved :: rest = front ++ character :: back) :
    (front = word ∧ character = reserved) ∨
      ∃ between, front = word ++ reserved :: between ∧ rest = between ++ character :: back := by
  rcases in_first_or_second same with ⟨more, rfl⟩ | ⟨between, rfl, split⟩
  · rw [plain character (by simp)] at isCharacter
    cases isCharacter
  · cases between with
    | nil =>
        obtain ⟨rfl, -⟩ := List.cons.inj split
        exact .inl ⟨List.append_nil word, rfl⟩
    | cons other between =>
        obtain ⟨rfl, rfl⟩ := List.cons.inj split
        exact .inr ⟨between, rfl, rfl⟩

end Text

open Text

/-- What a text is taken for: the first of a number, an operation, a constant, a reserved character
and an identifier that applies. -/
inductive TokenKind.IsFirst (catalog : Catalog) (text : List Char) : TokenKind → Prop where
  | number {value : Binary64} (read : Binary64.readLiteral? text = some value) :
      IsFirst catalog text (.number value)
  | operation {operation : Operation} (noNumber : Binary64.readLiteral? text = none)
      (found : catalog.operation? (String.ofList text) = some operation) :
      IsFirst catalog text (.operation operation)
  | constant {constant : Constant} (noNumber : Binary64.readLiteral? text = none)
      (noOperation : catalog.operation? (String.ofList text) = none)
      (found : catalog.constant? (String.ofList text) = some constant) :
      IsFirst catalog text (.constant constant)
  | terminal {character : Char} (noNumber : Binary64.readLiteral? text = none)
      (noOperation : catalog.operation? (String.ofList text) = none)
      (noConstant : catalog.constant? (String.ofList text) = none) (single : text = [character])
      (reserved : isReserved character = true) : IsFirst catalog text .terminal
  | identifier (noNumber : Binary64.readLiteral? text = none)
      (noOperation : catalog.operation? (String.ofList text) = none)
      (noConstant : catalog.constant? (String.ofList text) = none)
      (other : ∀ character, text = [character] → isReserved character = false) :
      IsFirst catalog text .identifier

theorem TokenKind.isFirst_classify (catalog : Catalog) (text : List Char) :
    IsFirst catalog text (classify catalog text) := by
  unfold classify
  split
  · next read => exact .number read
  · next noNumber =>
      split
      · next found => exact .operation noNumber found
      · next noOperation =>
          split
          · next found => exact .constant noNumber noOperation found
          · next noConstant =>
              split
              · next character =>
                  split
                  · next reserved =>
                      exact .terminal noNumber noOperation noConstant rfl reserved
                  · next plain =>
                      refine .identifier noNumber noOperation noConstant ?_
                      rintro other ⟨⟩
                      simpa using plain
              · next several =>
                  exact .identifier noNumber noOperation noConstant fun character single =>
                    absurd single (several character)

namespace Token

variable {catalog : Catalog} {offset : Nat} {text word : List Char} {tokens : List Token}
  {token : Token}

/-- The tokens of a text that stands at an offset: its reserved characters, and its runs without the
white space at their ends, unless they are blank. -/
inductive IsTokenOf (catalog : Catalog) (offset : Nat) (text : List Char) : Token → Prop where
  | reserved {front back : List Char} {character : Char}
      (reserved : Text.isReserved character = true) (same : text = front ++ character :: back) :
      IsTokenOf catalog offset text (ofText catalog (offset + byteLength front) [character])
  | run {front run back : List Char} (isRun : IsRun front run back) (ink : trim run ≠ [])
      (same : text = front ++ (run ++ back)) :
      IsTokenOf catalog offset text
        (ofText catalog (offset + byteLength front + byteLength (run.takeWhile isWhiteSpace))
          (trim run))

theorem ofPiece?_eq_some_iff {piece : List Char} :
    ofPiece? catalog offset piece = some token ↔ trim piece ≠ [] ∧
      token = ofText catalog (offset + byteLength (piece.takeWhile isWhiteSpace)) (trim piece) := by
  simp only [ofPiece?, ofText, List.isEmpty_iff, Option.ite_none_left_eq_some, Option.some.injEq,
    ne_eq, eq_comm (a := token)]

theorem ne_nil_of_trim {run : List Char} (ink : trim run ≠ []) : run ≠ [] := by
  rintro rfl
  exact ink rfl

theorem isTokenOf_of_unreserved
    (plain : ∀ character ∈ text, Text.isReserved character = false) :
    IsTokenOf catalog offset text token ↔ ofPiece? catalog offset text = some token := by
  rw [ofPiece?_eq_some_iff]
  constructor
  · rintro (⟨reserved, rfl⟩ | @⟨front, run, back, isRun, ink, rfl⟩)
    · rw [plain _ (by simp)] at reserved
      cases reserved
    · obtain rfl := isRun.front_eq_nil fun character member => plain character (by simp [member])
      have same : (run ++ back) ++ [] = run ++ back := List.append_nil _
      have whole : run = run ++ back := isRun.eq_of_front_eq_nil plain (by simp) same
      rw [List.nil_append, ← whole]
      exact ⟨ink, rfl⟩
  · rintro ⟨ink, rfl⟩
    have isRun : IsRun [] text [] := ⟨plain, by simp, by simp⟩
    exact .run isRun ink (by simp)

theorem offset_after_reserved (offset : Nat) (word between : List Char) (reserved : Char) :
    offset + byteLength (word ++ reserved :: between) =
      offset + byteLength word + reserved.utf8Size + byteLength between := by
  rw [byteLength_append, byteLength_cons]
  omega

theorem IsTokenOf.after_reserved {reserved : Char} {rest : List Char}
    (isReserved : Text.isReserved reserved = true)
    (isTokenOf : IsTokenOf catalog (offset + byteLength word + reserved.utf8Size) rest token) :
    IsTokenOf catalog offset (word ++ reserved :: rest) token := by
  cases isTokenOf with
  | reserved isCharacter same =>
      rw [← offset_after_reserved, same]
      exact .reserved isCharacter (List.append_assoc word (reserved :: _) _).symm
  | run isRun ink same =>
      rw [← offset_after_reserved, same]
      exact .run (isRun.after_reserved isReserved word) ink
        (List.append_assoc word (reserved :: _) _).symm

/-- The first reserved character of a text divides its tokens. -/
theorem isTokenOf_append_reserved {reserved : Char} {rest : List Char}
    (plain : ∀ character ∈ word, Text.isReserved character = false)
    (isReserved : Text.isReserved reserved = true) :
    IsTokenOf catalog offset (word ++ reserved :: rest) token ↔
      ofPiece? catalog offset word = some token ∨
        token = ofText catalog (offset + byteLength word) [reserved] ∨
          IsTokenOf catalog (offset + byteLength word + reserved.utf8Size) rest token := by
  rw [ofPiece?_eq_some_iff]
  constructor
  · intro isTokenOf
    cases isTokenOf with
    | reserved isCharacter same =>
        rcases first_or_after plain isCharacter same with ⟨rfl, rfl⟩ | ⟨between, rfl, rfl⟩
        · exact .inr (.inl rfl)
        · rw [offset_after_reserved]
          exact .inr (.inr (.reserved isCharacter rfl))
    | run isRun ink same =>
        rcases isRun.before_or_after (ne_nil_of_trim ink) plain isReserved same with
          ⟨rfl, rfl⟩ | ⟨between, rfl, rfl, isRun⟩
        · exact .inl ⟨ink, rfl⟩
        · rw [offset_after_reserved]
          exact .inr (.inr (.run isRun ink rfl))
  · rintro (⟨ink, rfl⟩ | rfl | ofRest)
    · have isRun : IsRun [] word (reserved :: rest) := ⟨plain, by simp, by simpa using isReserved⟩
      exact .run isRun ink rfl
    · exact .reserved isReserved rfl
    · exact ofRest.after_reserved isReserved

/-- A text is scanned as the tokens that it consists of. -/
theorem mem_scanFrom_iff {offset : Nat} {text : List Char} :
    token ∈ scanFrom catalog offset text ↔ IsTokenOf catalog offset text token := by
  rcases unreserved_or_first_reserved text with
    plain | ⟨word, reserved, back, same, isReserved, plain⟩
  · rw [scanFrom_of_unreserved offset plain, Option.mem_toList, isTokenOf_of_unreserved plain]
  · have shorter : back.length < text.length := by
      rw [same, List.length_append, List.length_cons]
      omega
    rw [same, scanFrom_append_reserved offset word isReserved,
      scanFrom_of_unreserved offset plain, List.mem_append, List.mem_cons, Option.mem_toList,
      isTokenOf_append_reserved plain isReserved, mem_scanFrom_iff]
termination_by text.length

/-- The text of a token stands where the token does. -/
theorem LaidOut.exists_text (laidOut : LaidOut catalog offset text tokens) :
    ∀ token ∈ tokens, ∃ front back, text = front ++ (token.text ++ back) ∧
      offset + byteLength front = token.start := by
  induction laidOut with
  | blank => exact fun _ member => nomatch member
  | @token offset text blanks ink rest tokens isBlank isInk later same ih =>
      intro token member
      rcases List.mem_cons.1 member with rfl | member
      · exact ⟨blanks, rest, by simp [same, ofText], rfl⟩
      · obtain ⟨front, back, rfl, starts⟩ := ih token member
        refine ⟨blanks ++ ink ++ front, back, by simp [same], ?_⟩
        rw [← starts, byteLength_append _ front]
        omega

/-- Every character that is not white space lies in a token. -/
theorem LaidOut.exists_covering {front back : List Char} {character : Char}
    (laidOut : LaidOut catalog offset text tokens) (split : text = front ++ character :: back)
    (ink : isWhiteSpace character = false) :
    ∃ token ∈ tokens, token.start ≤ offset + byteLength front ∧
      offset + byteLength front + character.utf8Size ≤ token.stop := by
  induction laidOut generalizing front with
  | blank isBlank =>
      rw [isBlank character (by simp [split])] at ink
      cases ink
  | @token offset text blanks word rest tokens isBlank isInk later same ih =>
      rw [same, List.append_assoc] at split
      rcases in_first_or_second split with ⟨more, inBlanks⟩ | ⟨afterBlanks, rfl, splitInk⟩
      · rw [isBlank character (by simp [inBlanks])] at ink
        cases ink
      rcases in_first_or_second splitInk with ⟨more, inWord⟩ | ⟨afterWord, rfl, splitRest⟩
      · refine ⟨_, List.mem_cons_self, ?_, ?_⟩
        · simp only [ofText, byteLength_append]
          omega
        · simp only [stop_ofText, inWord, byteLength_append, byteLength_cons]
          omega
      · obtain ⟨token, member, starts, stops⟩ := ih splitRest
        simp only [byteLength_append] at starts stops ⊢
        exact ⟨token, List.mem_cons_of_mem _ member, by omega, by omega⟩

/-- The first token of a text before which a word may end is reserved. -/
theorem LaidOut.isReserved_head (laidOut : LaidOut catalog offset text tokens)
    (isSeparated : IsSeparated text) (isFirst : tokens.head? = some token) :
    token.isReserved = true := by
  cases laidOut with
  | blank => cases isFirst
  | @token _ _ blanks ink rest tokens isBlank isInk later same =>
      cases isFirst
      cases isInk with
      | reserved isReserved => exact isReserved
      | word isWord =>
          obtain ⟨first, more, rfl⟩ := List.exists_cons_of_ne_nil isWord.nonempty
          have inked : isWhiteSpace first = false :=
            (trim_eq_self_iff.1 isWord.trimmed).1 first rfl
          have reserved := isSeparated first (by
            rw [same, List.append_assoc, dropWhile_blank_append isBlank]
            simp [inked])
          rw [isWord.unreserved first List.mem_cons_self] at reserved
          cases reserved

/-- Next to a token that is not reserved there are reserved ones only. -/
theorem LaidOut.isChain (laidOut : LaidOut catalog offset text tokens) :
    tokens.IsChain fun earlier later => earlier.isReserved = true ∨ later.isReserved = true := by
  induction laidOut with
  | blank => exact .nil
  | @token offset text blanks ink rest tokens isBlank isInk later same ih =>
      refine List.isChain_cons.2 ⟨?_, ih⟩
      intro next isNext
      cases isInk with
      | reserved isReserved => exact .inl isReserved
      | word isWord isSeparated => exact .inr (later.isReserved_head isSeparated isNext)

/-- The tokens of a formula and one end after them.  They are the reserved characters and the
trimmed runs between them, in the order of the text.  Each has the text that it covers and the first
kind that applies, and the characters that none covers are white space. -/
theorem stream_partitions_text (catalog : Catalog) (formula : String) :
    ∃ tokens, stream catalog formula = tokens ++ [endOfInput (byteLength formula.toList)] ∧
      Rising tokens ∧
      (∀ token, token ∈ tokens ↔ IsTokenOf catalog 0 formula.toList token) ∧
      (∀ token ∈ tokens, token.kind ≠ .endOfInput ∧ token.start < token.stop ∧
        slice? formula.toList token.start token.stop = some token.text ∧
        TokenKind.IsFirst catalog token.text token.kind) ∧
      (∀ front character back, formula.toList = front ++ character :: back →
        isWhiteSpace character = true ∨ ∃ token ∈ tokens, token.start ≤ byteLength front ∧
          byteLength front + character.utf8Size ≤ token.stop) ∧
      tokens.IsChain fun earlier later =>
        earlier.isReserved = true ∨ later.isReserved = true := by
  have laidOut := laidOut_scan catalog formula
  refine ⟨scan catalog formula, rfl, laidOut.rising, fun token => ?_, fun token member => ?_,
    fun front character back split => ?_, laidOut.isChain⟩
  · rw [scan_eq_scanFrom, mem_scanFrom_iff]
  · obtain ⟨-, inked, -⟩ := laidOut.within token member
    obtain ⟨front, back, same, starts⟩ := laidOut.exists_text token member
    rw [Nat.zero_add] at starts
    have kind := kind_of_mem_scan member
    refine ⟨?_, inked, slice?_eq_some_iff.2 ⟨front, back, same, starts, ?_⟩, ?_⟩
    · rw [kind]
      exact classify_ne_endOfInput token.text
    · rw [starts]
      rfl
    · rw [kind]
      exact TokenKind.isFirst_classify catalog token.text
  · cases ink : isWhiteSpace character with
    | true => exact .inl rfl
    | false =>
        obtain ⟨token, member, starts, stops⟩ := laidOut.exists_covering split ink
        rw [Nat.zero_add] at starts stops
        exact .inr ⟨token, member, starts, stops⟩

end Token

end InspectionFormula
