import InspectionFormula.Proofs.Binary64.Overflow
import InspectionFormula.Proofs.Decimal.ReadBack
import InspectionFormula.Proofs.Parsing.Grammar
import InspectionFormula.Proofs.Token.Concatenation

/-!
# Numerals as words

What a number is written with neither ends a word nor is cut from its ends, so
a written number is one token.
-/

namespace InspectionFormula

/-- A digit or a point. -/
def isNumeral (character : Char) : Bool := character.isDigit || character == '.'

theorem isNumeral_outside {character : Char} (numeral : isNumeral character = true) :
    Text.isReserved character = false ∧ Text.isWhiteSpace character = false := by
  have code : (0x30 ≤ character.toNat ∧ character.toNat ≤ 0x39) ∨ character.toNat = 0x2E := by
    simp only [isNumeral, Bool.or_eq_true, beq_iff_eq, Char.isDigit, Bool.and_eq_true,
      decide_eq_true_eq] at numeral
    rcases numeral with ⟨least, most⟩ | rfl
    · exact .inl ⟨least, most⟩
    · exact .inr rfl
  constructor
  · cases reserved : Text.isReserved character with
    | false => rfl
    | true =>
        have each : Text.reservedCharacters.all (fun other => !isNumeral other) = true := by
          decide
        have plain := Text.property_of_isReserved each reserved
        rw [numeral] at plain
        cases plain
  · simp only [Text.isWhiteSpace, Bool.or_eq_false_iff, Bool.and_eq_false_iff,
      beq_eq_false_iff_ne, decide_eq_false_iff_not]
    omega

theorem isWord_of_numerals {text : List Char} (nonempty : text ≠ [])
    (numerals : ∀ character ∈ text, isNumeral character = true) : Text.IsWord text := by
  refine ⟨nonempty, ?_, fun character member =>
    (isNumeral_outside (numerals character member)).1⟩
  rw [Text.trim_eq_self_iff]
  constructor
  · intro first isFirst
    exact (isNumeral_outside (numerals first (List.mem_of_head? isFirst))).2
  · intro last isLast
    exact (isNumeral_outside (numerals last (List.mem_of_getLast? isLast))).2

theorem isNumeral_of_isDigit {character : Char} (digit : character.isDigit = true) :
    isNumeral character = true := by
  rw [isNumeral, digit]
  rfl

namespace Decimal

theorem isNumeral_of_mem_toDigits {value : Nat} {character : Char}
    (member : character ∈ Nat.toDigits 10 value) : isNumeral character = true :=
  isNumeral_of_isDigit (Nat.isDigit_of_mem_toDigits (by omega) (by omega) member)

theorem isNumeral_of_mem_positional {decimal : Decimal} {character : Char}
    (member : character ∈ decimal.positional) : isNumeral character = true := by
  unfold positional at member
  split at member
  · exact isNumeral_of_mem_toDigits member
  · simp only at member
    split at member
    · exact isNumeral_of_mem_toDigits member
    · rcases List.mem_append.1 member with whole | fraction
      · exact isNumeral_of_mem_toDigits whole
      · rcases List.mem_cons.1 fraction with rfl | later
        · rfl
        · have kept := (List.dropWhile_sublist _).mem (List.mem_reverse.1 later)
          exact isNumeral_of_isDigit (isDigit_of_mem_lastDigits (List.mem_reverse.1 kept))

theorem positional_ne_nil (decimal : Decimal) : decimal.positional ≠ [] := by
  unfold positional
  split
  · exact Nat.toDigits_ne_nil
  · simp only
    split
    · exact Nat.toDigits_ne_nil
    · simp

end Decimal

namespace Binary64

theorem isWord_absoluteText {number : Binary64} (finite : number.isFinite = true) :
    Text.IsWord number.absoluteText := by
  rw [absoluteText, if_pos finite]
  exact isWord_of_numerals (Decimal.positional_ne_nil _)
    fun _ member => Decimal.isNumeral_of_mem_positional member

theorem isWord_toDigits (value : Nat) : Text.IsWord (Nat.toDigits 10 value) :=
  isWord_of_numerals Nat.toDigits_ne_nil fun _ member => Decimal.isNumeral_of_mem_toDigits member

/-- The digits of a key are read as a number. -/
theorem readLiteral?_toDigits (key : UInt16) :
    ∃ number, readLiteral? (Nat.toDigits 10 key.toNat) = some number := by
  have read := Decimal.read?_digits Nat.toDigits_ne_nil fun character member =>
    Nat.isDigit_of_mem_toDigits (b := 10) (n := key.toNat) (by omega) (by omega) member
  rw [Nat.ofDigitChars_ten_toDigits] at read
  have finite : (ofDecimal ⟨key.toNat, 0⟩).isFinite = true := by
    have inRange := magnitudeOfRatio_whole_lt key.toNat_lt (by omega)
    simpa [ofDecimal, isFinite, ofRatio] using inRange
  refine ⟨ofDecimal ⟨key.toNat, 0⟩, ?_⟩
  rw [readLiteral?, read, Option.map_some, Option.filter_some, if_pos finite]

end Binary64

namespace Grammar

theorem isDecimalKey_toDigits (key : UInt16) : IsDecimalKey (Nat.toDigits 10 key.toNat) key :=
  ⟨Nat.toDigits_ne_nil,
    fun _ member => Nat.isDigit_of_mem_toDigits (by omega) (by omega) member,
    Nat.ofDigitChars_ten_toDigits⟩

end Grammar

end InspectionFormula
