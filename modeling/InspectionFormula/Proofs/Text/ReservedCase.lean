import InspectionFormula.Text.Lowercase
import InspectionFormula.Text.Basic

/-!
# Reserved characters have no other case

A reserved character is its own lowercase and that of no other text.
-/

namespace InspectionFormula.Text

theorem property_of_isReserved {property : Char → Bool} {character : Char}
    (each : reservedCharacters.all property = true) (reserved : isReserved character = true) :
    property character = true :=
  List.all_eq_true.1 each character (List.contains_iff_mem.1 reserved)

theorem lowerCharacter_reserved {character : Char} (reserved : isReserved character = true) :
    lowerCharacter character = [character] := by
  have each : reservedCharacters.all
      (fun character => lowerCharacter character == [character]) = true := by
    decide +kernel
  exact eq_of_beq (property_of_isReserved each reserved)

theorem lowercase_reserved {character : Char} (reserved : isReserved character = true) :
    lowerAfter [] [character] = [character] := by
  have notSigma : character ≠ 'Σ' := by
    rintro rfl
    exact absurd reserved (by decide)
  simp [lowerAfter, notSigma, lowerCharacter_reserved reserved]

theorem isReserved_toNat {character : Char} (reserved : isReserved character = true) :
    0x22 ≤ character.toNat ∧ character.toNat < 0x80 ∧ character.toNat ≠ 0x6B ∧
      ¬ (0x41 ≤ character.toNat ∧ character.toNat ≤ 0x5A) := by
  have each : reservedCharacters.all (fun character => decide (0x22 ≤ character.toNat ∧
      character.toNat < 0x80 ∧ character.toNat ≠ 0x6B ∧
        ¬ (0x41 ≤ character.toNat ∧ character.toNat ≤ 0x5A))) = true := by
    decide +kernel
  exact of_decide_eq_true (property_of_isReserved each reserved)

/-- The lowercase of a letter outside ASCII is outside ASCII, but for that of the Kelvin sign. -/
theorem lowerCode_outside {code : Nat} (outside : 0x80 ≤ code) :
    0x80 ≤ lowerCode code ∨ lowerCode code = 0x6B := by
  have runs : ∀ run ∈ caseRuns, 0x80 ≤ run.target ∨ run.first = run.last ∧ run.target = 0x6B := by
    decide +kernel
  unfold lowerCode
  split
  · next run found =>
    have contains : run.contains code = true := by simpa using List.find?_some found
    simp only [CaseRun.contains, Bool.and_eq_true, decide_eq_true_eq] at contains
    rcases runs run (List.mem_of_find?_eq_some found) with beyond | ⟨single, kelvin⟩
    · exact .inl (Nat.le_add_right_of_le beyond)
    · right
      simp only [CaseRun.lower, kelvin]
      omega
  · exact .inl outside

theorem toNat_ofNat_of_pos {code : Nat} (positive : 0 < (Char.ofNat code).toNat) :
    (Char.ofNat code).toNat = code := by
  by_cases valid : code.isValidChar
  · have coded : Char.ofNat code = Char.ofNatAux code valid := dif_pos valid
    rw [coded]
    rfl
  · have zero : Char.ofNat code = '\x00' := dif_neg valid
    rw [zero] at positive
    exact absurd positive (by decide)

/-- A character whose lowercase is reserved is that reserved character. -/
theorem eq_of_lowerCharacter_reserved {first character : Char}
    (reserved : isReserved character = true) (lower : lowerCharacter first = [character]) :
    first = character := by
  obtain ⟨least, most, notKelvin, notCapital⟩ := isReserved_toNat reserved
  unfold lowerCharacter at lower
  split at lower
  · next inside =>
    have each : reservedCharacters.all (fun character => (List.range 0x80).all fun code =>
        (Char.ofNat code).toLower != character || Char.ofNat code == character) = true := by
      decide +kernel
    have lowered := List.all_eq_true.1 (property_of_isReserved each reserved) first.toNat
      (List.mem_range.2 inside)
    rw [Char.ofNat_toNat, List.head_eq_of_cons_eq lower] at lowered
    simpa using lowered
  · next outside =>
    split at lower
    · cases lower
    · have coded : Char.ofNat (lowerCode first.toNat) = character :=
        List.head_eq_of_cons_eq lower
      have code : character.toNat = lowerCode first.toNat := by
        rw [← coded]
        exact toNat_ofNat_of_pos (by rw [coded]; omega)
      rcases lowerCode_outside (by omega : 0x80 ≤ first.toNat) with beyond | kelvin
      · omega
      · omega

theorem lowerCharacter_ne_nil (character : Char) : lowerCharacter character ≠ [] := by
  unfold lowerCharacter
  split
  · simp
  · split <;> simp

theorem eq_nil_of_lowerAfter {before text : List Char} (lower : lowerAfter before text = []) :
    text = [] := by
  cases text with
  | nil => rfl
  | cons first rest =>
      have empty := (List.append_eq_nil_iff.1 lower).1
      split at empty
      · cases empty
      · exact absurd empty (lowerCharacter_ne_nil first)

/-- A name whose lowercase is a reserved character is that reserved character. -/
theorem eq_of_lowerAfter_reserved {name : List Char} {character : Char}
    (reserved : isReserved character = true) (lower : lowerAfter [] name = [character]) :
    name = [character] := by
  cases name with
  | nil => cases lower
  | cons first rest =>
      rw [lowerAfter] at lower
      split at lower
      · next sigma =>
        have final : lowerSigma [] rest = character := List.head_eq_of_cons_eq lower
        unfold lowerSigma at final
        split at final <;> subst final <;> exact absurd reserved (by decide)
      · cases lowered : lowerCharacter first with
        | nil => exact absurd lowered (lowerCharacter_ne_nil first)
        | cons head tail =>
            rw [lowered, List.cons_append, List.cons.injEq, List.append_eq_nil_iff] at lower
            obtain ⟨rfl, rfl, ended⟩ := lower
            rw [eq_nil_of_lowerAfter ended, eq_of_lowerCharacter_reserved reserved lowered]

theorem eq_of_lowercase_reserved {name : String} {character : Char}
    (reserved : isReserved character = true)
    (same : lowercase name = lowercase (String.ofList [character])) :
    name.toList = [character] := by
  have lower := congrArg String.toList same
  simp only [lowercase, String.toList_ofList, lowercase_reserved reserved] at lower
  exact eq_of_lowerAfter_reserved reserved lower

end InspectionFormula.Text
