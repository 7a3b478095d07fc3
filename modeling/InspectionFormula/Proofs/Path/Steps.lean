import InspectionFormula.Proofs.Token.Layout

/-!
# Steps of composed texts

A slash outside of quotes divides a text into two that are read apart.  What
stands between slashes is one step: a name with white space around it, or a
quoted name.
-/

namespace InspectionFormula

namespace StepReader

variable {reader other : StepReader} {steps : List WrittenStep} {name : List Char}

theorem foldl_read_plain (front : List Char)
    (plain : ∀ character ∈ name, Text.isReserved character = false) :
    name.foldl read ⟨steps, front, false, false⟩ = ⟨steps, front ++ name, false, false⟩ := by
  induction name generalizing front with
  | nil => simp
  | cons character name ih =>
      have unquoted : character ≠ '"' := by
        rintro rfl
        exact absurd (plain '"' (by simp)) (by decide)
      have inside : character ≠ '/' := by
        rintro rfl
        exact absurd (plain '/' (by simp)) (by decide)
      rw [List.foldl_cons, read, if_neg unquoted]
      simp only [Bool.false_eq_true, if_false, if_neg inside, Bool.false_and]
      rw [ih _ fun other member => plain other (List.mem_cons_of_mem _ member)]
      simp

theorem foldl_read_inQuotes (front : List Char) (unquoted : '"' ∉ name) :
    name.foldl read ⟨steps, front, true, true⟩ = ⟨steps, front ++ name, true, true⟩ := by
  induction name generalizing front with
  | nil => simp
  | cons character name ih =>
      rw [List.mem_cons, not_or] at unquoted
      rw [List.foldl_cons, read, if_neg (Ne.symm unquoted.1), if_pos rfl, ih _ unquoted.2]
      simp

/-- The reader with more steps before its own. -/
def behind (earlier : List WrittenStep) (reader : StepReader) : StepReader :=
  { reader with steps := earlier ++ reader.steps }

theorem finish_behind (earlier : List WrittenStep) (reader : StepReader) :
    (reader.behind earlier).finish = earlier ++ reader.finish := by
  obtain ⟨steps, name, quoted, inQuotes⟩ := reader
  cases quoted with
  | true => exact List.append_assoc earlier steps _
  | false =>
      simp only [finish, behind, Bool.false_eq_true, if_false, Bool.false_or]
      split
      · exact List.append_assoc earlier steps _
      · rfl

theorem read_behind (earlier : List WrittenStep) (reader : StepReader) (character : Char) :
    (reader.behind earlier).read character = (reader.read character).behind earlier := by
  have ends := finish_behind earlier reader
  obtain ⟨steps, name, quoted, inQuotes⟩ := reader
  simp only [behind] at ends ⊢
  simp only [StepReader.read, ends]
  by_cases quote : character = '"'
  · cases inQuotes <;> simp [quote]
  · by_cases slash : character = '/'
    · cases inQuotes <;> simp [slash]
    · cases inQuotes <;> cases quoted <;> cases Text.isWhiteSpace character <;>
        simp [quote, slash]

/-- What has been read before does not change how a text is read. -/
theorem foldl_read_behind (earlier : List WrittenStep) (reader : StepReader) (text : List Char) :
    text.foldl read (reader.behind earlier) = (text.foldl read reader).behind earlier := by
  induction text generalizing reader with
  | nil => rfl
  | cons character text ih => rw [List.foldl_cons, read_behind, ih, List.foldl_cons]

/-- Two readers at the same place, but for blanks at the start of a step without quotes. -/
inductive AgreeButBlanks : StepReader → StepReader → Prop where
  | same {reader : StepReader} : AgreeButBlanks reader reader
  | blanks {steps : List WrittenStep} {blanks name : List Char} (isBlank : Text.IsBlank blanks) :
      AgreeButBlanks ⟨steps, blanks ++ name, false, false⟩ ⟨steps, name, false, false⟩

theorem AgreeButBlanks.finish_eq (agree : AgreeButBlanks reader other) :
    reader.finish = other.finish := by
  cases agree with
  | same => rfl
  | blanks isBlank =>
      simp only [finish, Bool.false_eq_true, if_false, Text.trim_blank_append isBlank]

theorem AgreeButBlanks.read (agree : AgreeButBlanks reader other) (character : Char) :
    AgreeButBlanks (reader.read character) (other.read character) := by
  have ends := agree.finish_eq
  cases agree with
  | same => exact .same
  | @blanks steps blanks name isBlank =>
      simp only [StepReader.read, ends, Bool.false_eq_true, if_false, Bool.false_and]
      split
      · exact .same
      · split
        · exact .same
        · rw [List.append_assoc]
          exact .blanks isBlank

theorem AgreeButBlanks.foldl (agree : AgreeButBlanks reader other) (text : List Char) :
    AgreeButBlanks (text.foldl StepReader.read reader) (text.foldl StepReader.read other) := by
  induction text generalizing reader other with
  | nil => exact agree
  | cons character text ih => exact ih (agree.read character)

end StepReader

open StepReader

/-- A text that leaves no quote open. -/
def EndsUnquoted (text : List Char) : Prop := (text.foldl read start).inQuotes = false

variable {front back text blanks name : List Char}

theorem foldl_read_append_slash (ends : EndsUnquoted front) (back : List Char) :
    (front ++ '/' :: back).foldl read start =
      (back.foldl read start).behind (writtenSteps front) := by
  have slashed : (front.foldl read start).read '/' = ⟨writtenSteps front, [], false, false⟩ := by
    have outside : (front.foldl read start).inQuotes = false := ends
    simp [StepReader.read, outside, writtenSteps]
  have behindStart :
      start.behind (writtenSteps front) = ⟨writtenSteps front, [], false, false⟩ := by
    simp [behind, start]
  rw [List.foldl_append, List.foldl_cons, slashed, ← behindStart, foldl_read_behind]

/-- A slash outside of quotes divides a text. -/
theorem writtenSteps_append_slash (ends : EndsUnquoted front) (back : List Char) :
    writtenSteps (front ++ '/' :: back) = writtenSteps front ++ writtenSteps back := by
  rw [writtenSteps, foldl_read_append_slash ends, finish_behind]
  rfl

theorem EndsUnquoted.append_slash (frontEnds : EndsUnquoted front) (backEnds : EndsUnquoted back) :
    EndsUnquoted (front ++ '/' :: back) := by
  rw [EndsUnquoted, foldl_read_append_slash frontEnds]
  exact backEnds

theorem foldl_read_unreserved (plain : ∀ character ∈ text, Text.isReserved character = false) :
    text.foldl read start = ⟨[], text, false, false⟩ :=
  foldl_read_plain [] plain

theorem endsUnquoted_of_unreserved
    (plain : ∀ character ∈ text, Text.isReserved character = false) : EndsUnquoted text := by
  rw [EndsUnquoted, foldl_read_unreserved plain]

theorem endsUnquoted_of_isBlank (isBlank : Text.IsBlank blanks) : EndsUnquoted blanks :=
  endsUnquoted_of_unreserved isBlank.unreserved

/-- A text without reserved characters is one step. -/
theorem writtenSteps_of_unreserved
    (plain : ∀ character ∈ text, Text.isReserved character = false)
    (ink : Text.trim text ≠ []) : writtenSteps text = [⟨Text.trim text, false⟩] := by
  rw [writtenSteps, foldl_read_unreserved plain]
  simp [finish, ink]

theorem writtenSteps_blank_append (isBlank : Text.IsBlank blanks) (text : List Char) :
    writtenSteps (blanks ++ text) = writtenSteps text := by
  have agree : AgreeButBlanks ⟨[], blanks ++ [], false, false⟩ start := .blanks isBlank
  rw [List.append_nil] at agree
  rw [writtenSteps, List.foldl_append, foldl_read_unreserved isBlank.unreserved]
  exact (agree.foldl text).finish_eq

theorem writtenSteps_of_isBlank (isBlank : Text.IsBlank blanks) : writtenSteps blanks = [] := by
  have none : writtenSteps (blanks ++ []) = [] := writtenSteps_blank_append isBlank []
  rwa [List.append_nil] at none

theorem writtenSteps_blank_append_slash (isBlank : Text.IsBlank blanks) (back : List Char) :
    writtenSteps (blanks ++ '/' :: back) = writtenSteps back := by
  rw [writtenSteps_append_slash (endsUnquoted_of_isBlank isBlank), writtenSteps_of_isBlank isBlank,
    List.nil_append]

/-- White space after a closing quote does not count. -/
theorem foldl_read_afterQuote (isBlank : Text.IsBlank blanks) {steps : List WrittenStep} :
    blanks.foldl read ⟨steps, name, true, false⟩ = ⟨steps, name, true, false⟩ := by
  induction blanks with
  | nil => rfl
  | cons blank blanks ih =>
      obtain ⟨first, others⟩ := List.forall_mem_cons.1 isBlank
      have kept : read ⟨steps, name, true, false⟩ blank = ⟨steps, name, true, false⟩ := by
        have unquoted : blank ≠ '"' := by
          rintro rfl
          exact absurd first (by decide)
        have inside : blank ≠ '/' := by
          rintro rfl
          exact absurd first (by decide)
        simp [StepReader.read, unquoted, inside, first]
      rw [List.foldl_cons, kept, ih others]

theorem foldl_read_quoted {before after : List Char} (beforeBlank : Text.IsBlank before)
    (afterBlank : Text.IsBlank after) (unquoted : '"' ∉ name) :
    (before ++ '"' :: (name ++ '"' :: after)).foldl read start = ⟨[], name, true, false⟩ := by
  have opened : read ⟨[], before, false, false⟩ '"' = ⟨[], [], true, true⟩ := rfl
  have closed : read ⟨[], name, true, true⟩ '"' = ⟨[], name, true, false⟩ := rfl
  rw [List.foldl_append, foldl_read_unreserved beforeBlank.unreserved, List.foldl_cons, opened,
    List.foldl_append, foldl_read_inQuotes [] unquoted, List.nil_append, List.foldl_cons, closed,
    foldl_read_afterQuote afterBlank]

theorem endsUnquoted_quoted {before after : List Char} (beforeBlank : Text.IsBlank before)
    (afterBlank : Text.IsBlank after) (unquoted : '"' ∉ name) :
    EndsUnquoted (before ++ '"' :: (name ++ '"' :: after)) := by
  rw [EndsUnquoted, foldl_read_quoted beforeBlank afterBlank unquoted]

/-- A text in quotes is one step, whatever stands in it. -/
theorem writtenSteps_quoted {before after : List Char} (beforeBlank : Text.IsBlank before)
    (afterBlank : Text.IsBlank after) (unquoted : '"' ∉ name) :
    writtenSteps (before ++ '"' :: (name ++ '"' :: after)) = [⟨name, true⟩] := by
  rw [writtenSteps, foldl_read_quoted beforeBlank afterBlank unquoted]
  rfl

end InspectionFormula
