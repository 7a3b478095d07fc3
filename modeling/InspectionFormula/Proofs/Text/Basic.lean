import InspectionFormula.Text.Basic

/-!
# Trimmed texts and slices

Trimming takes blanks off both ends of a text and nothing else.  A slice is what
stands between two places of a text.  It is the same in every part of the text
that reaches from the one place to the other.
-/

namespace InspectionFormula

namespace Text

variable {text : List Char} {blank : Char}

theorem trim_cons_blank (isBlank : isWhiteSpace blank = true) (text : List Char) :
    trim (blank :: text) = trim text := by
  rw [trim, trimStart, List.dropWhile_cons_of_pos isBlank]
  rfl

theorem trimEnd_append_blank (isBlank : isWhiteSpace blank = true) (text : List Char) :
    trimEnd (text ++ [blank]) = trimEnd text := by
  rw [trimEnd, List.reverse_append, List.reverse_singleton, List.singleton_append,
    List.dropWhile_cons_of_pos isBlank]
  rfl

theorem trim_append_blank (isBlank : isWhiteSpace blank = true) (text : List Char) :
    trim (text ++ [blank]) = trim text := by
  have start : trimStart (text ++ [blank]) =
      if (trimStart text).isEmpty then [] else trimStart text ++ [blank] := by
    rw [trimStart, List.dropWhile_append, List.dropWhile_cons_of_pos isBlank]
    rfl
  rw [trim, start]
  split
  · next empty =>
      rw [trim, List.isEmpty_iff.1 empty]
  · exact trimEnd_append_blank isBlank _

theorem dropWhile_isWhiteSpace_eq_self_iff :
    text.dropWhile isWhiteSpace = text ↔
      ∀ first, text.head? = some first → isWhiteSpace first = false := by
  cases text with
  | nil => simp
  | cons first rest =>
      cases blank : isWhiteSpace first with
      | false => simp [blank]
      | true =>
          have shorter := (List.dropWhile_suffix (l := rest) isWhiteSpace).length_le
          rw [List.dropWhile_cons_of_pos blank]
          constructor
          · intro same
            rw [same, List.length_cons] at shorter
            omega
          · intro ink
            have := ink first rfl
            simp [blank] at this

theorem trimStart_eq_self_iff :
    trimStart text = text ↔
      ∀ first, text.head? = some first → isWhiteSpace first = false :=
  dropWhile_isWhiteSpace_eq_self_iff

theorem trimEnd_eq_self_iff :
    trimEnd text = text ↔
      ∀ last, text.getLast? = some last → isWhiteSpace last = false := by
  rw [trimEnd, List.reverse_eq_iff, dropWhile_isWhiteSpace_eq_self_iff, List.head?_reverse]

theorem length_trimEnd_le (text : List Char) : (trimEnd text).length ≤ text.length := by
  have shorter := (List.dropWhile_suffix (l := text.reverse) isWhiteSpace).length_le
  rw [trimEnd, List.length_reverse]
  rwa [List.length_reverse] at shorter

/-- A text is trimmed if it neither starts nor ends with white space. -/
theorem trim_eq_self_iff :
    trim text = text ↔
      (∀ first, text.head? = some first → isWhiteSpace first = false) ∧
        ∀ last, text.getLast? = some last → isWhiteSpace last = false := by
  rw [← trimStart_eq_self_iff, ← trimEnd_eq_self_iff]
  constructor
  · intro same
    have suffix : trimStart text <:+ text := List.dropWhile_suffix isWhiteSpace
    have start : trimStart text = text := by
      apply suffix.eq_of_length_le
      have shorter := length_trimEnd_le (trimStart text)
      rwa [← trim, same] at shorter
    exact ⟨start, by rwa [trim, start] at same⟩
  · rintro ⟨start, stop⟩
    rw [trim, start, stop]

theorem mem_of_mem_trim {character : Char} (member : character ∈ trim text) :
    character ∈ text := by
  have kept := (List.dropWhile_sublist isWhiteSpace).mem (List.mem_reverse.1 member)
  exact (List.dropWhile_sublist isWhiteSpace).mem (List.mem_reverse.1 kept)

end Text

namespace Text

variable {text front part back : List Char} {count start stop : Nat}

theorem byteLength_eq_zero_iff : byteLength text = 0 ↔ text = [] := by
  cases text with
  | nil => simp
  | cons character rest =>
      have := character.utf8Size_pos
      simp
      omega

theorem splitBytes?_eq_some_iff :
    splitBytes? count text = some (front, back) ↔
      text = front ++ back ∧ byteLength front = count := by
  constructor
  · intro found
    induction text generalizing count front with
    | nil =>
        cases count with
        | zero =>
            cases found
            simp
        | succ count => cases found
    | cons character rest ih =>
        cases count with
        | zero =>
            cases found
            simp
        | succ count =>
            rw [splitBytes?] at found
            split at found
            · next fits =>
                obtain ⟨⟨early, late⟩, splits, same⟩ := Option.map_eq_some_iff.1 found
                cases same
                obtain ⟨rfl, length⟩ := ih splits
                refine ⟨rfl, ?_⟩
                rw [byteLength_cons]
                omega
            · cases found
  · rintro ⟨rfl, rfl⟩
    exact splitBytes?_append front back

theorem slice?_eq_some_iff :
    slice? text start stop = some part ↔
      ∃ front back, text = front ++ (part ++ back) ∧ byteLength front = start ∧
        byteLength front + byteLength part = stop := by
  constructor
  · intro found
    unfold slice? at found
    split at found
    · next ordered =>
        obtain ⟨⟨front, tail⟩, first, found⟩ := Option.bind_eq_some_iff.1 found
        obtain ⟨⟨part, back⟩, second, found⟩ := Option.bind_eq_some_iff.1 found
        cases found
        obtain ⟨rfl, rfl⟩ := splitBytes?_eq_some_iff.1 first
        obtain ⟨rfl, length⟩ := splitBytes?_eq_some_iff.1 second
        exact ⟨front, back, rfl, rfl, by omega⟩
    · cases found
  · rintro ⟨front, back, rfl, rfl, rfl⟩
    exact slice?_append front part back

/-- Two starts of a text, of which the first is no longer than the second. -/
theorem prefix_of_byteLength_le {other rest : List Char} (same : front ++ back = other ++ rest)
    (shorter : byteLength front ≤ byteLength other) : front <+: other := by
  rcases List.append_eq_append_iff.1 same with ⟨between, rfl, -⟩ | ⟨between, rfl, -⟩
  · exact List.prefix_append front between
  · rw [byteLength_append] at shorter
    have empty : between = [] := byteLength_eq_zero_iff.1 (by omega)
    simp [empty]

theorem slice?_append_left (fits : stop ≤ byteLength front) (back : List Char) :
    slice? (front ++ back) start stop = slice? front start stop := by
  apply Option.ext
  intro part
  rw [slice?_eq_some_iff, slice?_eq_some_iff]
  constructor
  · rintro ⟨before, after, same, starts, stops⟩
    rw [← List.append_assoc] at same
    obtain ⟨rest, rfl⟩ : before ++ part <+: front := by
      apply prefix_of_byteLength_le same.symm
      rw [byteLength_append]
      omega
    exact ⟨before, rest, List.append_assoc _ _ _, starts, stops⟩
  · rintro ⟨before, after, rfl, starts, stops⟩
    exact ⟨before, after ++ back, by simp, starts, stops⟩

theorem slice?_append_right (front back : List Char) (start stop : Nat) :
    slice? (front ++ back) (byteLength front + start) (byteLength front + stop) =
      slice? back start stop := by
  apply Option.ext
  intro part
  rw [slice?_eq_some_iff, slice?_eq_some_iff]
  constructor
  · rintro ⟨before, after, same, starts, stops⟩
    obtain ⟨rest, rfl⟩ : front <+: before := prefix_of_byteLength_le same (by omega)
    rw [List.append_assoc] at same
    rw [byteLength_append] at starts stops
    exact ⟨rest, after, List.append_cancel_left same, by omega, by omega⟩
  · rintro ⟨before, after, rfl, rfl, rfl⟩
    exact ⟨front ++ before, after, by simp, by simp, by simp; omega⟩

section Standing

variable {source : List Char} {offset : Nat}

/-- A text that is a part of another one, from an offset on. -/
def StandsAt (source : List Char) (offset : Nat) (text : List Char) : Prop :=
  ∃ before after, source = before ++ (text ++ after) ∧ byteLength before = offset

namespace StandsAt

theorem left (standsAt : StandsAt source offset (front ++ back)) :
    StandsAt source offset front := by
  obtain ⟨before, after, rfl, length⟩ := standsAt
  exact ⟨before, back ++ after, by simp, length⟩

theorem right (standsAt : StandsAt source offset (front ++ back)) :
    StandsAt source (offset + byteLength front) back := by
  obtain ⟨before, after, rfl, length⟩ := standsAt
  exact ⟨before ++ front, after, by simp, by rw [byteLength_append, length]⟩

theorem after {character : Char} (standsAt : StandsAt source offset (front ++ character :: back)) :
    StandsAt source (offset + byteLength front + byteLength [character]) back := by
  have fromCharacter : StandsAt source (offset + byteLength front) ([character] ++ back) :=
    standsAt.right
  exact fromCharacter.right

theorem slice?_eq (standsAt : StandsAt source offset text) :
    slice? source offset (offset + byteLength text) = some text := by
  obtain ⟨before, after, rfl, rfl⟩ := standsAt
  exact slice?_append before text after

end StandsAt

end Standing

end Text

end InspectionFormula
