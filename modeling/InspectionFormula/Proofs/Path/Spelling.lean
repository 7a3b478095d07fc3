import Mathlib.Data.List.Induction
import InspectionFormula.Proofs.Parsing.Grammar
import InspectionFormula.Proofs.Token.Concatenation

/-!
# Tokens of spelled paths

The text of a path without quotes in its names is scanned as a path.
-/

namespace InspectionFormula

open Grammar

variable {catalog : Catalog}

theorem Token.isSymbol_ofText (offset : Nat) (character : Char) :
    (Token.ofText catalog offset [character]).isSymbol character = true := by
  simp [Token.isSymbol, Token.ofText]

theorem Token.isReserved_ofText (offset : Nat) {word : List Char} (isWord : Text.IsWord word) :
    (Token.ofText catalog offset word).isReserved = false := by
  unfold Token.isReserved
  split
  · next character single =>
      have same : word = [character] := single
      exact isWord.unreserved character (by rw [same]; simp)
  · rfl

namespace Segment

variable {name : List Char}

/-- A name that needs no quotes is one token. -/
theorem isWord_of_needsQuotes_eq_false (plain : needsQuotes name = false) :
    Text.IsWord name := by
  simp only [needsQuotes, Bool.or_eq_false_iff, bne_eq_false_iff_eq, beq_eq_false_iff_ne,
    List.any_eq_false, Bool.not_eq_true] at plain
  obtain ⟨⟨⟨nonempty, -⟩, trimmed⟩, unreserved⟩ := plain
  exact ⟨nonempty, trimmed, unreserved⟩

theorem spell_of_needsQuotes (quoted : needsQuotes name = true) :
    spell name = '"' :: name ++ ['"'] := by
  rw [spell, if_pos quoted]

theorem spell_of_plain (plain : needsQuotes name = false) : spell name = name := by
  rw [spell, if_neg (by simp [plain])]

theorem spell_ne_nil (name : List Char) : spell name ≠ [] := by
  cases needs : needsQuotes name with
  | true => simp [spell_of_needsQuotes needs]
  | false =>
      rw [spell_of_plain needs]
      exact (isWord_of_needsQuotes_eq_false needs).nonempty

theorem scanFrom_spell (catalog : Catalog) (renderable : '"' ∉ name) (offset : Nat) :
    IsStep (Token.scanFrom catalog offset (spell name)) ∧
      stopOf (Token.scanFrom catalog offset (spell name)) =
        offset + Text.byteLength (spell name) := by
  cases needs : needsQuotes name with
  | true =>
      have tokens : Token.scanFrom catalog offset ('"' :: name ++ ['"']) =
          Token.ofText catalog offset ['"'] :: Token.scanFrom catalog (offset + 1) name ++
            [Token.ofText catalog (offset + Text.byteLength ('"' :: name)) ['"']] := by
        rw [Token.scanFrom_append_reserved offset _ rfl, Token.scanFrom_cons_reserved offset rfl]
        rfl
      rw [spell_of_needsQuotes needs, tokens]
      constructor
      · apply IsStep.quoted (Token.isSymbol_ofText _ _) _ (Token.isSymbol_ofText _ _)
        intro token scanned
        cases symbol : token.isSymbol '"' with
        | false => rfl
        | true =>
            have single : token.text = ['"'] := eq_of_beq symbol
            exact absurd (Token.mem_of_mem_scanFrom scanned (by rw [single]; simp)) renderable
      · rw [stopOf_append _ (by simp)]
        simp [Nat.add_assoc]
  | false =>
      have isWord := isWord_of_needsQuotes_eq_false needs
      rw [spell_of_plain needs, Token.scanFrom_word offset isWord]
      constructor
      · apply IsStep.name
        exact Token.isReserved_ofText offset isWord
      · rfl

end Segment

namespace Path

/-- The text of some steps, each after a slash. -/
def spellSteps (segments : List Segment) : List Char :=
  segments.flatMap fun segment => '/' :: Segment.spell segment.name.toList

theorem spellSteps_append (front back : List Segment) :
    spellSteps (front ++ back) = spellSteps front ++ spellSteps back :=
  List.flatMap_append

theorem spellSteps_singleton (segment : Segment) :
    spellSteps [segment] = '/' :: Segment.spell segment.name.toList :=
  List.append_nil _

theorem not_mem_of_isRenderable {segment : Segment} (renderable : segment.isRenderable = true) :
    '"' ∉ segment.name.toList := by
  simpa [Segment.isRenderable] using renderable

/-- The steps of a path, after the slash that they start with. -/
theorem scanFrom_spellSteps (catalog : Catalog) {segments : List Segment} (nonempty : segments ≠ [])
    (renderable : ∀ segment ∈ segments, segment.isRenderable = true) (offset : Nat) :
    ∃ steps, Token.scanFrom catalog offset (spellSteps segments) =
        Token.ofText catalog offset ['/'] :: steps ∧
      AreSteps steps ∧ stopOf steps = offset + Text.byteLength (spellSteps segments) := by
  induction segments using List.reverseRecOn with
  | nil => exact absurd rfl nonempty
  | append_singleton front segment ih =>
      have scanned := @Token.scanFrom_append_reserved catalog offset (spellSteps front) '/' rfl
        (Segment.spell segment.name.toList)
      obtain ⟨isStep, stops⟩ := Segment.scanFrom_spell catalog
        (not_mem_of_isRenderable (renderable segment (by simp)))
        (offset + Text.byteLength (spellSteps front) + '/'.utf8Size)
      have total : offset + Text.byteLength (spellSteps (front ++ [segment])) =
          offset + Text.byteLength (spellSteps front) + '/'.utf8Size +
            Text.byteLength (Segment.spell segment.name.toList) := by
        rw [spellSteps_append, spellSteps_singleton, Text.byteLength_append,
          Text.byteLength_cons]
        omega
      rw [total, ← stops]
      rw [spellSteps_append, spellSteps_singleton, scanned]
      cases front with
      | nil => exact ⟨_, rfl, .one isStep, rfl⟩
      | cons first rest =>
          obtain ⟨steps, earlier, areSteps, -⟩ := ih (by simp) fun earlier member =>
            renderable earlier (List.mem_append_left _ member)
          rw [earlier, List.cons_append]
          refine ⟨_, rfl, .more areSteps (Token.isSymbol_ofText _ _) isStep, ?_⟩
          rw [stopOf_append _ (by simp), stopOf_cons _ isStep.ne_nil]

theorem spell_eq_slash {path : Path} (root : path.segments = []) : path.spell = ['/'] := by
  simp [spell, isRoot, root]

theorem spell_eq_spellSteps {path : Path} (below : path.segments ≠ []) :
    path.spell = spellSteps path.segments := by
  rw [spell, if_neg (by simpa [isRoot] using below)]
  rfl

/-- The text of a path is scanned as a path, without anything left at its ends. -/
theorem scanFrom_spell (catalog : Catalog) {path : Path}
    (renderable : path.isRenderable = true) (offset : Nat) :
    IsPath (Token.scanFrom catalog offset path.spell) ∧
      startOf (Token.scanFrom catalog offset path.spell) = offset ∧
        stopOf (Token.scanFrom catalog offset path.spell) =
          offset + Text.byteLength path.spell := by
  by_cases root : path.segments = []
  · rw [spell_eq_slash root, Token.scanFrom_cons_reserved offset rfl]
    exact ⟨.root (Token.isSymbol_ofText _ _), rfl, rfl⟩
  · obtain ⟨steps, scanned, areSteps, stops⟩ := scanFrom_spellSteps catalog root
      (List.all_eq_true.1 renderable) offset
    rw [spell_eq_spellSteps root, scanned]
    refine ⟨.absolute (Token.isSymbol_ofText _ _) areSteps, rfl, ?_⟩
    rw [stopOf_cons _ areSteps.ne_nil, stops]

end Path

end InspectionFormula
