import InspectionFormula.Proofs.Path.Spelling
import InspectionFormula.Proofs.Path.Steps

/-!
# Resolving spelled paths

The steps of a spelled path are read back as its names, quotes and all.  What
kinds they lead to is settled by the anchor.
-/

namespace InspectionFormula

namespace Segment

/-- Kinds as an anchor settles them: the anchor's own as far as the names agree with its names, and
characteristics from there on. -/
inductive FollowKinds : List Segment → List Segment → Prop where
  | shared {segment : Segment} {known segments : List Segment}
      (rest : FollowKinds known segments) :
      FollowKinds (segment :: known) (segment :: segments)
  | apart {known segments : List Segment}
      (differ : ∀ other segment, known.head? = some other → segments.head? = some segment →
        other.name ≠ segment.name)
      (plain : ∀ segment ∈ segments, segment.kind = .characteristic) :
      FollowKinds known segments

/-- The segment as a step that says no kind. -/
def unsettled (segment : Segment) : Segment := ⟨.characteristic, segment.name⟩

theorem unsettled_eq_self {segment : Segment} (plain : segment.kind = .characteristic) :
    segment.unsettled = segment := by
  rw [unsettled, ← plain]

/-- The segment as a step is written. -/
def written (segment : Segment) : WrittenStep :=
  ⟨segment.name.toList, needsQuotes segment.name.toList⟩

theorem climbs_written (segment : Segment) : segment.written.climbs = false := by
  cases needs : needsQuotes segment.name.toList with
  | true => simp [written, WrittenStep.climbs, needs]
  | false =>
      have named : segment.name.toList ≠ ['.', '.'] := by
        intro climbs
        rw [climbs] at needs
        cases needs
      simpa [written, WrittenStep.climbs, needs] using named

end Segment

namespace Path

open Segment

theorem map_unsettled_eq_self {segments : List Segment}
    (plain : ∀ segment ∈ segments, segment.kind = .characteristic) :
    segments.map unsettled = segments := by
  induction segments with
  | nil => rfl
  | cons segment segments ih =>
      rw [List.map_cons, unsettled_eq_self (plain segment (by simp)),
        ih fun other member => plain other (List.mem_cons_of_mem _ member)]

theorem adoptKinds_eq_self {known segments : List Segment}
    (differ : ∀ other segment, known.head? = some other → segments.head? = some segment →
      other.name ≠ segment.name) : adoptKinds known segments = segments := by
  cases known with
  | nil => rfl
  | cons other known =>
      cases segments with
      | nil => rfl
      | cons segment segments =>
          rw [adoptKinds, if_neg (differ other segment rfl rfl)]

theorem adoptKinds_of_followKinds {known segments : List Segment}
    (follow : FollowKinds known segments) :
    adoptKinds known (segments.map unsettled) = segments := by
  induction follow with
  | @shared segment known segments _ ih =>
      have sameName : segment.name = segment.unsettled.name := rfl
      rw [List.map_cons, adoptKinds, if_pos sameName, ih]
  | @apart known segments differ plain =>
      rw [map_unsettled_eq_self plain, adoptKinds_eq_self differ]

theorem followKinds_of_plain (known : List Segment) {segments : List Segment}
    (plain : ∀ segment ∈ segments, segment.kind = .characteristic) :
    FollowKinds known (adoptKinds known segments) := by
  induction known generalizing segments with
  | nil => exact .apart (by simp) plain
  | cons other known ih =>
      cases segments with
      | nil => exact .apart (by simp [adoptKinds]) (by simp [adoptKinds])
      | cons segment segments =>
          rw [adoptKinds]
          split
          · exact .shared (ih fun later member => plain later (List.mem_cons_of_mem _ member))
          · next differ => exact .apart (by simpa using differ) plain

/-- Whatever follows the first steps of an anchor, the kinds adopted from it are its own. -/
theorem followKinds_adoptKinds {known front tail : List Segment} (shared : front <+: known)
    (plain : ∀ segment ∈ tail, segment.kind = .characteristic) :
    FollowKinds known (adoptKinds known (front ++ tail)) := by
  induction front generalizing known with
  | nil => exact followKinds_of_plain known plain
  | cons segment front ih =>
      obtain ⟨more, rfl⟩ := shared
      rw [List.cons_append, List.cons_append, adoptKinds, if_pos rfl]
      exact .shared (ih (List.prefix_append front more))

/-- Where some steps lead, from the root or from an anchor. -/
def resolveSteps? (anchor : Path) (fromRoot : Bool) (steps : List WrittenStep) : Option Path :=
  (steps.foldlM step? (if fromRoot then root else anchor)).map fun path =>
    ⟨adoptKinds anchor.segments path.segments⟩

/-- A text resolves to where its steps lead, a slash alone too. -/
theorem resolve?_eq (anchor : Path) (raw : String) :
    resolve? anchor raw = anchor.resolveSteps? ((Text.trim raw.toList).head? == some '/')
      (writtenSteps (Text.trim raw.toList)) := by
  rw [resolve?]
  split
  · next slash =>
      have noSteps : writtenSteps ['/'] = [] := rfl
      rw [slash, noSteps]
      cases known : anchor.segments <;> simp [resolveSteps?, adoptKinds, known, root]
  · simp [resolveSteps?, follow?]

theorem writtenSteps_spellStep {name : List Char} (renderable : '"' ∉ name) :
    EndsUnquoted (Segment.spell name) ∧
      writtenSteps (Segment.spell name) = [⟨name, needsQuotes name⟩] := by
  cases needs : needsQuotes name with
  | true =>
      rw [spell_of_needsQuotes needs]
      exact ⟨endsUnquoted_quoted Text.isBlank_nil Text.isBlank_nil renderable,
        writtenSteps_quoted Text.isBlank_nil Text.isBlank_nil renderable⟩
  | false =>
      obtain ⟨nonempty, trimmed, unreserved⟩ := isWord_of_needsQuotes_eq_false needs
      rw [spell_of_plain needs]
      refine ⟨endsUnquoted_of_unreserved unreserved, ?_⟩
      rw [writtenSteps_of_unreserved unreserved (by rwa [trimmed]), trimmed]

/-- Spelled steps are read as they are written, and leave no quote open. -/
theorem writtenSteps_spellSteps {segments : List Segment}
    (renderable : ∀ segment ∈ segments, segment.isRenderable = true) :
    EndsUnquoted (spellSteps segments) ∧
      writtenSteps (spellSteps segments) = segments.map written := by
  induction segments using List.reverseRecOn with
  | nil => exact ⟨rfl, rfl⟩
  | append_singleton front segment ih =>
      obtain ⟨frontEnds, frontSteps⟩ :=
        ih fun earlier member => renderable earlier (by simp [member])
      obtain ⟨ends, steps⟩ := writtenSteps_spellStep
        (not_mem_of_isRenderable (renderable segment (by simp)))
      rw [spellSteps_append, spellSteps_singleton]
      refine ⟨frontEnds.append_slash ends, ?_⟩
      rw [writtenSteps_append_slash frontEnds, frontSteps, steps, List.map_append]
      rfl

/-- The text of a path writes its names and leaves no quote open. -/
theorem writtenSteps_spell {path : Path} (renderable : path.isRenderable = true) :
    EndsUnquoted path.spell ∧ writtenSteps path.spell = path.segments.map written := by
  by_cases root : path.segments = []
  · rw [spell_eq_slash root, root]
    exact ⟨rfl, rfl⟩
  · rw [spell_eq_spellSteps root]
    exact writtenSteps_spellSteps (List.all_eq_true.1 renderable)

theorem foldlM_step?_written (segments : List Segment) (place : Path) :
    (segments.map written).foldlM step? place =
      some ⟨place.segments ++ segments.map unsettled⟩ := by
  induction segments generalizing place with
  | nil => simp
  | cons segment segments ih =>
      have stepped : step? place segment.written = some (place.child segment.unsettled) := by
        rw [step?, climbs_written]
        simp [written, unsettled]
      rw [List.map_cons, List.foldlM_cons, stepped]
      simp [ih, child]

theorem getLast?_spellSteps {segments : List Segment} {last : Char}
    (isLast : (spellSteps segments).getLast? = some last) :
    Text.isWhiteSpace last = false := by
  -- The text ends with the last segment as it is spelled.
  rcases List.eq_nil_or_concat segments with rfl | ⟨front, segment, rfl⟩
  · cases isLast
  · have ended := List.getLast?_eq_some_getLast (spell_ne_nil segment.name.toList)
    rw [List.concat_eq_append, spellSteps_append, spellSteps_singleton, List.getLast?_append,
      List.getLast?_cons_of_ne_nil (spell_ne_nil _), ended, Option.some_or, ← ended] at isLast
    cases needs : needsQuotes segment.name.toList with
    | true =>
        rw [spell_of_needsQuotes needs, List.getLast?_concat] at isLast
        cases isLast
        rfl
    | false =>
        rw [spell_of_plain needs] at isLast
        have trimmed := (isWord_of_needsQuotes_eq_false needs).trimmed
        exact (Text.trim_eq_self_iff.1 trimmed).2 last isLast

theorem head?_spellSteps {segments : List Segment} (nonempty : segments ≠ []) :
    (spellSteps segments).head? = some '/' := by
  cases segments with
  | nil => exact absurd rfl nonempty
  | cons segment segments => rfl

theorem trim_spellSteps {segments : List Segment} (nonempty : segments ≠ []) :
    Text.trim (spellSteps segments) = spellSteps segments := by
  rw [Text.trim_eq_self_iff, head?_spellSteps nonempty]
  refine ⟨?_, fun last isLast => getLast?_spellSteps isLast⟩
  rintro first ⟨⟩
  rfl

theorem head?_spell (path : Path) : path.spell.head? = some '/' := by
  by_cases root : path.segments = []
  · rw [spell_eq_slash root]
    rfl
  · rw [spell_eq_spellSteps root, head?_spellSteps root]

theorem trim_spell (path : Path) : Text.trim path.spell = path.spell := by
  by_cases root : path.segments = []
  · rw [spell_eq_slash root]
    rfl
  · rw [spell_eq_spellSteps root, trim_spellSteps root]

/-- A path is read back from its text, from every anchor whose kinds it follows. -/
theorem resolve?_text {anchor path : Path} (renderable : path.isRenderable = true)
    (follow : FollowKinds anchor.segments path.segments) :
    resolve? anchor path.text = some path := by
  rw [resolve?_eq, text, String.toList_ofList, trim_spell, head?_spell,
    (writtenSteps_spell renderable).2, resolveSteps?, beq_self_eq_true, if_pos rfl,
    foldlM_step?_written, Option.map_some, root, List.nil_append, adoptKinds_of_followKinds follow]

end Path

end InspectionFormula
