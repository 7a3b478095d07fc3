import InspectionFormula.Proofs.Path.Resolution

/-!
# What texts resolve to

A path that some text denotes consists of first steps of the anchor and of steps
that the text writes, which hold no quotes.  Its kinds are those that the anchor
settles, so it can be written again if the anchor can.
-/

namespace InspectionFormula

namespace StepReader

/-- No name read so far holds a quote. -/
structure IsUnquoted (reader : StepReader) : Prop where
  name : '"' ∉ reader.name
  steps : ∀ step ∈ reader.steps, '"' ∉ step.name

variable {reader : StepReader}

theorem IsUnquoted.finish (unquoted : reader.IsUnquoted) :
    ∀ step ∈ reader.finish, '"' ∉ step.name := by
  have ended : '"' ∉ if reader.quoted then reader.name else Text.trim reader.name := by
    split
    · exact unquoted.name
    · intro quote
      exact unquoted.name (Text.mem_of_mem_trim quote)
  intro step member
  simp only [StepReader.finish] at member
  generalize (if reader.quoted then reader.name else Text.trim reader.name) = name at member ended
  split at member
  · rcases List.mem_append.1 member with earlier | last
    · exact unquoted.steps step earlier
    · rwa [List.mem_singleton.1 last]
  · exact unquoted.steps step member

theorem IsUnquoted.read (unquoted : reader.IsUnquoted) (character : Char) :
    (reader.read character).IsUnquoted := by
  have extended (other : character ≠ '"') : '"' ∉ reader.name ++ [character] := by
    simpa [unquoted.name] using other.symm
  unfold StepReader.read
  split
  · split
    · exact ⟨unquoted.name, unquoted.steps⟩
    · exact ⟨by simp, unquoted.steps⟩
  · next other =>
      split
      · exact ⟨extended other, unquoted.steps⟩
      · split
        · exact ⟨by simp, unquoted.finish⟩
        · split
          · exact unquoted
          · exact ⟨extended other, unquoted.steps⟩

theorem IsUnquoted.foldl (unquoted : reader.IsUnquoted) (text : List Char) :
    (text.foldl StepReader.read reader).IsUnquoted := by
  induction text generalizing reader with
  | nil => exact unquoted
  | cons character text ih => exact ih (unquoted.read character)

end StepReader

theorem not_mem_of_mem_writtenSteps {text : List Char} :
    ∀ step ∈ writtenSteps text, '"' ∉ step.name := by
  have start : StepReader.start.IsUnquoted :=
    ⟨by simp [StepReader.start], by simp [StepReader.start]⟩
  exact (start.foldl text).finish

namespace Path

open Segment

/-- The name of a step that does not climb. -/
def IsWritten (steps : List WrittenStep) (name : String) : Prop :=
  ∃ step ∈ steps, step.climbs = false ∧ name = String.ofList step.name

/-- Some first steps of an anchor with characteristics below them that some steps name. -/
def IsReached (anchor : Path) (steps : List WrittenStep) (place : Path) : Prop :=
  ∃ front tail, front <+: anchor.segments ∧ place.segments = front ++ tail ∧
    ∀ segment ∈ tail, segment.kind = .characteristic ∧ IsWritten steps segment.name

variable {anchor place after : Path} {steps : List WrittenStep}

theorem isReached_root : IsReached anchor steps root :=
  ⟨[], [], List.nil_prefix, rfl, by simp⟩

theorem isReached_anchor : IsReached anchor steps anchor :=
  ⟨anchor.segments, [], List.prefix_rfl, by simp, by simp⟩

theorem IsReached.parent (reached : IsReached anchor steps place) :
    IsReached anchor steps place.parent := by
  obtain ⟨front, tail, shared, same, plain⟩ := reached
  by_cases ended : tail = []
  · refine ⟨front.dropLast, [], (List.dropLast_prefix front).trans shared, ?_, by simp⟩
    rw [Path.parent, same, ended, List.append_nil, List.append_nil]
  · refine ⟨front, tail.dropLast, shared, ?_, fun segment member =>
      plain segment (List.dropLast_subset _ member)⟩
    rw [Path.parent, same, List.dropLast_append_of_ne_nil ended]

theorem IsReached.child (reached : IsReached anchor steps place) {name : String}
    (isWritten : IsWritten steps name) :
    IsReached anchor steps (place.child ⟨.characteristic, name⟩) := by
  obtain ⟨front, tail, shared, same, plain⟩ := reached
  refine ⟨front, tail ++ [⟨.characteristic, name⟩], shared, ?_, ?_⟩
  · rw [Path.child, same, List.append_assoc]
  · intro segment member
    rcases List.mem_append.1 member with earlier | last
    · exact plain segment earlier
    · rw [List.mem_singleton.1 last]
      exact ⟨rfl, isWritten⟩

theorem IsReached.step? {step : WrittenStep} (reached : IsReached anchor steps place)
    (among : step ∈ steps) (stepped : place.step? step = some after) :
    IsReached anchor steps after := by
  unfold Path.step? at stepped
  split at stepped
  · unfold climb? at stepped
    split at stepped
    · cases stepped
    · cases stepped
      exact reached.parent
  · next stays =>
      cases stepped
      exact reached.child ⟨step, among, Bool.eq_false_iff.2 stays, rfl⟩

theorem IsReached.foldlM {more : List WrittenStep} (reached : IsReached anchor steps place)
    (among : ∀ step ∈ more, step ∈ steps)
    (followed : more.foldlM Path.step? place = some after) : IsReached anchor steps after := by
  induction more generalizing place with
  | nil =>
      cases followed
      exact reached
  | cons step more ih =>
      rw [List.foldlM_cons] at followed
      cases stepped : place.step? step with
      | none =>
          rw [stepped] at followed
          cases followed
      | some next =>
          rw [stepped] at followed
          exact ih (reached.step? (among step (by simp)) stepped)
            (fun later member => among later (List.mem_cons_of_mem _ member)) followed

theorem isReached_of_follow? {text : List Char} (followed : anchor.follow? text = some after) :
    IsReached anchor (writtenSteps text) after := by
  unfold follow? at followed
  refine IsReached.foldlM ?_ (fun _ member => member) followed
  split
  · exact isReached_root
  · exact isReached_anchor

theorem names_adoptKinds (known segments : List Segment) :
    (adoptKinds known segments).map Segment.name = segments.map Segment.name := by
  induction known generalizing segments with
  | nil => rfl
  | cons other known ih =>
      cases segments with
      | nil => rfl
      | cons segment segments =>
          rw [adoptKinds]
          split
          · next same => rw [List.map_cons, List.map_cons, ih, same]
          · rfl

theorem isRenderable_eq_names (path : Path) :
    path.isRenderable = (path.segments.map Segment.name).all fun name =>
      !name.toList.contains '"' := by
  rw [isRenderable, List.all_map]
  rfl

theorem adoptKinds_append {known front : List Segment} (shared : front <+: known)
    (tail : List Segment) :
    adoptKinds known (front ++ tail) = front ++ adoptKinds (known.drop front.length) tail := by
  induction front generalizing known with
  | nil => rfl
  | cons segment front ih =>
      obtain ⟨more, rfl⟩ := shared
      rw [List.cons_append, List.cons_append, adoptKinds, if_pos rfl,
        ih (List.prefix_append front more)]
      rfl

/-- The kinds of a path are those that the anchor settles.  Its names are those of first steps of
the anchor and then those that a text writes and that do not climb. -/
structure IsResolved (anchor : Path) (text : List Char) (path : Path) : Prop where
  follow : FollowKinds anchor.segments path.segments
  written : ∃ front tail, front <+: anchor.segments ∧ path.segments = front ++ tail ∧
    ∀ segment ∈ tail, IsWritten (writtenSteps text) segment.name ∧ '"' ∉ segment.name.toList

theorem IsReached.isResolved {text : List Char}
    (reached : IsReached anchor (writtenSteps text) place) :
    IsResolved anchor text ⟨adoptKinds anchor.segments place.segments⟩ := by
  obtain ⟨front, tail, shared, same, plain⟩ := reached
  rw [same]
  refine ⟨followKinds_adoptKinds shared fun segment member => (plain segment member).1, front, _,
    shared, adoptKinds_append shared tail, ?_⟩
  intro segment member
  have named := List.mem_map_of_mem (f := Segment.name) member
  rw [names_adoptKinds] at named
  obtain ⟨original, isOriginal, sameName⟩ := List.mem_map.1 named
  obtain ⟨-, step, isStep, stays, spelled⟩ := plain original isOriginal
  rw [← sameName]
  refine ⟨⟨step, isStep, stays, spelled⟩, ?_⟩
  rw [spelled, String.toList_ofList]
  exact not_mem_of_mem_writtenSteps step isStep

/-- What a text denotes from an anchor. -/
theorem isResolved_of_resolve? {raw : String} {path : Path}
    (resolved : resolve? anchor raw = some path) :
    IsResolved anchor (Text.trim raw.toList) path := by
  simp only [resolve?] at resolved
  split at resolved
  · cases resolved
    exact ⟨.apart (by simp [root]) (by simp [root]), [], [], List.nil_prefix, rfl, by simp⟩
  · obtain ⟨place, followed, rfl⟩ := Option.map_eq_some_iff.1 resolved
    exact (isReached_of_follow? followed).isResolved

/-- What a text denotes from a path that can be written can be written, with the kinds that the
anchor settles. -/
theorem isRenderable_of_resolve? {raw : String} {path : Path}
    (renderable : anchor.isRenderable = true) (resolved : resolve? anchor raw = some path) :
    path.isRenderable = true ∧ FollowKinds anchor.segments path.segments := by
  obtain ⟨follow, front, tail, shared, same, written⟩ := isResolved_of_resolve? resolved
  refine ⟨?_, follow⟩
  rw [isRenderable, List.all_eq_true] at renderable ⊢
  intro segment member
  rw [same] at member
  rcases List.mem_append.1 member with ofAnchor | named
  · exact renderable segment (shared.subset ofAnchor)
  · rw [Segment.isRenderable]
    simpa using (written segment named).2

end Path

end InspectionFormula
